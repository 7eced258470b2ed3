import OfConnect.Accept.Announce

/-!
# What becomes of the data of an accepted connection

A socket is handed to its poll thread before `tcp_accept` puts its entry up, and packets
that arrive in between are dropped on purpose. Next to the listen thread, the threads of
the pool and the peers, with nobody closing or renaming channels, this is the only loss:
what was read from a connection is what was dropped before the entry was put up, then what
was passed to `recv_func` after it, then what a thread has just read.
-/

namespace OfConnect.Accept.Delivery

open OfConnect.Lib.Run OfConnect.Lib.Tables OfConnect.PollThr.Thread
open OfConnect.Core OfConnect.Core.State OfConnect.Core.Api OfConnect.Core.Effects
open OfConnect.Accept.System OfConnect.Accept.Announce

/-- The steps of the listen thread and of the pool, and registrations. -/
def transfers : Act → Bool
  | .listenfdPollin _ => true
  | .accept _ => true
  | .findThread => true
  | .enterTables _ _ => true
  | .addToThread => true
  | .announce => true
  | .setUp => true
  | .tcpRead _ _ _ => true
  | .deliver _ => true
  | .devRegister _ _ _ _ => true
  | _ => false

/-! ## The property -/

def readOf (c : ConnId) (log : List Event) : List (List UInt8) :=
  log.filterMap fun
    | .read c' buf => if c' = c then some buf else none
    | _ => none

def droppedOf (c : ConnId) (log : List Event) : List (List UInt8) :=
  log.filterMap fun
    | .dropped c' buf => if c' = c then some buf else none
    | _ => none

/-- What `recv_func` was called with. -/
def passedOf (c : ConnId) (log : List Event) : List (List UInt8) :=
  log.filterMap fun
    | .recv _ _ c' _ buf => if c' = c then some buf else none
    | _ => none

/-- A packet is dropped before the entry is put up, and passed on after it, under the key
of the socket that the connection is open on. -/
def upDivides (before : List Event) : Event → Prop
  | .dropped c _ => .up c ∉ before
  | .recv fd open? c key _ => .up c ∈ before ∧ open? = some c ∧ key = dummyKey fd
  | _ => True

/-- Every packet of the connection was dropped or passed on, or is the one being handled. -/
def Accounted (s : Sys) (c : ConnId) : Prop :=
  ((∀ m p, s.reading m = some p → p.conn ≠ c) ∧
    readOf c s.log = droppedOf c s.log ++ passedOf c s.log) ∨
  ∃ m p, s.reading m = some p ∧ p.conn = c ∧
    readOf c s.log = droppedOf c s.log ++ passedOf c s.log ++ [p.buf]

structure OnlyEarlyLost (s : Sys) : Prop where
  accounted : ∀ c, Accounted s c
  divided : Justified upDivides s.log

/-! ## The invariant -/

def PcTidy (s : Sys) : ListenPc → Prop
  | .poll => True
  | .called _ => True
  | .accepted a => .up a.conn ∉ s.log
  | .found a _ => .up a.conn ∉ s.log
  | .entered a m => .up a.conn ∉ s.log ∧
      ∃ info, s.g.ofrwHtbl.lookup a.connfd = some info ∧ info.thrMgr = some m
  | .added a => .up a.conn ∉ s.log
  | .announced a => .up a.conn ∉ s.log

/-- The tables and the threads, with nobody closing sockets. -/
structure Tidy (s : Sys) : Prop where
  inv : Inv s
  unlocked : s.closing = none
  entry : ∀ fd info, s.g.ofrwHtbl.lookup fd = some info →
    info.devKey ∈ s.g.ofdevHtbl ∧ Names s.g (dummyKey fd) fd
  named : ∀ key fd, Names s.g key fd → key = dummyKey fd
  polled : ∀ m fd, fd ∈ (s.g.mgrs m).fds →
    ∃ info, s.g.ofrwHtbl.lookup fd = some info ∧ info.thrMgr = some m
  pool : ∀ m, m ∈ s.g.ofrwPollthrList → m < s.g.nextMgr
  unborn : ∀ m, s.g.nextMgr ≤ m → (s.g.mgrs m).fds = []
  conns : ∀ fd c, s.conns fd = some c → c < s.nextConn
  once : ∀ fd fd' c, s.conns fd = some c → s.conns fd' = some c → fd = fd'
  reading : ∀ m p, s.reading m = some p → p.fd ∈ (s.g.mgrs m).fds ∧ s.conns p.fd = some p.conn
  upConn : ∀ c, .up c ∈ s.log → c < s.nextConn
  upLogged : ∀ fd info c, s.g.ofrwHtbl.lookup fd = some info → s.conns fd = some c →
    (info.state = .up ↔ .up c ∈ s.log)
  pc : PcTidy s s.listen

/-- A connection is read by one thread at a time. -/
theorem Tidy.reader {s : Sys} (h : Tidy s) {m m' : MgrId} {p : Packet} {fd : Fd}
    (hp : s.reading m' = some p) (hc : s.conns fd = some p.conn) (hm : fd ∈ (s.g.mgrs m).fds) :
    m' = m := by
  obtain ⟨hpoll, hconn⟩ := h.reading m' p hp
  obtain rfl := h.once p.fd fd p.conn hconn hc
  obtain ⟨info, hl, hthr⟩ := h.polled m' p.fd hpoll
  obtain ⟨info', hl', hthr'⟩ := h.polled m p.fd hm
  rw [hl] at hl'
  obtain rfl := Option.some.inj hl'
  rw [hthr] at hthr'
  exact Option.some.inj hthr'

/-- Nothing but the state of the entry decides about a packet. -/
theorem handle_cases {s : Sys} (h : Tidy s) {m : MgrId} {p : Packet}
    (hp : s.reading m = some p) :
    (.up p.conn ∉ s.log ∧ handle s p = .dropped p.conn p.buf) ∨
    (.up p.conn ∈ s.log ∧
      handle s p = .recv p.fd (some p.conn) p.conn (dummyKey p.fd) p.buf) := by
  obtain ⟨hpoll, hconn⟩ := h.reading m p hp
  obtain ⟨info, hl, -⟩ := h.polled m p.fd hpoll
  obtain ⟨hdev, ci, hci, hname⟩ := h.entry p.fd info hl
  obtain ⟨dev, hdev⟩ := mem_iff_lookup.mp hdev
  obtain ⟨key, hkey⟩ := findKey?_isSome (p := fun _ (i : ChannelInfo) => i.rwSockfd == p.fd) hci
    (by simp [hname])
  obtain ⟨ci', hci', hfd⟩ := findKey?_some hkey
  obtain rfl := h.named key p.fd ⟨ci', hci', by simpa using hfd⟩
  have hup := h.upLogged p.fd info p.conn hl hconn
  unfold handle findOfchannKeyRwsocketLockfree
  simp only [hkey, hl, hdev, hconn]
  by_cases hstate : info.state = .up
  · refine .inr ⟨hup.mp hstate, ?_⟩
    rw [if_neg]
    rintro ⟨-, hne⟩
    exact hne hstate
  · exact .inl ⟨fun hlog => hstate (hup.mpr hlog), if_pos ⟨h.inv.controller, hstate⟩⟩

/-! ## Accounts -/

theorem passedOf_eq_nil {log : List Event} {c : ConnId} (h : Justified upDivides log)
    (hup : .up c ∉ log) : passedOf c log = [] := by
  refine List.filterMap_eq_nil_iff.mpr fun e he => ?_
  cases e with
  | recv fd open? c' key buf =>
    refine if_neg fun hc => hup ?_
    subst hc
    obtain ⟨before, after, rfl⟩ := List.append_of_mem he
    exact List.mem_append_left _ (h before _ after rfl).1
  | _ => rfl

/-- Steps that neither read nor handle a packet. -/
theorem accounted_congr {s s' : Sys} {c : ConnId} (h : Accounted s c)
    (hr : s'.reading = s.reading) (hread : readOf c s'.log = readOf c s.log)
    (hdrop : droppedOf c s'.log = droppedOf c s.log)
    (hpass : passedOf c s'.log = passedOf c s.log) : Accounted s' c := by
  unfold Accounted
  rw [hr, hread, hdrop, hpass]
  exact h

theorem accounted_tcpRead {s : Sys} (h : Tidy s) (hacc : ∀ c, Accounted s c) {m : MgrId} {fd : Fd}
    {c : ConnId} {buf : List UInt8} (hm : fd ∈ (s.g.mgrs m).fds) (hidle : s.reading m = none)
    (hc : s.conns fd = some c) (c' : ConnId) :
    Accounted { s with
      reading := Function.update s.reading m (some ⟨fd, c, buf⟩)
      log := s.log ++ [.read c buf] } c' := by
  by_cases hcc : c' = c
  · subst hcc
    rcases hacc c' with ⟨-, hread⟩ | ⟨m', p, hp, hpc, -⟩
    · refine .inr ⟨m, ⟨fd, c', buf⟩, Function.update_self _ _ _, rfl, ?_⟩
      simp only [readOf, droppedOf, passedOf] at hread ⊢
      simp [hread]
    · -- no other thread has read from this connection
      have hm' := h.reader hp (by rw [hpc]; exact hc) hm
      rw [hm', hidle] at hp
      cases hp
  · rcases hacc c' with ⟨hnone, hread⟩ | ⟨m', p, hp, hpc, hread⟩
    · refine .inl ⟨fun m' p hp => ?_, ?_⟩
      · dsimp only at hp
        by_cases hm' : m' = m
        · subst hm'
          rw [Function.update_self] at hp
          obtain rfl := Option.some.inj hp
          exact fun heq => hcc heq.symm
        · rw [Function.update_of_ne hm'] at hp
          exact hnone m' p hp
      · simp only [readOf, droppedOf, passedOf] at hread ⊢
        simp [hread, Ne.symm hcc]
    · have hm' : m' ≠ m := by
        rintro rfl
        rw [hidle] at hp
        cases hp
      refine .inr ⟨m', p, (Function.update_of_ne hm' _ _).trans hp, hpc, ?_⟩
      simp only [readOf, droppedOf, passedOf] at hread ⊢
      simp [hread, Ne.symm hcc]

theorem accounted_deliver {s : Sys} (h : Tidy s) (hacc : ∀ c, Accounted s c)
    (hdiv : Justified upDivides s.log) {m : MgrId} {p : Packet} (hp : s.reading m = some p)
    (c : ConnId) :
    Accounted { s with
      reading := Function.update s.reading m none
      log := s.log ++ [handle s p] } c := by
  obtain ⟨hpoll, hconn⟩ := h.reading m p hp
  have hreading : ∀ {m' p'}, Function.update s.reading m none m' = some p' →
      m' ≠ m ∧ s.reading m' = some p' := by
    intro m' p' hp'
    by_cases hm' : m' = m
    · rw [hm', Function.update_self] at hp'
      cases hp'
    · exact ⟨hm', by rwa [Function.update_of_ne hm'] at hp'⟩
  by_cases hcc : c = p.conn
  · subst hcc
    -- the packet is the one that was being handled, and no other is
    have hread : readOf p.conn s.log =
        droppedOf p.conn s.log ++ passedOf p.conn s.log ++ [p.buf] := by
      rcases hacc p.conn with ⟨hnone, -⟩ | ⟨m', p', hp', hpc, hread⟩
      · exact absurd rfl (hnone m p hp)
      · obtain rfl := h.reader hp' (by rw [hpc]; exact hconn) hpoll
        rw [hp] at hp'
        obtain rfl := Option.some.inj hp'
        exact hread
    refine .inl ⟨fun m' p' hp' hpc => ?_, ?_⟩
    · obtain ⟨hm', hp'⟩ := hreading hp'
      exact hm' (h.reader hp' (by rw [hpc]; exact hconn) hpoll)
    · rcases handle_cases h hp with ⟨hup, heq⟩ | ⟨-, heq⟩
      · rw [passedOf_eq_nil hdiv hup] at hread
        have hpass := passedOf_eq_nil hdiv hup
        rw [heq]
        simp only [readOf, droppedOf, passedOf] at hread hpass ⊢
        simp [hread, hpass]
      · rw [heq]
        simp only [readOf, droppedOf, passedOf] at hread ⊢
        simp [hread]
  · obtain ⟨hread, hdrop, hpass⟩ : readOf c (s.log ++ [handle s p]) = readOf c s.log ∧
        droppedOf c (s.log ++ [handle s p]) = droppedOf c s.log ∧
        passedOf c (s.log ++ [handle s p]) = passedOf c s.log := by
      rcases handle_cases h hp with ⟨-, heq⟩ | ⟨-, heq⟩
      · rw [heq]
        simp [readOf, droppedOf, passedOf, Ne.symm hcc]
      · rw [heq]
        simp [readOf, droppedOf, passedOf, Ne.symm hcc]
    rcases hacc c with ⟨hnone, hr⟩ | ⟨m', p', hp', hpc, hr⟩
    · refine .inl ⟨fun m' p' hp' => hnone m' p' (hreading hp').2, ?_⟩
      rw [hread, hdrop, hpass]
      exact hr
    · have hm' : m' ≠ m := by
        rintro rfl
        rw [hp] at hp'
        obtain rfl := Option.some.inj hp'
        exact hcc hpc.symm
      refine .inr ⟨m', p', (Function.update_of_ne hm' _ _).trans hp', hpc, ?_⟩
      rw [hread, hdrop, hpass]
      exact hr

/-! ## Steps -/

/-- The parts of `Tidy` that speak of `up` hold for every log with the same `up` events. -/
theorem Tidy.of_log {s : Sys} (h : Tidy s) {pc : ListenPc} {reading : MgrId → Option Packet}
    {log : List Event} (hup : ∀ c, .up c ∈ log ↔ .up c ∈ s.log)
    (hinv : Inv { s with listen := pc, reading := reading, log := log })
    (hr : ∀ m p, reading m = some p → p.fd ∈ (s.g.mgrs m).fds ∧ s.conns p.fd = some p.conn)
    (hpc : PcTidy { s with log := log } pc) :
    Tidy { s with listen := pc, reading := reading, log := log } where
  inv := hinv
  unlocked := h.unlocked
  entry := h.entry
  named := h.named
  polled := h.polled
  pool := h.pool
  unborn := h.unborn
  conns := h.conns
  once := h.once
  reading := hr
  upConn := fun c hc => h.upConn c ((hup c).mp hc)
  upLogged := fun fd info c hl hc => (h.upLogged fd info c hl hc).trans (hup c).symm
  pc := hpc

theorem pcTidy_of_log {s : Sys} {log : List Event} (hup : ∀ c, .up c ∈ log ↔ .up c ∈ s.log)
    {pc : ListenPc} (h : PcTidy s pc) : PcTidy { s with log := log } pc := by
  cases pc with
  | poll => trivial
  | called key => trivial
  | accepted a => exact fun hc => h ((hup _).mp hc)
  | found a m => exact fun hc => h ((hup _).mp hc)
  | entered a m => exact ⟨fun hc => h.1 ((hup _).mp hc), h.2⟩
  | added a => exact fun hc => h ((hup _).mp hc)
  | announced a => exact fun hc => h ((hup _).mp hc)

theorem tidy_listenfdPollin {s s' : Sys} {fd : Fd} (h : Tidy s)
    (hs : listenfdPollin s fd = some s') : Tidy s' := by
  have hinv := inv_listenfdPollin h.inv hs
  rcases listenfdPollin_cases hs with rfl | ⟨key, -, rfl⟩
  · exact h
  · exact h.of_log (fun _ => Iff.rfl) hinv h.reading trivial

theorem tidy_accept {s s' : Sys} {connfd : Fd} (h : Tidy s) (hs : accept s connfd = some s') :
    Tidy s' := by
  have hinv := inv_accept h.inv hs
  rcases accept_cases hs with rfl | ⟨key, -, hclosed, rfl⟩
  · exact h.of_log (fun _ => Iff.rfl) hinv h.reading trivial
  · -- what is open already is on other descriptors, under smaller numbers
    have hold : ∀ {fd c}, Function.update s.conns connfd (some s.nextConn) fd = some c →
        (fd = connfd ∧ c = s.nextConn) ∨ (fd ≠ connfd ∧ s.conns fd = some c) := by
      intro fd c hc
      by_cases hfd : fd = connfd
      · rw [hfd, Function.update_self] at hc
        exact .inl ⟨hfd, (Option.some.inj hc).symm⟩
      · rw [Function.update_of_ne hfd] at hc
        exact .inr ⟨hfd, hc⟩
    refine { h with inv := hinv, conns := ?_, once := ?_, reading := ?_, upConn := ?_,
                    upLogged := ?_, pc := ?_ }
    · intro fd c hc
      rcases hold hc with ⟨-, rfl⟩ | ⟨-, hc⟩
      · exact Nat.lt_succ_self _
      · exact Nat.lt_succ_of_lt (h.conns fd c hc)
    · intro fd fd' c hc hc'
      rcases hold hc with ⟨rfl, rfl⟩ | ⟨-, hc⟩
      · rcases hold hc' with ⟨rfl, -⟩ | ⟨-, hc'⟩
        · rfl
        · exact absurd (h.conns fd' _ hc') (lt_irrefl _)
      · rcases hold hc' with ⟨-, rfl⟩ | ⟨-, hc'⟩
        · exact absurd (h.conns fd _ hc) (lt_irrefl _)
        · exact h.once fd fd' c hc hc'
    · intro m p hp
      obtain ⟨hpoll, hconn⟩ := h.reading m p hp
      refine ⟨hpoll, ?_⟩
      have hne : p.fd ≠ connfd := by
        intro hfd
        rw [hfd, hclosed] at hconn
        cases hconn
      exact (Function.update_of_ne hne _ _).trans hconn
    · intro c hc
      exact Nat.lt_succ_of_lt (h.upConn c hc)
    · intro fd info c hl hc
      rcases hold hc with ⟨rfl, -⟩ | ⟨-, hc⟩
      · exact absurd hclosed (h.inv.opened fd (mem_iff_lookup.mpr ⟨info, hl⟩))
      · exact h.upLogged fd info c hl hc
    · exact fun hc => lt_irrefl _ (h.upConn _ hc)

theorem findOrCreate_cases (g : Global) :
    (ccFindOrCreateRwPollthrSafe g).2 = g ∨
      ccFindOrCreateRwPollthrSafe g = ccCreateRwPollthrSafe g := by
  unfold ccFindOrCreateRwPollthrSafe
  split
  · exact .inr rfl
  · split
    · exact .inr rfl
    · exact .inl rfl

theorem create_fds (g : Global) (m : MgrId) :
    ((ccCreateRwPollthrSafe g).2.mgrs m).fds = if m = g.nextMgr then [] else (g.mgrs m).fds := by
  show (Function.update g.mgrs g.nextMgr _ m).fds = _
  by_cases hm : m = g.nextMgr
  · subst hm
    rw [Function.update_self, if_pos rfl]
    rfl
  · rw [Function.update_of_ne hm, if_neg hm]

theorem tidy_findThread {s s' : Sys} (h : Tidy s) (hs : findThread s = some s') : Tidy s' := by
  have hinv := inv_findThread h.inv hs
  obtain ⟨a, hpc, rfl⟩ := findThread_cases hs
  have hok := h.pc
  rw [hpc] at hok
  rcases findOrCreate_cases s.g with hsame | hnew
  · rw [hsame] at hinv ⊢
    exact { h with inv := hinv, pc := hok }
  · rw [hnew] at hinv ⊢
    -- the new thread polls nothing, and nobody had its number
    have hfds : ∀ m, ((ccCreateRwPollthrSafe s.g).2.mgrs m).fds = (s.g.mgrs m).fds := by
      intro m
      rw [create_fds]
      split
      · rename_i hm
        exact (h.unborn m (le_of_eq hm.symm)).symm
      · rfl
    refine { h with inv := hinv, polled := ?_, pool := ?_, unborn := ?_, reading := ?_, pc := hok }
    · intro m fd hfd
      rw [hfds] at hfd
      exact h.polled m fd hfd
    · intro m hm
      rcases List.mem_cons.mp hm with rfl | hm
      · exact Nat.lt_succ_self _
      · exact Nat.lt_succ_of_lt (h.pool m hm)
    · intro m hm
      rw [hfds]
      exact h.unborn m (Nat.le_of_succ_le hm)
    · intro m p hp
      rw [hfds]
      exact h.reading m p hp

theorem tidy_enterTables {s s' : Sys} {ck : ChannelKey} {block : SockAddr} (h : Tidy s)
    (hs : enterTables s ck block = some s') : Tidy s' := by
  have hinv := inv_enterTables h.inv hs
  obtain ⟨a, m, hpc, hentered⟩ := enterTables_cases hs
  have hok := h.inv.pc
  have hup := h.pc
  rw [hpc] at hok hup
  obtain ⟨hkey, ⟨hconn, hnot⟩, -⟩ := hok
  obtain ⟨dev, rfl⟩ := hentered hkey
  simp only [h.inv.controller, openKey] at hinv ⊢
  refine { h with inv := hinv, entry := ?_, named := ?_, polled := ?_, upLogged := ?_,
                  pc := ⟨hup, _, AList.lookup_insert _, rfl⟩ }
  · intro fd info hl
    dsimp only at hl
    rw [lookup_insert_eq] at hl
    split at hl
    · rename_i hfd
      subst hfd
      obtain rfl := Option.some.inj hl
      exact ⟨AList.mem_insert _ |>.mpr (.inl rfl), _, AList.lookup_insert _, rfl⟩
    · rename_i hfd
      obtain ⟨hmem, ci, hci, hname⟩ := h.entry fd info hl
      refine ⟨AList.mem_insert _ |>.mpr (.inr hmem), ci, ?_, hname⟩
      dsimp only
      rw [lookup_insert_eq, if_neg fun hkeys => hfd (Consistency.dummyKey_injective hkeys), hci]
  · rintro key fd ⟨ci, hci, hname⟩
    dsimp only at hci
    rw [lookup_insert_eq] at hci
    split at hci
    · rename_i hkey
      obtain rfl := Option.some.inj hci
      exact hkey.trans (congrArg dummyKey hname)
    · exact h.named key fd ⟨ci, hci, hname⟩
  · intro m' fd hfd
    obtain ⟨info, hl, hthr⟩ := h.polled m' fd hfd
    have hne : fd ≠ a.connfd := fun heq => hnot (heq ▸ mem_iff_lookup.mpr ⟨info, hl⟩)
    refine ⟨info, ?_, hthr⟩
    dsimp only
    rw [lookup_insert_eq, if_neg hne]
    exact hl
  · intro fd info c hl hc
    dsimp only at hl
    rw [lookup_insert_eq] at hl
    split at hl
    · rename_i hfd
      subst hfd
      obtain rfl := Option.some.inj hl
      rw [hconn] at hc
      obtain rfl := Option.some.inj hc
      exact iff_of_false (by simp) hup
    · exact h.upLogged fd info c hl hc

/-- Adding a socket to a thread: it polls what it polled, and at most that socket more. -/
theorem addFd_fds {g g' : Global} {m : MgrId} {connfd : Fd}
    (h : g.addDelFd m .addFd connfd = some g') (m' : MgrId) (fd : Fd) :
    (fd ∈ (g.mgrs m').fds → fd ∈ (g'.mgrs m').fds) ∧
    (fd ∈ (g'.mgrs m').fds → fd ∈ (g.mgrs m').fds ∨ (m' = m ∧ fd = connfd)) := by
  unfold Global.addDelFd at h
  obtain ⟨⟨ret, t⟩, ht, rfl⟩ := Option.map_eq_some_iff.mp h
  show (_ → fd ∈ (Function.update g.mgrs m t m').fds) ∧
    (fd ∈ (Function.update g.mgrs m t m').fds → _)
  by_cases hm : m' = m
  · subst hm
    rw [Function.update_self]
    simp only [adpThrMgrAddDelFd] at ht
    split at ht
    · obtain ⟨-, rfl⟩ := Prod.mk.inj (Option.some.inj ht)
      exact ⟨id, .inl⟩
    · split at ht
      · cases ht
      · obtain ⟨-, rfl⟩ := Prod.mk.inj (Option.some.inj ht)
        refine ⟨List.mem_append_left _, fun hfd => ?_⟩
        rcases List.mem_append.mp hfd with hfd | hfd
        · exact .inl hfd
        · exact .inr ⟨rfl, List.mem_singleton.mp hfd⟩
  · rw [Function.update_of_ne hm]
    exact ⟨id, .inl⟩

theorem tidy_addToThread {s s' : Sys} (h : Tidy s) (hs : addToThread s = some s') : Tidy s' := by
  have hinv := inv_addToThread h.inv hs
  obtain ⟨a, m, g, hpc, hg, rfl⟩ := addToThread_cases hs
  have hok := h.pc
  rw [hpc] at hok
  obtain ⟨hup, info, hl, hthr⟩ := hok
  have hfds := addFd_fds hg
  obtain ⟨t, rfl⟩ := addDelFd_spec hg
  have hborn : m < s.g.nextMgr := h.pool m (h.inv.pooled a.connfd info m hl hthr)
  refine { h with inv := hinv, polled := ?_, unborn := ?_, reading := ?_, pc := hup }
  · intro m' fd hfd
    rcases (hfds m' fd).2 hfd with hfd | ⟨rfl, rfl⟩
    · exact h.polled m' fd hfd
    · exact ⟨info, hl, hthr⟩
  · intro m' hm'
    have hne : m' ≠ m := fun heq => absurd hborn (not_lt.mpr (heq ▸ hm'))
    show (Function.update s.g.mgrs m t m').fds = []
    rw [Function.update_of_ne hne]
    exact h.unborn m' hm'
  · intro m' p hp
    obtain ⟨hpoll, hconn⟩ := h.reading m' p hp
    exact ⟨(hfds m' p.fd).1 hpoll, hconn⟩

/-- The device cannot have been removed meanwhile. -/
theorem tidy_announce {s s' : Sys} (h : Tidy s) (hs : announce s = some s') : Tidy s' := by
  have hinv := inv_announce h.inv hs
  obtain ⟨a, hpc, hannounced⟩ := announce_cases hs
  have hok := h.inv.pc
  have hup := h.pc
  rw [hpc] at hok hup
  obtain rfl := hannounced hok.1
  have hlog : ∀ c, Event.up c ∈ s.log ++ [.announced a.conn] ↔ .up c ∈ s.log := by simp
  exact h.of_log hlog hinv h.reading fun hc => hup ((hlog _).mp hc)

theorem tidy_setUp {s s' : Sys} (h : Tidy s) (hs : setUp s = some s') : Tidy s' := by
  have hinv := inv_setUp h.inv hs
  obtain ⟨a, hpc, rfl | ⟨info, hl, rfl⟩⟩ := setUp_cases hs
  · exact h.of_log (fun _ => Iff.rfl) hinv h.reading trivial
  · have hok := h.inv.pc
    rw [hpc] at hok
    -- the entry is there, so its socket is open on this connection
    obtain ⟨c, hc⟩ := Option.ne_none_iff_exists'.mp
      (h.inv.opened a.connfd (mem_iff_lookup.mpr ⟨info, hl⟩))
    obtain rfl := hok.1 c hc
    refine { h with inv := hinv, entry := ?_, polled := ?_, upConn := ?_, upLogged := ?_,
                    pc := trivial }
    · intro fd fi hf
      dsimp only at hf
      rw [lookup_insert_eq] at hf
      split at hf
      · rename_i hfd
        subst hfd
        obtain rfl := Option.some.inj hf
        exact h.entry a.connfd info hl
      · exact h.entry fd fi hf
    · intro m fd hfd
      obtain ⟨fi, hf, hthr⟩ := h.polled m fd hfd
      dsimp only
      rw [lookup_insert_eq]
      split
      · rename_i heq
        subst heq
        rw [hl] at hf
        obtain rfl := Option.some.inj hf
        exact ⟨_, rfl, hthr⟩
      · exact ⟨fi, hf, hthr⟩
    · intro c hup
      rcases List.mem_append.mp hup with hup | hup
      · exact h.upConn c hup
      · obtain rfl := Event.up.inj (List.mem_singleton.mp hup)
        exact h.conns a.connfd _ hc
    · intro fd fi c hf hconn
      dsimp only at hf
      rw [lookup_insert_eq] at hf
      split at hf
      · rename_i heq
        subst heq
        obtain rfl := Option.some.inj hf
        rw [hc] at hconn
        obtain rfl := Option.some.inj hconn
        exact iff_of_true rfl (by simp)
      · rename_i hne
        -- another socket is open on another connection
        have hother : c ≠ a.conn := fun heq => hne (h.once fd a.connfd c hconn (heq ▸ hc))
        rw [h.upLogged fd fi c hf hconn]
        simp [hother]

theorem tidy_tcpRead {s s' : Sys} {m : MgrId} {fd : Fd} {buf : List UInt8} (h : Tidy s)
    (hs : tcpRead s m fd buf = some s') : Tidy s' := by
  have hinv := inv_tcpRead h.inv hs
  obtain ⟨c, hfd, -, hc, rfl⟩ := tcpRead_cases hs
  have hlog : ∀ c', Event.up c' ∈ s.log ++ [.read c buf] ↔ .up c' ∈ s.log := by simp
  refine h.of_log hlog hinv (fun m' p hp => ?_) (pcTidy_of_log hlog h.pc)
  by_cases hm : m' = m
  · subst hm
    rw [Function.update_self] at hp
    obtain rfl := Option.some.inj hp
    exact ⟨hfd, hc⟩
  · rw [Function.update_of_ne hm] at hp
    exact h.reading m' p hp

theorem tidy_deliver {s s' : Sys} {m : MgrId} (h : Tidy s) (hs : deliver s m = some s') :
    Tidy s' := by
  have hinv := inv_deliver h.inv hs
  obtain ⟨p, hp, rfl⟩ := deliver_cases hs
  have hlog : ∀ c, .up c ∈ s.log ++ [handle s p] ↔ .up c ∈ s.log := by
    intro c
    rcases handle_cases h hp with ⟨-, heq⟩ | ⟨-, heq⟩
    · simp [heq]
    · simp [heq]
  refine h.of_log hlog hinv (fun m' p' hp' => ?_) (pcTidy_of_log hlog h.pc)
  by_cases hm : m' = m
  · rw [hm, Function.update_self] at hp'
    cases hp'
  · rw [Function.update_of_ne hm] at hp'
    exact h.reading m' p' hp'

theorem tidy_devRegister {s s' : Sys} {key : DevKey} {ver : Nat} {cb : Callbacks} {fd : Fd}
    (h : Tidy s) (hs : devRegister s key ver cb fd = some s') : Tidy s' := by
  have hinv := inv_devRegister h.inv hs
  rcases register_cases hs with rfl | ⟨hpc, tbl, t, hkeys, rfl⟩
  · exact h
  · refine { h with inv := hinv, entry := ?_, pc := ?_ }
    · intro f info hl
      obtain ⟨hmem, hname⟩ := h.entry f info hl
      exact ⟨hkeys _ hmem, hname⟩
    · show PcTidy _ s.listen
      rw [hpc]
      trivial

theorem start_fds (m : MgrId) : (start.g.mgrs m).fds = [] := by
  show ((ccCreateRwPollthrSafe _).2.mgrs m).fds = []
  rw [create_fds]
  split
  · rfl
  · rfl

theorem tidy_start : Tidy start where
  inv := inv_start
  unlocked := rfl
  entry := fun _ _ hl => nomatch hl
  named := fun _ _ ⟨_, hl, _⟩ => nomatch hl
  polled := by
    intro m fd hfd
    rw [start_fds] at hfd
    cases hfd
  pool := by
    intro m hm
    obtain rfl := List.mem_singleton.mp hm
    exact Nat.zero_lt_one
  unborn := fun m _ => start_fds m
  conns := fun _ _ hc => nomatch hc
  once := fun _ _ _ hc => nomatch hc
  reading := fun _ _ hp => nomatch hp
  upConn := fun _ hc => nomatch hc
  upLogged := fun _ _ _ hl => nomatch hl
  pc := trivial

theorem tidy_step {s s' : Sys} {a : Act} (h : Tidy s) (ha : transfers a = true)
    (hs : step s a = some s') : Tidy s' := by
  cases a with
  | listenfdPollin fd => exact tidy_listenfdPollin h hs
  | accept fd => exact tidy_accept h hs
  | findThread => exact tidy_findThread h hs
  | enterTables ck block => exact tidy_enterTables h hs
  | addToThread => exact tidy_addToThread h hs
  | announce => exact tidy_announce h hs
  | setUp => exact tidy_setUp h hs
  | tcpRead m fd buf => exact tidy_tcpRead h hs
  | deliver m => exact tidy_deliver h hs
  | devRegister key ver cb fd => exact tidy_devRegister h hs
  | _ => cases ha

/-! ## Runs -/

/-- Events without a packet. -/
def silent : Event → Prop
  | .announced _ => True
  | .up _ => True
  | _ => False

/-- Only the threads of the pool touch packets. -/
theorem packets_cases {s s' : Sys} {a : Act} (h : Tidy s) (ha : transfers a = true)
    (hs : step s a = some s') :
    (s'.reading = s.reading ∧ (s'.log = s.log ∨ ∃ e, silent e ∧ s'.log = s.log ++ [e])) ∨
    (∃ m fd buf, tcpRead s m fd buf = some s') ∨ ∃ m, deliver s m = some s' := by
  have hok := h.inv.pc
  cases a with
  | listenfdPollin fd =>
    rcases listenfdPollin_cases hs with rfl | ⟨key, -, rfl⟩
    · exact .inl ⟨rfl, .inl rfl⟩
    · exact .inl ⟨rfl, .inl rfl⟩
  | accept fd =>
    rcases accept_cases hs with rfl | ⟨key, -, -, rfl⟩
    · exact .inl ⟨rfl, .inl rfl⟩
    · exact .inl ⟨rfl, .inl rfl⟩
  | findThread =>
    obtain ⟨a, -, rfl⟩ := findThread_cases hs
    exact .inl ⟨rfl, .inl rfl⟩
  | enterTables ck block =>
    obtain ⟨a, m, hpc, hentered⟩ := enterTables_cases hs
    rw [hpc] at hok
    obtain ⟨dev, rfl⟩ := hentered hok.1
    exact .inl ⟨rfl, .inl rfl⟩
  | addToThread =>
    obtain ⟨a, m, g, -, -, rfl⟩ := addToThread_cases hs
    exact .inl ⟨rfl, .inl rfl⟩
  | announce =>
    obtain ⟨a, hpc, hannounced⟩ := announce_cases hs
    rw [hpc] at hok
    obtain rfl := hannounced hok.1
    exact .inl ⟨rfl, .inr ⟨.announced a.conn, trivial, rfl⟩⟩
  | setUp =>
    obtain ⟨a, -, rfl | ⟨info, -, rfl⟩⟩ := setUp_cases hs
    · exact .inl ⟨rfl, .inl rfl⟩
    · exact .inl ⟨rfl, .inr ⟨.up a.conn, trivial, rfl⟩⟩
  | tcpRead m fd buf => exact .inr (.inl ⟨m, fd, buf, hs⟩)
  | deliver m => exact .inr (.inr ⟨m, hs⟩)
  | devRegister key ver cb fd =>
    rcases register_cases hs with rfl | ⟨-, tbl, t, -, rfl⟩
    · exact .inl ⟨rfl, .inl rfl⟩
    · exact .inl ⟨rfl, .inl rfl⟩
  | _ => cases ha

theorem onlyEarlyLost_silent {s s' : Sys} (h : OnlyEarlyLost s) {e : Event} (he : silent e)
    (hr : s'.reading = s.reading) (hlog : s'.log = s.log ++ [e]) : OnlyEarlyLost s' := by
  have hkeep : upDivides s.log e ∧ ∀ c, readOf c s'.log = readOf c s.log ∧
      droppedOf c s'.log = droppedOf c s.log ∧ passedOf c s'.log = passedOf c s.log := by
    rw [hlog]
    cases e with
    | announced c => exact ⟨trivial, fun c' => by simp [readOf, droppedOf, passedOf]⟩
    | up c => exact ⟨trivial, fun c' => by simp [readOf, droppedOf, passedOf]⟩
    | _ => cases he
  obtain ⟨hdiv, hkeep⟩ := hkeep
  refine ⟨fun c => ?_, ?_⟩
  · obtain ⟨hread, hdrop, hpass⟩ := hkeep c
    exact accounted_congr (h.accounted c) hr hread hdrop hpass
  · rw [hlog]
    exact h.divided.snoc hdiv

theorem onlyEarlyLost_step {s s' : Sys} {a : Act} (ht : Tidy s) (h : OnlyEarlyLost s)
    (ha : transfers a = true) (hs : step s a = some s') : OnlyEarlyLost s' := by
  rcases packets_cases ht ha hs with ⟨hr, hlog | ⟨e, he, hlog⟩⟩ | ⟨m, fd, buf, hs⟩ | ⟨m, hs⟩
  · refine ⟨fun c => accounted_congr (h.accounted c) hr ?_ ?_ ?_, ?_⟩
    · rw [hlog]
    · rw [hlog]
    · rw [hlog]
    · rw [hlog]
      exact h.divided
  · exact onlyEarlyLost_silent h he hr hlog
  · obtain ⟨c, hfd, hidle, hc, rfl⟩ := tcpRead_cases hs
    exact ⟨accounted_tcpRead ht h.accounted hfd hidle hc, h.divided.snoc trivial⟩
  · obtain ⟨p, hp, rfl⟩ := deliver_cases hs
    refine ⟨accounted_deliver ht h.accounted h.divided hp, h.divided.snoc ?_⟩
    rcases handle_cases ht hp with ⟨hup, heq⟩ | ⟨hup, heq⟩
    · rw [heq]
      exact hup
    · rw [heq]
      exact ⟨hup, rfl, rfl⟩

/-- On a controller, in every interleaving of the listen thread, the threads of the pool and
the peers, the packets read from a connection are, in their order, those dropped before its
entry was put up, those passed to `recv_func` after it, and the one being handled. -/
theorem only_early_packets_lost (acts : List Act) (h : ∀ a ∈ acts, transfers a = true) :
    Always step OnlyEarlyLost start acts := by
  have hstart : OnlyEarlyLost start := by
    refine ⟨fun c => .inl ⟨?_, rfl⟩, justified_nil⟩
    intro m p hp
    cases hp
  have hguarded : Guarded step (fun _ a => transfers a = true) start acts := by
    intro pre a t t' hpre _ _
    exact h a (hpre.subset (by simp))
  have hboth : Always step (fun s => Tidy s ∧ OnlyEarlyLost s) start acts :=
    always_of_guarded (fun s a t hs ha hstep =>
      ⟨tidy_step hs.1 ha hstep, onlyEarlyLost_step hs.1 hs.2 ha hstep⟩)
      ⟨tidy_start, hstart⟩ hguarded
  exact hboth.mono fun _ => And.right

/-- The switch's `HELLO` is read and handled while `accept_chann_func` has yet to run, and an
echo request after the entry was put up. -/
def helloThenEcho : List Act :=
  [.devRegister ⟨1, 0, 6633⟩ 0 ⟨0, 0, 0⟩ 4, .listenfdPollin 4, .accept 5, .findThread,
    .enterTables ⟨0, 0⟩ ⟨0, 0⟩, .addToThread, .tcpRead 0 5 [1, 0, 0, 8, 0, 0, 0, 1], .deliver 0,
    .announce, .setUp, .tcpRead 0 5 [1, 2, 0, 8, 0, 0, 0, 2], .deliver 0]

theorem only_early_packets_lost_at_hello : Always step OnlyEarlyLost start helloThenEcho :=
  only_early_packets_lost helloThenEcho (by decide)

/-- With no packet under way, `recv_func` has not been given all that was read. -/
theorem hello_lost : ¬ ∀ acts : List Act, (∀ a ∈ acts, transfers a = true) →
    ∀ s, run step start acts = some s → (∀ m, s.reading m = none) →
      ∀ c, (passedOf c s.log).flatten = (readOf c s.log).flatten := by
  intro h
  have hlog : (run step start helloThenEcho).map (fun s => s.log) = some
      [.read 0 [1, 0, 0, 8, 0, 0, 0, 1], .dropped 0 [1, 0, 0, 8, 0, 0, 0, 1], .announced 0, .up 0,
        .read 0 [1, 2, 0, 8, 0, 0, 0, 2],
        .recv 5 (some 0) 0 (dummyKey 5) [1, 2, 0, 8, 0, 0, 0, 2]] := by decide
  obtain ⟨s, hs, hlog⟩ := Option.map_eq_some_iff.mp hlog
  have hreading : ∀ m, s.reading m = none := by
    intro m
    have hupd : (run step start helloThenEcho).map (fun s => s.reading) = some
        (Function.update (Function.update (Function.update (Function.update (fun _ => none)
          0 (some ⟨5, 0, [1, 0, 0, 8, 0, 0, 0, 1]⟩)) 0 none)
          0 (some ⟨5, 0, [1, 2, 0, 8, 0, 0, 0, 2]⟩)) 0 none) := rfl
    rw [hs] at hupd
    rw [show s.reading = _ from Option.some.inj hupd]
    by_cases hm : m = 0
    · simp [hm]
    · simp [hm]
  have hall := h helloThenEcho (by decide) s hs hreading 0
  rw [hlog] at hall
  revert hall
  decide

end OfConnect.Accept.Delivery

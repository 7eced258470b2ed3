import OfConnect.Lib.Run
import OfConnect.Accept.System
import OfConnect.Core.Consistency

/-!
# A connection is announced before its data is delivered

`recv_func` is called for a socket only if its entry in `ofrw_htbl` is up, and `tcp_accept`
puts the entry up only after `accept_chann_func` has returned. The entry names a
descriptor, not a connection. That it speaks about the connection which is open on the
descriptor now rests on three facts: a socket leaves the tables before it is closed, only
the listen thread enters sockets, and it works on one connection at a time.
-/

namespace OfConnect.Accept.Announce

open OfConnect.Lib.Run OfConnect.Lib.Tables OfConnect.PollThr.Thread
open OfConnect.Core OfConnect.Core.State OfConnect.Core.Api OfConnect.Core.Effects
open OfConnect.Accept.System

/-- `recv_func` is called for a socket with an open connection that has been announced. -/
def recvAfterAnnounce (before : List Event) : Event → Prop
  | .recv _ open? _ _ _ => ∃ c, open? = some c ∧ .announced c ∈ before
  | _ => True

/-- An entry that is up belongs to an open connection that has been announced. -/
def UpAnnounced (s : Sys) : Prop :=
  ∀ fd info, s.g.ofrwHtbl.lookup fd = some info → info.state = .up →
    ∃ c, s.conns fd = some c ∧ .announced c ∈ s.log

/-- The entry of this connection, if it has one, is down. -/
def Down (s : Sys) (a : Accepting) : Prop :=
  ∀ info, s.g.ofrwHtbl.lookup a.connfd = some info → info.state = .down

structure AnnouncedFirst (s : Sys) : Prop where
  recv : Justified recvAfterAnnounce s.log
  up : UpAnnounced s
  fresh : ∀ a, ((∃ m, s.listen = .entered a m) ∨ s.listen = .added a) → Down s a

/-! ## The invariant -/

/-- Not entered yet, and so out of reach for those who close sockets. -/
def Fresh (s : Sys) (a : Accepting) : Prop :=
  s.conns a.connfd = some a.conn ∧ a.connfd ∉ s.g.ofrwHtbl

/-- Nothing else has been opened on the descriptor since. -/
def Mine (s : Sys) (a : Accepting) : Prop := ∀ c, s.conns a.connfd = some c → c = a.conn

def PcOk (s : Sys) : ListenPc → Prop
  | .poll => True
  | .called key => key ∈ s.g.ofdevHtbl
  | .accepted a => a.key ∈ s.g.ofdevHtbl ∧ Fresh s a
  | .found a tmgr => a.key ∈ s.g.ofdevHtbl ∧ Fresh s a ∧ tmgr ∈ s.g.ofrwPollthrList
  | .entered a _ => a.key ∈ s.g.ofdevHtbl ∧ Mine s a ∧ Down s a
  | .added a => a.key ∈ s.g.ofdevHtbl ∧ Mine s a ∧ Down s a
  | .announced a => Mine s a ∧ .announced a.conn ∈ s.log

structure Inv (s : Sys) : Prop where
  controller : s.g.ofdevType = .controller
  pooled : Pooled s.g
  opened : ∀ fd, fd ∈ s.g.ofrwHtbl → s.conns fd ≠ none
  up : UpAnnounced s
  pc : PcOk s s.listen
  log : Justified recvAfterAnnounce s.log

theorem announcedFirst_of_inv {s : Sys} (h : Inv s) : AnnouncedFirst s := by
  refine ⟨h.log, h.up, ?_⟩
  rintro a (⟨m, hpc⟩ | hpc)
  · have hok := h.pc
    rw [hpc] at hok
    exact hok.2.2
  · have hok := h.pc
    rw [hpc] at hok
    exact hok.2.2

/-- What the steps of the other threads leave to the listen thread: sockets may be gone from
the tables, and those are closed; all else is as it was. -/
structure Frame (s s' : Sys) : Prop where
  ofdevType : s'.g.ofdevType = s.g.ofdevType
  listen : s'.listen = s.listen
  ofdev : ∀ k, k ∈ s.g.ofdevHtbl → k ∈ s'.g.ofdevHtbl
  pool : s.g.ofrwPollthrList ⊆ s'.g.ofrwPollthrList
  ofrw : ∀ fd info, s'.g.ofrwHtbl.lookup fd = some info →
    s.g.ofrwHtbl.lookup fd = some info ∧ s'.conns fd = s.conns fd
  kept : ∀ fd, fd ∉ s.g.ofrwHtbl → s'.conns fd = s.conns fd
  conns : ∀ fd c, s'.conns fd = some c → s.conns fd = some c
  log : s.log ⊆ s'.log

theorem Frame.down {s s' : Sys} (hf : Frame s s') {a : Accepting} (h : Down s a) : Down s' a :=
  fun info hl => h info (hf.ofrw _ info hl).1

theorem Frame.mine {s s' : Sys} (hf : Frame s s') {a : Accepting} (h : Mine s a) : Mine s' a :=
  fun c hc => h c (hf.conns _ c hc)

theorem Frame.notMem {s s' : Sys} (hf : Frame s s') {fd : Fd} (h : fd ∉ s.g.ofrwHtbl) :
    fd ∉ s'.g.ofrwHtbl := by
  intro hmem
  obtain ⟨info, hl⟩ := mem_iff_lookup.mp hmem
  exact h (mem_iff_lookup.mpr ⟨info, (hf.ofrw fd info hl).1⟩)

theorem Frame.fresh {s s' : Sys} (hf : Frame s s') {a : Accepting} (h : Fresh s a) : Fresh s' a :=
  ⟨(hf.kept _ h.2).trans h.1, hf.notMem h.2⟩

theorem Frame.pcOk {s s' : Sys} (hf : Frame s s') {pc : ListenPc} (h : PcOk s pc) :
    PcOk s' pc := by
  cases pc with
  | poll => trivial
  | called key => exact hf.ofdev key h
  | accepted a => exact ⟨hf.ofdev _ h.1, hf.fresh h.2⟩
  | found a m => exact ⟨hf.ofdev _ h.1, hf.fresh h.2.1, hf.pool h.2.2⟩
  | entered a m => exact ⟨hf.ofdev _ h.1, hf.mine h.2.1, hf.down h.2.2⟩
  | added a => exact ⟨hf.ofdev _ h.1, hf.mine h.2.1, hf.down h.2.2⟩
  | announced a => exact ⟨hf.mine h.1, hf.log h.2⟩

/-- What the tables of `s'` say is what those of `s` said. -/
theorem Frame.tables {s s' : Sys} (hf : Frame s s') (h : Inv s) :
    Pooled s'.g ∧ (∀ fd, fd ∈ s'.g.ofrwHtbl → s'.conns fd ≠ none) ∧ UpAnnounced s' := by
  refine ⟨fun fd info m hl hm => ?_, fun fd hmem => ?_, fun fd info hl hup => ?_⟩
  · exact hf.pool (h.pooled fd info m (hf.ofrw fd info hl).1 hm)
  · obtain ⟨info, hl⟩ := mem_iff_lookup.mp hmem
    obtain ⟨hl', hc⟩ := hf.ofrw fd info hl
    rw [hc]
    exact h.opened fd (mem_iff_lookup.mpr ⟨info, hl'⟩)
  · obtain ⟨hl', hc⟩ := hf.ofrw fd info hl
    obtain ⟨c, hconn, hann⟩ := h.up fd info hl' hup
    exact ⟨c, hc.trans hconn, hf.log hann⟩

theorem Frame.inv {s s' : Sys} (hf : Frame s s') (h : Inv s)
    (hlog : Justified recvAfterAnnounce s'.log) : Inv s' := by
  obtain ⟨hpooled, hopened, hup⟩ := hf.tables h
  refine ⟨hf.ofdevType.trans h.controller, hpooled, hopened, hup, ?_, hlog⟩
  rw [hf.listen]
  exact hf.pcOk h.pc

/-! ## The other threads -/

theorem Frame.of_g {s : Sys} {g : Global} (htype : g.ofdevType = s.g.ofdevType)
    (hdev : ∀ k, k ∈ s.g.ofdevHtbl → k ∈ g.ofdevHtbl)
    (hpool : s.g.ofrwPollthrList ⊆ g.ofrwPollthrList) (hrw : g.ofrwHtbl = s.g.ofrwHtbl) :
    Frame s { s with g := g } := by
  refine ⟨htype, rfl, hdev, hpool, fun fd info hl => ⟨?_, rfl⟩, fun _ _ => rfl, fun _ _ hc => hc,
    List.Subset.refl _⟩
  rw [← hrw]
  exact hl

theorem Frame.of_log (s : Sys) (reading : MgrId → Option Packet) (e : Event) :
    Frame s { s with reading := reading, log := s.log ++ [e] } :=
  ⟨rfl, rfl, fun _ hk => hk, List.Subset.refl _, fun _ _ hl => ⟨hl, rfl⟩, fun _ _ => rfl,
    fun _ _ hc => hc, List.subset_append_left _ _⟩

theorem inv_closeNext {s s' : Sys} (h : Inv s) (hs : closeNext s = some s') : Inv s' := by
  unfold closeNext at hs
  split at hs
  · rename_i fd fds device _
    split at hs
    · cases hs
    · rename_i info hl
      split at hs
      · obtain ⟨r, hr, rfl⟩ := Option.map_eq_some_iff.mp hs
        obtain ⟨hok, dev, hdev, hclosed⟩ := delSockfd_spec h.pooled hl hr
        rw [if_neg (by rw [hok]; decide)]
        refine Frame.inv ⟨hclosed.ofdevType, rfl, fun k hk => ?_, fun m hm => (hclosed.pool m).mpr hm,
          fun f fi hf => ?_, fun f hf => ?_, fun f c hc => ?_, List.Subset.refl _⟩ h h.log
        · obtain ⟨d, hd⟩ := mem_iff_lookup.mp hk
          rw [mem_iff_lookup, hclosed.ofdev]
          split
          · exact ⟨_, rfl⟩
          · exact ⟨d, hd⟩
        · rw [hclosed.ofrw] at hf
          split at hf
          · cases hf
          · rename_i hne
            exact ⟨hf, Function.update_of_ne hne _ _⟩
        · refine Function.update_of_ne (fun hfd => hf ?_) _ _
          rw [hfd]
          exact mem_iff_lookup.mpr ⟨info, hl⟩
        · dsimp only at hc
          by_cases hfd : f = fd
          · rw [hfd, Function.update_self] at hc
            cases hc
          · rwa [Function.update_of_ne hfd] at hc
      · cases hs
  · cases hs

/-- Removing a device takes the listen thread's acknowledgement, so it is not accepting. -/
theorem inv_closeEnd {s s' : Sys} (h : Inv s) (hs : closeEnd s = some s') : Inv s' := by
  unfold closeEnd at hs
  split at hs
  · obtain rfl := Option.some.inj hs
    exact ⟨h.controller, h.pooled, h.opened, h.up, h.pc, h.log⟩
  · split at hs
    · rename_i hpoll
      obtain ⟨dev, -, hs⟩ := Option.bind_eq_some_iff.mp hs
      obtain ⟨r, -, rfl⟩ := Option.map_eq_some_iff.mp hs
      refine ⟨h.controller, h.pooled, h.opened, h.up, ?_, h.log⟩
      show PcOk _ s.listen
      rw [hpoll]
      trivial
    · cases hs
  · cases hs

theorem inv_tcpRead {s s' : Sys} {m : MgrId} {fd : Fd} {buf : List UInt8} (h : Inv s)
    (hs : tcpRead s m fd buf = some s') : Inv s' := by
  obtain ⟨c, -, -, -, rfl⟩ := tcpRead_cases hs
  exact (Frame.of_log s _ (.read c buf)).inv h (h.log.snoc trivial)

/-- The call of `recv_func` is behind the check of the state. -/
theorem handle_afterAnnounce {s : Sys} (h : Inv s) (p : Packet) :
    recvAfterAnnounce s.log (handle s p) := by
  unfold handle
  split
  · trivial
  · split
    · trivial
    · rename_i info hl
      split
      · trivial
      · rename_i hup
        split
        · trivial
        · apply h.up p.fd info hl
          by_contra hne
          exact hup ⟨h.controller, hne⟩

theorem inv_deliver {s s' : Sys} {m : MgrId} (h : Inv s) (hs : deliver s m = some s') :
    Inv s' := by
  obtain ⟨p, -, rfl⟩ := deliver_cases hs
  exact (Frame.of_log s _ (handle s p)).inv h (h.log.snoc (handle_afterAnnounce h p))

theorem inv_setReal {s s' : Sys} {d : UInt64} {a : UInt8} {key : ChannelKey} (h : Inv s)
    (hs : setReal s d a key = some s') : Inv s' := by
  unfold setReal at hs
  split at hs
  · cases hs
  · obtain rfl := Option.some.inj hs
    obtain ⟨hdev, hrw, hpool⟩ := Consistency.setReal_tables s.g d a key
    have htype : (ccOfSetRealDpidAuxid s.g d a key).2.ofdevType = s.g.ofdevType := by
      unfold ccOfSetRealDpidAuxid
      dsimp only
      split
      · rfl
      · rfl
    refine (Frame.of_g htype (fun k hk => ?_) ?_ hrw).inv h h.log
    · rw [hdev]
      exact hk
    · rw [hpool]
      exact List.Subset.refl _

theorem inv_devRegister {s s' : Sys} {key : DevKey} {ver : Nat} {cb : Callbacks} {fd : Fd}
    (h : Inv s) (hs : devRegister s key ver cb fd = some s') : Inv s' := by
  rcases register_cases hs with rfl | ⟨-, tbl, t, hkeys, rfl⟩
  · exact h
  · refine (Frame.of_g ?_ hkeys ?_ ?_).inv h h.log
    · rfl
    · exact List.Subset.refl _
    · rfl

/-! ## The listen thread -/

theorem inv_listenfdPollin {s s' : Sys} {fd : Fd} (h : Inv s)
    (hs : listenfdPollin s fd = some s') : Inv s' := by
  rcases listenfdPollin_cases hs with rfl | ⟨key, hkey, rfl⟩
  · exact h
  · exact ⟨h.controller, h.pooled, h.opened, h.up, hkey, h.log⟩

theorem inv_accept {s s' : Sys} {connfd : Fd} (h : Inv s) (hs : accept s connfd = some s') :
    Inv s' := by
  rcases accept_cases hs with rfl | ⟨key, hpc, hclosed, rfl⟩
  · exact ⟨h.controller, h.pooled, h.opened, h.up, trivial, h.log⟩
  · have hok := h.pc
    rw [hpc] at hok
    -- a socket that is not open has no entry
    have hnew : connfd ∉ s.g.ofrwHtbl := fun hmem => h.opened connfd hmem hclosed
    refine ⟨h.controller, h.pooled, fun fd hmem => ?_, fun fd info hl hup => ?_,
      ⟨hok, Function.update_self _ _ _, hnew⟩, h.log⟩
    · have hne : fd ≠ connfd := fun hfd => hnew (hfd ▸ hmem)
      show Function.update s.conns connfd (some s.nextConn) fd ≠ none
      rw [Function.update_of_ne hne]
      exact h.opened fd hmem
    · have hne : fd ≠ connfd := fun hfd => hnew (hfd ▸ mem_iff_lookup.mpr ⟨info, hl⟩)
      obtain ⟨c, hc, hann⟩ := h.up fd info hl hup
      exact ⟨c, (Function.update_of_ne hne _ _).trans hc, hann⟩

theorem inv_findThread {s s' : Sys} (h : Inv s) (hs : findThread s = some s') : Inv s' := by
  obtain ⟨a, hpc, rfl⟩ := findThread_cases hs
  have hok := h.pc
  rw [hpc] at hok
  obtain ⟨hsame, hin⟩ := findOrCreate_spec s.g
  obtain ⟨hkey, hconn, hnot⟩ := hok
  refine ⟨hsame.ofdevType.trans h.controller, hsame.pooled h.pooled, fun fd hmem => ?_,
    fun fd info hl => ?_, ⟨?_, ⟨hconn, ?_⟩, hin⟩, h.log⟩
  · exact h.opened fd (hsame.ofrw ▸ hmem)
  · exact h.up fd info (hsame.ofrw ▸ hl)
  · rw [hsame.ofdev]
    exact hkey
  · rw [hsame.ofrw]
    exact hnot

/-- The device is registered, so the socket is entered, and as down. -/
theorem inv_enterTables {s s' : Sys} {ck : ChannelKey} {block : SockAddr} (h : Inv s)
    (hs : enterTables s ck block = some s') : Inv s' := by
  obtain ⟨a, m, hpc, hentered⟩ := enterTables_cases hs
  have hok := h.pc
  rw [hpc] at hok
  obtain ⟨hkey, ⟨hconn, hnot⟩, hm⟩ := hok
  obtain ⟨dev, rfl⟩ := hentered hkey
  refine ⟨h.controller, fun fd info m' hl hm' => ?_, fun fd hmem => ?_, fun fd info hl hup => ?_,
    ⟨?_, fun c hc => ?_, fun info hl => ?_⟩, h.log⟩
  · dsimp only at hl
    rw [lookup_insert_eq] at hl
    split at hl
    · obtain rfl := Option.some.inj hl
      obtain rfl := Option.some.inj hm'
      exact hm
    · exact h.pooled fd info m' hl hm'
  · rcases AList.mem_insert _ |>.mp hmem with rfl | hmem
    · rw [hconn]
      simp
    · exact h.opened fd hmem
  · dsimp only at hl
    rw [lookup_insert_eq] at hl
    split at hl
    · obtain rfl := Option.some.inj hl
      cases hup
    · exact h.up fd info hl hup
  · exact AList.mem_insert _ |>.mpr (.inr hkey)
  · rw [hconn] at hc
    exact (Option.some.inj hc).symm
  · dsimp only at hl
    rw [lookup_insert_eq, if_pos rfl] at hl
    obtain rfl := Option.some.inj hl
    rfl

theorem inv_addToThread {s s' : Sys} (h : Inv s) (hs : addToThread s = some s') : Inv s' := by
  obtain ⟨a, m, g, hpc, hg, rfl⟩ := addToThread_cases hs
  have hok := h.pc
  rw [hpc] at hok
  obtain ⟨t, rfl⟩ := addDelFd_spec hg
  exact ⟨h.controller, h.pooled, h.opened, h.up, hok, h.log⟩

theorem inv_announce {s s' : Sys} (h : Inv s) (hs : announce s = some s') : Inv s' := by
  obtain ⟨a, hpc, hannounced⟩ := announce_cases hs
  have hok := h.pc
  rw [hpc] at hok
  obtain ⟨hkey, hmine, -⟩ := hok
  obtain rfl := hannounced hkey
  refine ⟨h.controller, h.pooled, h.opened, fun fd info hl hup => ?_, ⟨hmine, by simp⟩,
    h.log.snoc trivial⟩
  obtain ⟨c, hc, hann⟩ := h.up fd info hl hup
  exact ⟨c, hc, List.mem_append_left _ hann⟩

/-- If the entry is still there its socket is open, and then on the announced connection. -/
theorem inv_setUp {s s' : Sys} (h : Inv s) (hs : setUp s = some s') : Inv s' := by
  obtain ⟨a, hpc, rfl | ⟨info, hl, rfl⟩⟩ := setUp_cases hs
  · exact ⟨h.controller, h.pooled, h.opened, h.up, trivial, h.log⟩
  · have hok := h.pc
    rw [hpc] at hok
    obtain ⟨hmine, hann⟩ := hok
    have hmem : a.connfd ∈ s.g.ofrwHtbl := mem_iff_lookup.mpr ⟨info, hl⟩
    refine ⟨h.controller, fun fd fi m hf hm => ?_, fun fd hf => ?_, fun fd fi hf hup => ?_, trivial,
      h.log.snoc trivial⟩
    · dsimp only at hf
      rw [lookup_insert_eq] at hf
      split at hf
      · obtain rfl := Option.some.inj hf
        exact h.pooled a.connfd info m hl hm
      · exact h.pooled fd fi m hf hm
    · rcases AList.mem_insert _ |>.mp hf with rfl | hf
      · exact h.opened _ hmem
      · exact h.opened fd hf
    · dsimp only at hf
      rw [lookup_insert_eq] at hf
      split at hf
      · rename_i hfd
        subst hfd
        obtain ⟨c, hc⟩ := Option.ne_none_iff_exists'.mp (h.opened _ hmem)
        obtain rfl := hmine c hc
        exact ⟨_, hc, List.mem_append_left _ hann⟩
      · obtain ⟨c, hc, hann'⟩ := h.up fd fi hf hup
        exact ⟨c, hc, List.mem_append_left _ hann'⟩

/-! ## Runs -/

theorem inv_step {s s' : Sys} {a : Act} (h : Inv s) (hs : step s a = some s') : Inv s' := by
  cases a with
  | listenfdPollin fd => exact inv_listenfdPollin h hs
  | accept fd => exact inv_accept h hs
  | findThread => exact inv_findThread h hs
  | enterTables ck block => exact inv_enterTables h hs
  | addToThread => exact inv_addToThread h hs
  | announce => exact inv_announce h hs
  | setUp => exact inv_setUp h hs
  | tcpRead m fd buf => exact inv_tcpRead h hs
  | deliver m => exact inv_deliver h hs
  | destroyChannel key =>
    simp only [step, destroyChannel] at hs
    split at hs
    · cases hs
    · split at hs
      · obtain rfl := Option.some.inj hs
        exact h
      · split at hs
        · obtain rfl := Option.some.inj hs
          exact h
        · obtain rfl := Option.some.inj hs
          exact ⟨h.controller, h.pooled, h.opened, h.up, h.pc, h.log⟩
  | devFree key =>
    simp only [step, devFree] at hs
    split at hs
    · cases hs
    · split at hs
      · obtain ⟨dev, -, rfl⟩ := Option.map_eq_some_iff.mp hs
        exact ⟨h.controller, h.pooled, h.opened, h.up, h.pc, h.log⟩
      · cases hs
  | closeNext => exact inv_closeNext h hs
  | closeEnd => exact inv_closeEnd h hs
  | setReal d a key => exact inv_setReal h hs
  | devRegister key ver cb fd => exact inv_devRegister h hs

theorem inv_start : Inv start := by
  refine ⟨rfl, ?_, ?_, ?_, trivial, justified_nil⟩
  · intro fd info m hl
    cases hl
  · intro fd hmem
    obtain ⟨info, hl⟩ := mem_iff_lookup.mp hmem
    cases hl
  · intro fd info hl
    cases hl

/-- In every interleaving of the listen thread, any number of read/write threads and
application threads, `recv_func` is called for a socket only after `accept_chann_func` has
returned for the connection that is open on it. -/
theorem announced_before_data (acts : List Act) : Always step AnnouncedFirst start acts := by
  have hall : Always step Inv start acts := always_of_step (fun s a s' => inv_step) inv_start acts
  exact hall.mono fun s => announcedFirst_of_inv

end OfConnect.Accept.Announce

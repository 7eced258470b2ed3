import OfConnect.Core.SocketLists
import OfConnect.Pool.Closing

/-!
# The walk over the sockets of a device

The loop of `cc_of_dev_free_lockfree`, of which `cc_of_dev_free` has a copy, link by link. It
looks the socket of a link up in `ofrw_htbl`, goes on to the next link and then closes the
socket, which takes the link that it came from out of the list and frees it. A socket that is
not in the table is looked up again, for ever.

The loop ends because no such socket is listed. What is listed is entered, whatever was
registered, opened and closed before, as long as the kernel gives out descriptors that are not
open and no descriptor is the number of a dummy socket.
-/

namespace OfConnect.Pool.DevWalk

open OfConnect.Lib.Tables OfConnect.Lib.Run OfConnect.PollThr.Thread OfConnect.Core.State
open OfConnect.Core.Api OfConnect.Core.Effects OfConnect.Core.SocketLists OfConnect.Pool.Closing
open OfConnect.Udp.Demux (State Callback deliver oldConn processUdpfdPollinFunc)
open OfConnect.Pool.Traced (Op Sys start)

/-! ## The loop -/

/-- `ht_dinfo->ofrw_socket_list`. -/
def socketList (g : Global) (key : DevKey) : Option (List Fd) :=
  (g.ofdevHtbl.lookup key).map DevInfo.ofrwSocketList

/-- The loop before an iteration. A link is named by its position in the list, and `none` is
`NULL`. -/
structure Loop where
  g : Global
  elem : Option Nat
  closed : List Fd

/-- The link at a position. -/
def linkAt (l : List Fd) (p : Nat) : Option Nat := if p < l.length then some p else none

/-- Where a link is to be found in the list `l'` that `close_conn` has left of `l`: the first link
with the socket is gone, or nothing is. The result `none` is a link that was freed. -/
def follow (l l' : List Fd) (sockfd : Fd) : Option Nat → Option (Option Nat)
  | none => some none
  | some p =>
    if l' = l then some (some p)
    else if l.idxOf sockfd < p then some (some (p - 1))
    else if l.idxOf sockfd = p then none
    else some (some p)

/-- One iteration, with the result of `close`. -/
def step (key : DevKey) (w : Loop) (closeRet : Int) : Option Loop :=
  w.elem.bind fun p => (socketList w.g key).bind fun l => l[p]?.bind fun rwSockfd =>
    match w.g.ofrwHtbl.lookup rwSockfd with
    | none => some w  -- continue
    | some rwinfo =>
      let elem := linkAt l (p + 1)
      (closeConn w.g rwinfo.layer4Proto rwSockfd closeRet).bind fun r =>
        (socketList r.2 key).bind fun l' =>
          (follow l l' rwSockfd elem).map fun elem => ⟨r.2, elem, w.closed ++ [rwSockfd]⟩

/-- The next iteration goes on with the link it has. -/
def Stuck (key : DevKey) (w : Loop) : Prop :=
  ∃ p l fd, w.elem = some p ∧ socketList w.g key = some l ∧ l[p]? = some fd ∧
    w.g.ofrwHtbl.lookup fd = none

/-- The loop comes to its end after as many iterations as there are sockets, has then closed each
of them, and is not stuck before. -/
def WalkEnds (g : Global) (key : DevKey) (l : List Fd) : Prop :=
  ∀ closeRets : List Int, closeRets.length ≤ l.length →
    ∃ w, run (step key) ⟨g, linkAt l 0, []⟩ closeRets = some w ∧
      w.closed = l.take closeRets.length ∧ ¬Stuck key w ∧
      (w.elem = none ↔ closeRets.length = l.length)

/-! ## One iteration -/

theorem follow_head (fd : Fd) (rest : List Fd) :
    follow (fd :: rest) rest fd (linkAt (fd :: rest) 1) = some (linkAt rest 0) := by
  cases rest with
  | nil => rfl
  | cons fd' rest => simp [follow, linkAt]

/-- An iteration closes the first socket of the list, and what is left is the rest of it. -/
theorem step_listed {g : Global} {key : DevKey} {fd : Fd} {rest : List Fd} (h : Listed g)
    (hw : Workable g) (hl : socketList g key = some (fd :: rest)) (closed : List Fd)
    (closeRet : Int) :
    ∃ info g', g.ofrwHtbl.lookup fd = some info ∧
      closeConn g info.layer4Proto fd closeRet = some (closeRet, g') ∧
      step key ⟨g, linkAt (fd :: rest) 0, closed⟩ closeRet =
        some ⟨g', linkAt rest 0, closed ++ [fd]⟩ ∧
      Listed g' ∧ Workable g' ∧ socketList g' key = some rest := by
  obtain ⟨dev, hdev, hlist⟩ := Option.map_eq_some_iff.mp hl
  obtain ⟨info, hinfo, rfl⟩ := h.socket key dev fd hdev (by rw [hlist]; exact List.mem_cons_self)
  obtain ⟨g', hclose⟩ := closeConn_returns closeRet hw.pooled hinfo (hw.closable fd info hinfo)
    (mem_iff_lookup.mpr ⟨dev, hdev⟩)
  obtain ⟨-, dev', hdev', hclosed⟩ := closeConn_spec hw.pooled hinfo hclose
  obtain rfl := Option.some.inj (hdev.symm.trans hdev')
  have hrest : socketList g' info.devKey = some rest := by
    rw [socketList, hclosed.ofdev, if_pos rfl, Option.map_some, hlist, List.erase_cons_head]
  refine ⟨info, g', hinfo, hclose, ?_, h.closed hinfo hdev hclosed,
    workable_closeConn hw hinfo hclose, hrest⟩
  have hlink : linkAt (fd :: rest) 0 = some 0 := if_pos (Nat.succ_pos _)
  simp only [step, hlink, Option.bind_some, hl, List.getElem?_cons_zero, hinfo, hclose, hrest]
  rw [follow_head, Option.map_some]

theorem not_stuck {g : Global} {key : DevKey} {l : List Fd} (h : Listed g)
    (hl : socketList g key = some l) (elem : Option Nat) (closed : List Fd) :
    ¬Stuck key ⟨g, elem, closed⟩ := by
  rintro ⟨p, l', fd, -, hl', hfd, hnone⟩
  obtain rfl := Option.some.inj (hl.symm.trans hl')
  obtain ⟨dev, hdev, rfl⟩ := Option.map_eq_some_iff.mp hl
  obtain ⟨info, hinfo, -⟩ := h.socket key dev fd hdev (List.mem_of_getElem? hfd)
  rw [hinfo] at hnone
  cases hnone

theorem walk_from {key : DevKey} (closeRets : List Int) {g : Global} {l : List Fd} (h : Listed g)
    (hw : Workable g) (hl : socketList g key = some l) (hlen : closeRets.length ≤ l.length)
    (closed : List Fd) :
    ∃ w, run (step key) ⟨g, linkAt l 0, closed⟩ closeRets = some w ∧
      w.closed = closed ++ l.take closeRets.length ∧ ¬Stuck key w ∧
      (w.elem = none ↔ closeRets.length = l.length) := by
  induction closeRets generalizing g l closed with
  | nil =>
    refine ⟨_, rfl, by simp, not_stuck h hl _ _, ?_⟩
    cases l with
    | nil => simp [linkAt]
    | cons fd rest => simp [linkAt]
  | cons closeRet closeRets ih =>
    cases l with
    | nil => exact absurd hlen (Nat.not_succ_le_zero _)
    | cons fd rest =>
      obtain ⟨info, g', -, -, hstep, h', hw', hl'⟩ := step_listed h hw hl closed closeRet
      obtain ⟨w, hrun, hclosed, hstuck, hend⟩ :=
        ih h' hw' hl' (Nat.le_of_succ_le_succ hlen) (closed ++ [fd])
      refine ⟨w, ?_, ?_, hstuck, ?_⟩
      · rw [run_cons, hstep, Option.bind_some, hrun]
      · rw [hclosed, List.length_cons, List.take_succ_cons, List.append_assoc]
        rfl
      · rw [hend, List.length_cons, List.length_cons, Nat.succ_inj]

/-- The loop does what the walk over the list as it was at the start does. -/
theorem walk_eq_closeSockets {key : DevKey} (closeRet : Fd → Int) (l : List Fd) {g : Global}
    (h : Listed g) (hw : Workable g) (hl : socketList g key = some l) (closed : List Fd) :
    ∃ w, run (step key) ⟨g, linkAt l 0, closed⟩ (l.map closeRet) = some w ∧
      closeSockets closeRet l g = some w.g := by
  induction l generalizing g closed with
  | nil => exact ⟨_, rfl, rfl⟩
  | cons fd rest ih =>
    obtain ⟨info, g', hinfo, hclose, hstep, h', hw', hl'⟩ :=
      step_listed h hw hl closed (closeRet fd)
    obtain ⟨w, hrun, hsockets⟩ := ih h' hw' hl' (closed ++ [fd])
    refine ⟨w, ?_, ?_⟩
    · rw [List.map_cons, run_cons, hstep, Option.bind_some, hrun]
    · rw [closeSockets, hinfo]
      simp only [hclose, Option.bind_some, hsockets]

/-! ## The calls before -/

/-- A descriptor that is opened is not the number of a dummy socket. A dummy socket gets a number
that was not used, nor is it that of an open descriptor. A device is not freed before. -/
def Apart (s : Sys) : Op → Prop
  | .createChannel _ _ _ fd _ | .accept fd _ _ _ | .udpServer _ fd _ =>
    findThrmgrRwsocketLockfree s.g fd ≠ some none
  | .datagram _ src _ => oldConn s.g src = none →
      s.random.toNat + 1 < 2 ^ 32 ∧ (s.random + 1).toInt32 ∉ s.own
  | .devFree _ _ | .devfreeIter _ _ => False
  | _ => True

/-- A socket with a manager is an open descriptor, and one without has a number that was given
out. -/
structure Inv (s : Sys) : Prop where
  listed : Listed s.g
  owned : ∀ fd info, s.g.ofrwHtbl.lookup fd = some info → info.thrMgr ≠ none → fd ∈ s.own
  numbered : ∀ fd info, s.g.ofrwHtbl.lookup fd = some info → info.thrMgr = none →
    fd.toUInt32.toNat ≤ s.random.toNat

theorem inv_start (devType : DevType) : Inv (start devType) :=
  ⟨listed_libInit devType, nofun, nofun⟩

/-- The sockets are old ones, with the managers they had. -/
theorem Inv.of_old {s s' : Sys} (h : Inv s) (hl : Listed s'.g) (hown : s'.own = s.own)
    (hrandom : s.random.toNat ≤ s'.random.toNat)
    (hrw : ∀ fd info', s'.g.ofrwHtbl.lookup fd = some info' →
      ∃ info, s.g.ofrwHtbl.lookup fd = some info ∧ info.thrMgr = info'.thrMgr) : Inv s' := by
  refine ⟨hl, fun fd info' hl' hthr => ?_, fun fd info' hl' hthr => ?_⟩
  · obtain ⟨info, hinfo, heq⟩ := hrw fd info' hl'
    rw [hown]
    exact h.owned fd info hinfo (heq ▸ hthr)
  · obtain ⟨info, hinfo, heq⟩ := hrw fd info' hl'
    exact (h.numbered fd info hinfo (heq.trans hthr)).trans hrandom

/-- A descriptor that is not open and not the number of a dummy socket is not entered. -/
theorem Inv.fresh {s : Sys} (h : Inv s) {fd : Fd} (hfd : fd ∉ s.own)
    (hdummy : findThrmgrRwsocketLockfree s.g fd ≠ some none) : fd ∉ s.g.ofrwHtbl := by
  intro hmem
  obtain ⟨info, hl⟩ := mem_iff_lookup.mp hmem
  refine hfd (h.owned fd info hl fun hthr => hdummy ?_)
  simp only [findThrmgrRwsocketLockfree, hl, Option.map_some, hthr]

/-! ### Opening -/

/-- What the calls do that open a socket: nothing, or an addition that was rolled back, or a
socket with a manager is entered. -/
def OpensTraced (s s' : Sys) (fd : Fd) : Prop :=
  s' = s ∨ (∃ g', RolledBack s.g g' fd ∧ s' = { s with g := g' }) ∨
    ∃ g' dev ck info, Added s.g g' fd dev ck info ∧ s' = { s with g := g', own := fd :: s.own }

theorem addSockfd_opensTraced {s : Sys} {fd : Fd} {key : DevKey} {proto : L4Type} {ck : ChannelKey}
    {block : SockAddr} {q : Ret × Sys} (h : Traced.addSockfd s fd key proto ck block = some q) :
    OpensTraced s q.2 fd ∧ (¬q.1 < 0 →
      OpensTraced s { q.2 with g := (setRwUp q.2.g fd).2 } fd) := by
  obtain ⟨a, ha, rfl⟩ := Option.map_eq_some_iff.mp h
  rcases addSockfd_cases ha with ⟨hret, -, hrolled⟩ | ⟨dev, m, hret, hadded⟩
  · have hneg : a.1 < 0 := by rw [hret]; decide
    refine ⟨.inr (.inl ⟨a.2, hrolled, ?_⟩), absurd hneg⟩
    simp only [if_pos hneg]
  · have hok : ¬a.1 < 0 := by rw [hret]; decide
    simp only [if_neg hok]
    refine ⟨.inr (.inr ⟨a.2, dev, _, _, hadded, rfl⟩), fun _ => ?_⟩
    exact .inr (.inr ⟨_, dev, _, _, added_setRwUp hadded, rfl⟩)

theorem createChannel_opensTraced {s : Sys} {fd : Fd} {key : DevKey} {proto : L4Type}
    {ck : ChannelKey} {block : SockAddr} {r : Ret × Sys}
    (h : Traced.ccOfCreateChannel s key ck proto fd block = some r) : OpensTraced s r.2 fd := by
  rcases Traced.createChannel_adds h with heq | ⟨q, hq, heq⟩
  · exact .inl heq
  · rw [heq]
    exact (addSockfd_opensTraced hq).1

theorem udpServer_opensTraced {s : Sys} {fd : Fd} {key : DevKey} {block : SockAddr} {r : Ret × Sys}
    (h : Traced.udpOpenServerfd s key fd block = some r) : OpensTraced s r.2 fd := by
  rcases Traced.udpServer_adds h with heq | ⟨q, hq, heq⟩
  · exact .inl heq
  · rw [heq]
    exact (addSockfd_opensTraced hq).1

theorem accept_opensTraced {s : Sys} {fd : Fd} {key : DevKey} {ck : ChannelKey} {block : SockAddr}
    {r : Ret × Sys} (h : Traced.tcpAccept s fd key ck block = some r) : OpensTraced s r.2 fd := by
  rcases Traced.accept_adds h with heq | ⟨q, hq, heq | ⟨hok, heq⟩⟩
  · exact .inl heq
  · rw [heq]
    exact (addSockfd_opensTraced hq).1
  · rw [heq]
    exact (addSockfd_opensTraced hq).2 hok

theorem inv_opens {s s' : Sys} {fd : Fd} (h : Inv s) (hfd : fd ∉ s.own)
    (hdummy : findThrmgrRwsocketLockfree s.g fd ≠ some none) (ho : OpensTraced s s' fd) :
    Inv s' := by
  have hfresh := h.fresh hfd hdummy
  rcases ho with rfl | ⟨g', hrolled, rfl⟩ | ⟨g', dev, ck, info, hadded, rfl⟩
  · exact h
  · refine h.of_old (h.listed.rolledBack hfresh hrolled) rfl (Nat.le_refl _) fun f i hl => ?_
    have hl : g'.ofrwHtbl.lookup f = some i := hl
    rw [hrolled.ofrw] at hl
    split at hl
    · cases hl
    · exact ⟨i, hl, rfl⟩
  · obtain ⟨m, -, hm⟩ := hadded.managed
    refine ⟨h.listed.added hfresh hadded, fun f i hl hthr => ?_, fun f i hl hthr => ?_⟩
    · have hl : g'.ofrwHtbl.lookup f = some i := hl
      rw [hadded.ofrw] at hl
      split at hl
      · rename_i hf
        rw [hf]
        exact List.mem_cons_self
      · exact List.mem_cons_of_mem _ (h.owned f i hl hthr)
    · have hl : g'.ofrwHtbl.lookup f = some i := hl
      rw [hadded.ofrw] at hl
      split at hl
      · obtain rfl := Option.some.inj hl
        rw [hm] at hthr
        cases hthr
      · exact h.numbered f i hl hthr

/-! ### The other calls -/

theorem inv_setRwUp {s : Sys} (h : Inv s) (fd : Fd) :
    Inv { s with g := (setRwUp s.g fd).2 } := by
  refine h.of_old (h.listed.setRwUp fd) rfl (Nat.le_refl _) fun f i hl => ?_
  have hl : (setRwUp s.g fd).2.ofrwHtbl.lookup f = some i := hl
  cases hfd : s.g.ofrwHtbl.lookup fd with
  | none =>
    unfold setRwUp at hl
    rw [hfd] at hl
    exact ⟨i, hl, rfl⟩
  | some info =>
    rw [setRwUp_of_entry hfd, lookup_insert_eq] at hl
    split at hl
    · rename_i hf
      obtain rfl := Option.some.inj hl
      exact ⟨info, hf ▸ hfd, rfl⟩
    · exact ⟨i, hl, rfl⟩

theorem inv_deliver {s : Sys} (h : Inv s) (fd : Fd) (newConn : Bool) (src : SockAddr)
    (buf : List UInt8) : Inv { s with g := (deliver s.g fd newConn src buf).1 } := by
  rcases Udp.Reply.deliver_cases s.g fd newConn src buf with heq | heq
  · rw [heq]
    exact h
  · rw [heq]
    exact inv_setRwUp h fd

theorem toNat_succ {n : UInt32} (h : n.toNat + 1 < 2 ^ 32) : (n + 1).toNat = n.toNat + 1 := by
  rw [UInt32.toNat_add]
  exact Nat.mod_eq_of_lt h

/-- The counter goes on. -/
theorem Inv.count {s : Sys} (h : Inv s) (hwrap : s.random.toNat + 1 < 2 ^ 32) :
    Inv { s with random := s.random + 1 } := by
  refine h.of_old h.listed rfl ?_ fun f i hl => ⟨i, hl, rfl⟩
  show s.random.toNat ≤ (s.random + 1).toNat
  rw [toNat_succ hwrap]
  exact Nat.le_succ _

/-- A dummy socket is entered under the next number. -/
theorem inv_atomicAdd {s : Sys} {src : SockAddr} {key : DevKey} {ck : ChannelKey}
    {a : Ret × Global} (h : Inv s) (hwrap : s.random.toNat + 1 < 2 ^ 32)
    (hown : (s.random + 1).toInt32 ∉ s.own)
    (ha : atomicAddUpdHtblsWithRwsocketLockfree s.g (s.random + 1).toInt32 src none key .udp ck =
      some a) : Inv { s with g := a.2, random := s.random + 1 } := by
  have hnumber : (s.random + 1).toInt32.toUInt32.toNat = s.random.toNat + 1 := toNat_succ hwrap
  have hfresh : (s.random + 1).toInt32 ∉ s.g.ofrwHtbl := by
    intro hmem
    obtain ⟨info, hl⟩ := mem_iff_lookup.mp hmem
    by_cases hthr : info.thrMgr = none
    · have hle := h.numbered _ info hl hthr
      omega
    · exact hown (h.owned _ info hl hthr)
  obtain ⟨hlisted, hsame | hentered⟩ := h.listed.atomicAdd hfresh ha
  · exact (h.count hwrap).of_old hlisted rfl (Nat.le_refl _) fun f i hl => ⟨i, hsame f ▸ hl, rfl⟩
  · refine ⟨hlisted, fun f i hl hthr => ?_, fun f i hl hthr => ?_⟩
    · have hl := (hentered f).symm.trans hl
      split at hl
      · obtain rfl := Option.some.inj hl
        exact absurd rfl hthr
      · exact h.owned f i hl hthr
    · have hl := (hentered f).symm.trans hl
      show f.toUInt32.toNat ≤ (s.random + 1).toNat
      split at hl
      · rename_i hf
        rw [hf, hnumber, toNat_succ hwrap]
      · exact (h.count hwrap).numbered f i hl hthr

theorem inv_datagram {s : Sys} {udpSockfd : Fd} {src : SockAddr} {data : List UInt8}
    {r : State × List Callback} (h : Inv s)
    (hok : oldConn s.g src = none →
      s.random.toNat + 1 < 2 ^ 32 ∧ (s.random + 1).toInt32 ∉ s.own)
    (hp : processUdpfdPollinFunc ⟨s.g, s.random⟩ udpSockfd src data = some r) :
    Inv { s with g := r.1.g, random := r.1.random } := by
  rcases Udp.Reply.pollin_cases hp with
    ⟨hg, hrandom | ⟨hnew, hrandom⟩⟩ | ⟨fd, newConn, hg, hrandom⟩ | ⟨key, a, ha, hg, hnew, hrandom⟩
  · rw [hg, hrandom]
    exact h
  · rw [hg, hrandom]
    exact h.count (hok hnew).1
  · rw [hg, hrandom]
    exact inv_deliver h fd newConn src _
  · rw [hg, hrandom]
    obtain ⟨hwrap, hown⟩ := hok hnew
    exact inv_deliver (inv_atomicAdd h hwrap hown ha) _ true src _

theorem inv_devRegister {s : Sys} {key : DevKey} {ver : Nat} {cb : Callbacks} {fd : Fd}
    {r : Ret × Sys} (h : Inv s) (hr : Traced.ccOfDevRegister s key ver cb fd = some r) :
    Inv r.2 := by
  obtain ⟨q, hq, rfl⟩ := Option.map_eq_some_iff.mp hr
  have hsub : ∀ f ∈ s.own, f ∈ (if s.g.ofdevType = .controller ∧ ¬(q.1 : Int) < 0
      then fd :: s.own else s.own) := by
    intro f hf
    split
    · exact List.mem_cons_of_mem _ hf
    · exact hf
  have hlisted : Listed q.2 ∧ q.2.ofrwHtbl = s.g.ofrwHtbl := by
    rcases devRegister_cases hq with ⟨-, heq⟩ | ⟨-, d, t, hempty, hg, hd⟩
    · rw [heq]
      exact ⟨h.listed, rfl⟩
    · have hrw : q.2.ofrwHtbl = s.g.ofrwHtbl := by rw [hg]
      exact ⟨h.listed.register hempty hrw hd, hrw⟩
  refine ⟨hlisted.1, fun f i hl hthr => ?_, fun f i hl hthr => ?_⟩
  · have hl : q.2.ofrwHtbl.lookup f = some i := hl
    rw [hlisted.2] at hl
    exact hsub f (h.owned f i hl hthr)
  · have hl : q.2.ofrwHtbl.lookup f = some i := hl
    rw [hlisted.2] at hl
    exact h.numbered f i hl hthr

theorem inv_setReal {s : Sys} (h : Inv s) (d : UInt64) (a : UInt8) (ck : ChannelKey) :
    Inv { s with g := (ccOfSetRealDpidAuxid s.g d a ck).2 } := by
  unfold ccOfSetRealDpidAuxid
  dsimp only
  split
  · exact h
  · exact ⟨h.listed.congr rfl fun f i hl => ⟨i, hl, rfl⟩, h.owned, h.numbered⟩

theorem inv_closeConn {s : Sys} {fd : Fd} {info : RwInfo} {closeRet : Int} {r : Ret × Sys}
    (h : Inv s) (hw : Workable s.g) (hl : s.g.ofrwHtbl.lookup fd = some info)
    (hc : Traced.closeConn s info.layer4Proto fd closeRet = some r) : Inv r.2 := by
  obtain ⟨q, hq, hr⟩ := Traced.closeConn_of_entry hl hc
  obtain ⟨d, hd, rfl⟩ := Option.map_eq_some_iff.mp hq
  obtain ⟨hok, dev, hdev, hclosed⟩ := delSockfd_spec hw.pooled hl hd
  rw [if_neg (by rw [hok]; decide)] at hr
  obtain rfl := hr
  refine ⟨h.listed.closed hl hdev hclosed, fun f i hf hthr => ?_, fun f i hf hthr => ?_⟩
  · have hf : d.2.ofrwHtbl.lookup f = some i := hf
    rw [hclosed.ofrw] at hf
    split at hf
    · cases hf
    · rename_i hne
      exact List.mem_filter.mpr ⟨h.owned f i hf hthr, by simpa using hne⟩
  · have hf : d.2.ofrwHtbl.lookup f = some i := hf
    rw [hclosed.ofrw] at hf
    split at hf
    · cases hf
    · exact h.numbered f i hf hthr

/-! ## Runs -/

theorem inv_step {s s' : Sys} {op : Op} (h : Inv s) (hw : Workable s.g) (hok : Apart s op)
    (hs : Traced.step s op = some s') : Inv s' := by
  cases op with
  | devRegister key ver cb fd =>
    obtain ⟨-, hs⟩ := Option.ite_none_left_eq_some.mp hs
    obtain ⟨r, hr, rfl⟩ := Option.map_eq_some_iff.mp hs
    exact inv_devRegister h hr
  | createChannel key ck proto fd block =>
    obtain ⟨hfd, hs⟩ := Option.ite_none_left_eq_some.mp hs
    obtain ⟨r, hr, rfl⟩ := Option.map_eq_some_iff.mp hs
    exact inv_opens h hfd hok (createChannel_opensTraced hr)
  | accept fd key ck block =>
    obtain ⟨hfd, hs⟩ := Option.ite_none_left_eq_some.mp hs
    obtain ⟨r, hr, rfl⟩ := Option.map_eq_some_iff.mp hs
    exact inv_opens h hfd hok (accept_opensTraced hr)
  | udpServer key fd block =>
    obtain ⟨hfd, hs⟩ := Option.ite_none_left_eq_some.mp hs
    obtain ⟨r, hr, rfl⟩ := Option.map_eq_some_iff.mp hs
    exact inv_opens h hfd hok (udpServer_opensTraced hr)
  | datagram fd src data =>
    obtain ⟨r, hr, rfl⟩ := Option.map_eq_some_iff.mp hs
    exact inv_datagram h hok hr
  | setReal d a ck =>
    obtain rfl := Option.some.inj hs
    exact inv_setReal h d a ck
  | destroyChannel ck closeRet =>
    obtain ⟨r, hr, rfl⟩ := Option.map_eq_some_iff.mp hs
    unfold Traced.ccOfDestroyChannel at hr
    split at hr
    · obtain rfl := Option.some.inj hr
      exact h
    · split at hr
      · obtain rfl := Option.some.inj hr
        exact h
      · rename_i info hl
        exact inv_closeConn h hw hl hr
  | closeConn fd closeRet =>
    obtain ⟨info, hl, hs⟩ := Option.bind_eq_some_iff.mp hs
    obtain ⟨r, hr, rfl⟩ := Option.map_eq_some_iff.mp hs
    exact inv_closeConn h hw hl hr
  | devFree key closeRet => exact hok.elim
  | devfreeIter key closeRet => exact hok.elim

instance (s : Sys) : (op : Op) → Decidable (Apart s op)
  | .createChannel _ _ _ fd _ | .accept fd _ _ _ | .udpServer _ fd _ =>
    inferInstanceAs (Decidable (findThrmgrRwsocketLockfree s.g fd ≠ some none))
  | .datagram _ src _ => inferInstanceAs (Decidable (oldConn s.g src = none →
      s.random.toNat + 1 < 2 ^ 32 ∧ (s.random + 1).toInt32 ∉ s.own))
  | .devFree _ _ | .devfreeIter _ _ => inferInstanceAs (Decidable False)
  | .devRegister _ _ _ _ | .setReal _ _ _ | .destroyChannel _ _ | .closeConn _ _ =>
    inferInstanceAs (Decidable True)

/-- A device with a connection is registered again, and then has another connection, a UDP server
and a client of it. -/
def registersAgain : List Op :=
  [.devRegister ⟨1, 2, 6633⟩ 0 ⟨0, 0, 0⟩ 4, .accept 5 ⟨1, 2, 6633⟩ ⟨0, 0⟩ ⟨0, 0⟩,
    .devRegister ⟨1, 2, 6633⟩ 0 ⟨0, 0, 0⟩ 6, .accept 7 ⟨1, 2, 6633⟩ ⟨0, 0⟩ ⟨0, 0⟩,
    .udpServer ⟨1, 2, 6633⟩ 8 ⟨0, 0⟩, .datagram 8 ⟨0x0100007f, 0x8813⟩ [1]]

end OfConnect.Pool.DevWalk

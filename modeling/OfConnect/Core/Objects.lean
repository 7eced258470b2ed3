import OfConnect.Core.Effects
import OfConnect.Lib.Owned
import OfConnect.Lib.Run

/-!
# Who owns the entries of the tables

`ofchannel_htbl` and `ofrw_htbl` release the keys and records they hold. The functions that
fill them allocate a key and a record and pass them on; `update_global_htbl_lockfree` makes
copies where the key is present. For `ofrw_htbl` the copies are what is inserted. For
`ofchannel_htbl` the call goes on with the objects it was given, so the table releases a key
that its caller then releases again, and `cc_of_set_real_dpid_auxid` passes objects from its
stack.

The tables by value are the ones of the other modules: `simulates_step`.
-/

namespace OfConnect.Core.Objects

open OfConnect.Lib.Tables OfConnect.Lib.Owned OfConnect.Lib.Run OfConnect.PollThr.Thread
open OfConnect.Core.State OfConnect.Core.Api

/-- The two tables with the objects in them. -/
structure Tables where
  ofchannelHtbl : Table ChannelKey (Slot ChannelInfo)
  ofrwHtbl : Table Fd (Slot RwInfo)
  ledger : Ledger

def start : Tables := ⟨∅, ∅, ⟨0, [], []⟩⟩

/-- What `ADD` of a present key does: it becomes an `UPD` and inserts the copies that were
made, or it stays an `ADD`. -/
inductive WhenPresent where
  | upd
  | add
  deriving DecidableEq, Repr

/-- `update_global_htbl_lockfree` for `ADD`, with `new_entry`. -/
def updateGlobalHtblAdd {K V : Type} [DecidableEq K] (whenPresent : WhenPresent)
    (htbl : Table K (Slot V)) (L : Ledger) (htblKey : K) (slot : Slot V) :
    Table K (Slot V) × Ledger × Bool :=
  let put (L : Ledger) (slot : Slot V) :=
    let r := hashTableInsert htbl L htblKey slot
    (r.1, r.2, decide (size htbl < size r.1))
  if htblKey ∈ htbl then
    let key := L.create true
    let infoData := key.2.create true
    match whenPresent with
    | .upd => put infoData.2 ⟨key.1, infoData.1, slot.val⟩
    | .add => put infoData.2 slot
  else put L slot

/-- `add_upd_ofrw_rwsocket`. -/
def addUpdOfrwRwsocket (s : Tables) (addFd : Fd) (thrMgr : Option MgrId) (proto : L4Type)
    (key : DevKey) (clientAddr : SockAddr) : Tables :=
  let ofrwKey := s.ledger.create true
  let ofrwInfo := ofrwKey.2.create true
  let r := updateGlobalHtblAdd .upd s.ofrwHtbl ofrwInfo.2 addFd
    ⟨ofrwKey.1, ofrwInfo.1, ⟨.down, thrMgr, key, clientAddr, proto⟩⟩
  { s with
    ofrwHtbl := r.1
    ledger := if r.2.2 then r.2.1 else r.2.1.release [ofrwKey.1] }

/-- `add_upd_ofchann_rwsocket_lockfree`. -/
def addUpdOfchannRwsocketLockfree (s : Tables) (key : ChannelKey) (rwsock : Fd) : Tables :=
  let ofchannelKey := s.ledger.create true
  let ofchannelInfo := ofchannelKey.2.create true
  let r := updateGlobalHtblAdd .add s.ofchannelHtbl ofchannelInfo.2 key
    ⟨ofchannelKey.1, ofchannelInfo.1, ⟨rwsock, 0, 0, 0, 0⟩⟩
  { s with
    ofchannelHtbl := r.1
    ledger := if r.2.2 then r.2.1 else r.2.1.release [ofchannelKey.1] }

/-- `del_ofrw_rwsocket_lockfree`. -/
def delOfrwRwsocketLockfree (s : Tables) (delFd : Fd) : Tables :=
  let r := hashTableRemove s.ofrwHtbl s.ledger delFd
  { s with ofrwHtbl := r.1, ledger := r.2 }

/-- `del_ofchann_rwsocket_lockfree`. -/
def delOfchannRwsocketLockfree (s : Tables) (rwsock : Fd) : Tables :=
  let r := hashTableForeachRemove (fun _ info => info.rwSockfd == rwsock) s.ofchannelHtbl s.ledger
  { s with ofchannelHtbl := r.1, ledger := r.2 }

/-- The entry that `cc_of_set_real_dpid_auxid` finds. -/
def realChannel (s : Tables) (dummyDpid : UInt64) (dummyAuxid : UInt8) : Option ChannelInfo :=
  ((s.ofchannelHtbl.lookup ⟨dummyDpid, dummyAuxid⟩).or
    (s.ofchannelHtbl.lookup ⟨dummyDpid, dummyDpid.toUInt8⟩)).map Slot.val

/-- `cc_of_set_real_dpid_auxid`; the new key and the new record are locals. -/
def ccOfSetRealDpidAuxid (s : Tables) (dummyDpid : UInt64) (dummyAuxid : UInt8)
    (key : ChannelKey) : Tables :=
  match realChannel s dummyDpid dummyAuxid with
  | none => s
  | some ofchannInfo =>
    let s := delOfchannRwsocketLockfree s dummyDpid.toUInt32.toInt32
    let ofchannKeyNew := s.ledger.create false
    let ofchannInfoNew := ofchannKeyNew.2.create false
    let r := updateGlobalHtblAdd .add s.ofchannelHtbl ofchannInfoNew.2 key
      ⟨ofchannKeyNew.1, ofchannInfoNew.1, ofchannInfo⟩
    { s with ofchannelHtbl := r.1, ledger := r.2.1 }

/-- The update to `CC_OF_RW_UP` in `tcp_accept` and in `process_udpfd_pollin_func`; key and
record are locals. -/
def setRwUp (s : Tables) (connfd : Fd) : Tables :=
  match s.ofrwHtbl.lookup connfd with
  | none => s
  | some slot =>
    let rwKey := s.ledger.create false
    let rwInfoNew := rwKey.2.create false
    let r := updateGlobalHtblAdd .upd s.ofrwHtbl rwInfoNew.2 connfd
      ⟨rwKey.1, rwInfoNew.1, { slot.val with state := .up }⟩
    { s with ofrwHtbl := r.1, ledger := r.2.1 }

/-! ## Runs -/

inductive Op where
  | addUpdOfrw (addFd : Fd) (thrMgr : Option MgrId) (proto : L4Type) (key : DevKey)
      (clientAddr : SockAddr)
  | addUpdOfchann (key : ChannelKey) (rwsock : Fd)
  | setReal (dummyDpid : UInt64) (dummyAuxid : UInt8) (key : ChannelKey)
  | setRwUp (connfd : Fd)
  | delOfrw (delFd : Fd)
  | delOfchann (rwsock : Fd)

def step (s : Tables) : Op → Option Tables
  | .addUpdOfrw addFd thrMgr proto key clientAddr =>
    some (addUpdOfrwRwsocket s addFd thrMgr proto key clientAddr)
  | .addUpdOfchann key rwsock => some (addUpdOfchannRwsocketLockfree s key rwsock)
  | .setReal dummyDpid dummyAuxid key => some (ccOfSetRealDpidAuxid s dummyDpid dummyAuxid key)
  | .setRwUp connfd => some (setRwUp s connfd)
  | .delOfrw delFd => some (delOfrwRwsocketLockfree s delFd)
  | .delOfchann rwsock => some (delOfchannRwsocketLockfree s rwsock)

/-- Everything the tables hold. -/
def Tables.held (s : Tables) : List Obj := Lib.Owned.held s.ofchannelHtbl ++ Lib.Owned.held s.ofrwHtbl

/-- Only heap objects are inserted, no object is released twice, and none that a table holds
has been released. -/
structure LedgerOk (s : Tables) : Prop where
  heap : ∀ o ∈ s.ledger.inserted, o.heap = true
  once : ∀ o, s.ledger.released.count o ≤ 1
  live : ∀ o ∈ s.held, s.ledger.released.count o = 0

/-- A channel is added under a key that is new, and `cc_of_set_real_dpid_auxid` finds no
channel. -/
def Owns (s : Tables) : Op → Prop
  | .addUpdOfchann key _ => key ∉ s.ofchannelHtbl
  | .setReal dummyDpid dummyAuxid _ => realChannel s dummyDpid dummyAuxid = none
  | .addUpdOfrw _ _ _ _ _ => True
  | .setRwUp _ => True
  | .delOfrw _ => True
  | .delOfchann _ => True

/-! ## One update -/

section

variable {K V : Type} [DecidableEq K] {htbl : Table K (Slot V)} {L : Ledger} {k : K} {slot : Slot V}

theorem size_lt_hashTableInsert_iff :
    size htbl < size (hashTableInsert htbl L k slot).1 ↔ k ∉ htbl := by
  unfold hashTableInsert
  split
  · exact size_lt_insert_iff htbl k _
  · exact size_lt_insert_iff htbl k _

theorem updateAdd_of_new (w : WhenPresent) (h : k ∉ htbl) :
    updateGlobalHtblAdd w htbl L k slot =
      ((hashTableInsert htbl L k slot).1, (hashTableInsert htbl L k slot).2, true) := by
  unfold updateGlobalHtblAdd
  rw [if_neg h]
  simp only [size_lt_hashTableInsert_iff, h, not_false_eq_true, decide_true]

/-- The copies are inserted. -/
theorem updateAdd_upd_of_present (h : k ∈ htbl) :
    updateGlobalHtblAdd .upd htbl L k slot =
      let r := hashTableInsert htbl { L with next := L.next + 2 } k
        ⟨⟨L.next, true⟩, ⟨L.next + 1, true⟩, slot.val⟩
      (r.1, r.2, false) := by
  unfold updateGlobalHtblAdd
  rw [if_pos h]
  simp only [size_lt_hashTableInsert_iff, h, not_true_eq_false, decide_false]
  rfl

/-- The copies are made, and left alone. -/
theorem updateAdd_add_of_present (h : k ∈ htbl) :
    updateGlobalHtblAdd .add htbl L k slot =
      let r := hashTableInsert htbl { L with next := L.next + 2 } k slot
      (r.1, r.2, false) := by
  unfold updateGlobalHtblAdd
  rw [if_pos h]
  simp only [size_lt_hashTableInsert_iff, h, not_true_eq_false, decide_false]
  rfl

theorem updateAdd_inserted_of_add :
    (updateGlobalHtblAdd .add htbl L k slot).2.1.inserted = L.inserted ++ slot.objs := by
  by_cases h : k ∈ htbl
  · rw [updateAdd_add_of_present h]
    exact hashTableInsert_inserted _ _ _ _
  · rw [updateAdd_of_new .add h]
    exact hashTableInsert_inserted _ _ _ _

end

/-! ## The tables by value -/

/-- The tables `g` have the values of `s`. -/
structure Simulates (s : Tables) (g : Global) : Prop where
  ofchannel : Erases s.ofchannelHtbl g.ofchannelHtbl
  ofrw : Erases s.ofrwHtbl g.ofrwHtbl

/-- The same call on the tables by value. -/
def valueStep (g : Global) : Op → Global
  | .addUpdOfrw addFd thrMgr proto key clientAddr =>
    (State.addUpdOfrwRwsocket g addFd thrMgr proto key clientAddr).2
  | .addUpdOfchann key rwsock => (State.addUpdOfchannRwsocketLockfree g key rwsock).2
  | .setReal dummyDpid dummyAuxid key => (Api.ccOfSetRealDpidAuxid g dummyDpid dummyAuxid key).2
  | .setRwUp connfd => (Api.setRwUp g connfd).2
  | .delOfrw delFd => (State.delOfrwRwsocketLockfree g delFd).2
  | .delOfchann rwsock => (State.delOfchannRwsocketLockfree g rwsock).2

theorem erases_updateAdd {K V : Type} [DecidableEq K] {t : Table K (Slot V)} {u : Table K V}
    (h : Erases t u) (w : WhenPresent) (L : Ledger) (k : K) (slot : Slot V) :
    Erases (updateGlobalHtblAdd w t L k slot).1 (u.insert k slot.val) := by
  by_cases hmem : k ∈ t
  · cases w with
    | upd =>
      rw [updateAdd_upd_of_present hmem]
      exact h.insert _ k ⟨⟨L.next, true⟩, ⟨L.next + 1, true⟩, slot.val⟩
    | add =>
      rw [updateAdd_add_of_present hmem]
      exact h.insert _ k slot
  · rw [updateAdd_of_new w hmem]
    exact h.insert _ k slot

theorem Simulates.realChannel_eq {s : Tables} {g : Global} (h : Simulates s g) (d : UInt64)
    (a : UInt8) :
    (g.ofchannelHtbl.lookup ⟨d, a⟩).or (g.ofchannelHtbl.lookup ⟨d, d.toUInt8⟩) =
      realChannel s d a := by
  rw [h.ofchannel, h.ofchannel]
  unfold realChannel
  cases s.ofchannelHtbl.lookup ⟨d, a⟩ with
  | none => rfl
  | some slot => rfl

/-- The tables with objects and the tables by value go together. -/
theorem simulates_step {s s' : Tables} {g : Global} {op : Op} (h : Simulates s g)
    (hs : step s op = some s') : Simulates s' (valueStep g op) := by
  cases op with
  | addUpdOfrw fd thrMgr proto key clientAddr =>
    obtain rfl := Option.some.inj hs
    exact ⟨h.ofchannel, erases_updateAdd h.ofrw _ _ fd _⟩
  | addUpdOfchann key rwsock =>
    obtain rfl := Option.some.inj hs
    exact ⟨erases_updateAdd h.ofchannel _ _ key _, h.ofrw⟩
  | setReal d a key =>
    obtain rfl := Option.some.inj hs
    simp only [valueStep, Api.ccOfSetRealDpidAuxid, ccOfSetRealDpidAuxid, h.realChannel_eq]
    cases realChannel s d a with
    | none => exact h
    | some info =>
      have hdel := h.ofchannel.foreachRemove s.ledger
        (fun _ info => info.rwSockfd == d.toUInt32.toInt32)
      exact ⟨erases_updateAdd hdel _ _ key _, h.ofrw⟩
  | setRwUp fd =>
    obtain rfl := Option.some.inj hs
    simp only [valueStep, Api.setRwUp, setRwUp, h.ofrw fd]
    cases hl : s.ofrwHtbl.lookup fd with
    | none => exact h
    | some slot => exact ⟨h.ofchannel, erases_updateAdd h.ofrw _ _ fd _⟩
  | delOfrw fd =>
    obtain rfl := Option.some.inj hs
    refine ⟨h.ofchannel, fun f => ?_⟩
    have hremove := h.ofrw.remove s.ledger fd f
    rw [lookup_erase_eq] at hremove
    exact (Effects.lookup_delOfrw g fd f).trans hremove
  | delOfchann rwsock =>
    obtain rfl := Option.some.inj hs
    exact ⟨h.ofchannel.foreachRemove s.ledger _, h.ofrw⟩

/-! ## Conservation -/

/-- The ledger is in order: what is held and released is accounted for, and what was inserted
is from the heap. -/
structure InOrder (s : Tables) : Prop where
  conserved : Conserved s.ledger s.held
  heap : ∀ o ∈ s.ledger.inserted, o.heap = true

theorem ledgerOk_of_inOrder {s : Tables} (h : InOrder s) : LedgerOk s :=
  ⟨h.heap, h.conserved.released_once, fun _ ho =>
    List.count_eq_zero.mpr (h.conserved.not_released ho)⟩

theorem InOrder.channels {s : Tables} (h : InOrder s) :
    Conserved s.ledger (held s.ofrwHtbl ++ held s.ofchannelHtbl) :=
  h.conserved.perm List.perm_append_comm

/-- Two heap objects more were inserted. -/
theorem InOrder.heap_inserted {s : Tables} (h : InOrder s) (i j : Nat) :
    ∀ o ∈ s.ledger.inserted ++ [⟨i, true⟩, ⟨j, true⟩], o.heap = true := by
  intro o ho
  rcases List.mem_append.mp ho with ho | ho
  · exact h.heap o ho
  · simp only [List.mem_cons, List.not_mem_nil, or_false] at ho
    rcases ho with rfl | rfl
    · rfl
    · rfl

theorem inOrder_addUpdOfrw {s : Tables} (h : InOrder s) (fd : Fd) (thrMgr : Option MgrId)
    (proto : L4Type) (key : DevKey) (clientAddr : SockAddr) :
    InOrder (addUpdOfrwRwsocket s fd thrMgr proto key clientAddr) := by
  unfold addUpdOfrwRwsocket
  by_cases hmem : fd ∈ s.ofrwHtbl
  · -- the copies go into the table, and the caller releases the key it made
    simp only [updateAdd_upd_of_present hmem, Ledger.create, Bool.false_eq_true, if_false]
    refine ⟨h.conserved.insert fd _ _ (by omega) ?_ ?_, fun o ho => ?_⟩
    · simp [Slot.objs]
      omega
    · simp [Slot.objs]
      omega
    · exact h.heap_inserted _ _ o (by simpa [Ledger.release, Slot.objs] using ho)
  · simp only [updateAdd_of_new _ hmem, Ledger.create, if_true]
    refine ⟨?_, fun o ho => ?_⟩
    · exact h.conserved.insert_created fd _ (Nat.le_refl _) (Nat.lt_succ_self _)
    · exact h.heap_inserted _ _ o (by simpa [Slot.objs] using ho)

theorem inOrder_addUpdOfchann {s : Tables} (h : InOrder s) {key : ChannelKey}
    (hnew : key ∉ s.ofchannelHtbl) (rwsock : Fd) :
    InOrder (addUpdOfchannRwsocketLockfree s key rwsock) := by
  unfold addUpdOfchannRwsocketLockfree
  simp only [updateAdd_of_new _ hnew, Ledger.create, if_true]
  refine ⟨?_, fun o ho => ?_⟩
  · exact (h.channels.insert_created key _ (Nat.le_refl _) (Nat.lt_succ_self _)).perm
      List.perm_append_comm
  · exact h.heap_inserted _ _ o (by simpa [Slot.objs] using ho)

/-- The locals of the update are copied, so the table never sees them. -/
theorem inOrder_setRwUp {s : Tables} (h : InOrder s) (fd : Fd) : InOrder (setRwUp s fd) := by
  unfold setRwUp
  cases hl : s.ofrwHtbl.lookup fd with
  | none => exact h
  | some slot =>
    have hmem : fd ∈ s.ofrwHtbl := AList.lookup_isSome.mp (by rw [hl]; rfl)
    simp only [updateAdd_upd_of_present hmem, Ledger.create]
    refine ⟨?_, fun o ho => ?_⟩
    · exact h.conserved.insert_created fd _ (by omega) (by omega)
    · exact h.heap_inserted _ _ o (by simpa [Slot.objs] using ho)

theorem inOrder_delOfrw {s : Tables} (h : InOrder s) (fd : Fd) :
    InOrder (delOfrwRwsocketLockfree s fd) :=
  ⟨h.conserved.remove (hashTableRemove_next _ _ _) (hashTableRemove_perm _ _ _),
    fun o ho => h.heap o (by simpa [delOfrwRwsocketLockfree] using ho)⟩

theorem inOrder_delOfchann {s : Tables} (h : InOrder s) (rwsock : Fd) :
    InOrder (delOfchannRwsocketLockfree s rwsock) := by
  have hperm := hashTableForeachRemove_perm (fun _ info => info.rwSockfd == rwsock)
    s.ofchannelHtbl s.ledger
  have hrest : Conserved (delOfchannRwsocketLockfree s rwsock).ledger _ :=
    h.channels.remove rfl hperm
  exact ⟨hrest.perm List.perm_append_comm, h.heap⟩

theorem inOrder_step {s s' : Tables} {op : Op} (h : InOrder s) (hok : Owns s op)
    (hs : step s op = some s') : InOrder s' := by
  cases op with
  | addUpdOfrw fd thrMgr proto key clientAddr =>
    obtain rfl := Option.some.inj hs
    exact inOrder_addUpdOfrw h fd thrMgr proto key clientAddr
  | addUpdOfchann key rwsock =>
    obtain rfl := Option.some.inj hs
    exact inOrder_addUpdOfchann h hok rwsock
  | setReal d a key =>
    obtain rfl := Option.some.inj hs
    unfold ccOfSetRealDpidAuxid
    rw [show realChannel s d a = none from hok]
    exact h
  | setRwUp fd =>
    obtain rfl := Option.some.inj hs
    exact inOrder_setRwUp h fd
  | delOfrw fd =>
    obtain rfl := Option.some.inj hs
    exact inOrder_delOfrw h fd
  | delOfchann rwsock =>
    obtain rfl := Option.some.inj hs
    exact inOrder_delOfchann h rwsock

/-! ## What goes wrong -/

/-- The key that is passed for a present channel is released by the table and by the caller. -/
theorem released_twice {s : Tables} {key : ChannelKey} (h : key ∈ s.ofchannelHtbl) (rwsock : Fd) :
    ¬LedgerOk (addUpdOfchannRwsocketLockfree s key rwsock) := by
  intro hok
  obtain ⟨old, hold⟩ := Option.isSome_iff_exists.mp (AList.lookup_isSome.mpr h)
  have honce := hok.once ⟨s.ledger.next, true⟩
  unfold addUpdOfchannRwsocketLockfree at honce
  simp only [updateAdd_add_of_present h, Ledger.create, Bool.false_eq_true, if_false,
    hashTableInsert, hold, Ledger.release, List.count_append, List.count_cons_self] at honce
  omega

/-- The new key of a channel that is found is a local. -/
theorem local_inserted {s : Tables} {d : UInt64} {a : UInt8} {info : ChannelInfo}
    (h : realChannel s d a = some info) (key : ChannelKey) :
    ¬LedgerOk (ccOfSetRealDpidAuxid s d a key) := by
  intro hok
  unfold ccOfSetRealDpidAuxid at hok
  rw [h] at hok
  have hheap := hok.heap
  dsimp only at hheap
  rw [updateAdd_inserted_of_add] at hheap
  have hkey := hheap _ (List.mem_append_right _ List.mem_cons_self)
  cases hkey

theorem owns_of_ledgerOk {s s' : Tables} {op : Op} (hs : step s op = some s') (h : LedgerOk s') :
    Owns s op := by
  cases op with
  | addUpdOfchann key rwsock =>
    obtain rfl := Option.some.inj hs
    exact fun hmem => released_twice hmem rwsock h
  | setReal d a key =>
    obtain rfl := Option.some.inj hs
    cases hr : realChannel s d a with
    | none => exact hr
    | some info => exact absurd h (local_inserted hr key)
  | addUpdOfrw => trivial
  | setRwUp => trivial
  | delOfrw => trivial
  | delOfchann => trivial

/-- The ledger is in order throughout a sequence of calls exactly if no call adds a channel
under a present key or gives a channel its real key. -/
theorem ledger_ok_iff_owns (ops : List Op) :
    Always step LedgerOk start ops ↔ Guarded step Owns start ops := by
  constructor
  · intro h
    exact h.guarded fun s op s' hs hok => owns_of_ledgerOk hs hok
  · intro h
    have hstart : InOrder start := ⟨⟨List.nodup_nil, fun o ho => by cases ho⟩, fun o ho => by cases ho⟩
    have hall : Always step InOrder start ops :=
      always_of_guarded (fun s op s' h hok hs => inOrder_step h hok hs) hstart h
    exact hall.mono fun s h => ledgerOk_of_inOrder h

/-- A channel is added again under its key. And a controller enters a channel and learns its
real key. -/
theorem key_released_twice :
    ¬Always step LedgerOk start [.addUpdOfchann ⟨7, 0⟩ 5, .addUpdOfchann ⟨7, 0⟩ 5] ∧
    ¬Always step LedgerOk start
      [.addUpdOfchann (dummyKey 5) 5, .setReal (dummyKey 5).dpId (dummyKey 5).auxId ⟨42, 0⟩] := by
  constructor
  · intro h
    have honce := (h.last rfl).once ⟨2, true⟩
    revert honce
    decide
  · intro h
    have hheap := (h.last rfl).heap
    revert hheap
    decide

end OfConnect.Core.Objects

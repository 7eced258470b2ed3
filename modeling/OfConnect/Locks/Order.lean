import OfConnect.Locks.Programs

/-!
# The order of the locks

Every function gives its locks back in the order opposite to the one it took them in, and
takes them in one order, with `cc_of_lib_free` as the one exception. No function waits on a
condition variable, or joins a thread, while it holds the mutex of another one.
-/

namespace OfConnect.Locks.Order

open OfConnect.Lib.Run OfConnect.Lib.Monitor OfConnect.Locks.Programs

def rank : Lock → Nat
  | .ofdevHtbl => 0
  | .ofchannelHtbl => 1
  | .ofrwHtbl => 2
  | .ofrwPollthrList => 3
  | .addDelPipeCv _ => 4
  | .adpThrInitCv _ => 4

theorem rank_mutex (c : Cond) : rank (system.mutex c) = 4 := by cases c <;> rfl

/-- Only poll threads are waited for, and the listen thread not under the lock of the pool. -/
def mayWait (H : List Lock) (t : Tid) : Bool :=
  (H.all fun h => rank h < 4) &&
    match t with
    | .app _ => false
    | .poll .listen => Lock.ofrwPollthrList ∉ H
    | .poll (.rw _) => true

/-- The second alternative for `lock` is the pair that `cc_of_lib_free` takes the other way. -/
def ordered (H : List Lock) : Op → Bool
  | .lock l => (H.all fun h => rank h < rank l) || (l = .ofchannelHtbl && H = [.ofrwHtbl])
  | .await c => mayWait H (system.server c)
  | .join t => mayWait H t
  | _ => true

/-- `Tracks` for the programs of this library. -/
abbrev Keeps (H : List Lock) (ops : List Op) (K : List Lock) : Prop :=
  Tracks system ordered H ops K

/-! ## The shared pieces -/

theorem check_lock {H : List Lock} {l : Lock} (hl : ∀ h ∈ H, rank h < rank l) :
    check system ordered H (.lock l) = some (l :: H) := by
  have hmem : l ∉ H := fun h => lt_irrefl _ (hl l h)
  have hok : ordered H (.lock l) = true := by
    simp only [ordered, Bool.or_eq_true, List.all_eq_true, decide_eq_true_eq]
    exact .inl hl
  simp [check, hok, held, acquired, hmem]

theorem check_unlock (H : List Lock) (l : Lock) :
    check system ordered (l :: H) (.unlock l) = some H := by
  simp [check, ordered, held, acquired, released]

theorem keeps_locked {H : List Lock} {l : Lock} {body : List Op}
    (hl : ∀ h ∈ H, rank h < rank l) (hb : Keeps (l :: H) body (l :: H)) :
    Keeps H (locked l body) H := by
  have hunlock : Keeps (l :: H) [.unlock l] H := by
    rw [Keeps, Tracks, run_cons, check_unlock]
    rfl
  unfold locked Keeps Tracks
  rw [run_cons, check_lock hl]
  exact hb.append hunlock

theorem keeps_lockedTables {body : List Op}
    (hb : Keeps [.ofrwHtbl, .ofchannelHtbl, .ofdevHtbl] body
      [.ofrwHtbl, .ofchannelHtbl, .ofdevHtbl]) : Keeps [] (lockedTables body) [] :=
  keeps_locked (by decide) (keeps_locked (by decide) (keeps_locked (by decide) hb))

/-- The request and its acknowledgement, on either condition variable of a manager. -/
theorem keeps_handshake {H : List Lock} {c : Cond} (hH : ∀ h ∈ H, rank h < 4)
    (hw : mayWait H (system.server c) = true) :
    Keeps (system.mutex c :: H) [.sleep c, .await c, .unlock (system.mutex c)] H := by
  have hmem : system.mutex c ∉ H := by
    intro h
    have hlt := hH _ h
    rw [rank_mutex] at hlt
    omega
  have hsleep : check system ordered (system.mutex c :: H) (.sleep c) = some H := by
    simp [check, ordered, held, acquired, released]
  have hawait : check system ordered H (.await c) = some (system.mutex c :: H) := by
    simp [check, ordered, held, acquired, hmem, hw]
  unfold Keeps Tracks
  rw [run_cons, hsleep, Option.bind_some, run_cons, hawait, Option.bind_some, run_cons,
    check_unlock]
  rfl

theorem keeps_addDelFd {H : List Lock} {m : Mgr} {r : Request} (hH : ∀ h ∈ H, rank h < 4)
    (hw : mayWait H (.poll m) = true) : Keeps H (adpThrMgrAddDelFd m r) H := by
  unfold adpThrMgrAddDelFd Keeps Tracks
  rw [run_cons, check_lock hH, Option.bind_some, run_cons]
  exact keeps_handshake (c := .addDelPipe m) hH hw

theorem keeps_addSocket {m : Mgr} {full : Bool} : Keeps [] (addSocket m full) [] := by
  unfold addSocket
  split
  · rfl
  · exact keeps_addDelFd (by decide) (by cases m <;> rfl)

theorem keeps_getCount {H : List Lock} (hH : ∀ h ∈ H, rank h < 3) :
    Keeps H ccGetCountRwPollthrSafe H :=
  keeps_locked hH rfl

theorem keeps_create {n : Nat} : Keeps [] (ccCreateRwPollthrSafe n) [] := by
  have hnew : Keeps [] (adpThrMgrNew (.rw n)) [] := by
    refine Tracks.append ?_ (keeps_addDelFd (by decide) (by simp [mayWait]))
    have hlock : check system ordered [] (.lock (.adpThrInitCv (.rw n))) =
        some [.adpThrInitCv (.rw n)] := check_lock (by simp)
    unfold Tracks
    rw [run_cons]
    show run _ [] _ = _
    rw [run_cons, hlock]
    exact keeps_handshake (c := .adpThrInit (.rw n)) (by decide) rfl
  have hcount : Keeps [] ccGetCountRwPollthrSafe [] := keeps_getCount (by decide)
  exact (((hcount.append hnew).append hcount).append hcount).append hcount

theorem keeps_findOrCreate {n : Nat} {p : Pool} :
    Keeps [] (ccFindOrCreateRwPollthrSafe n p) [] := by
  have hcount : Keeps [] ccGetCountRwPollthrSafe [] := keeps_getCount (by decide)
  cases p with
  | empty => exact hcount.append keeps_create
  | exhausted => exact (hcount.append hcount).append keeps_create
  | available => exact hcount.append hcount

theorem keeps_addSockfd {o : Opening} : Keeps [] (ccAddSockfdRwPollthrSafe o) [] := by
  have htables : Keeps [] (lockedTables []) [] := keeps_lockedTables rfl
  refine (keeps_findOrCreate.append htables).append ?_
  split
  · exact keeps_addSocket
  · exact htables

theorem keeps_closeConn {c : Closing} :
    Keeps [.ofrwHtbl, .ofchannelHtbl, .ofdevHtbl] (closeConn c)
      [.ofrwHtbl, .ofchannelHtbl, .ofdevHtbl] := by
  unfold closeConn
  split
  · rfl
  · refine ((keeps_addDelFd (by decide) (by simp [mayWait, rank])).append
      (keeps_getCount (by decide))).append ?_
    split
    · rfl
    · exact keeps_getCount (by decide)

theorem keeps_closeDevice {closings : List Closing} :
    Keeps [.ofrwHtbl, .ofchannelHtbl, .ofdevHtbl] (closeDevice closings)
      [.ofrwHtbl, .ofchannelHtbl, .ofdevHtbl] :=
  (Tracks.flatMap closings fun _ _ => keeps_closeConn).append
    (keeps_addDelFd (by decide) (by simp [mayWait, rank]))

theorem keeps_mgrFree {H : List Lock} {m : Mgr} (hH : ∀ h ∈ H, rank h < 4)
    (hw : mayWait H (.poll m) = true) : Keeps H (adpThrMgrFree m) H := by
  refine (keeps_addDelFd hH hw).append ?_
  unfold Tracks
  rw [run_cons]
  simp [check, ordered, held, acquired, released, hw]

theorem keeps_libFree {devs : List (List Closing)} {pool : List Nat} :
    Keeps [] (ccOfLibFree devs pool) [] := by
  have hdevs : Keeps [] (locked .ofdevHtbl (devs.flatMap ccOfDevFreeLockfree)) [] := by
    refine keeps_locked (by decide) (Tracks.flatMap devs fun closings _ => ?_)
    exact keeps_locked (by decide) (keeps_locked (by decide) keeps_closeDevice)
  have hrest : Keeps [] (locked .ofrwHtbl (locked .ofchannelHtbl [])) [] := rfl
  have hlisten : Keeps [] (adpThrMgrFree .listen) [] :=
    keeps_mgrFree (by decide) (by simp [mayWait])
  have hpool : Keeps [] (locked .ofrwPollthrList (pool.flatMap fun n => adpThrMgrFree (.rw n)))
      [] := by
    refine keeps_locked (by decide) (Tracks.flatMap pool fun n _ => ?_)
    exact keeps_mgrFree (by decide) (by simp [mayWait, rank])
  exact ((hdevs.append hrest).append hlisten).append hpool

/-! ## Whole jobs -/

/-- What `recv_func`, and `accept_chann_func` on UDP, may call: they run under the three
table locks, and only a call without a message returns before it takes one of them. -/
def fitsTables : ApiCall → Bool
  | .ccOfSendPkt .nullMsg => true
  | _ => false

/-- What `accept_chann_func` may call on TCP, under `ofdev_htbl_lock`. -/
def fitsDevice : ApiCall → Bool
  | .ccOfDestroyChannel _ => false
  | _ => true

/-- The callbacks that the job runs keep to what they may call. -/
def callsFit : Job → Bool
  | .listenfdPollin (some (.announced _)) acceptChannFunc => acceptChannFunc.all fitsDevice
  | .tcpfdPollin .delivered recvFunc => recvFunc.all fitsTables
  | .udpfdPollin .delivered _ recvFunc => recvFunc.all fitsTables
  | .udpfdPollin .announced acceptChannFunc recvFunc =>
    acceptChannFunc.all fitsTables && recvFunc.all fitsTables
  | _ => true

theorem keeps_api {c : ApiCall} : Keeps [] c.ops [] := by
  cases c with
  | ccOfSendPkt s => cases s <;> rfl
  | ccOfSetRealDpidAuxid => rfl
  | ccOfDestroyChannel d =>
    cases d with
    | noChannel => rfl
    | noEntry => rfl
    | close c => exact keeps_lockedTables keeps_closeConn

theorem keeps_of_fitsTables {c : ApiCall} (h : fitsTables c = true) :
    Keeps [.ofrwHtbl, .ofchannelHtbl, .ofdevHtbl] c.ops
      [.ofrwHtbl, .ofchannelHtbl, .ofdevHtbl] := by
  unfold fitsTables at h
  split at h
  · rfl
  · cases h

theorem keeps_of_fitsDevice {c : ApiCall} (h : fitsDevice c = true) :
    Keeps [.ofdevHtbl] c.ops [.ofdevHtbl] := by
  cases c with
  | ccOfSendPkt s => cases s <;> rfl
  | ccOfSetRealDpidAuxid => rfl
  | ccOfDestroyChannel d => cases h

theorem keeps_callback {H : List Lock} {fits : ApiCall → Bool} {calls : List ApiCall}
    (hfit : ∀ c, fits c = true → Keeps H c.ops H) (h : calls.all fits = true) :
    Keeps H (callback calls) H := by
  unfold callback Keeps Tracks
  rw [run_cons]
  exact Tracks.flatMap calls fun c hc => hfit c (List.all_eq_true.mp h c hc)

theorem keeps_recvFunc {calls : List ApiCall} (h : calls.all fitsTables = true) :
    Keeps [.ofrwHtbl, .ofchannelHtbl, .ofdevHtbl] (callback calls)
      [.ofrwHtbl, .ofchannelHtbl, .ofdevHtbl] :=
  keeps_callback (fun _ => keeps_of_fitsTables) h

theorem keeps_tcpAccept {a : Accepting} {calls : List ApiCall}
    (h : callsFit (.listenfdPollin (some a) calls) = true) :
    Keeps [] (tcpAccept (callback calls) a) [] := by
  have hofrw : Keeps [] (locked .ofrwHtbl []) [] := rfl
  cases a with
  | failed => rfl
  | refused o => exact keeps_addSockfd
  | noDevice o =>
    have hofdev : Keeps [] (locked .ofdevHtbl []) [] := rfl
    exact keeps_addSockfd.append hofdev
  | announced o =>
    have hofdev : Keeps [] (locked .ofdevHtbl (callback calls)) [] :=
      keeps_locked (by decide) (keeps_callback (fun _ => keeps_of_fitsDevice) h)
    exact (keeps_addSockfd.append hofdev).append hofrw

/-- Every job whose callbacks keep to what they may call takes its locks in order, gives
them all back, and takes none that it holds. -/
theorem keeps_ops {j : Job} (h : callsFit j = true) : Keeps [] j.ops [] := by
  have htables : Keeps [] (lockedTables []) [] := keeps_lockedTables rfl
  cases j with
  | api c => exact keeps_api
  | ccOfCreateChannel o =>
    cases o with
    | none => rfl
    | some o => exact keeps_addSockfd
  | ccOfDevRegister controller full =>
    have hofdev : Keeps [] (locked .ofdevHtbl []) [] := rfl
    apply hofdev.append
    split
    · exact keeps_addSocket
    · rfl
  | ccOfDevFree closings => exact keeps_lockedTables keeps_closeDevice
  | ccOfLibFree devs pool => exact keeps_libFree
  | listenfdPollin a calls =>
    cases a with
    | none => rfl
    | some a =>
      have hofdev : Keeps [] (locked .ofdevHtbl []) [] := rfl
      exact hofdev.append (keeps_tcpAccept h)
  | tcpfdPollin r calls =>
    cases r with
    | failed => rfl
    | dropped => exact htables
    | delivered => exact keeps_lockedTables (keeps_recvFunc h)
  | udpfdPollin r acceptCalls recvCalls =>
    cases r with
    | failed => rfl
    | dropped => exact htables
    | delivered => exact keeps_lockedTables (keeps_recvFunc h)
    | announced =>
      obtain ⟨ha, hr⟩ := Bool.and_eq_true_iff.mp h
      exact keeps_lockedTables ((keeps_recvFunc ha).append (keeps_recvFunc hr))
  | udpfdPollout => rfl
  | priPipe m => exact keeps_locked (by simp) rfl
  | selfDestruct m =>
    have hsignal : Keeps [] (locked (.addDelPipeCv m) [.signal (.addDelPipe m)]) [] :=
      keeps_locked (by simp) rfl
    exact hsignal.append rfl
  | comeUp m => exact keeps_locked (by simp) rfl

end OfConnect.Locks.Order

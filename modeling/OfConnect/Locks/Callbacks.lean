import OfConnect.Locks.Order

/-!
# Callbacks that use the API

The callbacks of the application run in poll threads, and under locks: `recv_func` and the
UDP `accept_chann_func` under the three table locks, the TCP `accept_chann_func` under
`ofdev_htbl_lock`. The mutexes are not recursive, so a callback that calls a function which
takes one of them hangs its thread. Sending a message, giving a channel its real name and
destroying a channel all take `ofchannel_htbl_lock`; only the last one takes
`ofdev_htbl_lock`.
-/

namespace OfConnect.Locks.Callbacks

open OfConnect.Lib.Run OfConnect.Lib.Monitor OfConnect.Locks.Programs OfConnect.Locks.Order

def isTable : Lock → Bool
  | .ofdevHtbl => true
  | .ofchannelHtbl => true
  | .ofrwHtbl => true
  | _ => false

/-- No thread is about to take a table lock that it holds. -/
def NoRelock (s : State Tid Lock Cond Request) : Prop :=
  ∀ t l rest, s.todo t = .lock l :: rest → isTable l = true → s.owner l ≠ some t

theorem noRelock_of_tracked {s : State Tid Lock Cond Request}
    (h : Tracked system ordered s) : NoRelock s := by
  intro t l rest hn _ hown
  obtain ⟨H, hH⟩ := h t
  obtain ⟨-, K, hK, -⟩ := hH.next hn
  have hmem : l ∈ H := (hH.mem l).mpr hown
  simp [held, acquired, hmem] at hK

/-- Jobs are started with callbacks that keep to what they may call. -/
def CallsFit (_ : State Tid Lock Cond Request) : Label Tid Job → Prop
  | .start _ j => callsFit j = true
  | .exec _ _ => True

/-- Any number of application and poll threads, in any order, with any callbacks that
make no call which takes a lock their thread holds. -/
theorem no_relock_of_calls_fit (acts : List (Label Tid Job))
    (hg : Guarded (step system) CallsFit idle acts) :
    Always (step system) NoRelock idle acts := by
  have hall : Always (step system) (Tracked system ordered) idle acts := by
    refine always_of_guarded (fun s a s' h hfit hs => ?_) (tracked_idle system ordered) hg
    refine tracked_step h (fun t j ha => ?_) hs
    subst ha
    exact keeps_ops hfit
  exact hall.mono fun s => noRelock_of_tracked

/-- A switch connects, and `accept_chann_func` sends it a message. -/
theorem no_relock_of_calls_fit_at_accept :
    Always (step system) NoRelock idle
      (.start (.poll .listen) (.listenfdPollin (some (.announced ⟨0, .available, true, true⟩))
        [.ccOfSendPkt .found]) :: List.replicate 20 (.exec (.poll .listen) none)) := by
  refine no_relock_of_calls_fit _ fun pre a s s' hpre _ _ => ?_
  have hmem := hpre.subset (List.mem_append_right pre (List.mem_singleton.mpr rfl))
  rcases List.mem_cons.mp hmem with rfl | hmem
  · show callsFit _ = true
    rfl
  · rw [List.eq_of_mem_replicate hmem]
    trivial

/-- `recv_func` answers the message it is given. -/
theorem reply_relocks :
    ∃ s, run (step system) idle
        (.start (.poll (.rw 0)) (.tcpfdPollin .delivered [.ccOfSendPkt .found]) ::
          List.replicate 4 (.exec (.poll (.rw 0)) none)) = some s ∧
      ¬NoRelock s := by
  refine ⟨_, rfl, fun h => ?_⟩
  exact h (.poll (.rw 0)) .ofchannelHtbl _ rfl rfl rfl

/-! ## The condition is exact

A job outside of it reaches, by its own operations alone, a lock that it holds. -/

/-- After `xs` the locks `H` are held, and the next operation takes one of them. -/
def RelocksAfter (K : List Lock) (ops : List Op) : Prop :=
  ∃ xs l ys H, ops = xs ++ .lock l :: ys ∧ Keeps K xs H ∧ isTable l = true ∧ l ∈ H

theorem RelocksAfter.inside {K H : List Lock} {pre body : List Op}
    (h : RelocksAfter H body) (hpre : Keeps K pre H) (post : List Op) :
    RelocksAfter K (pre ++ (body ++ post)) := by
  obtain ⟨xs, l, ys, H', rfl, hx, hl, hmem⟩ := h
  exact ⟨pre ++ xs, l, ys ++ post, H', by simp, hpre.append hx, hl, hmem⟩

theorem relocks_callback {H : List Lock} {fits : ApiCall → Bool}
    (hfit : ∀ c, fits c = true → Keeps H c.ops H)
    (hunfit : ∀ c, fits c = false → RelocksAfter H c.ops) :
    ∀ {calls : List ApiCall}, calls.all fits = false → RelocksAfter H (callback calls) := by
  have hcalls : ∀ calls : List ApiCall, calls.all fits = false →
      RelocksAfter H (calls.flatMap ApiCall.ops) := by
    intro calls
    induction calls with
    | nil => intro h; cases h
    | cons c calls ih =>
      intro h
      rw [List.flatMap_cons]
      cases hc : fits c with
      | false =>
        have hnil : Keeps H [] H := rfl
        exact (hunfit c hc).inside hnil _
      | true =>
        rw [List.all_cons, hc, Bool.true_and] at h
        have hrest := (ih h).inside (hfit c hc) []
        rwa [List.append_nil] at hrest
  intro calls h
  have hcb : Keeps H [.callback] H := rfl
  have hrest := (hcalls calls h).inside hcb []
  rwa [List.append_nil] at hrest

/-- Every call but the one without a message takes a table lock first. -/
theorem relocks_recvFunc {calls : List ApiCall} (h : calls.all fitsTables = false) :
    RelocksAfter [.ofrwHtbl, .ofchannelHtbl, .ofdevHtbl] (callback calls) := by
  refine relocks_callback (fun _ => keeps_of_fitsTables) (fun c hc => ?_) h
  cases c with
  | ccOfSendPkt s =>
    cases s with
    | nullMsg => cases hc
    | noChannel => exact ⟨[], .ofchannelHtbl, _, _, rfl, rfl, rfl, by decide⟩
    | found => exact ⟨[], .ofchannelHtbl, _, _, rfl, rfl, rfl, by decide⟩
  | ccOfSetRealDpidAuxid => exact ⟨[], .ofchannelHtbl, _, _, rfl, rfl, rfl, by decide⟩
  | ccOfDestroyChannel d =>
    cases d <;> exact ⟨[], .ofdevHtbl, _, _, rfl, rfl, rfl, by decide⟩

theorem relocks_lockedTables {body : List Op}
    (h : RelocksAfter [.ofrwHtbl, .ofchannelHtbl, .ofdevHtbl] body) :
    RelocksAfter [] (lockedTables body) := by
  have hpre : Keeps [] [.lock .ofdevHtbl, .lock .ofchannelHtbl, .lock .ofrwHtbl]
      [.ofrwHtbl, .ofchannelHtbl, .ofdevHtbl] := rfl
  have hin := h.inside hpre [.unlock .ofrwHtbl, .unlock .ofchannelHtbl, .unlock .ofdevHtbl]
  simpa [lockedTables, locked] using hin

theorem relocks_tcpAccept {o : Opening} {calls : List ApiCall}
    (h : calls.all fitsDevice = false) :
    RelocksAfter [] (processListenfdPollinFunc (callback calls) (some (.announced o))) := by
  have hcb : RelocksAfter [.ofdevHtbl] (callback calls) := by
    refine relocks_callback (fun _ => keeps_of_fitsDevice) (fun c hc => ?_) h
    cases c with
    | ccOfSendPkt s => cases hc
    | ccOfSetRealDpidAuxid => cases hc
    | ccOfDestroyChannel d =>
      cases d <;> exact ⟨[], .ofdevHtbl, _, _, rfl, rfl, rfl, by decide⟩
  have hofdev : Keeps [] (locked .ofdevHtbl []) [] := rfl
  have hlock : Keeps [] [.lock .ofdevHtbl] [.ofdevHtbl] := rfl
  have hadd : Keeps [] (ccAddSockfdRwPollthrSafe o) [] := keeps_addSockfd
  have hin := hcb.inside ((hofdev.append hadd).append hlock)
    ([.unlock .ofdevHtbl] ++ locked .ofrwHtbl [])
  simpa [processListenfdPollinFunc, tcpAccept, locked] using hin

theorem relocks_of_not_callsFit {j : Job} (h : callsFit j = false) : RelocksAfter [] j.ops := by
  unfold callsFit at h
  split at h
  · exact relocks_tcpAccept h
  · exact relocks_lockedTables (relocks_recvFunc h)
  · exact relocks_lockedTables (relocks_recvFunc h)
  · rename_i acceptCalls recvCalls
    apply relocks_lockedTables
    cases ha : acceptCalls.all fitsTables with
    | false =>
      have hnil : Keeps [.ofrwHtbl, .ofchannelHtbl, .ofdevHtbl] []
          [.ofrwHtbl, .ofchannelHtbl, .ofdevHtbl] := rfl
      exact (relocks_recvFunc ha).inside hnil _
    | true =>
      rw [ha, Bool.true_and] at h
      have hin := (relocks_recvFunc h).inside (keeps_recvFunc ha) []
      rwa [List.append_nil] at hin
  · cases h

end OfConnect.Locks.Callbacks

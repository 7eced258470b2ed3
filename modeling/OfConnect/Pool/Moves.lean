import Mathlib.Algebra.GroupWithZero.Nat
import OfConnect.Lib.Ranked
import OfConnect.Core.Effects

/-!
# What a call does to the pool

`Core.Effects` says what adding and deleting a socket do to the tables. This module says
what they do to the managers: which one is chosen, how its counter and the sockets of its
thread change, and where it stands in `ofrw_pollthr_list` afterwards.
-/

namespace OfConnect.Pool.Moves

open OfConnect.Lib.Tables OfConnect.Lib.Ranked OfConnect.PollThr.Thread
open OfConnect.Core.State OfConnect.Core.Effects

/-! ## Choosing a manager -/

/-- The number of sockets a manager has room for. -/
def room (g : Global) (m : MgrId) : Nat := (g.avail m).toNat

theorem room_eq_zero {g : Global} {m : MgrId} : room g m = 0 ↔ g.avail m = 0 := by
  unfold room
  rw [← UInt32.toNat_inj]
  rfl

theorem lastWithRoom_eq (g : Global) (elem : MgrId) (l : List MgrId) :
    lastWithRoom g.avail elem l = lastNonzero (room g) elem l := by
  induction l generalizing elem with
  | nil => rfl
  | cons next rest ih =>
    unfold lastWithRoom lastNonzero
    simp only [ih, room_eq_zero]

theorem insertSorted_eq (g : Global) (m : MgrId) (l : List MgrId) :
    insertSorted g m l = l.orderedInsert (fun a b => room g b ≤ room g a) m := by
  induction l with
  | nil => rfl
  | cons next rest ih =>
    unfold insertSorted at ih ⊢
    rw [List.orderedInsert_cons, List.orderedInsert_cons, ih]
    by_cases hle : room g next ≤ room g m
    · rw [if_pos hle, if_pos (UInt32.le_iff_toNat_le.mpr hle)]
    · rw [if_neg hle, if_neg fun hle' => hle (UInt32.le_iff_toNat_le.mp hle')]

/-- The manager that is chosen stands in a pool that is as it was, or is new. -/
theorem findOrCreate_cases (g : Global) :
    (∃ elem rest, g.ofrwPollthrList = elem :: rest ∧ room g elem ≠ 0 ∧
      ccFindOrCreateRwPollthrSafe g = (lastNonzero (room g) elem rest, g)) ∨
    ((∀ elem rest, g.ofrwPollthrList = elem :: rest → room g elem = 0) ∧
      ccFindOrCreateRwPollthrSafe g = ccCreateRwPollthrSafe g) := by
  unfold ccFindOrCreateRwPollthrSafe
  split
  · rename_i hnil
    refine .inr ⟨?_, rfl⟩
    intro elem rest hcons
    rw [hnil] at hcons
    cases hcons
  · rename_i elem rest hcons
    split
    · rename_i hfull
      refine .inr ⟨?_, rfl⟩
      intro elem' rest' hcons'
      rw [hcons] at hcons'
      obtain ⟨rfl, -⟩ := List.cons.inj hcons'
      exact room_eq_zero.mpr hfull
    · rename_i hroom
      rw [lastWithRoom_eq]
      exact .inl ⟨elem, rest, hcons, fun hzero => hroom (room_eq_zero.mp hzero), rfl⟩

/-! ## Adding a socket -/

/-- The tables take the socket in exactly if the device is registered, and only then is the
manager asked to. What it answers is not looked at. -/
theorem addSockfd_moves {g g' : Global} {fd : Fd} {key : DevKey} {proto : L4Type}
    {ck : ChannelKey} {block : SockAddr} {ret : Ret}
    (h : ccAddSockfdRwPollthrSafe g fd key proto ck block = some (ret, g')) :
    g'.ofrwPollthrList = (ccFindOrCreateRwPollthrSafe g).2.ofrwPollthrList ∧
    g'.nextMgr = (ccFindOrCreateRwPollthrSafe g).2.nextMgr ∧
    ((ret = ccOfEinval ∧ g'.mgrs = (ccFindOrCreateRwPollthrSafe g).2.mgrs ∧
        ∀ f, g'.ofrwHtbl.lookup f = if f = fd then none else g.ofrwHtbl.lookup f) ∨
      ∃ r, ret = ccOfOk ∧
        adpThrMgrAddDelFd ((ccFindOrCreateRwPollthrSafe g).2.mgrs (ccFindOrCreateRwPollthrSafe g).1)
          .addFd fd = some r ∧
        g'.mgrs = Function.update (ccFindOrCreateRwPollthrSafe g).2.mgrs
          (ccFindOrCreateRwPollthrSafe g).1 r.2 ∧
        ∀ f, g'.ofrwHtbl.lookup f =
          if f = fd then some ⟨.down, some (ccFindOrCreateRwPollthrSafe g).1, key, block, proto⟩
          else g.ofrwHtbl.lookup f) := by
  obtain ⟨hsame, -⟩ := findOrCreate_spec g
  generalize hf : ccFindOrCreateRwPollthrSafe g = found at hsame ⊢
  rcases addSockfd_inversion hf h with ⟨-, heq⟩ | ⟨dev, t, -, ht, heq⟩
  · obtain ⟨rfl, rfl⟩ := Prod.mk.inj heq
    refine ⟨rfl, rfl, .inl ⟨rfl, rfl, fun f => ?_⟩⟩
    by_cases hf : f = fd
    · rw [lookup_erase_eq, if_pos hf, if_pos hf]
    · rw [lookup_erase_eq, if_neg hf, if_neg hf, lookup_insert_eq, if_neg hf, hsame.ofrw]
  · obtain ⟨rfl, rfl⟩ := Prod.mk.inj heq
    refine ⟨rfl, rfl, .inr ⟨t, rfl, ht, rfl, fun f => ?_⟩⟩
    simp only [lookup_insert_eq, hsame.ofrw]

/-! ## Deleting a socket -/

/-- The pool after `m` has been told to drop `fd`. -/
def deleted (g : Global) (m : MgrId) (fd : Fd) : Global :=
  let t := g.mgrs m
  { g with
    mgrs := Function.update g.mgrs m
      { t with numSockets := t.numSockets - 1, fds := t.fds.erase fd } }

/-- The manager is told, and with others in the pool it is put into its place again. -/
theorem delFromMgr_moves {g : Global} {fd : Fd} {m : MgrId} {r : Ret × Global}
    (h : delFromMgr g fd (some m) = some r) :
    r.2.mgrs = (deleted g m fd).mgrs ∧ r.2.nextMgr = g.nextMgr ∧ r.2.ofrwHtbl = g.ofrwHtbl ∧
    r.2.ofrwPollthrList =
      if g.ofrwPollthrList.length = 1 then g.ofrwPollthrList
      else if m ∈ g.ofrwPollthrList then
        insertSorted (deleted g m fd) m (g.ofrwPollthrList.erase m)
      else g.ofrwPollthrList := by
  simp only [delFromMgr] at h
  obtain ⟨g₁, hg, rfl⟩ := Option.map_eq_some_iff.mp h
  obtain ⟨r₁, hr, rfl⟩ := Option.map_eq_some_iff.mp hg
  obtain rfl := Option.some.inj hr
  dsimp only
  split
  · exact ⟨rfl, rfl, rfl, rfl⟩
  · split
    · exact ⟨rfl, rfl, rfl, rfl⟩
    · exact ⟨rfl, rfl, rfl, rfl⟩

/-- After the manager the tables: nothing there depends on the pool. -/
theorem delSockfd_moves {g g' : Global} {fd : Fd} {tmgr : Option MgrId} {ret : Ret}
    (hm : ∀ m, tmgr = some m → m ∈ g.ofrwPollthrList)
    (h : ccDelSockfdRwPollthrLockfree g tmgr .deleteFd fd = some (ret, g')) :
    ∃ r, delFromMgr g fd tmgr = some r ∧ g'.mgrs = r.2.mgrs ∧ g'.nextMgr = r.2.nextMgr ∧
      g'.ofrwPollthrList = r.2.ofrwPollthrList ∧
      ∀ f, g'.ofrwHtbl.lookup f = if f = fd then none else g.ofrwHtbl.lookup f := by
  obtain ⟨r, hr, h⟩ := delSockfd_inversion h
  obtain ⟨hok, hsame, -⟩ := delFromMgr_spec hm hr
  rcases h with ⟨hneg, -⟩ | ⟨info', d, -, hd, h⟩
  · rw [hok] at hneg
    exact absurd hneg (by decide)
  obtain ⟨-, rfl⟩ := Prod.mk.inj h
  have hdev := delOfdev_frame hd
  refine ⟨r, hr, ?_, ?_, ?_, fun f => ?_⟩
  · show d.2.mgrs = r.2.mgrs
    rw [hdev]
  · show d.2.nextMgr = r.2.nextMgr
    rw [hdev]
  · show d.2.ofrwPollthrList = r.2.ofrwPollthrList
    rw [hdev]
  · show (delOfrwRwsocketLockfree d.2 fd).2.ofrwHtbl.lookup f = _
    rw [lookup_delOfrw, hdev]
    exact congrArg (fun t => if f = fd then none else AList.lookup f t) hsame.ofrw

/-- The listen thread is not concerned. -/
theorem delSockfd_listen {g : Global} {tmgr : Option MgrId} {fd : Fd} {r : Ret × Global}
    (h : ccDelSockfdRwPollthrLockfree g tmgr .deleteFd fd = some r) :
    r.2.oflistenPollthr = g.oflistenPollthr := by
  obtain ⟨r₁, hr, h⟩ := delSockfd_inversion h
  have hfirst : r₁.2.oflistenPollthr = g.oflistenPollthr := by rw [delFromMgr_frame hr]
  rcases h with ⟨-, rfl⟩ | ⟨info, d, -, hd, rfl⟩
  · exact hfirst
  · show d.2.oflistenPollthr = g.oflistenPollthr
    rw [delOfdev_frame hd]
    exact hfirst

/-- The deletion of a socket returns if the device of the socket is registered. -/
theorem delSockfd_returns {g : Global} {fd : Fd} {info : RwInfo}
    (hm : ∀ m, info.thrMgr = some m → m ∈ g.ofrwPollthrList)
    (hl : g.ofrwHtbl.lookup fd = some info) (hdev : info.devKey ∈ g.ofdevHtbl) :
    ∃ r, ccDelSockfdRwPollthrLockfree g info.thrMgr .deleteFd fd = some r := by
  obtain ⟨dev, hdev⟩ := mem_iff_lookup.mp hdev
  obtain ⟨r, hr⟩ : ∃ r, delFromMgr g fd info.thrMgr = some r := by
    cases info.thrMgr with
    | none => exact ⟨_, rfl⟩
    | some m => exact ⟨_, rfl⟩
  obtain ⟨hok, hsame, -⟩ := delFromMgr_spec hm hr
  have hpos : ¬r.1 < 0 := by
    rw [hok]
    decide
  unfold ccDelSockfdRwPollthrLockfree
  simp only [ne_eq, not_true_eq_false, if_false, hr, Option.bind_some, if_neg hpos, hsame.ofrw, hl,
    delOfdevRwsocketLockfree, hsame.ofdev, hdev]
  split
  · exact ⟨_, rfl⟩
  · exact ⟨_, rfl⟩

end OfConnect.Pool.Moves

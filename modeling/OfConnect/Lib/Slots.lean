import Mathlib.Data.List.InsertIdx
import Mathlib.Data.List.Nodup

/-!
# The live prefix of an array

An array in memory is a function from indices, of which a counter says how many
slots are live. Slots past the counter keep whatever they held. The two updates are
writing the first dead slot and the compaction loop that closes a gap.
-/

namespace OfConnect.Lib.Slots

variable {α β : Type*}

/-- The first `n` slots. -/
def live (a : Nat → α) (n : Nat) : List α := (List.range n).map a

@[simp] theorem length_live (a : Nat → α) (n : Nat) : (live a n).length = n := by simp [live]

theorem getElem?_live (a : Nat → α) {n i : Nat} (h : i < n) : (live a n)[i]? = some (a i) := by
  simp [live, h]

theorem mem_live {a : Nat → α} {n : Nat} {x : α} : x ∈ live a n ↔ ∃ i < n, a i = x := by
  simp [live]

theorem map_live (f : α → β) (a : Nat → α) (n : Nat) :
    (live a n).map f = live (fun i => f (a i)) n := by
  simp [live]

theorem eq_of_live_nodup {a : Nat → α} {n i j : Nat} (h : (live a n).Nodup) (hi : i < n)
    (hj : j < n) (he : a i = a j) : i = j :=
  List.inj_on_of_nodup_map h (List.mem_range.mpr hi) (List.mem_range.mpr hj) he

theorem live_congr {a b : Nat → α} {n : Nat} (h : ∀ i < n, a i = b i) : live a n = live b n :=
  List.map_congr_left fun i hi => h i (List.mem_range.mp hi)

theorem live_update (a : Nat → α) (n : Nat) (x : α) :
    live (Function.update a n x) (n + 1) = live a n ++ [x] := by
  have h : live (Function.update a n x) n = live a n :=
    live_congr fun i hi => Function.update_of_ne (by omega) _ _
  rw [← h]
  simp [live, List.range_succ]

/-- The loop `for (i = d + w; i < n; i++) a[i - w] = a[i]`. -/
def shiftDownBy (w : Nat) (a : Nat → α) (d n : Nat) : Nat → α :=
  (List.range' (d + w) (n - (d + w))).foldl (fun a i => Function.update a (i - w) (a i)) a

/-- The loop `for (i = d + 1; i < n; i++) a[i - 1] = a[i]`. -/
def shiftDown (a : Nat → α) (d n : Nat) : Nat → α :=
  (List.range' (d + 1) (n - (d + 1))).foldl (fun a i => Function.update a (i - 1) (a i)) a

/-- After `m` rounds the `m` slots from `d` on hold what was `w` slots further on. -/
private theorem foldl_shift {w : Nat} (hw : 0 < w) (a : Nat → α) (d m k : Nat) :
    (List.range' (d + w) m).foldl (fun a i => Function.update a (i - w) (a i)) a k =
      if d ≤ k ∧ k < d + m then a (k + w) else a k := by
  induction m generalizing k with
  | zero => rw [if_neg (by omega)]; rfl
  | succ m ih =>
    rw [List.range'_concat, List.foldl_append]
    simp only [List.foldl_cons, List.foldl_nil, Nat.one_mul]
    by_cases hk : k = d + m
    · subst hk
      rw [show d + w + m - w = d + m by omega, Function.update_self, ih]
      rw [if_neg (by omega), if_pos (by omega), show d + w + m = d + m + w by omega]
    · rw [Function.update_of_ne (by omega), ih]
      by_cases hin : d ≤ k ∧ k < d + m
      · rw [if_pos hin, if_pos (by omega)]
      · rw [if_neg hin, if_neg (by omega)]

theorem shiftDownBy_apply {w : Nat} (hw : 0 < w) (a : Nat → α) (d n k : Nat) :
    shiftDownBy w a d n k = if d ≤ k ∧ k + w < n then a (k + w) else a k := by
  rw [shiftDownBy, foldl_shift hw]
  by_cases h : d ≤ k ∧ k + w < n
  · rw [if_pos h, if_pos (by omega)]
  · rw [if_neg h, if_neg (by omega)]

theorem shiftDown_apply (a : Nat → α) (d n k : Nat) :
    shiftDown a d n k = if d ≤ k ∧ k + 1 < n then a (k + 1) else a k :=
  shiftDownBy_apply Nat.one_pos a d n k

/-- The loop removes exactly the `w` elements at `d` from the live prefix. -/
theorem live_shiftDownBy {w : Nat} (hw : 0 < w) (a : Nat → α) {d n : Nat} (h : d + w ≤ n) :
    live (shiftDownBy w a d n) (n - w) = (live a n).take d ++ (live a n).drop (d + w) := by
  apply List.ext_getElem
  · simp
    omega
  · intro i hi _
    simp only [length_live] at hi
    rw [List.getElem_append]
    simp only [live, List.getElem_map, List.getElem_range, shiftDownBy_apply hw, List.getElem_take,
      List.getElem_drop, List.length_take, List.length_map, List.length_range]
    by_cases hid : i < d
    · rw [if_neg (by omega), dif_pos (by omega)]
    · rw [if_pos (by omega), dif_neg (by omega)]
      congr 1
      omega

/-- The loop removes exactly the element at `d` from the live prefix. -/
theorem live_shiftDown (a : Nat → α) {d n : Nat} (h : d < n) :
    live (shiftDown a d n) (n - 1) = (live a n).eraseIdx d := by
  rw [List.eraseIdx_eq_take_drop_succ]
  exact live_shiftDownBy Nat.one_pos a h

/-- Among slots with distinct names, the one at `d` is removed by its name. -/
theorem eraseIdx_eq_filter [DecidableEq β] {f : α → β} {l : List α} (hnd : (l.map f).Nodup)
    {d : Nat} (hd : d < l.length) : l.eraseIdx d = l.filter fun x => f x ≠ f l[d] := by
  induction l generalizing d with
  | nil => cases hd
  | cons y l ih =>
    obtain ⟨hy, hnd⟩ := List.nodup_cons.mp hnd
    cases d with
    | zero =>
      have hkeep : ∀ x ∈ l, decide (f x ≠ f y) = true := by
        intro x hx
        rw [decide_eq_true_iff]
        intro he
        exact hy (he ▸ List.mem_map_of_mem hx)
      rw [List.eraseIdx_zero, List.tail_cons, List.getElem_cons_zero,
        List.filter_cons_of_neg (by simp), List.filter_eq_self.mpr hkeep]
    | succ d =>
      have hd : d < l.length := Nat.lt_of_succ_lt_succ hd
      have hne : f y ≠ f l[d] := by
        intro he
        exact hy (he ▸ List.mem_map_of_mem (List.getElem_mem hd))
      rw [List.eraseIdx_cons_succ, List.getElem_cons_succ, List.filter_cons_of_pos (by simpa using hne),
        ih hnd hd]

/-- The loop `for (i = lo; i < n; i++) if (p(a[i])) break`, with the index it stops at. -/
def findFrom (p : α → Bool) (a : Nat → α) (lo n : Nat) : Option Nat :=
  (List.range' lo (n - lo)).find? fun i => p (a i)

theorem findFrom_some {p : α → Bool} {a : Nat → α} {lo n i : Nat}
    (h : findFrom p a lo n = some i) : lo ≤ i ∧ i < n ∧ p (a i) = true := by
  have hm := List.mem_of_find?_eq_some h
  rw [List.mem_range'_1] at hm
  have hp := List.find?_some h
  exact ⟨hm.1, by omega, hp⟩

theorem findFrom_none {p : α → Bool} {a : Nat → α} {lo n : Nat} (h : findFrom p a lo n = none) :
    ∀ i, lo ≤ i → i < n → p (a i) = false := by
  intro i hlo hn
  have hi : i ∈ List.range' lo (n - lo) := List.mem_range'_1.mpr ⟨hlo, by omega⟩
  simpa using List.find?_eq_none.mp h i hi

end OfConnect.Lib.Slots

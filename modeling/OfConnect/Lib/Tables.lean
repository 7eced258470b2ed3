import Mathlib.Data.List.AList

/-!
# Keyed tables

A hash table by value: at most one entry for a key, lookup, insertion that replaces,
removal by key, removal by predicate over all entries, and reverse searches over the
entries in iteration order. `AList` carries the key-uniqueness proof; what is added
here is the walks and the lookup equations the proofs rewrite with.
-/

namespace OfConnect.Lib.Tables

/-- A table with keys in `K` and values in `V`. -/
abbrev Table (K V : Type*) := AList (fun _ : K => V)

variable {K V : Type*} [DecidableEq K]

/-- The number of entries. -/
def size (t : Table K V) : Nat := t.entries.length

/-- An insertion makes the table larger exactly if the key is new. -/
theorem size_lt_insert_iff (t : Table K V) (k : K) (v : V) :
    size t < size (t.insert k v) ↔ k ∉ t := by
  have hsize : size (t.insert k v) = (t.entries.kerase k).length + 1 := by
    rw [size, AList.entries_insert, List.length_cons]
  rw [hsize]
  constructor
  · intro hlt hmem
    obtain ⟨b, l₁, l₂, -, he, hkerase⟩ := List.exists_of_kerase (AList.mem_keys.mpr hmem)
    rw [hkerase, size, he] at hlt
    simp only [List.length_append, List.length_cons] at hlt
    omega
  · intro hnot
    rw [List.kerase_of_notMem_keys hnot, size]
    omega

theorem lookup_insert_eq (t : Table K V) (k k' : K) (v : V) :
    (t.insert k' v).lookup k = if k = k' then some v else t.lookup k := by
  by_cases h : k = k'
  · subst h; simp
  · simp [AList.lookup_insert_ne h, h]

theorem lookup_erase_eq (t : Table K V) (k k' : K) :
    (t.erase k').lookup k = if k = k' then none else t.lookup k := by
  by_cases h : k = k'
  · subst h; simp
  · simp [AList.lookup_erase_ne h, h]

/-- Remove every entry that satisfies `p`. -/
def foreachRemove (p : K → V → Bool) (t : Table K V) : Table K V :=
  ⟨t.entries.filter fun e => !p e.1 e.2, t.nodupKeys.sublist List.filter_sublist⟩

theorem lookup_eq_some_iff {t : Table K V} {k : K} {v : V} :
    t.lookup k = some v ↔ (⟨k, v⟩ : Sigma fun _ : K => V) ∈ t.entries :=
  AList.mem_lookup_iff

theorem lookup_foreachRemove_iff {p : K → V → Bool} {t : Table K V} {k : K} {v : V} :
    (foreachRemove p t).lookup k = some v ↔ t.lookup k = some v ∧ p k v = false := by
  simp only [lookup_eq_some_iff, foreachRemove, List.mem_filter, Bool.not_eq_true']

/-- The key of the first entry, in iteration order, that satisfies `p`. -/
def findKey? (p : K → V → Bool) (t : Table K V) : Option K :=
  (t.entries.find? fun e => p e.1 e.2).map Sigma.fst

theorem findKey?_some {p : K → V → Bool} {t : Table K V} {k : K}
    (h : findKey? p t = some k) : ∃ v, t.lookup k = some v ∧ p k v = true := by
  obtain ⟨⟨k', v⟩, he, rfl⟩ := Option.map_eq_some_iff.mp h
  have hp := List.find?_some he
  exact ⟨v, lookup_eq_some_iff.mpr (List.mem_of_find?_eq_some he), hp⟩

theorem findKey?_isSome {p : K → V → Bool} {t : Table K V} {k : K} {v : V}
    (hl : t.lookup k = some v) (hp : p k v = true) : ∃ k', findKey? p t = some k' := by
  have hs : (t.entries.find? fun e => p e.1 e.2).isSome :=
    List.find?_isSome.mpr ⟨⟨k, v⟩, lookup_eq_some_iff.mp hl, hp⟩
  obtain ⟨e, he⟩ := Option.isSome_iff_exists.mp hs
  exact ⟨e.1, by simp [findKey?, he]⟩

/-- A walk over all entries that keeps the key of the last one that satisfies `p`. -/
def findLastKey? (p : K → V → Bool) (t : Table K V) : Option K :=
  t.entries.foldl (fun found e => if p e.1 e.2 then some e.1 else found) none

theorem foldl_last_eq {α β : Type*} (p : α → Bool) (f : α → β) (l : List α) (init : Option β) :
    l.foldl (fun found a => if p a then some (f a) else found) init =
      ((l.reverse.find? p).map f).or init := by
  induction l generalizing init with
  | nil => simp
  | cons a l ih =>
    rw [List.foldl_cons, ih, List.reverse_cons, List.find?_append]
    by_cases h : p a <;> simp [h]

omit [DecidableEq K] in
theorem findLastKey?_eq (p : K → V → Bool) (t : Table K V) :
    findLastKey? p t = (t.entries.reverse.find? fun e => p e.1 e.2).map Sigma.fst := by
  refine (foldl_last_eq (fun e : Sigma fun _ : K => V => p e.1 e.2) Sigma.fst _ none).trans ?_
  exact Option.or_none

theorem findLastKey?_some {p : K → V → Bool} {t : Table K V} {k : K}
    (h : findLastKey? p t = some k) : ∃ v, t.lookup k = some v ∧ p k v = true := by
  rw [findLastKey?_eq] at h
  obtain ⟨⟨k', v⟩, he, rfl⟩ := Option.map_eq_some_iff.mp h
  have hp := List.find?_some he
  have hmem := List.mem_reverse.mp (List.mem_of_find?_eq_some he)
  exact ⟨v, lookup_eq_some_iff.mpr hmem, hp⟩

theorem findLastKey?_eq_none_iff {p : K → V → Bool} {t : Table K V} :
    findLastKey? p t = none ↔ ∀ k v, t.lookup k = some v → p k v = false := by
  rw [findLastKey?_eq, Option.map_eq_none_iff, List.find?_eq_none]
  constructor
  · intro h k v hl
    have hne := h ⟨k, v⟩ (List.mem_reverse.mpr (lookup_eq_some_iff.mp hl))
    simpa using hne
  · rintro h ⟨k, v⟩ hmem
    have hp := h k v (lookup_eq_some_iff.mpr (List.mem_reverse.mp hmem))
    simpa using hp

end OfConnect.Lib.Tables

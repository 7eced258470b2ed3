import OfConnect.Lib.Tables

/-!
# Tables that own what they hold

The key and the value of an entry are objects, and the table releases them when the entry
goes: a removed entry loses both, and an insertion under a present key keeps the old key,
so it releases the key it was given and the old value. The ledger records what was inserted
and what was released.

The law is one of conservation: what a table holds together with what was released changes
only by what is inserted or released from outside.
-/

namespace OfConnect.Lib.Owned

open OfConnect.Lib.Tables

/-- An object, from the heap or a local of some call. -/
structure Obj where
  id : Nat
  heap : Bool
  deriving DecidableEq, Repr

/-- The number of the next object, and what was inserted and released so far. -/
structure Ledger where
  next : Nat
  inserted : List Obj
  released : List Obj

/-- A new object. -/
def Ledger.create (L : Ledger) (heap : Bool) : Obj × Ledger :=
  (⟨L.next, heap⟩, { L with next := L.next + 1 })

def Ledger.release (L : Ledger) (objs : List Obj) : Ledger :=
  { L with released := L.released ++ objs }

/-- An entry with the objects of its key and its value. -/
structure Slot (V : Type*) where
  keyObj : Obj
  valObj : Obj
  val : V

def Slot.objs {V : Type*} (slot : Slot V) : List Obj := [slot.keyObj, slot.valObj]

variable {K V : Type*} [DecidableEq K]

/-- The objects a table holds. -/
def held (t : Table K (Slot V)) : List Obj := t.entries.flatMap fun e => e.2.objs

/-- `g_hash_table_insert` with destroy functions for keys and values. -/
def hashTableInsert (t : Table K (Slot V)) (L : Ledger) (k : K) (slot : Slot V) :
    Table K (Slot V) × Ledger :=
  let L := { L with inserted := L.inserted ++ slot.objs }
  match t.lookup k with
  | none => (t.insert k slot, L)
  | some old =>
    (t.insert k { slot with keyObj := old.keyObj }, L.release [slot.keyObj, old.valObj])

/-- `g_hash_table_remove`. -/
def hashTableRemove (t : Table K (Slot V)) (L : Ledger) (k : K) : Table K (Slot V) × Ledger :=
  match t.lookup k with
  | none => (t, L)
  | some old => (t.erase k, L.release old.objs)

/-- `g_hash_table_foreach_remove`. -/
def hashTableForeachRemove (p : K → V → Bool) (t : Table K (Slot V)) (L : Ledger) :
    Table K (Slot V) × Ledger :=
  (foreachRemove (fun k slot => p k slot.val) t,
    L.release ((t.entries.filter fun e => p e.1 e.2.val).flatMap fun e => e.2.objs))

/-! ## Conservation -/

@[simp] theorem hashTableInsert_next (t : Table K (Slot V)) (L : Ledger) (k : K) (slot : Slot V) :
    (hashTableInsert t L k slot).2.next = L.next := by
  unfold hashTableInsert
  split
  · rfl
  · rfl

@[simp] theorem hashTableInsert_inserted (t : Table K (Slot V)) (L : Ledger) (k : K)
    (slot : Slot V) : (hashTableInsert t L k slot).2.inserted = L.inserted ++ slot.objs := by
  unfold hashTableInsert
  split
  · rfl
  · rfl

@[simp] theorem hashTableRemove_next (t : Table K (Slot V)) (L : Ledger) (k : K) :
    (hashTableRemove t L k).2.next = L.next := by
  unfold hashTableRemove
  split
  · rfl
  · rfl

@[simp] theorem hashTableRemove_inserted (t : Table K (Slot V)) (L : Ledger) (k : K) :
    (hashTableRemove t L k).2.inserted = L.inserted := by
  unfold hashTableRemove
  split
  · rfl
  · rfl

@[simp] theorem release_nil (L : Ledger) : L.release [] = L := by
  simp [Ledger.release]

/-- The objects of an entry, and the objects of the others. -/
theorem held_perm_erase {t : Table K (Slot V)} {k : K} {old : Slot V}
    (h : t.lookup k = some old) : (held t).Perm (old.objs ++ held (t.erase k)) := by
  have hmem : k ∈ t.entries.keys := AList.mem_keys.mpr (AList.lookup_isSome.mp (by rw [h]; rfl))
  obtain ⟨b, l₁, l₂, hk, he, hkerase⟩ := List.exists_of_kerase hmem
  have hb : b = old := by
    have hold := lookup_eq_some_iff.mp h
    have hin : (⟨k, b⟩ : Sigma fun _ : K => Slot V) ∈ t.entries := by simp [he]
    exact Option.some.inj ((lookup_eq_some_iff.mpr hin).symm.trans h)
  subst hb
  unfold held
  rw [show (t.erase k).entries = _ from hkerase, he]
  simp only [List.flatMap_append, List.flatMap_cons]
  exact List.perm_append_comm_assoc _ _ _

theorem held_insert (t : Table K (Slot V)) (k : K) (slot : Slot V) :
    held (t.insert k slot) = slot.objs ++ held (t.erase k) := by
  unfold held
  rw [AList.entries_insert, List.flatMap_cons]
  rfl

theorem held_erase_of_not_mem {t : Table K (Slot V)} {k : K} (h : t.lookup k = none) :
    held (t.erase k) = held t := by
  unfold held
  rw [show (t.erase k).entries = t.entries from
    List.kerase_of_notMem_keys (AList.lookup_eq_none.mp h)]

/-- An insertion accounts for the objects it was given. -/
theorem hashTableInsert_perm (t : Table K (Slot V)) (L : Ledger) (k : K) (slot : Slot V) :
    (held (hashTableInsert t L k slot).1 ++ (hashTableInsert t L k slot).2.released).Perm
      (slot.objs ++ (held t ++ L.released)) := by
  unfold hashTableInsert
  cases h : t.lookup k with
  | none =>
    simp only [held_insert, held_erase_of_not_mem h, List.append_assoc]
    exact List.Perm.refl _
  | some old =>
    refine List.perm_iff_count.mpr fun o => ?_
    have hold := (held_perm_erase h).count_eq o
    simp only [held_insert, Ledger.release, Slot.objs, List.count_append, List.count_cons,
      List.count_nil] at hold ⊢
    omega

/-- A removal accounts for nothing new. -/
theorem hashTableRemove_perm (t : Table K (Slot V)) (L : Ledger) (k : K) :
    (held (hashTableRemove t L k).1 ++ (hashTableRemove t L k).2.released).Perm
      (held t ++ L.released) := by
  unfold hashTableRemove
  cases h : t.lookup k with
  | none => exact List.Perm.refl _
  | some old =>
    refine List.perm_iff_count.mpr fun o => ?_
    have hold := (held_perm_erase h).count_eq o
    simp only [Ledger.release, List.count_append] at hold ⊢
    omega

omit [DecidableEq K] in
theorem hashTableForeachRemove_perm (p : K → V → Bool) (t : Table K (Slot V)) (L : Ledger) :
    (held (hashTableForeachRemove p t L).1 ++ (hashTableForeachRemove p t L).2.released).Perm
      (held t ++ L.released) := by
  refine List.perm_iff_count.mpr fun o => ?_
  have hsplit := ((List.filter_append_perm (fun e => p e.1 e.2.val) t.entries).flatMap_right
    fun e => e.2.objs).count_eq o
  simp only [hashTableForeachRemove, held, foreachRemove, Ledger.release, List.count_append,
    List.flatMap_append] at hsplit ⊢
  omega

/-- What tables hold and what was released are objects of their own, numbered below the
next one. -/
structure Conserved (L : Ledger) (objs : List Obj) : Prop where
  nodup : (objs ++ L.released).Nodup
  numbered : ∀ o ∈ objs ++ L.released, o.id < L.next

/-- New objects that are accounted for once keep the account. -/
theorem Conserved.of_perm {L L' : Ledger} {objs objs' born : List Obj} (h : Conserved L objs)
    (hperm : (objs' ++ L'.released).Perm (born ++ (objs ++ L.released))) (hnd : born.Nodup)
    (hborn : ∀ o ∈ born, L.next ≤ o.id ∧ o.id < L'.next) (hle : L.next ≤ L'.next) :
    Conserved L' objs' := by
  refine ⟨hperm.nodup_iff.mpr (hnd.append h.nodup fun o ho ho' => ?_), fun o ho => ?_⟩
  · have hold := h.numbered o ho'
    have hnew := (hborn o ho).1
    omega
  · rcases List.mem_append.mp (hperm.mem_iff.mp ho) with ho | ho
    · exact (hborn o ho).2
    · exact Nat.lt_of_lt_of_le (h.numbered o ho) hle

theorem Conserved.perm {L : Ledger} {objs objs' : List Obj} (h : Conserved L objs)
    (hperm : objs'.Perm objs) : Conserved L objs' := by
  have hborn : (objs' ++ L.released).Perm ([] ++ (objs ++ L.released)) := hperm.append_right _
  exact h.of_perm hborn List.nodup_nil (fun _ ho => by cases ho) (le_refl _)

/-- One of several tables gets new objects, and further new ones are released. -/
theorem Conserved.insert {L : Ledger} {other : List Obj} {t : Table K (Slot V)}
    (h : Conserved L (other ++ held t)) (k : K) (slot : Slot V) (extra : List Obj) {n : Nat}
    (hle : L.next ≤ n) (hnd : (slot.objs ++ extra).Nodup)
    (hfresh : ∀ o ∈ slot.objs ++ extra, L.next ≤ o.id ∧ o.id < n) :
    Conserved ((hashTableInsert t { L with next := n } k slot).2.release extra)
      (other ++ held (hashTableInsert t { L with next := n } k slot).1) := by
  have hnext : ((hashTableInsert t { L with next := n } k slot).2.release extra).next = n :=
    hashTableInsert_next t _ k slot
  refine h.of_perm (List.perm_iff_count.mpr fun o => ?_) hnd ?_ ?_
  · have hcount := (hashTableInsert_perm t { L with next := n } k slot).count_eq o
    simp only [Ledger.release, List.count_append] at hcount ⊢
    omega
  · rw [hnext]
    exact hfresh
  · rw [hnext]
    exact hle

/-- The same for two objects that were just made, with nothing to release beside them. -/
theorem Conserved.insert_created {L : Ledger} {other : List Obj} {t : Table K (Slot V)}
    (h : Conserved L (other ++ held t)) (k : K) (v : V) {i n : Nat} (hi : L.next ≤ i)
    (hn : i + 1 < n) :
    Conserved (hashTableInsert t { L with next := n } k ⟨⟨i, true⟩, ⟨i + 1, true⟩, v⟩).2
      (other ++ held (hashTableInsert t { L with next := n } k ⟨⟨i, true⟩, ⟨i + 1, true⟩, v⟩).1) := by
  have hfresh : ∀ o ∈ (⟨⟨i, true⟩, ⟨i + 1, true⟩, v⟩ : Slot V).objs ++ [], L.next ≤ o.id ∧ o.id < n := by
    intro o ho
    simp only [Slot.objs, List.append_nil, List.mem_cons, List.not_mem_nil, or_false] at ho
    rcases ho with rfl | rfl
    · exact ⟨hi, Nat.lt_of_succ_lt hn⟩
    · exact ⟨Nat.le_succ_of_le hi, hn⟩
  have hins := h.insert k ⟨⟨i, true⟩, ⟨i + 1, true⟩, v⟩ [] (by omega) (by simp [Slot.objs]) hfresh
  rwa [release_nil] at hins

/-- Entries of one of several tables go. -/
theorem Conserved.remove {L L' : Ledger} {other objs objs' : List Obj}
    (h : Conserved L (other ++ objs)) (hnext : L'.next = L.next)
    (hperm : (objs' ++ L'.released).Perm (objs ++ L.released)) : Conserved L' (other ++ objs') := by
  have hborn : (other ++ objs' ++ L'.released).Perm ([] ++ (other ++ objs ++ L.released)) := by
    refine List.perm_iff_count.mpr fun o => ?_
    have hcount := hperm.count_eq o
    simp only [List.count_append, List.count_nil] at hcount ⊢
    omega
  exact h.of_perm hborn List.nodup_nil (fun _ ho => by cases ho) (le_of_eq hnext.symm)

theorem Conserved.released_once {L : Ledger} {objs : List Obj} (h : Conserved L objs) (o : Obj) :
    L.released.count o ≤ 1 :=
  List.nodup_iff_count_le_one.mp h.nodup.of_append_right o

theorem Conserved.not_released {L : Ledger} {objs : List Obj} (h : Conserved L objs) {o : Obj}
    (ho : o ∈ objs) : o ∉ L.released :=
  fun hr => List.disjoint_of_nodup_append h.nodup ho hr

/-! ## The values -/

/-- The table `u` has the values of `t`. -/
def Erases (t : Table K (Slot V)) (u : Table K V) : Prop :=
  ∀ k, u.lookup k = (t.lookup k).map Slot.val

theorem Erases.mem_iff {t : Table K (Slot V)} {u : Table K V} (h : Erases t u) (k : K) :
    k ∈ u ↔ k ∈ t := by
  rw [← AList.lookup_isSome, ← AList.lookup_isSome, h k, Option.isSome_map]

theorem Erases.insert {t : Table K (Slot V)} {u : Table K V} (h : Erases t u) (L : Ledger) (k : K)
    (slot : Slot V) : Erases (hashTableInsert t L k slot).1 (u.insert k slot.val) := by
  intro k'
  unfold hashTableInsert
  split
  · rw [lookup_insert_eq, lookup_insert_eq, h k']
    split
    · rfl
    · rfl
  · rw [lookup_insert_eq, lookup_insert_eq, h k']
    split
    · rfl
    · rfl

theorem Erases.remove {t : Table K (Slot V)} {u : Table K V} (h : Erases t u) (L : Ledger) (k : K) :
    Erases (hashTableRemove t L k).1 (u.erase k) := by
  intro k'
  rw [lookup_erase_eq, h k']
  unfold hashTableRemove
  cases hl : t.lookup k with
  | none =>
    by_cases hk : k' = k
    · rw [if_pos hk, hk, hl]
      rfl
    · rw [if_neg hk]
  | some old =>
    rw [lookup_erase_eq]
    by_cases hk : k' = k
    · rw [if_pos hk, if_pos hk]
      rfl
    · rw [if_neg hk, if_neg hk]

theorem Erases.foreachRemove {t : Table K (Slot V)} {u : Table K V} (h : Erases t u) (L : Ledger)
    (p : K → V → Bool) :
    Erases (hashTableForeachRemove p t L).1 (foreachRemove p u) := by
  intro k
  refine Option.ext fun v => ?_
  rw [lookup_foreachRemove_iff, h k, Option.map_eq_some_iff, Option.map_eq_some_iff]
  constructor
  · rintro ⟨⟨slot, hl, rfl⟩, hp⟩
    exact ⟨slot, lookup_foreachRemove_iff.mpr ⟨hl, hp⟩, rfl⟩
  · rintro ⟨slot, hl, rfl⟩
    obtain ⟨hl, hp⟩ := lookup_foreachRemove_iff.mp hl
    exact ⟨⟨slot, hl, rfl⟩, hp⟩

end OfConnect.Lib.Owned

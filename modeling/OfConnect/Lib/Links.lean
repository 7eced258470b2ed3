import OfConnect.Lib.Tables

/-!
# Doubly linked lists in memory

The nodes of a list are cells of a heap that point at each other. A pointer may outlive its
node, so every access can fail: `none` is an access to a node that is not allocated, or a loop
that never comes to an end (it has visited more nodes than there are).

`Chain` says that a pointer is the head of a well-formed list and which nodes the list has. The
operations are given by what they make of such a list. `foreach` reads the link to the next node
before it calls its function, and what it visits is what that function leaves of the list.
-/

namespace OfConnect.Lib.Links

open OfConnect.Lib.Tables

abbrev Addr := Nat

structure Node (α : Type) where
  data : α
  next : Option Addr
  prev : Option Addr
  deriving DecidableEq, Repr

abbrev Heap (α : Type) := Table Addr (Node α)

variable {α : Type} {h : Heap α} {head : Option Addr} {l : List (Addr × α)}

/-- The address of the node at a position, if there is one. -/
def addrAt (l : List (Addr × α)) (i : Nat) : Option Addr := l[i]?.map Prod.fst

/-- The address of the node before a position. -/
def addrBefore (l : List (Addr × α)) : Nat → Option Addr
  | 0 => none
  | i + 1 => addrAt l i

/-- The list at `head` has these nodes, with these data. -/
structure Chain (h : Heap α) (head : Option Addr) (l : List (Addr × α)) : Prop where
  head_eq : head = addrAt l 0
  node : ∀ i a x, l[i]? = some (a, x) →
    h.lookup a = some ⟨x, addrAt l (i + 1), addrBefore l i⟩
  nodup : (l.map Prod.fst).Nodup

/-! ## Positions -/

theorem addrAt_eq_some {i : Nat} {a : Addr} :
    addrAt l i = some a ↔ ∃ x, l[i]? = some (a, x) := by
  simp [addrAt]

theorem addrAt_eq_none {i : Nat} : addrAt l i = none ↔ l.length ≤ i := by
  simp [addrAt]

theorem addrAt_of_lt {i : Nat} (hi : i < l.length) : addrAt l i = some l[i].1 := by
  rw [addrAt, List.getElem?_eq_getElem hi, Option.map_some]

theorem Chain.addrAt_inj (hc : Chain h head l) {i j : Nat} {a : Addr} (hi : addrAt l i = some a)
    (hj : addrAt l j = some a) : i = j := by
  have hmap : ∀ k, addrAt l k = (l.map Prod.fst)[k]? := by
    intro k
    rw [addrAt, List.getElem?_map]
  rw [hmap] at hi hj
  obtain ⟨hlt, -⟩ := List.getElem?_eq_some_iff.mp hi
  exact (List.getElem?_inj hlt hc.nodup).mp (hi.trans hj.symm)

theorem Chain.allocated (hc : Chain h head l) {a : Addr} (ha : a ∈ l.map Prod.fst) : a ∈ h := by
  obtain ⟨⟨b, x⟩, hmem, rfl⟩ := List.mem_map.mp ha
  obtain ⟨i, hi⟩ := List.mem_iff_getElem?.mp hmem
  exact AList.lookup_isSome.mp (by rw [hc.node i b x hi]; rfl)

theorem Chain.not_mem_of_free (hc : Chain h head l) {a : Addr} (hfree : h.lookup a = none) :
    a ∉ l.map Prod.fst := by
  intro ha
  exact AList.lookup_eq_none.mp hfree (hc.allocated ha)

theorem Chain.length_le (hc : Chain h head l) : l.length ≤ size h := by
  have hsub : l.map Prod.fst ⊆ h.keys := by
    intro a ha
    exact AList.mem_keys.mp (hc.allocated ha)
  have hle := (List.subperm_of_subset hc.nodup hsub).length_le
  simpa [size, AList.keys, List.keys] using hle

/-- Two lists that have the same node at a position have the same node at the next one. -/
theorem Chain.same_at {l' : List (Addr × α)} (hc : Chain h head l) (hc' : Chain h head l') {i : Nat}
    (heq : addrAt l i = addrAt l' i) :
    l[i]? = l'[i]? ∧ addrAt l (i + 1) = addrAt l' (i + 1) := by
  cases ha : addrAt l i with
  | none =>
    have hlen := addrAt_eq_none.mp ha
    have hlen' := addrAt_eq_none.mp (heq.symm.trans ha)
    rw [List.getElem?_eq_none hlen, List.getElem?_eq_none hlen']
    rw [addrAt_eq_none.mpr (Nat.le_succ_of_le hlen), addrAt_eq_none.mpr (Nat.le_succ_of_le hlen')]
    exact ⟨rfl, rfl⟩
  | some a =>
    obtain ⟨x, hx⟩ := addrAt_eq_some.mp ha
    obtain ⟨x', hx'⟩ := addrAt_eq_some.mp (heq.symm.trans ha)
    have hsame := (hc.node i a x hx).symm.trans (hc'.node i a x' hx')
    obtain ⟨rfl, hnext, -⟩ := Node.mk.inj (Option.some.inj hsame)
    exact ⟨hx.trans hx'.symm, hnext⟩

/-- The memory and the head of a list determine its nodes. -/
theorem Chain.unique {l' : List (Addr × α)} (hc : Chain h head l) (hc' : Chain h head l') :
    l = l' := by
  have haddr : ∀ i, addrAt l i = addrAt l' i := by
    intro i
    induction i with
    | zero => exact hc.head_eq.symm.trans hc'.head_eq
    | succ i ih => exact (hc.same_at hc' ih).2
  exact List.ext_getElem? fun i => (hc.same_at hc' (haddr i)).1

/-! ## Searches -/

/-- `while (list && !p(list->data)) list = list->next`. -/
def find (p : α → Bool) (h : Heap α) : Nat → Option Addr → Option (Option Addr)
  | _, none => some none
  | 0, some _ => none
  | k + 1, some a =>
    (h.lookup a).bind fun n => if p n.data then some (some a) else find p h k n.next

/-- `g_list_last`: `while (list->next) list = list->next`. -/
def last (h : Heap α) : Nat → Addr → Option Addr
  | 0, _ => none
  | k + 1, a =>
    (h.lookup a).bind fun n =>
      match n.next with
      | none => some a
      | some b => last h k b

/-- `g_list_first`: `while (list->prev) list = list->prev`. -/
def first (h : Heap α) : Nat → Option Addr → Option (Option Addr)
  | _, none => some none
  | 0, some _ => none
  | k + 1, some a =>
    (h.lookup a).bind fun n =>
      match n.prev with
      | none => some (some a)
      | some b => first h k (some b)

theorem Chain.first_eq (hc : Chain h head l) : first h (size h) head = some head := by
  cases hhead : head with
  | none => rw [first]
  | some a =>
    obtain ⟨x, hx⟩ := addrAt_eq_some.mp (hc.head_eq.symm.trans hhead)
    obtain ⟨hlt, -⟩ := List.getElem?_eq_some_iff.mp hx
    obtain ⟨k, hk⟩ : ∃ k, size h = k + 1 := ⟨size h - 1, by have := hc.length_le; omega⟩
    rw [hk, first, hc.node 0 a x hx]
    rfl

theorem Chain.find_from (hc : Chain h head l) (p : α → Bool) {k i : Nat}
    (hk : l.length ≤ i + k) :
    find p h k (addrAt l i) = some (((l.drop i).find? fun n => p n.2).map Prod.fst) := by
  induction k generalizing i with
  | zero =>
    rw [Nat.add_zero] at hk
    rw [addrAt_eq_none.mpr hk, List.drop_eq_nil_of_le hk]
    rfl
  | succ k ih =>
    by_cases hi : i < l.length
    · have hget : l[i]? = some (l[i].1, l[i].2) := List.getElem?_eq_getElem hi
      rw [addrAt_of_lt hi, find, hc.node i _ _ hget, Option.bind_some, List.drop_eq_getElem_cons hi,
        List.find?_cons]
      by_cases hp : p l[i].2
      · rw [if_pos hp, hp]
        rfl
      · rw [if_neg hp, Bool.eq_false_iff.mpr hp]
        exact ih (by omega)
    · rw [addrAt_eq_none.mpr (by omega), List.drop_eq_nil_of_le (by omega)]
      rfl

/-- A search finds the first node that satisfies `p`. -/
theorem Chain.find_eq (hc : Chain h head l) (p : α → Bool) :
    find p h (size h) head = some ((l.find? fun n => p n.2).map Prod.fst) := by
  rw [hc.head_eq, hc.find_from p (by have := hc.length_le; omega), List.drop_zero]

theorem Chain.last_from (hc : Chain h head l) {k i : Nat} {a : Addr} (hi : addrAt l i = some a)
    (hk : l.length ≤ i + k) : last h k a = addrAt l (l.length - 1) := by
  induction k generalizing i a with
  | zero =>
    rw [Nat.add_zero] at hk
    rw [addrAt_eq_none.mpr hk] at hi
    cases hi
  | succ k ih =>
    obtain ⟨x, hget⟩ := addrAt_eq_some.mp hi
    obtain ⟨hlt, -⟩ := List.getElem?_eq_some_iff.mp hget
    rw [last, hc.node i a x hget, Option.bind_some]
    cases hnext : addrAt l (i + 1) with
    | none =>
      have hend : l.length - 1 = i := by
        have := addrAt_eq_none.mp hnext
        omega
      rw [hend, hi]
    | some b => exact ih hnext (by omega)

/-! ## Changes -/

/-- `if (link) link->next = next`. -/
def setNext (h : Heap α) (link next : Option Addr) : Option (Heap α) :=
  match link with
  | none => some h
  | some a => (h.lookup a).map fun n => h.insert a { n with next := next }

/-- `if (link) link->prev = prev`. -/
def setPrev (h : Heap α) (link prev : Option Addr) : Option (Heap α) :=
  match link with
  | none => some h
  | some a => (h.lookup a).map fun n => h.insert a { n with prev := prev }

/-- `g_list_append`, with the address of the node that it allocates. -/
def append (h : Heap α) (head : Option Addr) (a : Addr) (x : α) : Option (Heap α × Option Addr) :=
  match head with
  | none => some (h.insert a ⟨x, none, none⟩, some a)
  | some b => do
    let z ← last h (size h) b
    let h ← setNext (h.insert a ⟨x, none, some z⟩) (some z) (some a)
    some (h, some b)

/-- The neighbours of a node are joined, and the node is freed. -/
def unlink (h : Heap α) (head : Option Addr) (a : Addr) : Option (Heap α × Option Addr) := do
  let n ← h.lookup a
  let h ← setNext h n.prev n.next
  let h ← setPrev h n.next n.prev
  some (h.erase a, if head = some a then n.next else head)

/-- `g_list_remove`: the first node with these data goes. -/
def remove [DecidableEq α] (h : Heap α) (head : Option Addr) (x : α) :
    Option (Heap α × Option Addr) :=
  (find (fun y => y == x) h (size h) head).bind fun
    | none => some (h, head)
    | some a => unlink h head a

theorem setNext_spec (link : Option Addr) (hlink : ∀ a, link = some a → a ∈ h)
    (next : Option Addr) :
    ∃ h', setNext h link next = some h' ∧ ∀ b, h'.lookup b = (h.lookup b).map fun m =>
      { m with next := if link = some b then next else m.next } := by
  cases link with
  | none => exact ⟨h, rfl, fun b => by simp⟩
  | some a =>
    obtain ⟨n, hn⟩ := Option.isSome_iff_exists.mp (AList.lookup_isSome.mpr (hlink a rfl))
    refine ⟨h.insert a { n with next := next }, by rw [setNext, hn, Option.map_some], fun b => ?_⟩
    rw [lookup_insert_eq]
    by_cases hb : b = a
    · subst hb
      rw [if_pos rfl, hn, Option.map_some, if_pos rfl]
    · simp [hb, Ne.symm hb]

theorem setPrev_spec (link : Option Addr) (hlink : ∀ a, link = some a → a ∈ h)
    (prev : Option Addr) :
    ∃ h', setPrev h link prev = some h' ∧ ∀ b, h'.lookup b = (h.lookup b).map fun m =>
      { m with prev := if link = some b then prev else m.prev } := by
  cases link with
  | none => exact ⟨h, rfl, fun b => by simp⟩
  | some a =>
    obtain ⟨n, hn⟩ := Option.isSome_iff_exists.mp (AList.lookup_isSome.mpr (hlink a rfl))
    refine ⟨h.insert a { n with prev := prev }, by rw [setPrev, hn, Option.map_some], fun b => ?_⟩
    rw [lookup_insert_eq]
    by_cases hb : b = a
    · subst hb
      rw [if_pos rfl, hn, Option.map_some, if_pos rfl]
    · simp [hb, Ne.symm hb]

theorem addrAt_append_left {m : List (Addr × α)} {i : Nat} (hi : i < l.length) :
    addrAt (l ++ m) i = addrAt l i := by
  rw [addrAt, List.getElem?_append_left hi, addrAt]

theorem addrBefore_append_left {m : List (Addr × α)} {i : Nat} (hi : i ≤ l.length) :
    addrBefore (l ++ m) i = addrBefore l i := by
  cases i with
  | zero => rfl
  | succ i => exact addrAt_append_left hi

theorem addrAt_concat (a : Addr) (x : α) : addrAt (l ++ [(a, x)]) l.length = some a := by
  simp [addrAt]

/-- A list that is longer by one node: the last one points at it, and the others are as before. -/
theorem Chain.snoc (hc : Chain h head l) {h' : Heap α} {a : Addr} {x : α} (hnew : a ∉ l.map Prod.fst)
    (hnode : h'.lookup a = some ⟨x, none, addrBefore l l.length⟩)
    (hold : ∀ b, b ≠ a → h'.lookup b = (h.lookup b).map fun m =>
      { m with next := if addrBefore l l.length = some b then some a else m.next }) :
    Chain h' (addrAt (l ++ [(a, x)]) 0) (l ++ [(a, x)]) := by
  refine ⟨rfl, fun i b y hi => ?_, ?_⟩
  · rcases Nat.lt_trichotomy i l.length with hlt | rfl | hgt
    · rw [List.getElem?_append_left hlt] at hi
      have hba : b ≠ a := by
        rintro rfl
        exact hnew (List.mem_map_of_mem (List.mem_of_getElem? hi))
      have hislast : addrBefore l l.length = some b ↔ i + 1 = l.length := by
        obtain ⟨k, hk⟩ : ∃ k, l.length = k + 1 := ⟨l.length - 1, by omega⟩
        have haddr : addrAt l i = some b := addrAt_eq_some.mpr ⟨y, hi⟩
        rw [hk]
        constructor
        · intro he
          rw [hc.addrAt_inj haddr he]
        · intro he
          obtain rfl : i = k := by omega
          exact haddr
      rw [hold b hba, hc.node i b y hi, Option.map_some, addrBefore_append_left (by omega)]
      by_cases hend : i + 1 = l.length
      · rw [if_pos (hislast.mpr hend), hend, addrAt_concat]
      · rw [if_neg (mt hislast.mp hend), addrAt_append_left (by omega)]
    · rw [List.getElem?_concat_length] at hi
      obtain ⟨rfl, rfl⟩ := Prod.mk.inj (Option.some.inj hi)
      have hend : addrAt (l ++ [(a, x)]) (l.length + 1) = none :=
        addrAt_eq_none.mpr (by rw [List.length_append]; exact Nat.le_refl _)
      rw [hnode, hend, addrBefore_append_left (Nat.le_refl _)]
    · rw [List.getElem?_eq_none (by rw [List.length_append, List.length_singleton]; omega)] at hi
      cases hi
  · rw [List.map_append]
    exact hc.nodup.append (List.nodup_singleton _) (by simpa using hnew)

/-- A new node becomes the last one. -/
theorem Chain.append_spec (hc : Chain h head l) {a : Addr} (hfree : h.lookup a = none) (x : α) :
    ∃ h', append h head a x = some (h', addrAt (l ++ [(a, x)]) 0) ∧
      Chain h' (addrAt (l ++ [(a, x)]) 0) (l ++ [(a, x)]) := by
  have hnew := hc.not_mem_of_free hfree
  cases hhead : head with
  | none =>
    have hnil : l = [] := by
      rw [hc.head_eq, addrAt_eq_none] at hhead
      exact List.length_eq_zero_iff.mp (Nat.le_zero.mp hhead)
    subst hnil
    refine ⟨_, rfl, hc.snoc hnew (AList.lookup_insert _) fun b hb => ?_⟩
    rw [AList.lookup_insert_ne hb]
    simp [addrBefore]
  | some b =>
    have hzero : addrAt l 0 = some b := hc.head_eq.symm.trans hhead
    obtain ⟨y, hy⟩ := addrAt_eq_some.mp hzero
    obtain ⟨hlen, -⟩ := List.getElem?_eq_some_iff.mp hy
    obtain ⟨k, hk⟩ : ∃ k, l.length = k + 1 := ⟨l.length - 1, by omega⟩
    obtain ⟨z, hz⟩ : ∃ z, addrAt l k = some z := ⟨_, addrAt_of_lt (by omega)⟩
    have hbefore : addrBefore l l.length = some z := by
      rw [hk]
      exact hz
    have hlast : last h (size h) b = some z := by
      rw [hc.last_from hzero (by have := hc.length_le; omega), hk, Nat.add_sub_cancel, hz]
    obtain ⟨w, hw⟩ := addrAt_eq_some.mp hz
    have hzmem : z ∈ l.map Prod.fst := List.mem_map_of_mem (List.mem_of_getElem? hw)
    obtain ⟨h', hset, hlook⟩ := setNext_spec (h := h.insert a ⟨x, none, some z⟩) (some z)
      (by
        rintro _ ⟨⟩
        exact (AList.mem_insert h).mpr (.inr (hc.allocated hzmem))) (some a)
    have hza : z ≠ a := by
      rintro rfl
      exact hnew hzmem
    refine ⟨h', ?_, hc.snoc hnew ?_ fun c hca => ?_⟩
    · simp only [append, Option.bind_eq_bind, hlast, Option.bind_some, hset,
        addrAt_append_left hlen, hzero]
    · rw [hlook, AList.lookup_insert, Option.map_some, if_neg (by simpa using hza), hbefore]
    · rw [hlook, AList.lookup_insert_ne hca, hbefore]

theorem addrAt_eraseIdx (d i : Nat) :
    addrAt (l.eraseIdx d) i = if i < d then addrAt l i else addrAt l (i + 1) := by
  unfold addrAt
  rw [List.getElem?_eraseIdx]
  split <;> rfl

theorem addrBefore_eraseIdx (d i : Nat) :
    addrBefore (l.eraseIdx d) i =
      if i ≤ d then addrBefore l i else addrBefore l (i + 1) := by
  cases i with
  | zero => rw [if_pos (Nat.zero_le d), addrBefore, addrBefore]
  | succ i =>
    simp only [addrBefore]
    rw [addrAt_eraseIdx]
    simp only [Nat.succ_le_iff]

/-- What the heap holds after a node has been unlinked. -/
theorem unlink_eq (head : Option Addr) {a : Addr} {n : Node α} (hn : h.lookup a = some n)
    (hprev : ∀ p, n.prev = some p → p ∈ h) (hnext : ∀ q, n.next = some q → q ∈ h) :
    ∃ h', unlink h head a = some (h', if head = some a then n.next else head) ∧
      ∀ b, h'.lookup b = if b = a then none else (h.lookup b).map fun m =>
        { m with
          next := if n.prev = some b then n.next else m.next
          prev := if n.next = some b then n.prev else m.prev } := by
  obtain ⟨h₁, hset₁, hlook₁⟩ := setNext_spec _ hprev n.next
  have hnext₁ : ∀ q, n.next = some q → q ∈ h₁ := by
    intro q hq
    rw [← AList.lookup_isSome, hlook₁, Option.isSome_map]
    exact AList.lookup_isSome.mpr (hnext q hq)
  obtain ⟨h₂, hset₂, hlook₂⟩ := setPrev_spec _ hnext₁ n.prev
  refine ⟨h₂.erase a, ?_, fun b => ?_⟩
  · simp only [unlink, Option.bind_eq_bind, hn, Option.bind_some, hset₁, hset₂]
  · rw [lookup_erase_eq, hlook₂, hlook₁, Option.map_map]
    rfl

/-- Another node has another address. -/
theorem Chain.ne_of_addrAt (hc : Chain h head l) {i d : Nat} {a b : Addr}
    (hd : addrAt l d = some a) (hi : addrAt l i = some b) (hne : i ≠ d) : b ≠ a := by
  rintro rfl
  exact hne (hc.addrAt_inj hi hd)

/-- A list that is shorter by one node: its neighbours point at each other, and the others are as
before. -/
theorem Chain.eraseIdx (hc : Chain h head l) {h' : Heap α} {d : Nat} {a : Addr}
    (hd : addrAt l d = some a)
    (hold : ∀ b, b ≠ a → h'.lookup b = (h.lookup b).map fun m =>
      { m with
        next := if addrBefore l d = some b then addrAt l (d + 1) else m.next
        prev := if addrAt l (d + 1) = some b then addrBefore l d else m.prev }) :
    Chain h' (addrAt (l.eraseIdx d) 0) (l.eraseIdx d) := by
  refine ⟨rfl, fun i b y hi => ?_, ?_⟩
  · -- the position that the node had before
    obtain ⟨j, hj, hpos⟩ : ∃ j, l[j]? = some (b, y) ∧ ((i < d ∧ j = i) ∨ (d ≤ i ∧ j = i + 1)) := by
      rw [List.getElem?_eraseIdx] at hi
      by_cases hlt : i < d
      · exact ⟨i, by rwa [if_pos hlt] at hi, .inl ⟨hlt, rfl⟩⟩
      · exact ⟨i + 1, by rwa [if_neg hlt] at hi, .inr ⟨by omega, rfl⟩⟩
    have hjaddr : addrAt l j = some b := addrAt_eq_some.mpr ⟨y, hj⟩
    have hba : b ≠ a := hc.ne_of_addrAt hd hjaddr (by omega)
    have hisPrev : addrBefore l d = some b ↔ j + 1 = d := by
      cases d with
      | zero => exact ⟨nofun, by omega⟩
      | succ d =>
        constructor
        · intro he
          rw [hc.addrAt_inj hjaddr he]
        · intro hjd
          obtain rfl : j = d := by omega
          exact hjaddr
    have hisNext : addrAt l (d + 1) = some b ↔ j = d + 1 := by
      constructor
      · intro he
        exact hc.addrAt_inj hjaddr he
      · rintro rfl
        exact hjaddr
    rw [hold b hba, hc.node j b y hj, Option.map_some, addrAt_eraseIdx, addrBefore_eraseIdx]
    simp only [hisPrev, hisNext]
    rcases hpos with ⟨hlt, rfl⟩ | ⟨hge, rfl⟩
    · rw [if_neg (by omega : ¬j = d + 1), if_pos (by omega : j ≤ d)]
      by_cases hjd : j + 1 = d
      · rw [if_pos hjd, if_neg (by omega), hjd]
      · rw [if_neg hjd, if_pos (by omega)]
    · rw [if_neg (by omega : ¬i + 1 + 1 = d), if_neg (by omega : ¬i + 1 < d)]
      by_cases hid : i = d
      · subst hid
        rw [if_pos rfl, if_pos (Nat.le_refl _)]
      · rw [if_neg (by omega), if_neg (by omega)]
  · exact hc.nodup.sublist ((List.eraseIdx_sublist l d).map Prod.fst)

/-- A node is taken out of the list. -/
theorem Chain.unlink_spec (hc : Chain h head l) {d : Nat} {a : Addr} {x : α}
    (hd : l[d]? = some (a, x)) :
    ∃ h', unlink h head a = some (h', addrAt (l.eraseIdx d) 0) ∧
      Chain h' (addrAt (l.eraseIdx d) 0) (l.eraseIdx d) := by
  have haddr : addrAt l d = some a := addrAt_eq_some.mpr ⟨x, hd⟩
  have hallocated : ∀ {i b}, addrAt l i = some b → b ∈ h := by
    intro i b hi
    obtain ⟨y, hy⟩ := addrAt_eq_some.mp hi
    exact hc.allocated (List.mem_map_of_mem (List.mem_of_getElem? hy))
  have hprev : ∀ p, addrBefore l d = some p → p ∈ h := by
    intro p hp
    cases d with
    | zero => cases hp
    | succ d => exact hallocated hp
  obtain ⟨h', hunlink, hlook⟩ := unlink_eq head (hc.node d a x hd) hprev
    (fun q hq => hallocated hq)
  have hhead : (if head = some a then addrAt l (d + 1) else head) = addrAt (l.eraseIdx d) 0 := by
    rw [addrAt_eraseIdx]
    by_cases hzero : d = 0
    · subst hzero
      rw [hc.head_eq, haddr, if_pos rfl, if_neg (by omega)]
    · have hne : head ≠ some a := by
        intro he
        exact hzero (hc.addrAt_inj haddr (hc.head_eq.symm.trans he))
      rw [if_neg hne, if_pos (by omega), hc.head_eq]
  rw [hhead] at hunlink
  exact ⟨h', hunlink, hc.eraseIdx haddr fun b hba => by rw [hlook, if_neg hba]⟩

/-- The first node with these data is taken out. -/
theorem Chain.remove_spec [DecidableEq α] (hc : Chain h head l) {d : Nat} {x : α}
    (hd : l.findIdx? (fun n => n.2 == x) = some d) :
    ∃ h', remove h head x = some (h', addrAt (l.eraseIdx d) 0) ∧
      Chain h' (addrAt (l.eraseIdx d) 0) (l.eraseIdx d) := by
  obtain ⟨hlt, -⟩ := List.findIdx?_eq_some_iff_getElem.mp hd
  have hget : l[d]? = some (l[d].1, l[d].2) := List.getElem?_eq_getElem hlt
  obtain ⟨h', hunlink, hc'⟩ := hc.unlink_spec hget
  refine ⟨h', ?_, hc'⟩
  have hfind : (l.find? fun n => n.2 == x) = some (l[d].1, l[d].2) := by
    rw [List.find?_eq_bind_findIdx?_getElem?, hd, Option.bind_some, hget]
  rw [remove, hc.find_eq, hfind, Option.map_some, Option.bind_some]
  exact hunlink

/-! ## Walks -/

section

variable {σ ε : Type} (heap : σ → Heap α) (dead : ε) (f : Addr → α → σ → Except ε σ)

/-- `g_list_foreach`, with the nodes for which `f` was called. The link to the next node is read
before the call. -/
def foreach : Nat → Option Addr → σ → Except ε (σ × List Addr)
  | _, none, s => .ok (s, [])
  | 0, some _, _ => .error dead
  | k + 1, some a, s =>
    match (heap s).lookup a with
    | none => .error dead
    | some n => (f a n.data s).bind fun s => (foreach k n.next s).map fun r => (r.1, a :: r.2)

/-- The calls for the nodes of a list, in order. -/
def serve (l : List (Addr × α)) (s : σ) : Except ε σ := l.foldlM (fun s n => f n.1 n.2 s) s

/-- Under an invariant that fixes the list, a walk visits the rest of it. -/
theorem foreach_from {P : σ → Prop} (hP : ∀ s, P s → Chain (heap s) head l) {k i : Nat}
    (hf : ∀ n ∈ l.drop i, ∀ s s', P s → f n.1 n.2 s = .ok s' → P s')
    {s : σ} (hs : P s) (hk : l.length ≤ i + k) :
    foreach heap dead f k (addrAt l i) s =
      (serve f (l.drop i) s).map fun s => (s, (l.drop i).map Prod.fst) := by
  induction k generalizing i s with
  | zero =>
    rw [Nat.add_zero] at hk
    rw [addrAt_eq_none.mpr hk, List.drop_eq_nil_of_le hk]
    rfl
  | succ k ih =>
    by_cases hi : i < l.length
    · have hget : l[i]? = some (l[i].1, l[i].2) := List.getElem?_eq_getElem hi
      have hcons : serve f (l.drop i) s =
          (f l[i].1 l[i].2 s).bind fun s => serve f (l.drop (i + 1)) s := by
        rw [serve, List.drop_eq_getElem_cons hi, List.foldlM_cons]
        rfl
      rw [addrAt_of_lt hi, foreach, (hP s hs).node i _ _ hget, hcons, List.drop_eq_getElem_cons hi]
      simp only
      cases hcall : f l[i].1 l[i].2 s with
      | error e => rfl
      | ok s' =>
        rw [List.drop_eq_getElem_cons hi] at hf
        have hs' := hf l[i] List.mem_cons_self s s' hs hcall
        simp only [Except.bind]
        rw [ih (fun n hn => hf n (List.mem_cons_of_mem _ hn)) hs' (by omega)]
        cases serve f (l.drop (i + 1)) s' <;> rfl
    · rw [addrAt_eq_none.mpr (by omega), List.drop_eq_nil_of_le (by omega)]
      rfl

end

end OfConnect.Lib.Links

import Mathlib.Data.List.Nodup
import Mathlib.Data.List.Perm.Basic

/-!
# Traces of blocks

A program allocates blocks, reads and writes them, and frees them; its trace lists these events in
their order. `improper` collects the events that the ones before them do not allow: a use of a block
that is not allocated or has been freed, a second `free`, an allocation of a block that is there.
`Account` says which events of a trace are improper and which blocks are live after it, and there is
one rule for each kind of event.
-/

namespace OfConnect.Lib.Blocks

inductive Event where
  | alloc (b : Nat)
  | use (b : Nat)
  | free (b : Nat)
  deriving DecidableEq, Repr

def Event.block : Event → Nat
  | .alloc b => b
  | .use b => b
  | .free b => b

/-- Allocated, and not freed. -/
def Live (trace : List Event) (b : Nat) : Prop := .alloc b ∈ trace ∧ .free b ∉ trace

instance (trace : List Event) (b : Nat) : Decidable (Live trace b) :=
  inferInstanceAs (Decidable (_ ∧ _))

/-- What the events before it allow. -/
def Proper (before : List Event) : Event → Prop
  | .alloc b => .alloc b ∉ before
  | .use b => Live before b
  | .free b => Live before b

instance (before : List Event) : (e : Event) → Decidable (Proper before e)
  | .alloc b => inferInstanceAs (Decidable (.alloc b ∉ before))
  | .use b => inferInstanceAs (Decidable (Live before b))
  | .free b => inferInstanceAs (Decidable (Live before b))

/-- The events of a trace that are not allowed, in their order. -/
def improper (before : List Event) : List Event → List Event
  | [] => []
  | e :: rest => (if Proper before e then [] else [e]) ++ improper (before ++ [e]) rest

theorem improper_append (before l l' : List Event) :
    improper before (l ++ l') = improper before l ++ improper (before ++ l) l' := by
  induction l generalizing before with
  | nil => simp [improper]
  | cons e l ih =>
    rw [List.cons_append, improper, improper, ih, List.append_assoc, List.append_assoc,
      List.singleton_append]

theorem improper_snoc (trace : List Event) (e : Event) :
    improper [] (trace ++ [e]) = improper [] trace ++ if Proper trace e then [] else [e] := by
  rw [improper_append]
  simp [improper]

/-- The improper events of a trace, the blocks that are live after it, and a number that is greater
than those of all its blocks. -/
structure Account (bad : List Event) (next : Nat) (trace : List Event) (held : List Nat) : Prop where
  improper : improper [] trace = bad
  nodup : held.Nodup
  live : ∀ b, Live trace b ↔ b ∈ held
  numbered : ∀ e ∈ trace, e.block < next

namespace Account

variable {bad trace : List Event} {next : Nat} {held held' : List Nat} {b : Nat}

theorem perm (h : Account bad next trace held) (hp : held.Perm held') :
    Account bad next trace held' :=
  ⟨h.improper, hp.nodup_iff.mp h.nodup, fun b => (h.live b).trans hp.mem_iff, h.numbered⟩

theorem lt_next (h : Account bad next trace held) (hb : b ∈ held) : b < next :=
  h.numbered _ ((h.live b).mpr hb).1

theorem numbered_snoc (h : Account bad next trace held) {n : Nat} {e : Event} (hn : next ≤ n)
    (he : e.block < n) : ∀ e' ∈ trace ++ [e], e'.block < n := by
  intro e' he'
  rcases List.mem_append.mp he' with he' | he'
  · have hlt := h.numbered e' he'
    omega
  · rw [List.mem_singleton.mp he']
    exact he

/-- The next block is allocated. -/
theorem alloc (h : Account bad next trace held) :
    Account bad (next + 1) (trace ++ [.alloc next]) (next :: held) := by
  have hnew : ∀ e ∈ trace, e.block ≠ next := fun e he heq => by
    have hlt := h.numbered e he
    omega
  have hproper : Proper trace (.alloc next) := fun hmem => hnew _ hmem rfl
  have hheld : next ∉ held := fun hmem => Nat.lt_irrefl next (h.lt_next hmem)
  refine ⟨?_, List.nodup_cons.mpr ⟨hheld, h.nodup⟩, fun b => ?_, ?_⟩
  · rw [improper_snoc, if_pos hproper, List.append_nil]
    exact h.improper
  · rw [List.mem_cons, ← h.live]
    unfold Live
    by_cases hb : b = next
    · subst hb
      have hfree : Event.free b ∉ trace := fun hmem => hnew _ hmem rfl
      simp [hfree]
    · simp [hb]
  · exact h.numbered_snoc (Nat.le_succ next) (Nat.lt_succ_self next)

theorem live_snoc_use (h : Account bad next trace held) (b b' : Nat) :
    Live (trace ++ [.use b]) b' ↔ b' ∈ held := by
  rw [← h.live]
  simp [Live]

/-- A live block is used. -/
theorem use (h : Account bad next trace held) (hb : b ∈ held) :
    Account bad next (trace ++ [.use b]) held := by
  refine ⟨?_, h.nodup, h.live_snoc_use b, h.numbered_snoc (Nat.le_refl next) (h.lt_next hb)⟩
  have hproper : Proper trace (.use b) := (h.live b).mpr hb
  rw [improper_snoc, if_pos hproper, List.append_nil]
  exact h.improper

/-- A live block is freed. -/
theorem free (h : Account bad next trace (b :: held)) :
    Account bad next (trace ++ [.free b]) held := by
  have hb : b ∈ b :: held := List.mem_cons_self
  obtain ⟨hnot, hnd⟩ := List.nodup_cons.mp h.nodup
  refine ⟨?_, hnd, fun b' => ?_, h.numbered_snoc (Nat.le_refl next) (h.lt_next hb)⟩
  · have hproper : Proper trace (.free b) := (h.live b).mpr hb
    rw [improper_snoc, if_pos hproper, List.append_nil]
    exact h.improper
  · have hlive := h.live b'
    unfold Live at hlive ⊢
    by_cases heq : b' = b
    · subst heq
      simp [hnot]
    · simpa [heq] using hlive

/-- Live blocks are used one after the other. -/
theorem uses (h : Account bad next trace held) {bs : List Nat} (hbs : ∀ b ∈ bs, b ∈ held) :
    Account bad next (trace ++ bs.map .use) held := by
  induction bs generalizing trace with
  | nil => simpa using h
  | cons b bs ih =>
    have hrest := ih (h.use (hbs b List.mem_cons_self)) fun b' hb' => hbs b' (List.mem_cons_of_mem _ hb')
    rwa [List.append_assoc] at hrest

/-- Live blocks are freed one after the other. -/
theorem frees {bs : List Nat} (h : Account bad next trace (bs ++ held)) :
    Account bad next (trace ++ bs.map .free) held := by
  induction bs generalizing trace with
  | nil => simpa using h
  | cons b bs ih =>
    have hrest := ih h.free
    rwa [List.append_assoc] at hrest

end Account

end OfConnect.Lib.Blocks

import Mathlib.Logic.Function.Basic

/-!
# Files behind a buffer

A stream that was opened to append holds back what is put into it and writes it out in order, a
part of it at any time and the rest when it is closed. Somebody else may empty the file
meanwhile, and does not reach what the stream holds back. `Holds` is the account of all that:
a file and its stream together have what was held back when the file was last emptied, and
everything that was put into it since.
-/

namespace OfConnect.Lib.Streams

variable {N α : Type*}

/-- A stream at the end of a file, with what it has not written yet. -/
structure Appender (N α : Type*) where
  name : N
  buffer : List α

abbrev Files (N α : Type*) := N → List α

def Appender.put (s : Appender N α) (x : List α) : Appender N α := { s with buffer := s.buffer ++ x }

/-- What was put into the files: what was held back when a file was last emptied, and what came
after that. -/
structure History (N α : Type*) where
  keptBack : N → List α
  since : N → List α

variable [DecidableEq N]

def Appender.writeOut (s : Appender N α) (n : Nat) (files : Files N α) : Files N α :=
  Function.update files s.name (files s.name ++ s.buffer.take n)

def Appender.close (s : Appender N α) (files : Files N α) : Files N α :=
  Function.update files s.name (files s.name ++ s.buffer)

def truncate (name : N) (files : Files N α) : Files N α := Function.update files name []

/-- What a stream, if there is one, has still to write to a file. -/
def pending (s : Option (Appender N α)) (name : N) : List α :=
  match s with
  | none => []
  | some s => if s.name = name then s.buffer else []

def History.put (h : History N α) (name : N) (x : List α) : History N α :=
  { h with since := Function.update h.since name (h.since name ++ x) }

def History.truncate (h : History N α) (name : N) (held : List α) : History N α :=
  ⟨Function.update h.keptBack name held, Function.update h.since name []⟩

/-- Nothing of what was put into a file is missing, or out of its order. -/
def Holds (h : History N α) (files : Files N α) (s : Option (Appender N α)) : Prop :=
  ∀ name, files name ++ pending s name = h.keptBack name ++ h.since name

theorem pending_of_ne {s : Appender N α} {name : N} (h : name ≠ s.name) :
    pending (some s) name = [] := by
  simp [pending, Ne.symm h]

@[simp] theorem pending_self (s : Appender N α) : pending (some s) s.name = s.buffer := by
  simp [pending]

variable {h : History N α} {files : Files N α} {s : Appender N α}

theorem Holds.put (hh : Holds h files (some s)) (x : List α) :
    Holds (h.put s.name x) files (some (s.put x)) := by
  intro name
  have hname := hh name
  by_cases heq : name = s.name
  · subst heq
    rw [pending_self] at hname
    have hput : pending (some (s.put x)) s.name = s.buffer ++ x := pending_self (s.put x)
    rw [hput]
    simp only [History.put, Function.update_self]
    rw [← List.append_assoc, hname, List.append_assoc]
  · rw [pending_of_ne heq] at hname
    have hput : pending (some (s.put x)) name = [] := pending_of_ne (s := s.put x) heq
    rw [hput]
    simp only [History.put, Function.update_of_ne heq]
    exact hname

theorem Holds.writeOut (hh : Holds h files (some s)) (n : Nat) :
    Holds h (s.writeOut n files) (some { s with buffer := s.buffer.drop n }) := by
  intro name
  rw [← hh name]
  by_cases heq : name = s.name
  · subst heq
    have hrest : pending (some { s with buffer := s.buffer.drop n }) s.name = s.buffer.drop n :=
      pending_self { s with buffer := s.buffer.drop n }
    rw [hrest, pending_self]
    simp only [Appender.writeOut, Function.update_self]
    rw [List.append_assoc, List.take_append_drop]
  · have hrest : pending (some { s with buffer := s.buffer.drop n }) name = [] :=
      pending_of_ne (s := { s with buffer := s.buffer.drop n }) heq
    rw [hrest, pending_of_ne heq]
    simp only [Appender.writeOut, Function.update_of_ne heq]

theorem Holds.close (hh : Holds h files (some s)) : Holds h (s.close files) none := by
  intro name
  rw [← hh name]
  by_cases heq : name = s.name
  · subst heq
    rw [pending_self]
    simp only [Appender.close, Function.update_self, pending, List.append_nil]
  · rw [pending_of_ne heq]
    simp only [Appender.close, Function.update_of_ne heq, pending]

theorem Holds.open (hh : Holds h files none) (name : N) : Holds h files (some ⟨name, []⟩) := by
  intro name'
  rw [← hh name']
  simp only [pending, ite_self]

/-- What the stream holds back stays, and is written in front of all that is put in later. -/
theorem Holds.truncate {s : Option (Appender N α)} (hh : Holds h files s) (name : N) :
    Holds (h.truncate name (pending s name)) (truncate name files) s := by
  intro name'
  by_cases heq : name' = name
  · subst heq
    simp [History.truncate, Streams.truncate]
  · simp only [History.truncate, Streams.truncate, Function.update_of_ne heq]
    exact hh name'

end OfConnect.Lib.Streams

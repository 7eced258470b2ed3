import Mathlib.Data.List.Basic

/-!
# Strings in memory

A string ends at the first zero byte that follows its address. Here an address is given by the
bytes that may be read from it on, and a buffer by its size. The result `none` is an access out
of bounds: a reader that finds no zero among its bytes, or a string that does not fit into a
buffer together with its terminator.
-/

namespace OfConnect.Lib.CString

/-- The bytes of a literal, without the terminator. -/
def lit (s : String) : List UInt8 := s.toList.map fun c => c.toNat.toUInt8

/-- The string at an address. -/
def readStr : List UInt8 → Option (List UInt8)
  | [] => none
  | b :: mem => if b = 0 then some [] else (readStr mem).map (b :: ·)

theorem readStr_eq (mem : List UInt8) :
    readStr mem = if 0 ∈ mem then some (mem.take (mem.idxOf 0)) else none := by
  induction mem with
  | nil => rfl
  | cons b mem ih =>
    by_cases hb : b = 0
    · subst hb
      simp [readStr]
    · have hmem : 0 ∈ b :: mem ↔ 0 ∈ mem := by
        simp [Ne.symm hb]
      rw [readStr, if_neg hb, ih, List.idxOf_cons_ne _ hb]
      by_cases h : 0 ∈ mem
      · rw [if_pos h, if_pos (hmem.mpr h)]
        rfl
      · rw [if_neg h, if_neg (mt hmem.mp h)]
        rfl

/-- A string that was stored with its terminator is read back. -/
theorem readStr_terminated {s : List UInt8} (h : 0 ∉ s) : readStr (s ++ [0]) = some s := by
  have hidx : (s ++ [0]).idxOf 0 = s.length := by
    rw [List.idxOf_append_of_notMem h]
    rfl
  rw [readStr_eq, if_pos (by simp), hidx, List.take_left]

/-- An argument of a formatting function: the address of a string, or a number. -/
inductive Arg where
  | str (mem : List UInt8)
  | int (n : Nat)
  deriving DecidableEq, Repr

/-- The digits that `%d` writes. -/
def decimal (n : Nat) : List UInt8 := (Nat.toDigits 10 n).map fun c => c.toNat.toUInt8

/-- The text of a format with the directives `%s` and `%d`. -/
def format : List Char → List Arg → Option (List UInt8)
  | [], _ => some []
  | '%' :: 's' :: fmt, .str mem :: args =>
    (readStr mem).bind fun s => (format fmt args).map (s ++ ·)
  | '%' :: 'd' :: fmt, .int n :: args => (format fmt args).map (decimal n ++ ·)
  | c :: fmt, args => (format fmt args).map (c.toNat.toUInt8 :: ·)

theorem format_lit {text : List Char} (h : '%' ∉ text) (fmt : List Char) (args : List Arg) :
    format (text ++ fmt) args =
      (format fmt args).map (text.map (fun c => c.toNat.toUInt8) ++ ·) := by
  induction text with
  | nil => simp
  | cons c text ih =>
    obtain ⟨hc, htext⟩ := not_or.mp (mt List.mem_cons.mpr h)
    have hstep : format (c :: (text ++ fmt)) args =
        (format (text ++ fmt) args).map (c.toNat.toUInt8 :: ·) := by
      rw [format]
      · intro _ _ _ _ he
        exact absurd he.symm hc
      · intro _ _ _ _ he
        exact absurd he.symm hc
    rw [List.cons_append, hstep, ih htext, Option.map_map]
    rfl

theorem format_str {mem s : List UInt8} (h : readStr mem = some s) (fmt : List Char)
    (args : List Arg) :
    format ('%' :: 's' :: fmt) (.str mem :: args) = (format fmt args).map (s ++ ·) := by
  rw [format, h, Option.bind_some]

theorem format_int (n : Nat) (fmt : List Char) (args : List Arg) :
    format ('%' :: 'd' :: fmt) (.int n :: args) = (format fmt args).map (decimal n ++ ·) := by
  rw [format]

/-- A string is written to a buffer of this size. -/
def store (size : Nat) (s : List UInt8) : Option (List UInt8) :=
  if s.length + 1 ≤ size then some s else none

def sprintf (size : Nat) (fmt : String) (args : List Arg) : Option (List UInt8) :=
  (format fmt.toList args).bind (store size)

def strcat (size : Nat) (dst src : List UInt8) : Option (List UInt8) := store size (dst ++ src)

theorem store_isSome_iff {size : Nat} {s : List UInt8} :
    (store size s).isSome ↔ s.length + 1 ≤ size := by
  unfold store
  split <;> simp_all

theorem sprintf_eq_some {size : Nat} {fmt : String} {args : List Arg} {s : List UInt8} :
    sprintf size fmt args = some s ↔ format fmt.toList args = some s ∧ s.length + 1 ≤ size := by
  unfold sprintf store
  cases format fmt.toList args with
  | none => simp
  | some r =>
    rw [Option.bind_some]
    by_cases h : r.length + 1 ≤ size
    · rw [if_pos h, Option.some.injEq]
      exact ⟨fun he => ⟨he, he ▸ h⟩, And.left⟩
    · rw [if_neg h, Option.some.injEq]
      exact ⟨nofun, fun ⟨he, hle⟩ => absurd (he ▸ hle) h⟩

end OfConnect.Lib.CString

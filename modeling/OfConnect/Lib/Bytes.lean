import Mathlib.Data.List.Basic
import Mathlib.Tactic.Ring

/-!
# Bytes in memory and on a stream

Memory is a function from offsets to bytes, with a block store and a block fetch; a
number is stored as its little-endian bytes. A reader that takes up to `n` bytes at a
time sees a stream in chunks: `Chunked` says which chunks it will see, as long as all of
them but the last are full.
-/

namespace OfConnect.Lib.Bytes

/-! ## Memory -/

abbrev Mem := Nat → UInt8

/-- Write `bs` from offset `off` on. -/
def store (m : Mem) (off : Nat) (bs : List UInt8) : Mem := fun i =>
  if off ≤ i then bs[i - off]?.getD (m i) else m i

/-- The `n` bytes from offset `off` on. -/
def fetch (m : Mem) (off n : Nat) : List UInt8 := (List.range n).map fun i => m (off + i)

@[simp] theorem length_fetch (m : Mem) (off n : Nat) : (fetch m off n).length = n := by
  simp [fetch]

theorem fetch_add (m : Mem) (off a b : Nat) :
    fetch m off (a + b) = fetch m off a ++ fetch m (off + a) b := by
  simp [fetch, List.range_add, Function.comp_def, Nat.add_assoc]

theorem fetch_congr {m m' : Mem} {off n : Nat}
    (h : ∀ i, off ≤ i → i < off + n → m i = m' i) : fetch m off n = fetch m' off n := by
  apply List.map_congr_left
  intro i hi
  rw [List.mem_range] at hi
  exact h (off + i) (by omega) (by omega)

theorem store_inside {m : Mem} {off i : Nat} {bs : List UInt8} (h : off ≤ i)
    (h' : i < off + bs.length) : store m off bs i = bs[i - off] := by
  unfold store
  rw [if_pos h, List.getElem?_eq_getElem (by omega), Option.getD_some]

theorem store_outside {m : Mem} {off i : Nat} {bs : List UInt8}
    (h : i < off ∨ off + bs.length ≤ i) : store m off bs i = m i := by
  unfold store
  split
  · rw [List.getElem?_eq_none (by omega), Option.getD_none]
  · rfl

theorem fetch_store_self (m : Mem) (off : Nat) (bs : List UInt8) :
    fetch (store m off bs) off bs.length = bs := by
  apply List.ext_getElem
  · simp
  · intro i _ hi
    simp only [fetch, List.getElem_map, List.getElem_range]
    rw [store_inside (by omega) (by omega)]
    simp

theorem fetch_store_of_disjoint {m : Mem} {off n o : Nat} {bs : List UInt8}
    (h : off + n ≤ o ∨ o + bs.length ≤ off) : fetch (store m o bs) off n = fetch m off n :=
  fetch_congr fun _ _ _ => store_outside (by omega)

/-- A part of what was stored is fetched back. -/
theorem fetch_store_part {m : Mem} {off n : Nat} {bs : List UInt8} (h : off + n ≤ bs.length) :
    fetch (store m 0 bs) off n = (bs.drop off).take n := by
  apply List.ext_getElem
  · simp; omega
  · intro i hi _
    have hin : i < n := by simpa using hi
    simp only [fetch, List.getElem_map, List.getElem_range, List.getElem_take, List.getElem_drop]
    rw [store_inside (by omega) (by omega)]
    simp

/-! ## Little-endian numbers -/

/-- The low `w` bytes of a number, least significant first. -/
def leBytes : Nat → Nat → List UInt8
  | 0, _ => []
  | w + 1, n => UInt8.ofNat n :: leBytes w (n / 256)

def leNat : List UInt8 → Nat
  | [] => 0
  | b :: bs => b.toNat + 256 * leNat bs

@[simp] theorem length_leBytes (w n : Nat) : (leBytes w n).length = w := by
  induction w generalizing n with
  | zero => rfl
  | succ w ih => simp [leBytes, ih]

theorem leNat_leBytes (w n : Nat) : leNat (leBytes w n) = n % 256 ^ w := by
  induction w generalizing n with
  | zero => simp [leBytes, leNat, Nat.mod_one]
  | succ w ih =>
    have hb : (UInt8.ofNat n).toNat = n % 256 := by simp
    rw [leBytes, leNat, ih, hb, Nat.pow_succ', Nat.mod_mul]

/-! ## Streams read in chunks -/

variable {α : Type*} {n : Nat}

/-- No chunk is empty or longer than `n`, and all but the last are full. -/
structure Chunked (n : Nat) (cs : List (List α)) : Prop where
  nonempty : ∀ c ∈ cs, c ≠ []
  le : ∀ c ∈ cs, c.length ≤ n
  full : ∀ c ∈ cs.dropLast, c.length = n

theorem chunked_nil : Chunked n ([] : List (List α)) := ⟨by simp, by simp, by simp⟩

theorem Chunked.tail {c : List α} {cs : List (List α)} (h : Chunked n (c :: cs)) : Chunked n cs := by
  refine ⟨fun d hd => h.nonempty d (by simp [hd]), fun d hd => h.le d (by simp [hd]),
    fun d hd => h.full d ?_⟩
  cases cs with
  | nil => simp at hd
  | cons e cs => simpa using Or.inr hd

/-- One read takes exactly the first chunk. -/
theorem Chunked.read {c : List α} {cs : List (List α)} (h : Chunked n (c :: cs)) :
    (c :: cs).flatten.take n = c ∧ (c :: cs).flatten.drop n = cs.flatten := by
  rw [List.flatten_cons]
  cases cs with
  | nil =>
    have hle := h.le c (by simp)
    rw [List.flatten_nil, List.append_nil, List.take_of_length_le hle, List.drop_of_length_le hle]
    exact ⟨rfl, rfl⟩
  | cons d cs =>
    have hfull := h.full c (by simp)
    rw [List.take_left' hfull, List.drop_left' hfull]
    exact ⟨rfl, rfl⟩

theorem flatten_eq_nil_iff_of_chunked {cs : List (List α)} (h : Chunked n cs) :
    cs.flatten = [] ↔ cs = [] := by
  cases cs with
  | nil => simp
  | cons c cs => simp [h.nonempty c (by simp)]

theorem Chunked.length_mod {cs : List (List α)} {c : List α} (h : Chunked n (cs ++ [c])) :
    (cs ++ [c]).flatten.length % n = c.length % n := by
  have hfull : ∀ d ∈ cs, d.length = n := fun d hd => h.full d (by simpa using hd)
  have hsum : cs.flatten.length = n * cs.length := by
    rw [List.length_flatten, List.map_congr_left hfull]
    simp [Nat.mul_comm]
  rw [List.flatten_append, List.length_append, hsum, Nat.mul_add_mod]
  simp

/-- What is written into a stream of whole chunks starts a chunk of its own. -/
theorem Chunked.append {cs : List (List α)} {c : List α} (h : Chunked n cs) (hc : c ≠ [])
    (hle : c.length ≤ n) (hmod : cs.flatten.length % n = 0) : Chunked n (cs ++ [c]) := by
  refine ⟨fun d hd => ?_, fun d hd => ?_, fun d hd => ?_⟩
  · rcases List.mem_append.mp hd with hd | hd
    · exact h.nonempty d hd
    · rw [List.mem_singleton.mp hd]
      exact hc
  · rcases List.mem_append.mp hd with hd | hd
    · exact h.le d hd
    · rw [List.mem_singleton.mp hd]
      exact hle
  · rw [List.dropLast_concat] at hd
    rcases List.eq_nil_or_concat cs with rfl | ⟨cs, e, rfl⟩
    · cases hd
    · rw [List.concat_eq_append] at *
      rcases List.mem_append.mp hd with hd' | hd'
      · exact h.full d (by simpa using hd')
      · rw [h.length_mod] at hmod
        rw [List.mem_singleton.mp hd']
        have hpos := List.length_pos_iff.mpr (h.nonempty e (by simp))
        have hlen := h.le e (by simp)
        rcases Nat.lt_or_eq_of_le hlen with hlt | heq
        · rw [Nat.mod_eq_of_lt hlt] at hmod
          omega
        · exact heq

/-- What fits into the last chunk becomes part of it. -/
theorem Chunked.extend {cs : List (List α)} {c d : List α} (h : Chunked n (cs ++ [c]))
    (hfit : c.length + d.length ≤ n) : Chunked n (cs ++ [c ++ d]) := by
  refine ⟨fun e he => ?_, fun e he => ?_, fun e he => h.full e (by simpa using he)⟩
  · rcases List.mem_append.mp he with he | he
    · exact h.nonempty e (by simp [he])
    · have hc := h.nonempty c (by simp)
      rw [List.mem_singleton.mp he]
      simp [hc]
  · rcases List.mem_append.mp he with he | he
    · exact h.le e (by simp [he])
    · rw [List.mem_singleton.mp he, List.length_append]
      exact hfit

end OfConnect.Lib.Bytes

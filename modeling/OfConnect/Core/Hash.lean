import Mathlib.Algebra.Group.Int.Defs
import Mathlib.Algebra.Group.Nat.Defs
import OfConnect.Core.State

/-!
# The hash functions of the tables

A key is summed up in a `guint`, multiplied by a constant and reduced modulo the size of the
table. The constant does not fit into an `int` and has no suffix, so on an LP64 target it is a
`long`, and so is the product. Almost a fifth of the sums are too large for that: the product
overflows, which for a signed type is undefined.
-/

namespace OfConnect.Core.Hash

open OfConnect.PollThr.Thread OfConnect.Core.State

def maxOfdevHtblSize : Int := 101
def maxOfchannHtblSize : Int := 10007
def maxOfrwHtblSize : Int := 10007

/-- A product of two `long`s; `none` is an overflow. -/
def longMul (a b : Int) : Option Int :=
  if -2 ^ 63 ≤ a * b ∧ a * b < 2 ^ 63 then some (a * b) else none

/-- `(hash * 2654435761) % size`, stored in a `guint`. -/
def mixHash (hash : UInt32) (size : Int) : Option UInt32 :=
  (longMul hash.toNat 2654435761).map fun product => UInt32.ofInt (product.tmod size)

def ccOfdevHashFunc (key : DevKey) : Option UInt32 :=
  mixHash (key.controllerIpAddr + key.switchIpAddr + key.controllerL4Port.toUInt32)
    maxOfdevHtblSize

/-- `dp_id + aux_id` is a `uint64_t`, and cut off when it is stored. -/
def ccOfchannHashFunc (key : ChannelKey) : Option UInt32 :=
  mixHash (key.dpId + key.auxId.toUInt64).toUInt32 maxOfchannHtblSize

def ccOfrwHashFunc (rwSockfd : Fd) : Option UInt32 := mixHash rwSockfd.toUInt32 maxOfrwHtblSize

/-- The product does not overflow, and the value is an index of a table of this size. -/
def InRange (hash : Option UInt32) (size : Int) : Prop :=
  ∃ h, hash = some h ∧ (h.toNat : Int) < size

def HashesInRange (dev : DevKey) (ck : ChannelKey) (fd : Fd) : Prop :=
  InRange (ccOfdevHashFunc dev) maxOfdevHtblSize ∧
    InRange (ccOfchannHashFunc ck) maxOfchannHtblSize ∧
    InRange (ccOfrwHashFunc fd) maxOfrwHtblSize

/-- The largest sum whose product is a `long`. -/
def maxSum : Nat := 3474701543

theorem longMul_of_le {n : Nat} (h : n ≤ maxSum) :
    longMul n 2654435761 = some ((n : Int) * 2654435761) := by
  unfold maxSum at h
  rw [longMul, if_pos (by omega)]

theorem longMul_of_gt {n : Nat} (h : maxSum < n) : longMul n 2654435761 = none := by
  unfold maxSum at h
  rw [longMul, if_neg (by omega)]

theorem toNat_ofInt {n : Int} (h0 : 0 ≤ n) (h : n < 2 ^ 32) : ((UInt32.ofInt n).toNat : Int) = n := by
  have hmod : n % 2 ^ 32 = n := Int.emod_eq_of_lt h0 h
  have hlt : n.toNat < 2 ^ 32 := by omega
  rw [UInt32.ofInt, hmod, UInt32.toNat_ofNat_of_lt' hlt]
  exact Int.toNat_of_nonneg h0

/-- One of the three functions is in range exactly if its sum is not too large. -/
theorem mixHash_inRange_iff (hash : UInt32) {size : Int} (hpos : 0 < size) (hsize : size < 2 ^ 32) :
    InRange (mixHash hash size) size ↔ hash.toNat ≤ maxSum := by
  constructor
  · rintro ⟨h, hmix, -⟩
    by_contra hgt
    rw [mixHash, longMul_of_gt (Nat.lt_of_not_le hgt)] at hmix
    cases hmix
  · intro hle
    refine ⟨UInt32.ofInt ((hash.toNat * 2654435761 : Int).tmod size), ?_, ?_⟩
    · rw [mixHash, longMul_of_le hle, Option.map_some]
    · have hnonneg : (0 : Int) ≤ hash.toNat * 2654435761 := by omega
      have hlt := Int.emod_lt_of_pos (hash.toNat * 2654435761) hpos
      have hzero := Int.emod_nonneg (hash.toNat * 2654435761) (Int.ne_of_gt hpos)
      rw [Int.tmod_eq_emod_of_nonneg hnonneg, toNat_ofInt hzero (by omega)]
      exact hlt

/-- A socket number is less than half of what a sum can be. -/
theorem toUInt32_le_maxSum {fd : Fd} (h : 0 ≤ fd) : fd.toUInt32.toNat ≤ maxSum := by
  rw [Int32.toNat_toUInt32_of_le h]
  have hlt := fd.toInt_lt
  unfold maxSum Int32.toNatClampNeg
  omega

/-- The three functions are in range exactly if the fields of the device key and those of the
channel key, summed up modulo `2 ^ 32`, are not too large. -/
theorem hashes_inRange_iff (dev : DevKey) (ck : ChannelKey) (fd : Fd) (hfd : 0 ≤ fd) :
    HashesInRange dev ck fd ↔
    (dev.controllerIpAddr.toNat + dev.switchIpAddr.toNat + dev.controllerL4Port.toNat) % 2 ^ 32 ≤
        maxSum ∧
      (ck.dpId.toNat + ck.auxId.toNat) % 2 ^ 32 ≤ maxSum := by
  have hdev : (dev.controllerIpAddr + dev.switchIpAddr + dev.controllerL4Port.toUInt32).toNat =
      (dev.controllerIpAddr.toNat + dev.switchIpAddr.toNat + dev.controllerL4Port.toNat) %
        2 ^ 32 := by
    rw [UInt32.toNat_add, UInt32.toNat_add, UInt16.toNat_toUInt32]
    omega
  have hck : (ck.dpId + ck.auxId.toUInt64).toUInt32.toNat =
      (ck.dpId.toNat + ck.auxId.toNat) % 2 ^ 32 := by
    rw [UInt64.toNat_toUInt32, UInt64.toNat_add, UInt8.toNat_toUInt64]
    omega
  have hrw : InRange (ccOfrwHashFunc fd) maxOfrwHtblSize :=
    (mixHash_inRange_iff _ (by decide) (by decide)).mpr (toUInt32_le_maxSum hfd)
  rw [HashesInRange, ← hdev, ← hck, and_iff_left hrw]
  exact and_congr (mixHash_inRange_iff _ (by decide) (by decide))
    (mixHash_inRange_iff _ (by decide) (by decide))

/-- A device on port 6633 of 10.0.0.1, a switch at 10.0.0.2, and socket 5. -/
theorem hashes_inRange_private_network :
    HashesInRange ⟨0x0A000001, 0x0A000002, 6633⟩ ⟨7, 0⟩ 5 :=
  (hashes_inRange_iff ⟨0x0A000001, 0x0A000002, 6633⟩ ⟨7, 0⟩ 5 (by decide)).mpr (by decide)

/-- Controller and switch are both at 127.0.0.1. -/
theorem loopback_hash_overflows :
    ¬HashesInRange ⟨0x7F000001, 0x7F000001, 6633⟩ ⟨7, 0⟩ 5 := by
  intro h
  have hle := (mixHash_inRange_iff _ (by decide) (by decide)).mp h.1
  revert hle
  decide

end OfConnect.Core.Hash

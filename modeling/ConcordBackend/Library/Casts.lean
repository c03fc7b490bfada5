import Mathlib.Algebra.Group.Int.Defs
import Mathlib.Algebra.Group.Nat.Defs

/-!
# Casts of integers of a fixed width

A cast from an unsigned to a signed integer keeps the bits: it keeps the number where the sign
bit is clear, and subtracts `2 ^ w` from it where it is set. A signed high half, shifted, and an
unsigned low half make up a wider integer: the cast extends the sign of the one and fills up
the other with zeros, so that the halves have no bit in common.
-/

theorem UInt64.toInt_toInt64 (v : UInt64) :
    v.toInt64.toInt = if v.toNat < 2 ^ 63 then (v.toNat : Int) else v.toNat - 2 ^ 64 := by
  have hcond : v.toInt64.toInt = if 2 * v.toNat < 2 ^ 64 then (v.toNat : Int)
      else (v.toNat : Int) - (2 ^ 64 : Nat) := BitVec.toInt_eq_toNat_cond v.toBitVec
  rw [hcond]
  split <;> split <;> omega

theorem UInt32.toInt_toInt32 (v : UInt32) :
    v.toInt32.toInt = if v.toNat < 2 ^ 31 then (v.toNat : Int) else v.toNat - 2 ^ 32 := by
  have hcond : v.toInt32.toInt = if 2 * v.toNat < 2 ^ 32 then (v.toNat : Int)
      else (v.toNat : Int) - (2 ^ 32 : Nat) := BitVec.toInt_eq_toNat_cond v.toBitVec
  rw [hcond]
  split <;> split <;> omega

/-- The cast keeps exactly the numbers below `2 ^ 63`, and makes the others negative. -/
theorem UInt64.toInt_toInt64_eq_natCast {v u : UInt64} :
    v.toInt64.toInt = u.toNat ↔ v = u ∧ v.toNat < 2 ^ 63 := by
  have hlt := v.toNat_lt
  rw [toInt_toInt64, ← UInt64.toNat_inj]
  split <;> omega

@[inherit_doc UInt64.toInt_toInt64_eq_natCast]
theorem UInt32.toInt_toInt32_eq_natCast {v u : UInt32} :
    v.toInt32.toInt = u.toNat ↔ v = u ∧ v.toNat < 2 ^ 31 := by
  have hlt := v.toNat_lt
  rw [toInt_toInt32, ← UInt32.toNat_inj]
  split <;> omega

/-- A number without a sign survives both casts. -/
theorem Int64.toNat_toUInt64_ofInt {s : Int} (hpos : 0 ≤ s) (hlt : s < 2 ^ 64) :
    ((Int64.ofInt s).toUInt64.toNat : Int) = s := by
  have hbits : (Int64.ofInt s).toUInt64.toNat = (BitVec.ofInt 64 s).toNat := rfl
  rw [hbits, BitVec.toNat_ofInt]
  omega

/-- The two halves of an integer, one behind the other. -/
theorem BitVec.signExtend_shiftLeft_or_zeroExtend {w v : Nat} (hi : BitVec w) (lo : BitVec v) :
    (hi.signExtend (w + v) <<< v) ||| lo.zeroExtend (w + v) = hi ++ lo := by
  ext i hlt
  rw [BitVec.getElem_or, BitVec.getElem_shiftLeft, BitVec.getElem_append]
  by_cases hlow : i < v
  · simp [hlow, BitVec.getElem_setWidth]
  · have hnone : lo.getLsbD i = false := BitVec.getLsbD_of_ge _ _ (by omega)
    have hhigh : i - v < w := by omega
    simp [hlow, BitVec.getElem_signExtend, hnone, hhigh]

/-- **An integer from its halves.** -/
theorem BitVec.toInt_signExtend_shiftLeft_or_zeroExtend {w v : Nat} (hw : w ≠ 0) (hi : BitVec w)
    (lo : BitVec v) : ((hi.signExtend (w + v) <<< v) ||| lo.zeroExtend (w + v)).toInt =
      hi.toInt * 2 ^ v + lo.toNat := by
  rw [signExtend_shiftLeft_or_zeroExtend, toInt_append, if_neg (by simpa using hw), Int.mul_comm]

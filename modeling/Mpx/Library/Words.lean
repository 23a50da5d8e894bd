import Mathlib.Algebra.Group.Nat.Defs

/-! # Words of 32 bits as numbers -/

namespace Library.Words

variable {a n : UInt32}

theorem offset_toNat (fits : a.toNat + n.toNat < 2 ^ 32) : (a + n).toNat = a.toNat + n.toNat := by
  rw [UInt32.toNat_add]
  exact Nat.mod_eq_of_lt fits

theorem below_toNat (below : n.toNat ≤ a.toNat) : (a - n).toNat = a.toNat - n.toNat :=
  UInt32.toNat_sub_of_le a n (UInt32.le_iff_toNat_le.mpr below)

/-- The mask of the upper 20 bits rounds down to a page. -/
theorem masked_toNat (a : UInt32) : (a &&& 0xFFFFF000).toNat = a.toNat / 4096 * 4096 := by
  have mask : ∀ i < 32, (0xFFFFF000 : Nat).testBit i = decide (12 ≤ i) := by decide
  rw [UInt32.toNat_and]
  change a.toNat &&& 0xFFFFF000 = a.toNat / 2 ^ 12 * 2 ^ 12
  apply Nat.eq_of_testBit_eq
  intro i
  rw [Nat.testBit_and, Nat.testBit_mul_two_pow]
  by_cases low : i < 32
  · rw [mask i low, Nat.testBit_div_two_pow]
    by_cases page : 12 ≤ i
    · simp [page, Nat.sub_add_cancel page]
    · simp [page]
  · have high : a.toNat.testBit i = false :=
      Nat.testBit_lt_two_pow (Nat.lt_of_lt_of_le a.toNat_lt (Nat.pow_le_pow_right (by decide) (by omega)))
    rw [Nat.testBit_div_two_pow, Nat.sub_add_cancel (by omega), high]
    simp

end Library.Words

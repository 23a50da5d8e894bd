import Mathlib.Data.Nat.Bitwise

/-! # Bitmaps in words of 32 bits -/

namespace Library.Bitmap

def bit (word : UInt32) (j : Nat) : Bool := word.toNat.testBit j

/-- The bit `n` of an array of words. -/
def Marked (words : Nat → UInt32) (n : Nat) : Prop := bit (words (n / 32)) (n % 32) = true

instance (words : Nat → UInt32) (n : Nat) : Decidable (Marked words n) := inferInstanceAs (Decidable (_ = true))

/-- The bits below `n` are set and no others. -/
def Filled (words : Nat → UInt32) (n : Nat) : Prop := ∀ f, Marked words f ↔ f < n

variable {word : UInt32} {words : Nat → UInt32} {j k n : Nat}

theorem toNat_bit (small : j < 32) : ((1 : UInt32) <<< UInt32.ofNat j).toNat = 2 ^ j := by
  have power : 2 ^ j < 2 ^ 32 := Nat.pow_lt_pow_right (by decide) small
  rw [UInt32.toNat_shiftLeft, UInt32.toNat_ofNat_of_lt' (Nat.lt_trans small (by decide)), Nat.mod_eq_of_lt small,
    UInt32.toNat_one, Nat.one_shiftLeft, Nat.mod_eq_of_lt power]

theorem bit_or (small : j < 32) (word : UInt32) (k : Nat) :
    bit (word ||| (1 <<< UInt32.ofNat j)) k = (bit word k || decide (j = k)) := by
  unfold bit
  rw [UInt32.toNat_or, toNat_bit small, Nat.testBit_or, Nat.testBit_two_pow]

theorem and_bit (small : j < 32) : word &&& (1 <<< UInt32.ofNat j) = 0 ↔ bit word j = false := by
  rw [← UInt32.toNat_inj, UInt32.toNat_and, toNat_bit small, UInt32.toNat_zero, Nat.and_two_pow]
  unfold bit
  have power := Nat.two_pow_pos j
  cases word.toNat.testBit j with
  | false => simp
  | true => simp

theorem full_iff : word = 0xFFFFFFFF ↔ ∀ j < 32, bit word j = true := by
  have full : ∀ j < 32, bit 0xFFFFFFFF j = true := by decide
  constructor
  · rintro rfl
    exact full
  · intro set
    apply UInt32.toNat_inj.mp
    apply Nat.eq_of_testBit_eq
    intro j
    by_cases low : j < 32
    · exact (set j low).trans (full j low).symm
    · have high : ∀ w : UInt32, w.toNat.testBit j = false := fun w =>
        Nat.testBit_lt_two_pow (Nat.lt_of_lt_of_le w.toNat_lt (Nat.pow_le_pow_right (by decide) (by omega)))
      rw [high, high]

theorem marked_set (words : Nat → UInt32) (n f : Nat) :
    Marked (Function.update words (n / 32) (words (n / 32) ||| (1 <<< UInt32.ofNat (n % 32)))) f ↔
      f = n ∨ Marked words f := by
  unfold Marked
  by_cases same : f / 32 = n / 32
  · rw [same, Function.update_self, bit_or (Nat.mod_lt n (by decide)), Bool.or_eq_true, decide_eq_true_iff]
    constructor
    · rintro (old | here)
      · exact .inr old
      · exact .inl (by omega)
    · rintro (rfl | old)
      · exact .inr rfl
      · exact .inl old
  · rw [Function.update_of_ne same]
    refine ⟨.inr, fun either => either.resolve_left ?_⟩
    rintro rfl
    exact same rfl

/-- Setting the first bit that is not set fills one more. -/
theorem filled_set (before : Filled words n) :
    Filled (Function.update words (n / 32) (words (n / 32) ||| (1 <<< UInt32.ofNat (n % 32)))) (n + 1) := by
  intro f
  rw [marked_set, before f]
  omega

theorem filled_zero : Filled (fun _ => 0) 0 := by
  intro f
  simp [Marked, bit]

theorem bit_filled (before : Filled words n) (i : Nat) (small : j < 32) :
    bit (words i) j = true ↔ 32 * i + j < n := by
  have here := before (32 * i + j)
  unfold Marked at here
  rw [show (32 * i + j) / 32 = i by omega, show (32 * i + j) % 32 = j by omega] at here
  exact here

end Library.Bitmap

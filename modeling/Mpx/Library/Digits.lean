import Mpx.Library.Buffer
import Mpx.Library.Numerals

/-! # Writing a numeral, the last digit first

The number is divided once to count the digits, and once more to write them. -/

namespace Library.Digits
open Library.Buffer Library.Numerals Function

/-- How often a number is divided until it is 0. -/
def count (b : Nat) : Nat → Nat → Option Nat
  | 0, _ => none
  | fuel + 1, n => if n ≠ 0 then (count b fuel (n / b)).map (· + 1) else some 0

section Fill
variable {α : Type} (char : Nat → α) (b size start : Nat)

/-- `k` digits are written to the cells from `start` on. -/
def fill : Nat → Nat → (Nat → α) → Option (Nat → α)
  | 0, _, cells => some cells
  | k + 1, n, cells => do
    let cells ← write size cells (start + k) (char (n % b))
    fill k (n / b) cells

def spelled (n : Nat) : List α := (numeral b n).map char

end Fill

variable {α : Type} {char : Nat → α} {digit : α → Option Nat} {b size start fuel k n : Nat}

theorem count_eq (base : 1 < b) (nonzero : n ≠ 0) (enough : n < b ^ fuel) :
    count b (fuel + 1) n = some (numeral b n).length := by
  induction fuel generalizing n with
  | zero => exact absurd (Nat.lt_one_iff.mp enough) nonzero
  | succ fuel ih =>
    rw [count, if_pos nonzero]
    by_cases large : b ≤ n
    · have rest : n / b ≠ 0 := Nat.div_ne_zero_iff.mpr ⟨by omega, large⟩
      have smaller : n / b < b ^ fuel := Nat.div_lt_of_lt_mul (by rw [Nat.mul_comm, ← Nat.pow_succ]; exact enough)
      rw [ih rest smaller, Option.map_some, numeral_step base large, List.length_append, List.length_singleton]
    · rw [Nat.div_eq_of_lt (Nat.lt_of_not_le large), numeral_small nonzero (Nat.lt_of_not_le large)]
      rfl

@[simp] theorem length_spelled (char : Nat → α) (b n : Nat) : (spelled char b n).length = (numeral b n).length :=
  List.length_map _

theorem spelled_zero (char : Nat → α) (b : Nat) : spelled char b 0 = [char 0] := by
  rw [spelled, numeral_zero, List.map_singleton]

theorem spelled_small (char : Nat → α) (small : n < b) : spelled char b n = [char n] := by
  by_cases zero : n = 0
  · rw [zero, spelled_zero]
  · rw [spelled, numeral_small zero small, List.map_singleton]

theorem spelled_step (base : 1 < b) (large : b ≤ n) : spelled char b n = spelled char b (n / b) ++ [char (n % b)] := by
  rw [spelled, numeral_step base large, List.map_append]
  rfl

/-- The digits of the rest stand in front of the last one, which nothing overwrites. -/
theorem fill_holds (char : Nat → α) (base : 1 < b) (digits : (numeral b n).length = k) (fits : start + k ≤ size)
    (cells : Nat → α) :
    ∃ cells', fill char b size start k n cells = some cells' ∧ Holds cells' start (spelled char b n) ∧
      ∀ j, j < start ∨ start + k ≤ j → cells' j = cells j := by
  induction k generalizing n cells with
  | zero => exact absurd (List.length_eq_zero_iff.mp digits) (numeral_ne_nil b _)
  | succ k ih =>
    rw [fill, write_inside (by omega), Option.bind_eq_bind, Option.bind_some]
    by_cases large : b ≤ n
    · have shorter : (numeral b (n / b)).length = k := by
        rw [numeral_step base large, List.length_append, List.length_singleton] at digits
        omega
      obtain ⟨cells', filled, holds, frame⟩ := ih shorter (by omega) (update cells (start + k) (char (n % b)))
      refine ⟨cells', filled, ?_, ?_⟩
      · rw [spelled_step base large, holds_append]
        refine ⟨holds, holds_cons.mpr ⟨?_, holds_nil _ _⟩⟩
        rw [length_spelled, shorter, frame _ (.inr (Nat.le_refl _)), update_self]
      · intro j outside
        rw [frame j (by omega), update_of_ne (by omega)]
    · have single := spelled_small char (Nat.lt_of_not_le large)
      have last : k = 0 := by
        rw [← length_spelled char, single, List.length_singleton] at digits
        omega
      subst last
      refine ⟨_, rfl, ?_, fun j outside => update_of_ne (by omega) _ _⟩
      rw [single, Nat.mod_eq_of_lt (Nat.lt_of_not_le large), holds_cons]
      exact ⟨update_self _ _ _, holds_nil _ _⟩

/-- The string that `stop` closes behind the digits. -/
theorem fill_closed (char : Nat → α) (stop : α) (base : 1 < b) (digits : (numeral b n).length = k)
    (fits : start + k < size) (cells : Nat → α) :
    ∃ cells', ((fill char b size start k n cells).bind fun c => write size c (start + k) stop) = some cells' ∧
      Holds cells' start (spelled char b n ++ [stop]) ∧ ∀ j, j < start ∨ start + k < j → cells' j = cells j := by
  obtain ⟨filled, done, holds, frame⟩ := fill_holds char base digits (Nat.le_of_lt fits) cells
  refine ⟨update filled (start + k) stop, ?_, ?_, ?_⟩
  · rw [done, Option.bind_some, write_inside fits]
  · rw [holds_append, length_spelled, digits]
    constructor
    · apply holds_congr _ holds
      intro j _ below
      rw [length_spelled, digits] at below
      exact update_of_ne (Nat.ne_of_lt below) _ _
    · exact holds_cons.mpr ⟨update_self _ _ _, holds_nil _ _⟩
  · intro j outside
    rw [update_of_ne (by omega), frame j (by omega)]

/-! ### What is spelled is read back -/

section Reading
variable {l : List α} {ds : List Nat} {norm : α → α}

/-- A loop that takes one digit in each turn, up to the `stop`, ends with the value of the numeral. `res v` is
what it has when it has read `v`. -/
theorem reading_holds {β : Type} {cells : Nat → α} {stop : α} {loop : Nat → Nat → β → Option β} {res : Nat → β}
    (digits_read : ∀ n i d v, digit (cells i) = some d → loop (n + 1) i (res v) = loop n (i + 1) (res (v * b + d)))
    (closed : ∀ n i v, cells i = stop → loop (n + 1) i (res v) = some (res v)) {i : Nat}
    (holds : Holds cells i (l ++ [stop])) (digits : l.map digit = ds.map some) (fits : l.length < n) (v : Nat) :
    loop n i (res v) = some (res (v * b ^ l.length + value b ds)) := by
  induction l generalizing i n v ds with
  | nil =>
    obtain ⟨n, rfl⟩ := Nat.exists_eq_succ_of_ne_zero (Nat.ne_of_gt fits)
    cases ds with
    | cons d ds => cases digits
    | nil => rw [closed n i v (holds_cons.mp holds).1, List.length_nil, Nat.pow_zero, Nat.mul_one, value_nil,
        Nat.add_zero]
  | cons c l ih =>
    obtain ⟨n, rfl⟩ := Nat.exists_eq_succ_of_ne_zero (Nat.ne_of_gt (Nat.lt_of_le_of_lt (Nat.zero_le _) fits))
    obtain ⟨rfl, rest⟩ := holds_cons.mp holds
    cases ds with
    | nil => cases digits
    | cons d ds =>
      obtain ⟨first, others⟩ := List.cons_eq_cons.mp digits
      rw [digits_read n i d v first, ih rest others (by simpa using fits), value_cons, ← digits_length others,
        List.length_cons, Nat.add_mul, Nat.pow_succ, Nat.add_assoc, Nat.mul_assoc, Nat.mul_comm b]

theorem spelled_digits (base : 1 < b) (spells : ∀ d < b, digit (char d) = some d) (n : Nat) :
    (spelled char b n).map digit = (numeral b n).map some := by
  unfold spelled
  rw [List.map_map]
  apply List.map_congr_left
  intro d member
  exact spells d (numeral_lt base member)

theorem writes_spelled (base : 1 < b) (spells : ∀ d < b, digit (char d) = some d) (n : Nat) :
    Writes digit b (spelled char b n) n := by
  constructor
  · intro empty
    exact numeral_ne_nil b n (List.map_eq_nil_iff.mp empty)
  · exact ⟨numeral b n, spelled_digits base spells n, value_numeral b n⟩

/-- Numbers spelled alike are the same. -/
theorem spelled_injective (base : 1 < b) (spells : ∀ d < b, digit (char d) = some d) :
    Injective (spelled char b) := by
  intro m n same
  have first := writes_spelled base spells m
  rw [same] at first
  exact writes_unique first (writes_spelled base spells n)

theorem map_char (chars : ∀ c d, digit c = some d → char d = norm c) (digits : l.map digit = ds.map some) :
    ds.map char = l.map norm := by
  induction l generalizing ds with
  | nil =>
    rw [List.map_eq_nil_iff.mp digits.symm]
    rfl
  | cons c l ih =>
    cases ds with
    | nil => cases digits
    | cons d ds =>
      obtain ⟨first, others⟩ := List.cons_eq_cons.mp digits
      rw [List.map_cons, List.map_cons, chars c d first, ih others]

/-- A numeral without leading zeros is spelled as it was, but for the choice of the characters. -/
theorem spelled_value {z : α} {v : Nat} (base : 1 < b) (bound : ∀ c d, digit c = some d → d < b)
    (chars : ∀ c d, digit c = some d → char d = norm c) (zero : ∀ c, digit c = some 0 → c = z)
    (written : Writes digit b l v) (lead : l.head? = some z → l = [z]) : spelled char b v = l.map norm := by
  obtain ⟨nonempty, ds, digits, rfl⟩ := written
  have shortest := shortest_digits zero digits nonempty lead
  rw [spelled, numeral_value base (digits_lt bound digits) shortest, map_char chars digits]

end Reading

end Library.Digits

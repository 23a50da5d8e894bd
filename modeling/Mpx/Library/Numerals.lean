import Mathlib.Data.Nat.Digits.Lemmas

/-! # Numerals, the most significant digit first -/

namespace Library.Numerals

def value (b : Nat) (l : List Nat) : Nat := Nat.ofDigits b l.reverse

/-- The numeral of `n` without leading zeros. -/
def numeral (b n : Nat) : List Nat := if n = 0 then [0] else (Nat.digits b n).reverse

/-- No leading zero, but for the numeral 0. -/
def Shortest (l : List Nat) : Prop := l ≠ [] ∧ (l.head? = some 0 → l = [0])

/-- `l` spells a numeral of `v` with characters that stand for digits. -/
def Writes {α : Type} (digit : α → Option Nat) (b : Nat) (l : List α) (v : Nat) : Prop :=
  l ≠ [] ∧ ∃ ds : List Nat, l.map digit = ds.map some ∧ value b ds = v

variable {b n k d : Nat} {l : List Nat}

@[simp] theorem value_nil : value b [] = 0 := rfl

theorem value_cons (d : Nat) (l : List Nat) : value b (d :: l) = d * b ^ l.length + value b l := by
  rw [value, List.reverse_cons, Nat.ofDigits_append, List.length_reverse, Nat.ofDigits_singleton, Nat.mul_comm,
    Nat.add_comm]
  rfl

theorem value_lt (base : 1 < b) (digits : ∀ d ∈ l, d < b) : value b l < b ^ l.length := by
  have bound := Nat.ofDigits_lt_base_pow_length base (l := l.reverse) fun d member =>
    digits d (List.mem_reverse.mp member)
  rw [List.length_reverse] at bound
  exact bound

theorem numeral_zero (b : Nat) : numeral b 0 = [0] := if_pos rfl

theorem numeral_pos (nonzero : n ≠ 0) : numeral b n = (Nat.digits b n).reverse := if_neg nonzero

theorem value_numeral (b n : Nat) : value b (numeral b n) = n := by
  by_cases zero : n = 0
  · rw [zero, numeral_zero]
    rfl
  · rw [numeral_pos zero, value, List.reverse_reverse, Nat.ofDigits_digits]

theorem numeral_step (base : 1 < b) (large : b ≤ n) : numeral b n = numeral b (n / b) ++ [n % b] := by
  have nonzero : n ≠ 0 := by omega
  have rest : n / b ≠ 0 := Nat.div_ne_zero_iff.mpr ⟨by omega, large⟩
  rw [numeral_pos nonzero, numeral_pos rest, Nat.digits_eq_cons_digits_div base nonzero, List.reverse_cons]

theorem numeral_small (nonzero : n ≠ 0) (small : n < b) : numeral b n = [n] := by
  rw [numeral_pos nonzero, Nat.digits_of_lt b n nonzero small]
  rfl

theorem numeral_lt (base : 1 < b) (member : d ∈ numeral b n) : d < b := by
  by_cases zero : n = 0
  · rw [zero, numeral_zero, List.mem_singleton] at member
    omega
  · rw [numeral_pos zero, List.mem_reverse] at member
    exact Nat.digits_lt_base base member

theorem numeral_ne_nil (b n : Nat) : numeral b n ≠ [] := by
  by_cases zero : n = 0
  · rw [zero, numeral_zero]
    simp
  · rw [numeral_pos zero]
    simp [Nat.digits_eq_nil_iff_eq_zero, zero]

/-- Numerals without leading zeros are unique. -/
theorem numeral_value (base : 1 < b) (digits : ∀ d ∈ l, d < b) (shortest : Shortest l) :
    numeral b (value b l) = l := by
  obtain ⟨nonempty, lead⟩ := shortest
  by_cases zero : l.head? = some 0
  · rw [lead zero]
    exact numeral_zero b
  · have last : ∀ h : l.reverse ≠ [], l.reverse.getLast h ≠ 0 := by
      intro h first
      apply zero
      rw [← List.getLast?_reverse, List.getLast?_eq_some_getLast h, first]
    have canonical := Nat.digits_ofDigits b base l.reverse
      (fun d member => digits d (List.mem_reverse.mp member)) last
    have nonzero : value b l ≠ 0 := by
      intro none
      have empty : Nat.digits b (value b l) = [] := Nat.digits_eq_nil_iff_eq_zero.mpr none
      rw [value, canonical, List.reverse_eq_nil_iff] at empty
      exact nonempty empty
    rw [numeral_pos nonzero, value, canonical, List.reverse_reverse]

theorem numeral_length_le (base : 1 < b) (digits : ∀ d ∈ l, d < b) (nonempty : l ≠ []) :
    (numeral b (value b l)).length ≤ l.length := by
  have positive := List.length_pos_iff.mpr nonempty
  by_cases zero : value b l = 0
  · rw [zero, numeral_zero]
    exact positive
  · rw [numeral_pos zero, List.length_reverse]
    exact (Nat.digits_length_le_iff base _).mpr (value_lt base digits)

theorem numeral_length (base : 1 < b) (positive : 0 < k) (bound : n < b ^ k) : (numeral b n).length ≤ k := by
  by_cases zero : n = 0
  · rw [zero, numeral_zero]
    exact positive
  · rw [numeral_pos zero, List.length_reverse]
    exact (Nat.digits_length_le_iff base n).mpr bound

/-! ### Characters -/

section Characters
variable {α : Type} {digit : α → Option Nat} {l : List α} {ds : List Nat}

theorem digits_some : (∀ c ∈ l, (digit c).isSome) ↔ ∃ ds : List Nat, l.map digit = ds.map some := by
  constructor
  · intro digits
    refine ⟨l.map fun c => (digit c).getD 0, ?_⟩
    rw [List.map_map]
    apply List.map_congr_left
    intro c member
    obtain ⟨d, found⟩ := Option.isSome_iff_exists.mp (digits c member)
    simp [found]
  · rintro ⟨ds, digits⟩ c member
    have here : digit c ∈ ds.map some := by
      rw [← digits]
      exact List.mem_map_of_mem member
    obtain ⟨d, -, found⟩ := List.mem_map.mp here
    rw [← found]
    rfl

theorem digits_length (digits : l.map digit = ds.map some) : l.length = ds.length := by
  have same := congrArg List.length digits
  rw [List.length_map, List.length_map] at same
  exact same

theorem digits_lt (bound : ∀ c d, digit c = some d → d < b) (digits : l.map digit = ds.map some) :
    ∀ d ∈ ds, d < b := by
  intro d member
  have here : some d ∈ l.map digit := by
    rw [digits]
    exact List.mem_map_of_mem member
  obtain ⟨c, -, found⟩ := List.mem_map.mp here
  exact bound c d found

theorem digits_free {c : α} (other : digit c = none) (digits : l.map digit = ds.map some) : c ∉ l := by
  intro member
  have here := digits_some.mpr ⟨ds, digits⟩ c member
  rw [other] at here
  cases here

theorem digits_unique {es : List Nat} (digits : l.map digit = ds.map some) (others : l.map digit = es.map some) :
    ds = es := List.map_injective_iff.mpr (Option.some_injective Nat) (digits.symm.trans others)

theorem writes_unique {v w : Nat} (first : Writes digit b l v) (second : Writes digit b l w) : v = w := by
  obtain ⟨-, ds, digits, rfl⟩ := first
  obtain ⟨-, es, others, rfl⟩ := second
  rw [digits_unique digits others]

/-- No numeral of a number is shorter than the one without leading zeros. -/
theorem writes_length {v : Nat} (base : 1 < b) (bound : ∀ c d, digit c = some d → d < b)
    (written : Writes digit b l v) : (numeral b v).length ≤ l.length := by
  obtain ⟨nonempty, ds, digits, rfl⟩ := written
  rw [digits_length digits]
  apply numeral_length_le base (digits_lt bound digits)
  rintro rfl
  exact nonempty (List.map_eq_nil_iff.mp digits)

/-- If only `z` stands for the digit 0, what `Shortest` says of the digits can be seen at the characters. -/
theorem shortest_digits {z : α} (zero : ∀ c, digit c = some 0 → c = z) (digits : l.map digit = ds.map some)
    (nonempty : l ≠ []) (lead : l.head? = some z → l = [z]) : Shortest ds := by
  constructor
  · rintro rfl
    exact nonempty (List.map_eq_nil_iff.mp digits)
  · intro first
    cases l with
    | nil => exact absurd rfl nonempty
    | cons c l =>
      cases ds with
      | nil => cases first
      | cons d ds =>
        cases first
        obtain ⟨here, others⟩ := List.cons_eq_cons.mp digits
        rw [zero c here] at lead
        obtain ⟨-, rfl⟩ := List.cons_eq_cons.mp (lead rfl)
        rw [List.map_eq_nil_iff.mp others.symm]

end Characters

end Library.Numerals

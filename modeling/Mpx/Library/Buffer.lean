import Mathlib.Logic.Function.Basic

/-! # Arrays of a fixed size

An access outside of the array gives `none`. A string is what stands in front of the first `stop`. -/

namespace Library.Buffer
open Function

variable {α : Type}

def read (size : Nat) (cells : Nat → α) (i : Nat) : Option α := if i < size then some (cells i) else none

def write (size : Nat) (cells : Nat → α) (i : Nat) (a : α) : Option (Nat → α) :=
  if i < size then some (update cells i a) else none

/-- `n` cells from `i` on are copied, one after another. -/
def copyFrom (srcSize dstSize : Nat) (src : Nat → α) : Nat → Nat → (Nat → α) → Option (Nat → α)
  | 0, _, dst => some dst
  | n + 1, i, dst => do
    let a ← read srcSize src i
    let dst ← write dstSize dst i a
    copyFrom srcSize dstSize src n (i + 1) dst

def copy (srcSize dstSize n : Nat) (src dst : Nat → α) : Option (Nat → α) := copyFrom srcSize dstSize src n 0 dst

/-- A copy that is made if a check was passed. -/
def copyIf (passed : Bool) (srcSize dstSize n : Nat) (src dst : Nat → α) : Option (Option (Nat → α)) :=
  if passed then (copy srcSize dstSize n src dst).map some else some none

section Length
variable [DecidableEq α]

/-- The index of the first `stop` among the `n` cells from `i` on, which are the last ones of the array. -/
def lengthFrom (stop : α) (cells : Nat → α) : Nat → Nat → Option Nat
  | 0, _ => none
  | n + 1, i => if cells i = stop then some i else lengthFrom stop cells n (i + 1)

def length (stop : α) (size : Nat) (cells : Nat → α) : Option Nat := lengthFrom stop cells size 0

end Length

/-- The `n` cells from `i` on. -/
def text (cells : Nat → α) : Nat → Nat → List α
  | _, 0 => []
  | i, n + 1 => cells i :: text cells (i + 1) n

/-- The cells from `i` on hold `l`. -/
def Holds (cells : Nat → α) (i : Nat) (l : List α) : Prop := text cells i l.length = l

/-- An array that holds `l`, and `fill` behind it. -/
def ofList (fill : α) (l : List α) : Nat → α := fun i => l.getD i fill

variable {size srcSize dstSize n i j : Nat} {cells cells' src dst : Nat → α} {a stop : α} {l l' : List α}

theorem read_inside (inside : i < size) (cells : Nat → α) : read size cells i = some (cells i) := if_pos inside

theorem read_outside (outside : size ≤ i) (cells : Nat → α) : read size cells i = none :=
  if_neg (Nat.not_lt_of_ge outside)

theorem write_inside (inside : i < size) (cells : Nat → α) (a : α) : write size cells i a = some (update cells i a) :=
  if_pos inside

theorem write_outside (outside : size ≤ i) (cells : Nat → α) (a : α) : write size cells i a = none :=
  if_neg (Nat.not_lt_of_ge outside)

/-! ### Copies -/

/-- What stands in the destination when the cells from `i` to `j` have been copied. -/
def copied (src dst : Nat → α) (i j : Nat) : Nat → α := fun k => if i ≤ k ∧ k < j then src k else dst k

theorem copied_update (src dst : Nat → α) (i n : Nat) :
    copied src (update dst i (src i)) (i + 1) (i + 1 + n) = copied src dst i (i + (n + 1)) := by
  funext k
  unfold copied
  by_cases here : k = i
  · subst here
    rw [if_neg (by omega), update_self, if_pos (by omega)]
  · rw [update_of_ne here]
    by_cases behind : i + 1 ≤ k ∧ k < i + 1 + n
    · rw [if_pos behind, if_pos (by omega)]
    · rw [if_neg behind, if_neg (by omega)]

theorem copyFrom_within (src : Nat → α) (fromSrc : i + n ≤ srcSize) (toDst : i + n ≤ dstSize) (dst : Nat → α) :
    copyFrom srcSize dstSize src n i dst = some (copied src dst i (i + n)) := by
  induction n generalizing i dst with
  | zero =>
    apply congrArg some
    funext k
    unfold copied
    rw [if_neg (by omega)]
  | succ n ih =>
    rw [copyFrom, read_inside (by omega), Option.bind_eq_bind, Option.bind_some, write_inside (by omega),
      Option.bind_eq_bind, Option.bind_some, ih (by omega) (by omega), copied_update]

theorem copyFrom_beyond (src : Nat → α) (fits : i ≤ dstSize) (beyond : dstSize < i + n) (dst : Nat → α) :
    copyFrom srcSize dstSize src n i dst = none := by
  induction n generalizing i dst with
  | zero => omega
  | succ n ih =>
    unfold copyFrom
    by_cases inside : i < srcSize
    · rw [read_inside inside, Option.bind_eq_bind, Option.bind_some]
      by_cases room : i < dstSize
      · rw [write_inside room, Option.bind_eq_bind, Option.bind_some]
        exact ih (by omega) (by omega) _
      · rw [write_outside (Nat.le_of_not_lt room)]
        rfl
    · rw [read_outside (Nat.le_of_not_lt inside)]
      rfl

theorem copy_within (fromSrc : n ≤ srcSize) (toDst : n ≤ dstSize) (src dst : Nat → α) :
    copy srcSize dstSize n src dst = some (copied src dst 0 n) := by
  have whole : copyFrom srcSize dstSize src n 0 dst = some (copied src dst 0 (0 + n)) :=
    copyFrom_within src (by omega) (by omega) dst
  rw [Nat.zero_add] at whole
  exact whole

theorem copy_beyond (beyond : dstSize < n) (src dst : Nat → α) : copy srcSize dstSize n src dst = none :=
  copyFrom_beyond src (Nat.zero_le _) (by omega) dst

section Check
variable {passed : Bool}

theorem copyIf_within (check : passed = true) (fromSrc : n ≤ srcSize) (toDst : n ≤ dstSize) (src dst : Nat → α) :
    copyIf passed srcSize dstSize n src dst = some (some (copied src dst 0 n)) := by
  unfold copyIf
  rw [if_pos check, copy_within fromSrc toDst]
  rfl

theorem copyIf_beyond (check : passed = true) (beyond : dstSize < n) (src dst : Nat → α) :
    copyIf passed srcSize dstSize n src dst = none := by
  unfold copyIf
  rw [if_pos check, copy_beyond beyond]
  rfl

theorem copyIf_other (other : ¬passed = true) (src dst : Nat → α) :
    copyIf passed srcSize dstSize n src dst = some none := if_neg other

end Check

theorem copied_below (below : j < n) (src dst : Nat → α) : copied src dst 0 n j = src j :=
  if_pos ⟨Nat.zero_le j, below⟩

theorem copied_above (above : n ≤ j) (src dst : Nat → α) : copied src dst 0 n j = dst j :=
  if_neg fun inside => Nat.not_lt_of_ge above inside.2

/-! ### Strings -/

@[simp] theorem length_text (cells : Nat → α) (i n : Nat) : (text cells i n).length = n := by
  induction n generalizing i with
  | zero => rfl
  | succ n ih => simp [text, ih]

@[simp] theorem holds_nil (cells : Nat → α) (i : Nat) : Holds cells i [] := rfl

@[simp] theorem holds_cons : Holds cells i (a :: l) ↔ cells i = a ∧ Holds cells (i + 1) l := by
  simp [Holds, text]

theorem holds_append : Holds cells i (l ++ l') ↔ Holds cells i l ∧ Holds cells (i + l.length) l' := by
  induction l generalizing i with
  | nil => simp
  | cons a l ih =>
    rw [List.cons_append, holds_cons, holds_cons, ih, List.length_cons, and_assoc,
      show i + 1 + l.length = i + (l.length + 1) by omega]

/-- The first cell of a string that a `stop` closes. -/
theorem read_first (holds : Holds cells i (l ++ [stop])) (fits : i + l.length < size) :
    read size cells i = some (l.headD stop) := by
  rw [read_inside (by omega)]
  cases l with
  | nil => exact congrArg some (holds_cons.mp holds).1
  | cons a l => exact congrArg some (holds_cons.mp holds).1

theorem holds_congr (same : ∀ j, i ≤ j → j < i + l.length → cells' j = cells j) (holds : Holds cells i l) :
    Holds cells' i l := by
  induction l generalizing i with
  | nil => simp
  | cons a l ih =>
    obtain ⟨here, rest⟩ := holds_cons.mp holds
    apply holds_cons.mpr
    constructor
    · rw [same i (Nat.le_refl i) (by simp)]
      exact here
    · apply ih _ rest
      intro j low high
      exact same j (by omega) (by simp; omega)

theorem holds_ofList_behind (fill : α) (l' l : List α) : Holds (ofList fill (l' ++ l)) l'.length l := by
  induction l generalizing l' with
  | nil => exact holds_nil _ _
  | cons a l ih =>
    apply holds_cons.mpr
    constructor
    · unfold ofList
      simp
    · have rest := ih (l' ++ [a])
      rw [List.append_assoc, List.length_append] at rest
      exact rest

theorem holds_ofList (fill : α) (l : List α) : Holds (ofList fill l) 0 l := holds_ofList_behind fill [] l

theorem holds_copied (holds : Holds src 0 l) (dst : Nat → α) : Holds (copied src dst 0 l.length) 0 l := by
  apply holds_congr _ holds
  intro j _ below
  exact copied_below (by omega) src dst

section Length
variable [DecidableEq α]

/-- A string that stands in the array, closed by a `stop`, is as long as it is. -/
theorem lengthFrom_holds (holds : Holds cells i (l ++ [stop])) (free : stop ∉ l) (fits : l.length < n) :
    lengthFrom stop cells n i = some (i + l.length) := by
  induction l generalizing i n with
  | nil =>
    obtain ⟨n, rfl⟩ := Nat.exists_eq_succ_of_ne_zero (Nat.ne_of_gt fits)
    rw [lengthFrom, if_pos (holds_cons.mp holds).1]
    rfl
  | cons a l ih =>
    obtain ⟨n, rfl⟩ := Nat.exists_eq_succ_of_ne_zero (Nat.ne_of_gt (Nat.lt_of_le_of_lt (Nat.zero_le _) fits))
    obtain ⟨here, rest⟩ := holds_cons.mp holds
    obtain ⟨other, free⟩ := not_or.mp (mt List.mem_cons.mpr free)
    rw [lengthFrom, if_neg (by rw [here]; exact Ne.symm other), ih rest free (by simpa using fits), List.length_cons,
      show i + 1 + l.length = i + (l.length + 1) by omega]

theorem lengthFrom_found {k : Nat} (found : lengthFrom stop cells n i = some k) :
    ∃ l, Holds cells i (l ++ [stop]) ∧ stop ∉ l ∧ l.length < n ∧ k = i + l.length := by
  induction n generalizing i with
  | zero => cases found
  | succ n ih =>
    unfold lengthFrom at found
    split at found
    · rename_i here
      cases found
      exact ⟨[], by simp [here], by simp, by simp, rfl⟩
    · rename_i other
      obtain ⟨l, holds, free, fits, rfl⟩ := ih found
      exact ⟨cells i :: l, by simp [holds], by simp [free, Ne.symm other], by simpa using fits, by simp; omega⟩

theorem length_holds (holds : Holds cells 0 (l ++ [stop])) (free : stop ∉ l) (fits : l.length < size) :
    length stop size cells = some l.length := by
  unfold length
  rw [lengthFrom_holds holds free fits, Nat.zero_add]

theorem length_found (found : length stop size cells = some n) :
    ∃ l, Holds cells 0 (l ++ [stop]) ∧ stop ∉ l ∧ l.length < size ∧ n = l.length := by
  obtain ⟨l, holds, free, fits, same⟩ := lengthFrom_found found
  exact ⟨l, holds, free, fits, by rw [same, Nat.zero_add]⟩

/-- The first string in an array that holds `l` with one cell behind it is `l` if that cell closes it. -/
theorem length_text_iff (holds : Holds cells 0 l) :
    (length stop (l.length + 1) cells).map (text cells 0) = some l ↔ stop ∉ l ∧ cells l.length = stop := by
  have closed : Holds cells 0 (l ++ [stop]) ↔ cells l.length = stop := by
    rw [holds_append, and_iff_right holds, Nat.zero_add, holds_cons, and_iff_left (holds_nil _ _)]
  constructor
  · intro found
    obtain ⟨n, found, same⟩ := Option.map_eq_some_iff.mp found
    obtain ⟨l', whole, free, -, rfl⟩ := length_found found
    obtain rfl : l' = l := (holds_append.mp whole).1.symm.trans same
    exact ⟨free, closed.mp whole⟩
  · rintro ⟨free, last⟩
    rw [length_holds (closed.mpr last) free (Nat.lt_succ_self _)]
    exact congrArg some holds

end Length

end Library.Buffer

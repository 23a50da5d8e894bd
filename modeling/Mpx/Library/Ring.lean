import Mathlib.Data.List.Basic

/-! # Ring buffers

A ring of `size` cells with the index of the oldest element and that of the cell for the next one. Equal
indices stand for an empty ring. -/

namespace Library.Ring

variable {α : Type}

def advance (size i : Nat) : Nat := if i + 1 = size then 0 else i + 1

def count (size first last : Nat) : Nat := if first ≤ last then last - first else size - first + last

/-- The elements, the oldest one first. -/
def contents (cells : Nat → α) (size first last : Nat) : List α :=
  (List.range (count size first last)).map fun i => cells ((first + i) % size)

variable {cells : Nat → α} {size first last : Nat}

@[simp] theorem contents_length : (contents cells size first last).length = count size first last := by
  simp [contents]

@[simp] theorem contents_empty : contents cells size first first = [] := by
  simp [contents, count]

theorem count_pos (inside : first < size) (occupied : first ≠ last) : 0 < count size first last := by
  unfold count
  split <;> omega

theorem count_succ (inside : first < size) (bound : last < size) (occupied : first ≠ last) :
    count size first last = count size (advance size first) last + 1 := by
  unfold count advance
  by_cases turn : first + 1 = size
  · rw [if_pos turn, if_neg (by omega), if_pos (Nat.zero_le last)]
    omega
  · rw [if_neg turn]
    by_cases ahead : first ≤ last
    · rw [if_pos ahead, if_pos (by omega)]
      omega
    · rw [if_neg ahead, if_neg (by omega)]
      omega

/-- The oldest element stands at `first`, and the others start behind it. -/
theorem contents_cons (inside : first < size) (bound : last < size) (occupied : first ≠ last) :
    contents cells size first last = cells first :: contents cells size (advance size first) last := by
  unfold contents
  rw [count_succ inside bound occupied, List.range_succ_eq_map, List.map_cons, List.map_map]
  have start : (first + 0) % size = first := Nat.mod_eq_of_lt inside
  rw [start]
  congr 1
  apply List.map_congr_left
  intro i _
  have step : (first + (i + 1)) % size = (advance size first + i) % size := by
    unfold advance
    split
    · rename_i turn
      rw [show first + (i + 1) = size + i by omega, Nat.add_mod_left, Nat.zero_add]
    · rw [show first + (i + 1) = first + 1 + i by omega]
  exact congrArg cells step

end Library.Ring

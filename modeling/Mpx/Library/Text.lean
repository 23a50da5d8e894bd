/-! # Text with a cursor

A line of at most `cap` characters that is edited at a cursor, and the cells of memory that show it. -/

namespace Library

/-- The cursor is in front of a character or at the end. -/
structure Text (α : Type) (cap : Nat) where
  chars : List α
  cursor : Nat
  fits : chars.length ≤ cap
  within : cursor ≤ chars.length

namespace Text

variable {α : Type} {cap : Nat}

def empty : Text α cap := ⟨[], 0, Nat.zero_le cap, Nat.le_refl 0⟩

def left (t : Text α cap) : Text α cap :=
  { t with cursor := t.cursor - 1, within := Nat.le_trans (Nat.sub_le _ _) t.within }

def right (t : Text α cap) : Text α cap :=
  if more : t.cursor < t.chars.length then { t with cursor := t.cursor + 1, within := more } else t

theorem erase_fits (t : Text α cap) (i : Nat) : (t.chars.eraseIdx i).length ≤ cap :=
  Nat.le_trans (List.length_eraseIdx_le _ _) t.fits

theorem erase_within {l : List α} {i : Nat} (inside : i < l.length) : i ≤ (l.eraseIdx i).length := by
  rw [List.length_eraseIdx_of_lt inside]
  omega

/-- The character at the cursor goes. -/
def eraseAt (t : Text α cap) : Text α cap :=
  if more : t.cursor < t.chars.length then
    ⟨t.chars.eraseIdx t.cursor, t.cursor, t.erase_fits _, erase_within more⟩
  else t

/-- The character in front of the cursor goes. -/
def eraseBefore (t : Text α cap) : Text α cap :=
  if some : 0 < t.cursor then
    ⟨t.chars.eraseIdx (t.cursor - 1), t.cursor - 1, t.erase_fits _,
      erase_within (Nat.lt_of_lt_of_le (Nat.sub_lt some Nat.one_pos) t.within)⟩
  else t

theorem length_insert (t : Text α cap) (a : α) : (t.chars.insertIdx t.cursor a).length = t.chars.length + 1 :=
  List.length_insertIdx_of_le_length t.within a

/-- A character is put at the cursor, if there is room. -/
def insert (t : Text α cap) (a : α) : Text α cap :=
  if room : t.chars.length < cap then
    ⟨t.chars.insertIdx t.cursor a, t.cursor + 1, by rw [length_insert]; exact room,
      by rw [length_insert]; exact Nat.succ_le_succ t.within⟩
  else t

variable {t : Text α cap}

theorem eraseAt_chars (more : t.cursor < t.chars.length) : t.eraseAt.chars = t.chars.eraseIdx t.cursor := by
  unfold eraseAt
  rw [dif_pos more]

@[simp] theorem eraseAt_cursor (t : Text α cap) : t.eraseAt.cursor = t.cursor := by
  unfold eraseAt
  split <;> rfl

theorem eraseAt_length (more : t.cursor < t.chars.length) : t.eraseAt.chars.length = t.chars.length - 1 := by
  rw [eraseAt_chars more, List.length_eraseIdx_of_lt more]

theorem eraseAt_end (last : ¬t.cursor < t.chars.length) : t.eraseAt = t := by
  unfold eraseAt
  rw [dif_neg last]

theorem eraseBefore_chars (some : 0 < t.cursor) : t.eraseBefore.chars = t.chars.eraseIdx (t.cursor - 1) := by
  unfold eraseBefore
  rw [dif_pos some]

@[simp] theorem eraseBefore_cursor (t : Text α cap) : t.eraseBefore.cursor = t.cursor - 1 := by
  unfold eraseBefore
  split
  · rfl
  · omega

theorem eraseBefore_length (some : 0 < t.cursor) : t.eraseBefore.chars.length = t.chars.length - 1 := by
  have := t.within
  rw [eraseBefore_chars some, List.length_eraseIdx_of_lt (by omega)]

theorem eraseBefore_start (first : ¬0 < t.cursor) : t.eraseBefore = t := by
  unfold eraseBefore
  rw [dif_neg first]

theorem insert_chars (room : t.chars.length < cap) (a : α) : (t.insert a).chars = t.chars.insertIdx t.cursor a := by
  unfold insert
  rw [dif_pos room]

theorem insert_cursor (room : t.chars.length < cap) (a : α) : (t.insert a).cursor = t.cursor + 1 := by
  unfold insert
  rw [dif_pos room]

theorem insert_length (room : t.chars.length < cap) (a : α) : (t.insert a).chars.length = t.chars.length + 1 := by
  rw [insert_chars room, length_insert]

@[simp] theorem right_chars (t : Text α cap) : t.right.chars = t.chars := by
  unfold right
  split <;> rfl

theorem right_cursor (more : t.cursor < t.chars.length) : t.right.cursor = t.cursor + 1 := by
  unfold right
  rw [dif_pos more]

theorem right_end (last : ¬t.cursor < t.chars.length) : t.right = t := by
  unfold right
  rw [dif_neg last]

/-! ### Cells -/

/-- The cells from 0 on hold the characters. -/
def Shows (cells : Nat → α) (l : List α) : Prop := ∀ j a, l[j]? = some a → cells j = a

variable {cells cells' : Nat → α} {l : List α} {c : Nat} {a : α}

theorem shows_nil (cells : Nat → α) : Shows cells [] := by
  intro j a found
  cases found

theorem shows_inside {j : Nat} (found : l[j]? = some a) : j < l.length := (List.getElem?_eq_some_iff.mp found).1

/-- The characters from the cursor on move up by one cell. -/
theorem shows_insert (shows : Shows cells l) (within : c ≤ l.length) (below : ∀ j, j < c → cells' j = cells j)
    (here : cells' c = a) (above : ∀ j, c ≤ j → j < l.length → cells' (j + 1) = cells j) :
    Shows cells' (l.insertIdx c a) := by
  intro j b found
  rcases Nat.lt_trichotomy j c with before | rfl | behind
  · rw [List.getElem?_insertIdx_of_lt before] at found
    rw [below j before]
    exact shows j b found
  · rw [List.getElem?_insertIdx_self, if_pos within] at found
    exact here.trans (Option.some.inj found)
  · rw [List.getElem?_insertIdx_of_gt behind] at found
    have inside := shows_inside found
    have moved := above (j - 1) (by omega) inside
    rw [Nat.sub_add_cancel (by omega)] at moved
    rw [moved]
    exact shows (j - 1) b found

/-- The characters behind the one at `c` move down by one cell. -/
theorem shows_erase (shows : Shows cells l) (below : ∀ j, j < c → cells' j = cells j)
    (above : ∀ j, c ≤ j → j + 1 < l.length → cells' j = cells (j + 1)) : Shows cells' (l.eraseIdx c) := by
  intro j b found
  by_cases before : j < c
  · rw [List.getElem?_eraseIdx_of_lt before] at found
    rw [below j before]
    exact shows j b found
  · rw [List.getElem?_eraseIdx_of_ge (Nat.le_of_not_lt before)] at found
    rw [above j (Nat.le_of_not_lt before) (shows_inside found)]
    exact shows (j + 1) b found

end Text

end Library

import Mathlib.Algebra.Group.Nat.Defs
import Mathlib.Logic.Function.Basic

/-! # Byte-addressed memory with 32-bit little-endian words -/

namespace Library.ByteMemory

/-- A byte for every address. -/
abbrev Mem := Nat → UInt8

def load (m : Mem) (a : Nat) : Nat :=
  (m a).toNat + 2 ^ 8 * (m (a + 1)).toNat + 2 ^ 16 * (m (a + 2)).toNat + 2 ^ 24 * (m (a + 3)).toNat

def store (m : Mem) (a v : Nat) : Mem := fun x =>
  if x = a then .ofNat v
  else if x = a + 1 then .ofNat (v / 2 ^ 8)
  else if x = a + 2 then .ofNat (v / 2 ^ 16)
  else if x = a + 3 then .ofNat (v / 2 ^ 24)
  else m x

theorem load_lt (m : Mem) (a : Nat) : load m a < 2 ^ 32 := by
  have h0 := (m a).toNat_lt
  have h1 := (m (a + 1)).toNat_lt
  have h2 := (m (a + 2)).toNat_lt
  have h3 := (m (a + 3)).toNat_lt
  unfold load
  omega

/-- A store changes the four bytes of its word only. -/
theorem store_byte {m : Mem} {a v x : Nat} (h : x < a ∨ a + 4 ≤ x) : store m a v x = m x := by
  unfold store
  rw [if_neg (by omega), if_neg (by omega), if_neg (by omega), if_neg (by omega)]

theorem load_store_same {m : Mem} {a v : Nat} (h : v < 2 ^ 32) : load (store m a v) a = v := by
  have b0 : store m a v a = .ofNat v := by simp [store]
  have b1 : store m a v (a + 1) = .ofNat (v / 2 ^ 8) := by simp [store]
  have b2 : store m a v (a + 2) = .ofNat (v / 2 ^ 16) := by simp [store]
  have b3 : store m a v (a + 3) = .ofNat (v / 2 ^ 24) := by simp [store]
  simp only [load, b0, b1, b2, b3, UInt8.toNat_ofNat']
  omega

theorem load_congr {m m' : Mem} {a : Nat} (h : ∀ x, a ≤ x → x < a + 4 → m' x = m x) :
    load m' a = load m a := by
  simp only [load, h a (by omega) (by omega), h (a + 1) (by omega) (by omega),
    h (a + 2) (by omega) (by omega), h (a + 3) (by omega) (by omega)]

/-- The same bytes at another address. -/
theorem load_moved {m m' : Mem} {a b : Nat} (h : ∀ i < 4, m' (a + i) = m (b + i)) : load m' a = load m b := by
  have first : m' a = m b := h 0 (by decide)
  simp only [load, first, h 1 (by decide), h 2 (by decide), h 3 (by decide)]

theorem load_store_other {m : Mem} {a b v : Nat} (h : a + 4 ≤ b ∨ b + 4 ≤ a) :
    load (store m b v) a = load m a :=
  load_congr fun _ _ _ => store_byte (by omega)

/-! ### Half words -/

def load16 (m : Mem) (a : Nat) : Nat := (m a).toNat + 2 ^ 8 * (m (a + 1)).toNat

def store16 (m : Mem) (a v : Nat) : Mem := fun x =>
  if x = a then .ofNat v
  else if x = a + 1 then .ofNat (v / 2 ^ 8)
  else m x

/-- The lower half of a word. -/
theorem load_mod (m : Mem) (a : Nat) : load m a % 2 ^ 16 = load16 m a := by
  have h0 := (m a).toNat_lt
  have h1 := (m (a + 1)).toNat_lt
  unfold load load16
  omega

theorem store16_byte {m : Mem} {a v x : Nat} (h : x < a ∨ a + 2 ≤ x) : store16 m a v x = m x := by
  unfold store16
  rw [if_neg (by omega), if_neg (by omega)]

theorem load16_store16_same {m : Mem} {a v : Nat} (h : v < 2 ^ 16) : load16 (store16 m a v) a = v := by
  have b0 : store16 m a v a = .ofNat v := by simp [store16]
  have b1 : store16 m a v (a + 1) = .ofNat (v / 2 ^ 8) := by simp [store16]
  simp only [load16, b0, b1, UInt8.toNat_ofNat']
  omega

theorem load16_congr {m m' : Mem} {a : Nat} (h : ∀ x, a ≤ x → x < a + 2 → m' x = m x) :
    load16 m' a = load16 m a := by
  simp only [load16, h a (by omega) (by omega), h (a + 1) (by omega) (by omega)]

theorem load16_store16_other {m : Mem} {a b v : Nat} (h : a + 2 ≤ b ∨ b + 2 ≤ a) :
    load16 (store16 m b v) a = load16 m a :=
  load16_congr fun _ _ _ => store16_byte (by omega)

theorem load16_store_other {m : Mem} {a b v : Nat} (h : a + 2 ≤ b ∨ b + 4 ≤ a) :
    load16 (store m b v) a = load16 m a :=
  load16_congr fun _ _ _ => store_byte (by omega)

theorem load16_store_same {m : Mem} {a v : Nat} (h : v < 2 ^ 16) : load16 (store m a v) a = v := by
  rw [← load_mod, load_store_same (Nat.lt_trans h (by decide)), Nat.mod_eq_of_lt h]

theorem load_store16_other {m : Mem} {a b v : Nat} (h : a + 4 ≤ b ∨ b + 2 ≤ a) :
    load (store16 m b v) a = load m a :=
  load_congr fun _ _ _ => store16_byte (by omega)

/-! ### Blocks -/

/-- `n` bytes are copied from `src` to `dst`, one after another from the byte `i` on. -/
def copyFrom (src dst : Nat) : Nat → Nat → Mem → Mem
  | 0, _, m => m
  | n + 1, i, m => copyFrom src dst n (i + 1) (Function.update m (dst + i) (m (src + i)))

def copy (src dst n : Nat) (m : Mem) : Mem := copyFrom src dst n 0 m

/-- Two blocks of `n` bytes without a byte in common. -/
def Apart (src dst n : Nat) : Prop := src + n ≤ dst ∨ dst + n ≤ src

theorem copyFrom_outside {src dst n i x : Nat} {m : Mem} (h : x < dst + i ∨ dst + i + n ≤ x) :
    copyFrom src dst n i m x = m x := by
  induction n generalizing i m with
  | zero => rfl
  | succ n ih =>
    rw [copyFrom, ih (by omega)]
    exact Function.update_of_ne (by omega) _ _

theorem copyFrom_inside {src dst n i j : Nat} {m : Mem} (apart : Apart src dst (i + n)) (low : i ≤ j)
    (high : j < i + n) : copyFrom src dst n i m (dst + j) = m (src + j) := by
  unfold Apart at apart
  induction n generalizing i m with
  | zero => omega
  | succ n ih =>
    rw [copyFrom]
    rcases Nat.eq_or_lt_of_le low with rfl | later
    · rw [copyFrom_outside (by omega)]
      exact Function.update_self _ _ _
    · rw [ih (by omega) later (by omega)]
      exact Function.update_of_ne (by omega) _ _

theorem copy_outside {src dst n x : Nat} {m : Mem} (h : x < dst ∨ dst + n ≤ x) : copy src dst n m x = m x :=
  copyFrom_outside (by omega)

theorem copy_inside {src dst n j : Nat} {m : Mem} (apart : Apart src dst n) (inside : j < n) :
    copy src dst n m (dst + j) = m (src + j) := by
  apply copyFrom_inside _ (Nat.zero_le j) (by omega)
  rw [Nat.zero_add]
  exact apart

/-- `n` bytes from `dst` on are set to `v`, one after another from the byte `i` on. -/
def fillFrom (dst : Nat) (v : UInt8) : Nat → Nat → Mem → Mem
  | 0, _, m => m
  | n + 1, i, m => fillFrom dst v n (i + 1) (Function.update m (dst + i) v)

def fill (dst : Nat) (v : UInt8) (n : Nat) (m : Mem) : Mem := fillFrom dst v n 0 m

theorem fillFrom_eq (dst : Nat) (v : UInt8) (n i : Nat) (m : Mem) (x : Nat) :
    fillFrom dst v n i m x = if dst + i ≤ x ∧ x < dst + i + n then v else m x := by
  induction n generalizing i m with
  | zero =>
    rw [if_neg (by omega)]
    rfl
  | succ n ih =>
    rw [fillFrom, ih]
    by_cases here : x = dst + i
    · rw [here, if_neg (by omega), if_pos (by omega), Function.update_self]
    · rw [Function.update_of_ne here]
      by_cases behind : dst + (i + 1) ≤ x ∧ x < dst + (i + 1) + n
      · rw [if_pos behind, if_pos (by omega)]
      · rw [if_neg behind, if_neg (by omega)]

theorem fill_inside {dst n x : Nat} {v : UInt8} {m : Mem} (low : dst ≤ x) (high : x < dst + n) :
    fill dst v n m x = v := by
  unfold fill
  rw [fillFrom_eq, if_pos (by omega)]

theorem fill_outside {dst n x : Nat} {v : UInt8} {m : Mem} (outside : x < dst ∨ dst + n ≤ x) :
    fill dst v n m x = m x := by
  unfold fill
  rw [fillFrom_eq, if_neg (by omega)]

theorem load_zero {m : Mem} {a : Nat} (clear : ∀ x, a ≤ x → x < a + 4 → m x = 0) : load m a = 0 := by
  simp [load, clear a (by omega) (by omega), clear (a + 1) (by omega) (by omega),
    clear (a + 2) (by omega) (by omega), clear (a + 3) (by omega) (by omega)]

/-! ### Footprints -/

/-- `m'` is `m` but for bytes in `R`. -/
def Confined (R : Nat → Prop) (m m' : Mem) : Prop := ∀ x, ¬R x → m' x = m x

variable {R R' : Nat → Prop} {m m' m'' : Mem}

theorem confined_refl (R : Nat → Prop) (m : Mem) : Confined R m m := fun _ _ => rfl

theorem confined_trans (first : Confined R m m') (second : Confined R m' m'') : Confined R m m'' :=
  fun x outside => (second x outside).trans (first x outside)

theorem confined_mono (smaller : ∀ x, R x → R' x) (h : Confined R m m') : Confined R' m m' :=
  fun x outside => h x fun inside => outside (smaller x inside)

theorem store_confined {a v : Nat} (word : ∀ x, a ≤ x → x < a + 4 → R x) : Confined R m (store m a v) := by
  intro x outside
  apply store_byte
  rcases Nat.lt_or_ge x a with low | low
  · exact .inl low
  · exact .inr (Nat.le_of_not_lt fun high => outside (word x low high))

theorem load_confined {a : Nat} (h : Confined R m m') (word : ∀ x, a ≤ x → x < a + 4 → ¬R x) :
    load m' a = load m a :=
  load_congr fun x low high => h x (word x low high)

end Library.ByteMemory

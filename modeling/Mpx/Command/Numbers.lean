import Mathlib.Tactic.IntervalCases
import Mpx.Device.Poll
import Mpx.Library.Digits

/-! # Numbers typed at a prompt

`intParsable` of `kernel/term_util.c`, `atoi` of `lib/stdlib.c`, `itoa` of `lib/string.c`, and the loops of Set
Time, Set Date and Alarm in `kernel/comhand.c` that ask for a number until one is in range. -/

namespace Mpx.Command
open Library.Buffer Library.Digits Library.Numerals
open Device (isspace)

def userInputSize : Nat := 128

/-- The loop of `intParsable`, on the `n` characters from `i` on. -/
def intParsableFrom (string : Nat → UInt8) : Nat → Nat → Bool
  | 0, _ => true
  | n + 1, i =>
    if string i > '9'.toUInt8 ∨ string i < '0'.toUInt8 then false else intParsableFrom string n (i + 1)

def intParsable (string : Nat → UInt8) (size : Nat) : Bool := intParsableFrom string size 0

def skipSpaces (s : Nat → UInt8) : Nat → Nat → Option Nat
  | 0, _ => none
  | n + 1, i => if isspace (s i) then skipSpaces s n (i + 1) else some i

def atoiFrom (s : Nat → UInt8) : Nat → Nat → Int32 → Option Int32
  | 0, _, _ => none
  | n + 1, i, res =>
    if '0'.toUInt8 ≤ s i ∧ s i ≤ '9'.toUInt8 then
      atoiFrom s n (i + 1) (res * 10 + (s i - '0'.toUInt8).toUInt32.toInt32)
    else some res

/-- `none` is an access outside of the array. -/
def atoi (size : Nat) (s : Nat → UInt8) : Option Int32 := do
  let i ← skipSpaces s size 0
  let signed := s i = '-'.toUInt8 ∨ s i = '+'.toUInt8
  let sign := if signed then s i else ' '.toUInt8
  let i := if signed then i + 1 else i
  let res ← atoiFrom s (size - i) i 0
  return if sign = '-'.toUInt8 then res * -1 else res

/-- The first loop of `itoa`: how often the number can be divided. -/
def itoaSize : Nat → Nat → Nat
  | 0, _ => 0
  | fuel + 1, temp => if temp ≠ 0 then itoaSize fuel (temp / 10) + 1 else 0

/-- The second loop, which goes from the last character to the first. -/
def itoaFill : Nat → Nat → List UInt8 → List UInt8
  | 0, _, string => string
  | temp + 1, integer, string => itoaFill temp (integer / 10) (UInt8.ofNat (integer % 10 + 48) :: string)

/-- The string that `itoa` of `lib/string.c` makes of a number that is not negative. -/
def itoa (integer : Nat) : List UInt8 :=
  if integer = 0 then ['0'.toUInt8] else itoaFill (itoaSize integer integer) integer []

/-- The prompts of the commands. The one for the day comes after those for the month and the year. -/
inductive Prompt where
  | hour | minute | second | month | year
  | day (month year : Int32)

/-- `month_info[month - 1].lastday`. -/
def lastday (month : Int32) : Option Int32 :=
  let month_info := [31, 28, 31, 30, 31, 30, 31, 31, 30, 31, 30, 31]
  if 1 ≤ month then month_info[(month - 1).toNatClampNeg]? else none

/-- The test of the value. `none` is an access outside of `month_info`. -/
def promptTest : Prompt → Int32 → Option Bool
  | .hour, hour => some (decide (hour < 24) && decide (hour ≥ 0))
  | .minute, minute => some (decide (minute < 60) && decide (minute ≥ 0))
  | .second, second => some (decide (second < 60) && decide (second ≥ 0))
  | .month, month => some (decide (month ≤ 12) && decide (month ≥ 1))
  | .year, year => some (decide (year < 100) && decide (year ≥ 0))
  | .day month year, day => do
    let last ← lastday month
    return (decide (day ≤ last) || (decide (month = 2) && decide (year % 4 = 0) && decide (day ≤ 29))) &&
      decide (day ≥ 1)

/-- One turn of a loop: `some none` asks again, `some (some value)` leaves the loop with the value. -/
def promptTurn (p : Prompt) (user_input : Nat → UInt8) (user_input_len : Nat) : Option (Option Int32) :=
  if intParsable user_input user_input_len then do
    let value ← atoi userInputSize user_input
    let good ← promptTest p value
    return if good then some value else none
  else some none

/-- A line as `user_input_promptread` leaves it. -/
structure Input where
  user_input : Nat → UInt8
  user_input_len : Nat

inductive Stopped where
  | faulted | waiting

/-- The lines that will be typed, one after another. -/
abbrev Dialogue := StateT (List Input) (Except Stopped)

def askFrom (p : Prompt) : List Input → Except Stopped (Int32 × List Input)
  | [] => .error .waiting
  | input :: rest =>
    match promptTurn p input.user_input input.user_input_len with
    | none => .error .faulted
    | some none => askFrom p rest
    | some (some value) => .ok (value, rest)

def ask (p : Prompt) : Dialogue Int32 := askFrom p

def setTimeCommand : Dialogue (Int32 × Int32 × Int32) := do
  let hour ← ask .hour
  let minute ← ask .minute
  let second ← ask .second
  return (hour, minute, second)

def setDateCommand : Dialogue (Int32 × Int32 × Int32) := do
  let month ← ask .month
  let year ← ask .year
  let day ← ask (.day month year)
  return (day, month, year)

def alarmTime : Dialogue (Int32 × Int32 × Int32) := do
  let hour ← ask .hour
  let minute ← ask .minute
  let second ← ask .second
  return (hour, minute, second)

/-! ### What the prompts are for -/

def decimalOf (c : UInt8) : Option Nat := if 48 ≤ c.toNat ∧ c.toNat ≤ 57 then some (c.toNat - 48) else none

def Decimal (line : List UInt8) (v : Nat) : Prop := Writes decimalOf 10 line v

/-- The last day of a month, in the years the clock knows. -/
def lastDay (month year : Nat) : Nat :=
  if month = 2 then if 4 ∣ year then 29 else 28
  else if month = 4 ∨ month = 6 ∨ month = 9 ∨ month = 11 then 30
  else 31

def promptRange : Prompt → Nat × Nat
  | .hour => (0, 23)
  | .minute => (0, 59)
  | .second => (0, 59)
  | .month => (1, 12)
  | .year => (0, 99)
  | .day month year => (1, lastDay month.toInt.toNat year.toInt.toNat)

def InRange (p : Prompt) (v : Nat) : Prop := (promptRange p).1 ≤ v ∧ v ≤ (promptRange p).2

instance (p : Prompt) (v : Nat) : Decidable (InRange p v) := inferInstanceAs (Decidable (_ ∧ _))

def Asked : Prompt → Prop
  | .day month year => promptTest .month month = some true ∧ promptTest .year year = some true
  | _ => True

/-- A line is accepted if it is a numeral in range, with the number it denotes. -/
def AcceptsExactly (p : Prompt) (user_input : Nat → UInt8) (line : List UInt8) : Prop :=
  ∃ r, promptTurn p user_input line.length = some r ∧
    ∀ w : Int32, r = some w ↔ ∃ v, Decimal line v ∧ InRange p v ∧ w.toInt = v

/-- The lines accepted for a number that they do not denote: the empty one, which is read as 0, and numerals
that are in range only modulo the size of a word. -/
def MisreadAt (p : Prompt) (line : List UInt8) : Prop :=
  (line = [] ∧ InRange p 0) ∨ ∃ v, Decimal line v ∧ 2 ^ 32 ≤ v ∧ InRange p (v % 2 ^ 32)

/-! ### The digits -/

theorem intParsableFrom_holds {string : Nat → UInt8} {l : List UInt8} {i : Nat} (holds : Holds string i l) :
    intParsableFrom string l.length i = true ↔ ∀ c ∈ l, (decimalOf c).isSome := by
  induction l generalizing i with
  | nil => simp [intParsableFrom]
  | cons c l ih =>
    obtain ⟨rfl, rest⟩ := holds_cons.mp holds
    rw [List.length_cons, intParsableFrom, List.forall_mem_cons, ← ih rest]
    have test : (string i > '9'.toUInt8 ∨ string i < '0'.toUInt8) ↔ ¬(decimalOf (string i)).isSome := by
      change (57 < (string i).toNat ∨ (string i).toNat < 48) ↔ _
      unfold decimalOf
      split
      · simp only [Option.isSome_some, not_true_eq_false, iff_false]
        omega
      · simp only [Option.isSome_none, Bool.false_eq_true, not_false_eq_true, iff_true]
        omega
    by_cases digit : (decimalOf (string i)).isSome
    · rw [if_neg (mt test.mp (not_not_intro digit))]
      simp [digit]
    · rw [if_pos (test.mpr digit)]
      simp [digit]

theorem intParsable_holds {string : Nat → UInt8} {line : List UInt8} (holds : Holds string 0 line) :
    intParsable string line.length = true ↔ ∀ c ∈ line, (decimalOf c).isSome := intParsableFrom_holds holds

theorem sub_digit {c : UInt8} {b : Nat} (low : b ≤ c.toNat) (small : b < 256) :
    (c - UInt8.ofNat b).toUInt32 = UInt32.ofNat (c.toNat - b) := by
  have := c.toNat_lt
  apply UInt32.toNat_inj.mp
  rw [UInt8.toNat_toUInt32, UInt8.toNat_sub, UInt8.toNat_ofNat', UInt32.toNat_ofNat']
  omega

theorem atoiFrom_digit {s : Nat → UInt8} {n i d : Nat} (digit : decimalOf (s i) = some d) (v : Nat) :
    atoiFrom s (n + 1) i (Int32.ofNat v) = atoiFrom s n (i + 1) (Int32.ofNat (v * 10 + d)) := by
  unfold decimalOf at digit
  split at digit
  · rename_i decimal
    cases digit
    have here : '0'.toUInt8 ≤ s i ∧ s i ≤ '9'.toUInt8 := decimal
    have sub : (s i - '0'.toUInt8).toUInt32 = UInt32.ofNat ((s i).toNat - 48) := sub_digit decimal.1 (by decide)
    rw [atoiFrom, if_pos here, sub, Int32.ofNat_add, Int32.ofNat_mul]
    rfl
  · cases digit

theorem atoiFrom_closed {s : Nat → UInt8} {n i : Nat} (closed : s i = 0) (res : Int32) :
    atoiFrom s (n + 1) i res = some res := by
  rw [atoiFrom, closed, if_neg (by decide)]

theorem atoiFrom_holds {s : Nat → UInt8} {l : List UInt8} {ds : List Nat} {i n : Nat} (holds : Holds s i (l ++ [0]))
    (digits : l.map decimalOf = ds.map some) (fits : l.length < n) (v : Nat) :
    atoiFrom s n i (Int32.ofNat v) = some (Int32.ofNat (v * 10 ^ l.length + value 10 ds)) :=
  reading_holds (fun _ _ _ v digit => atoiFrom_digit digit v) (fun _ _ _ stop => atoiFrom_closed stop _)
    holds digits fits v

theorem plain_of_digit {c : UInt8} (plain : c = 0 ∨ (decimalOf c).isSome) :
    isspace c = false ∧ ¬(c = '-'.toUInt8 ∨ c = '+'.toUInt8) := by
  have table : ∀ n ∈ List.range 256, UInt8.ofNat n = 0 ∨ (decimalOf (UInt8.ofNat n)).isSome →
      isspace (UInt8.ofNat n) = false ∧ ¬(UInt8.ofNat n = '-'.toUInt8 ∨ UInt8.ofNat n = '+'.toUInt8) := by
    decide +kernel
  have here := table c.toNat (List.mem_range.mpr c.toNat_lt)
  rw [UInt8.ofNat_toNat] at here
  exact here plain

theorem first_plain {s : Nat → UInt8} {l : List UInt8} {ds : List Nat} (holds : Holds s 0 (l ++ [0]))
    (digits : l.map decimalOf = ds.map some) : s 0 = 0 ∨ (decimalOf (s 0)).isSome := by
  cases l with
  | nil => exact .inl (holds_cons.mp holds).1
  | cons c l =>
    obtain ⟨rfl, -⟩ := holds_cons.mp holds
    exact .inr (digits_some.mpr ⟨ds, digits⟩ _ List.mem_cons_self)

theorem atoi_digits {size : Nat} {s : Nat → UInt8} {l : List UInt8} {ds : List Nat} (holds : Holds s 0 (l ++ [0]))
    (digits : l.map decimalOf = ds.map some) (fits : l.length < size) :
    atoi size s = some (Int32.ofNat (value 10 ds)) := by
  obtain ⟨n, rfl⟩ := Nat.exists_eq_succ_of_ne_zero (Nat.ne_of_gt (Nat.lt_of_le_of_lt (Nat.zero_le _) fits))
  obtain ⟨space, sign⟩ := plain_of_digit (first_plain holds digits)
  have start : skipSpaces s (n + 1) 0 = some 0 := by
    rw [skipSpaces, space]
    rfl
  have read := atoiFrom_holds holds digits fits 0
  simp only [Nat.zero_mul, Nat.zero_add] at read
  unfold atoi
  rw [start, Option.bind_eq_bind, Option.bind_some]
  simp only [if_neg sign, Nat.sub_zero]
  rw [show (0 : Int32) = Int32.ofNat 0 from rfl, read]
  rfl

/-! ### The tests -/

theorem toInt_between {v lo hi : Nat} (small : hi < 2 ^ 31) :
    ((lo : Int) ≤ (Int32.ofNat v).toInt ∧ (Int32.ofNat v).toInt ≤ hi) ↔ lo ≤ v % 2 ^ 32 ∧ v % 2 ^ 32 ≤ hi := by
  rw [Int32.toInt_ofNat', show Int32.size = 4294967296 from rfl, Int.bmod_def]
  split <;> omega

theorem toInt_of_lt {v : Nat} (small : v < 2 ^ 31) : (Int32.ofNat v).toInt = v := Int32.toInt_ofNat_of_lt small

theorem test_range {v lo hi : Nat} {test : Bool} (small : hi < 2 ^ 31)
    (range : test = true ↔ (lo : Int) ≤ (Int32.ofNat v).toInt ∧ (Int32.ofNat v).toInt ≤ hi) :
    test = decide (lo ≤ v % 2 ^ 32 ∧ v % 2 ^ 32 ≤ hi) := by
  rw [Bool.eq_iff_iff, decide_eq_true_iff, range]
  exact toInt_between small

theorem below_range (x n : Int32) :
    (decide (x < n) && decide (x ≥ 0)) = true ↔ 0 ≤ x.toInt ∧ x.toInt ≤ n.toInt - 1 := by
  simp only [Bool.and_eq_true, decide_eq_true_eq, ge_iff_le, Int32.lt_iff_toInt_lt, Int32.le_iff_toInt_le,
    show (0 : Int32).toInt = 0 from rfl]
  omega

theorem upto_range (x lo hi : Int32) :
    (decide (x ≤ hi) && decide (x ≥ lo)) = true ↔ lo.toInt ≤ x.toInt ∧ x.toInt ≤ hi.toInt := by
  simp only [Bool.and_eq_true, decide_eq_true_eq, ge_iff_le, Int32.le_iff_toInt_le]
  exact And.comm

theorem eq_ofNat {x : Int32} (positive : 0 ≤ x.toInt) : x = Int32.ofNat x.toInt.toNat := by
  have fits := Int32.toInt_lt x
  apply Int32.toInt_inj.mp
  rw [toInt_of_lt (by omega)]
  omega

theorem leap_test {y : Nat} (known : y ≤ 99) : decide (Int32.ofNat y % 4 = 0) = decide (4 ∣ y) := by
  have table : ∀ y ∈ List.range 100, decide (Int32.ofNat y % 4 = 0) = decide (4 ∣ y) := by decide +kernel
  exact table y (List.mem_range.mpr (by omega))

theorem lastday_eq {m : Nat} (first : 1 ≤ m) (last : m ≤ 12) : lastday (.ofNat m) = some (.ofNat (lastDay m 1)) := by
  interval_cases m <;> rfl

theorem lastDay_le (m y : Nat) : lastDay m y ≤ 31 := by
  unfold lastDay
  split
  · split <;> omega
  split <;> omega

theorem eq_two {m : Nat} (last : m ≤ 12) : Int32.ofNat m = 2 ↔ m = 2 := by
  rw [← Int32.toInt_inj, toInt_of_lt (by omega)]
  change (m : Int) = 2 ↔ _
  omega

theorem day_range {m y : Nat} (first : 1 ≤ m) (last : m ≤ 12) (known : y ≤ 99) (day : Int32) :
    ∃ test, promptTest (.day (.ofNat m) (.ofNat y)) day = some test ∧
      (test = true ↔ 1 ≤ day.toInt ∧ day.toInt ≤ lastDay m y) := by
  have bound := lastDay_le m 1
  refine ⟨_, by rw [promptTest, lastday_eq first last]; rfl, ?_⟩
  rw [leap_test known]
  simp only [eq_two last, Bool.and_eq_true, Bool.or_eq_true, decide_eq_true_eq, ge_iff_le, Int32.le_iff_toInt_le,
    toInt_of_lt (show lastDay m 1 < 2 ^ 31 by omega), show (29 : Int32).toInt = 29 from rfl,
    show (1 : Int32).toInt = 1 from rfl]
  unfold lastDay
  by_cases february : m = 2
  · by_cases leap : 4 ∣ y
    · simp [february, leap]
      omega
    · simp [february, leap]
      omega
  · simp only [february, if_false, false_and, or_false]
    omega

theorem accepted_range {p : Prompt} {x : Int32} (asked : p = .month ∨ p = .year)
    (accepted : promptTest p x = some true) :
    ((promptRange p).1 : Int) ≤ x.toInt ∧ x.toInt ≤ (promptRange p).2 := by
  rcases asked with rfl | rfl
  · exact (upto_range x 1 12).mp (Option.some.inj accepted)
  · have range := (below_range x 100).mp (Option.some.inj accepted)
    change (0 : Int) ≤ x.toInt ∧ x.toInt ≤ 99
    exact ⟨range.1, by have : (100 : Int32).toInt = 100 := rfl; omega⟩

theorem promptTest_wrapped {p : Prompt} (asked : Asked p) (v : Nat) :
    promptTest p (.ofNat v) = some (decide (InRange p (v % 2 ^ 32))) := by
  cases p with
  | hour => exact congrArg some (test_range (by decide) (below_range _ 24))
  | minute => exact congrArg some (test_range (by decide) (below_range _ 60))
  | second => exact congrArg some (test_range (by decide) (below_range _ 60))
  | month => exact congrArg some (test_range (by decide) (upto_range _ 1 12))
  | year => exact congrArg some (test_range (by decide) (below_range _ 100))
  | day month year =>
    obtain ⟨monthAccepted, yearAccepted⟩ := asked
    have months := accepted_range (.inl rfl) monthAccepted
    have years := accepted_range (.inr rfl) yearAccepted
    simp only [promptRange] at months years
    have bound := lastDay_le month.toInt.toNat year.toInt.toNat
    obtain ⟨test, here, range⟩ := day_range (m := month.toInt.toNat) (y := year.toInt.toNat) (by omega) (by omega)
      (by omega) (.ofNat v)
    rw [← eq_ofNat (by omega), ← eq_ofNat (by omega)] at here
    have small : lastDay month.toInt.toNat year.toInt.toNat < 2 ^ 31 := by omega
    rw [here]
    exact congrArg some (test_range small range)

/-! ### A turn -/

variable {p : Prompt} {user_input : Nat → UInt8} {line : List UInt8} {ds : List Nat} {v : Nat} {w : Int32}

theorem promptTurn_digits (asked : Asked p) (holds : Holds user_input 0 (line ++ [0]))
    (fits : line.length < userInputSize) (digits : line.map decimalOf = ds.map some) :
    promptTurn p user_input line.length =
      some (if InRange p (value 10 ds % 2 ^ 32) then some (.ofNat (value 10 ds)) else none) := by
  have parsable := (intParsable_holds (holds_append.mp holds).1).mpr (digits_some.mpr ⟨ds, digits⟩)
  unfold promptTurn
  rw [if_pos parsable, atoi_digits holds digits fits, Option.bind_eq_bind, Option.bind_some, promptTest_wrapped asked,
    Option.bind_eq_bind, Option.bind_some]
  simp

theorem promptTurn_other (holds : Holds user_input 0 (line ++ [0]))
    (other : ¬∃ ds : List Nat, line.map decimalOf = ds.map some) :
    promptTurn p user_input line.length = some none := by
  unfold promptTurn
  rw [if_neg fun parsable => other (digits_some.mp ((intParsable_holds (holds_append.mp holds).1).mp parsable))]

def TakenFor (p : Prompt) (line : List UInt8) (w : Int32) : Prop :=
  ∃ ds : List Nat, line.map decimalOf = ds.map some ∧ InRange p (value 10 ds % 2 ^ 32) ∧ w = .ofNat (value 10 ds)

theorem promptTurn_taken (asked : Asked p) (holds : Holds user_input 0 (line ++ [0]))
    (fits : line.length < userInputSize) :
    ∃ r, promptTurn p user_input line.length = some r ∧ ∀ w, r = some w ↔ TakenFor p line w := by
  by_cases digits : ∃ ds : List Nat, line.map decimalOf = ds.map some
  · obtain ⟨ds, digits⟩ := digits
    refine ⟨_, promptTurn_digits asked holds fits digits, fun w => ?_⟩
    constructor
    · intro same
      split at same
      · rename_i good
        exact ⟨ds, digits, good, (Option.some.inj same).symm⟩
      · cases same
    · rintro ⟨es, others, good, rfl⟩
      obtain rfl := digits_unique digits others
      exact if_pos good
  · refine ⟨none, promptTurn_other holds digits, fun w => ?_⟩
    constructor
    · intro same
      cases same
    · rintro ⟨ds, written, -⟩
      exact absurd ⟨ds, written⟩ digits

theorem promptRange_small (p : Prompt) : (promptRange p).2 < 2 ^ 31 := by
  cases p with
  | day month year =>
    have := lastDay_le month.toInt.toNat year.toInt.toNat
    simp only [promptRange]
    omega
  | _ => decide

theorem toInt_inRange (good : InRange p v) : (Int32.ofNat v).toInt = v :=
  toInt_of_lt (Nat.lt_of_le_of_lt good.2 (promptRange_small p))

theorem taken_of_inRange (written : Decimal line v) (good : InRange p v) (same : w.toInt = v) :
    TakenFor p line w := by
  obtain ⟨-, ds, digits, rfl⟩ := written
  have small := promptRange_small p
  refine ⟨ds, digits, ?_, Int32.toInt_inj.mp (same.trans (toInt_inRange good).symm)⟩
  rw [Nat.mod_eq_of_lt (Nat.lt_of_le_of_lt good.2 (by omega))]
  exact good

theorem inRange_of_taken (sound : ¬MisreadAt p line) (taken : TakenFor p line w) :
    ∃ v, Decimal line v ∧ InRange p v ∧ w.toInt = v := by
  obtain ⟨ds, digits, good, rfl⟩ := taken
  have nonempty : line ≠ [] := by
    rintro rfl
    obtain rfl : ds = [] := List.map_eq_nil_iff.mp digits.symm
    exact sound (.inl ⟨rfl, good⟩)
  have written : Decimal line (value 10 ds) := ⟨nonempty, ds, digits, rfl⟩
  have word : value 10 ds < 2 ^ 32 := Nat.lt_of_not_le fun large => sound (.inr ⟨_, written, large, good⟩)
  rw [Nat.mod_eq_of_lt word] at good
  exact ⟨_, written, good, toInt_inRange good⟩

theorem sound_of_decimal (written : Decimal line v) (small : v < 2 ^ 32) : ¬MisreadAt p line := by
  rintro (⟨rfl, -⟩ | ⟨w, other, large, -⟩)
  · exact written.1 rfl
  · obtain rfl := writes_unique written other
    omega

theorem taken_of_misread (misread : MisreadAt p line) :
    (∃ w, TakenFor p line w) ∧ ¬∃ v, Decimal line v ∧ InRange p v := by
  have small := promptRange_small p
  rcases misread with ⟨rfl, zero⟩ | ⟨v, written, large, good⟩
  · constructor
    · exact ⟨_, [], rfl, zero, rfl⟩
    · rintro ⟨v, ⟨nonempty, -⟩, -⟩
      exact nonempty rfl
  · constructor
    · obtain ⟨-, ds, digits, rfl⟩ := written
      exact ⟨_, ds, digits, good, rfl⟩
    · rintro ⟨v', other, inside⟩
      obtain rfl := writes_unique written other
      have := inside.2
      omega

theorem not_exact_of_misreadAt (asked : Asked p) (holds : Holds user_input 0 (line ++ [0]))
    (fits : line.length < userInputSize) (misread : MisreadAt p line) : ¬AcceptsExactly p user_input line := by
  rintro ⟨r, here, exact⟩
  obtain ⟨r', there, taken⟩ := promptTurn_taken asked holds fits
  obtain rfl := Option.some.inj (here.symm.trans there)
  obtain ⟨⟨w, wrong⟩, noNumeral⟩ := taken_of_misread misread
  obtain ⟨v, written, good, -⟩ := (exact w).mp ((taken w).mpr wrong)
  exact noNumeral ⟨v, written, good⟩

/-- A line is accepted with the number it denotes, unless it is empty where 0 is in range, or a numeral that
is in range only when it has wrapped. -/
theorem prompt_exact (asked : Asked p) (holds : Holds user_input 0 (line ++ [0]))
    (fits : line.length < userInputSize) :
    AcceptsExactly p user_input line ↔ ¬MisreadAt p line := by
  constructor
  · intro exact misread
    exact not_exact_of_misreadAt asked holds fits misread exact
  · intro sound
    obtain ⟨r, here, taken⟩ := promptTurn_taken asked holds fits
    refine ⟨r, here, fun w => (taken w).trans ⟨inRange_of_taken sound, ?_⟩⟩
    rintro ⟨v, written, good, same⟩
    exact taken_of_inRange written good same

/-- The numeral of 2 ^ 32 + 5. -/
def wrappedHour : List UInt8 := "4294967301".toList.map Char.toUInt8

theorem decimal_wrappedHour : Decimal wrappedHour 4294967301 :=
  ⟨by decide, [4, 2, 9, 4, 9, 6, 7, 3, 0, 1], rfl, rfl⟩

theorem misreadAt_wrappedHour : MisreadAt .hour wrappedHour := .inr ⟨_, decimal_wrappedHour, by decide, by decide⟩

def lateHour : List UInt8 := "23".toList.map Char.toUInt8

theorem decimal_lateHour : Decimal lateHour 23 := ⟨by decide, [2, 3], rfl, rfl⟩

theorem prompt_exact_hour : AcceptsExactly .hour (ofList 0 lateHour) lateHour ∧
    ¬AcceptsExactly .hour (ofList 0 wrappedHour) wrappedHour := by
  have late : AcceptsExactly .hour (ofList 0 lateHour) lateHour ↔ ¬MisreadAt .hour lateHour :=
    prompt_exact trivial rfl (by decide)
  have wrapped : AcceptsExactly .hour (ofList 0 wrappedHour) wrappedHour ↔ ¬MisreadAt .hour wrappedHour :=
    prompt_exact trivial rfl (by decide)
  refine ⟨late.mpr (sound_of_decimal decimal_lateHour (by decide)), ?_⟩
  intro exact
  exact wrapped.mp exact misreadAt_wrappedHour

theorem prompt_not_exact :
    promptTurn .hour (ofList 0 wrappedHour) wrappedHour.length = some (some 5) ∧
      ¬AcceptsExactly .hour (ofList 0 wrappedHour) wrappedHour :=
  ⟨by decide, not_exact_of_misreadAt trivial rfl (by decide) misreadAt_wrappedHour⟩

/-! ### The commands -/

variable {input : Input} {inputs rest : List Input}

structure Typed (input : Input) (line : List UInt8) : Prop where
  holds : Holds input.user_input 0 (line ++ [0])
  len : input.user_input_len = line.length
  fits : line.length < userInputSize

theorem promptTurn_test {len : Nat} (turn : promptTurn p user_input len = some (some w)) :
    promptTest p w = some true := by
  unfold promptTurn at turn
  split at turn
  · obtain ⟨value, -, turn⟩ := Option.bind_eq_some_iff.mp turn
    obtain ⟨good, passed, turn⟩ := Option.bind_eq_some_iff.mp turn
    cases good
    · cases turn
    · cases turn
      exact passed
  · cases turn

theorem askFrom_test (done : askFrom p inputs = .ok (w, rest)) : promptTest p w = some true := by
  induction inputs with
  | nil => cases done
  | cons input inputs ih =>
    unfold askFrom at done
    split at done
    · cases done
    · exact ih done
    · rename_i turn
      cases done
      exact promptTurn_test turn

/-- The lines typed at a prompt up to a numeral in range, the number `v`. Those before it are neither such numerals
nor misread. -/
inductive Answers (p : Prompt) (v : Nat) (rest : List Input) : List Input → Prop where
  | accepted {input : Input} {line : List UInt8} (typed : Typed input line) (written : Decimal line v)
      (good : InRange p v) : Answers p v rest (input :: rest)
  | refused {input : Input} {line : List UInt8} {inputs : List Input} (typed : Typed input line)
      (sound : ¬MisreadAt p line) (outside : ¬∃ v, Decimal line v ∧ InRange p v) (later : Answers p v rest inputs) :
      Answers p v rest (input :: inputs)

theorem Answers.inRange (answers : Answers p v rest inputs) : InRange p v := by
  induction answers with
  | accepted _ _ good => exact good
  | refused _ _ _ _ ih => exact ih

/-- The number is the one that the prompt is left with. -/
theorem askFrom_answers (asked : Asked p) (answers : Answers p v rest inputs) :
    askFrom p inputs = .ok (.ofNat v, rest) := by
  induction answers with
  | accepted typed written good =>
    obtain ⟨r, turn, taken⟩ := promptTurn_taken asked typed.holds typed.fits
    have value : r = some (.ofNat v) := (taken _).mpr (taken_of_inRange written good (toInt_inRange good))
    unfold askFrom
    rw [typed.len, turn, value]
  | refused typed sound outside _ ih =>
    obtain ⟨r, turn, taken⟩ := promptTurn_taken asked typed.holds typed.fits
    have again : r = none := by
      apply Option.eq_none_iff_forall_ne_some.mpr
      intro w value
      obtain ⟨v, written, good, -⟩ := inRange_of_taken sound ((taken w).mp value)
      exact outside ⟨v, written, good⟩
    unfold askFrom
    rw [typed.len, turn, again]
    exact ih

theorem ask_answers {α : Type} {f : Int32 → Dialogue α} (asked : Asked p) (answers : Answers p v rest inputs) :
    (ask p >>= f) inputs = f (.ofNat v) rest := by
  change (askFrom p inputs).bind _ = _
  rw [askFrom_answers asked answers]
  rfl

theorem ask_bind {α : Type} {f : Int32 → Dialogue α} {result : α × List Input}
    (done : (ask p >>= f) inputs = .ok result) :
    ∃ value between, askFrom p inputs = .ok (value, between) ∧ f value between = .ok result := by
  change (askFrom p inputs).bind _ = _ at done
  cases asked : askFrom p inputs with
  | error stopped =>
    rw [asked] at done
    cases done
  | ok answer =>
    rw [asked] at done
    exact ⟨answer.1, answer.2, rfl, done⟩

/-- Whatever is typed, `setDate` is given a day of the calendar. -/
theorem setDateCommand_date {day month year : Int32} (done : setDateCommand inputs = .ok ((day, month, year), rest)) :
    (1 ≤ month.toInt ∧ month.toInt ≤ 12) ∧ (0 ≤ year.toInt ∧ year.toInt ≤ 99) ∧
      1 ≤ day.toInt ∧ day.toInt ≤ lastDay month.toInt.toNat year.toInt.toNat := by
  obtain ⟨m, afterMonth, months, done⟩ := ask_bind done
  obtain ⟨y, afterYear, years, done⟩ := ask_bind done
  obtain ⟨d, afterDay, days, done⟩ := ask_bind done
  cases done
  have monthRange := accepted_range (.inl rfl) (askFrom_test months)
  have yearRange := accepted_range (.inr rfl) (askFrom_test years)
  simp only [promptRange] at monthRange yearRange
  obtain ⟨test, here, range⟩ := day_range (m := month.toInt.toNat) (y := year.toInt.toNat) (by omega) (by omega)
    (by omega) day
  rw [← eq_ofNat (by omega), ← eq_ofNat (by omega), askFrom_test days, Option.some.injEq] at here
  exact ⟨by omega, by omega, range.mp here.symm⟩

/-- Whatever is typed, `setTime` is given a time of day. -/
theorem setTimeCommand_time {hour minute second : Int32}
    (done : setTimeCommand inputs = .ok ((hour, minute, second), rest)) :
    (0 ≤ hour.toInt ∧ hour.toInt ≤ 23) ∧ (0 ≤ minute.toInt ∧ minute.toInt ≤ 59) ∧
      0 ≤ second.toInt ∧ second.toInt ≤ 59 := by
  obtain ⟨h, afterHour, hours, done⟩ := ask_bind done
  obtain ⟨m, afterMinute, minutes, done⟩ := ask_bind done
  obtain ⟨s, afterSecond, seconds, done⟩ := ask_bind done
  cases done
  exact ⟨(below_range _ 24).mp (Option.some.inj (askFrom_test hours)),
    (below_range _ 60).mp (Option.some.inj (askFrom_test minutes)),
    (below_range _ 60).mp (Option.some.inj (askFrom_test seconds))⟩

theorem alarmTime_eq : alarmTime = setTimeCommand := rfl

variable {between others : List Input}

theorem setTimeCommand_answers {hour minute second : Nat} (hours : Answers .hour hour between inputs)
    (minutes : Answers .minute minute others between) (seconds : Answers .second second rest others) :
    setTimeCommand inputs = .ok ((.ofNat hour, .ofNat minute, .ofNat second), rest) := by
  unfold setTimeCommand
  rw [ask_answers (p := .hour) trivial hours, ask_answers (p := .minute) trivial minutes,
    ask_answers (p := .second) trivial seconds]
  rfl

theorem accepted_inRange (asked : Asked p) (good : InRange p v) : promptTest p (.ofNat v) = some true := by
  have small := promptRange_small p
  rw [promptTest_wrapped asked, Nat.mod_eq_of_lt (Nat.lt_of_le_of_lt good.2 (by omega)), decide_eq_true good]

/-- The day is asked for with the month and the year that were typed. -/
theorem setDateCommand_answers {day month year : Nat} (months : Answers .month month between inputs)
    (years : Answers .year year others between)
    (days : Answers (.day (.ofNat month) (.ofNat year)) day rest others) :
    setDateCommand inputs = .ok ((.ofNat day, .ofNat month, .ofNat year), rest) := by
  have asked : Asked (.day (.ofNat month) (.ofNat year)) :=
    ⟨accepted_inRange (p := .month) trivial months.inRange, accepted_inRange (p := .year) trivial years.inRange⟩
  unfold setDateCommand
  rw [ask_answers (p := .month) trivial months, ask_answers (p := .year) trivial years, ask_answers asked days]
  rfl

end Mpx.Command

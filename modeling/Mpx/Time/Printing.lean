import Mpx.Command.Decimals
import Mpx.Time.Clock

/-! # What is printed of the clock

`getTime` and `getDate` make a line for COM1 of the values that they have read. The arrays on the stack hold anything
before, and an access outside of one gives `none`. -/

namespace Mpx.Time
open Function Library.Buffer Library.Numerals Library.Digits Mpx.Command

/-! ### The lines -/

/-- `itoa` into an array of three characters. -/
def valueStr (junk : Nat → UInt8) (value : Nat) : Option (Nat → UInt8) := itoaAt 3 0 junk (Int32.ofNat value)

/-- A 0 in front of a single digit. -/
def padded (value : Nat) (str : Nat → UInt8) : Nat → UInt8 :=
  if value < 10 then update (update (update str 1 (str 0)) 0 '0'.toUInt8) 2 0 else str

/-- What the loop copies of an array, up to the NUL. -/
def strChars (size : Nat) (str : Nat → UInt8) : Option (List UInt8) := (length 0 size str).map (text str 0)

/-- What the loop copies of the template from `fmtp` on, and where it stops. -/
def fmtChars (size : Nat) (fmt : Nat → UInt8) (fmtp : Nat) : Option (List UInt8 × Nat) :=
  (lengthFrom 0 fmt (size - fmtp) fmtp).map fun stop => (text fmt fmtp (stop - fmtp), stop)

/-- "\0:\0:\0" -/
def timeFmt : List UInt8 := [0, 58, 0, 58, 0, 0]

/-- "\0 \0, 20\0" -/
def dateFmt : List UInt8 := [0, 32, 0, 44, 32, 50, 48, 0, 0]

def bufferSize : Nat := 100

/-- A line that fits the buffer. -/
def inBuffer (line : List UInt8) : Option (List UInt8) := if line.length ≤ bufferSize then some line else none

/-- The two parts of a template stand between three texts. -/
def compose (fmt first second third : List UInt8) : Option (List UInt8) := do
  let (part, fmtp) ← fmtChars fmt.length (ofList 0 fmt) 1
  let (part', _) ← fmtChars fmt.length (ofList 0 fmt) (fmtp + 1)
  inBuffer (first ++ part ++ second ++ part' ++ third ++ [13, 10])

def timeLine (junk : RtcRegister → Nat → UInt8) (hours minutes seconds : Nat) : Option (List UInt8) := do
  let seconds_str ← valueStr (junk .seconds) seconds
  let minutes_str ← valueStr (junk .minutes) minutes
  let hours_str ← valueStr (junk .hours) hours
  let hours_chars ← strChars 3 (padded hours hours_str)
  let minutes_chars ← strChars 3 (padded minutes minutes_str)
  let seconds_chars ← strChars 3 (padded seconds seconds_str)
  compose timeFmt hours_chars minutes_chars seconds_chars

def monthNames : List String :=
  ["January", "February", "March", "April", "May", "June", "July", "August", "September", "October", "November",
    "December"]

/-- `month_info[month - 1].name`. -/
def monthName (month : Nat) : Option (List UInt8) :=
  if month = 0 then none else (monthNames[month - 1]?).map fun name => name.toList.map Char.toUInt8

def dateLine (dayJunk yearJunk : Nat → UInt8) (day month year : Nat) : Option (List UInt8) := do
  let daystr ← valueStr dayJunk day
  let yearstr ← valueStr yearJunk year
  let name ← monthName month
  let day_chars ← strChars 3 daystr
  let year_chars ← strChars 3 (padded year yearstr)
  compose dateFmt name day_chars year_chars

/-- The line of `getTime` for the bytes that it reads. -/
def getTimeLine (junk : RtcRegister → Nat → UInt8) : List UInt8 → Option (List UInt8)
  | [seconds, minutes, hours] => timeLine junk (bcdToDecimal hours) (bcdToDecimal minutes) (bcdToDecimal seconds)
  | _ => none

/-- The line of `getDate` for the bytes that it reads. -/
def getDateLine (dayJunk yearJunk : Nat → UInt8) : List UInt8 → Option (List UInt8)
  | [year, month, day] => dateLine dayJunk yearJunk (bcdToDecimal day) (bcdToDecimal month) (bcdToDecimal year)
  | _ => none

/-! ### What the lines are for -/

def twoDigits (n : Nat) : List UInt8 := [decimalChar (n / 10), decimalChar (n % 10)]

/-- "HH:MM:SS" -/
def timeText (hours minutes seconds : Nat) : List UInt8 :=
  twoDigits hours ++ [58] ++ twoDigits minutes ++ [58] ++ twoDigits seconds ++ [13, 10]

/-- The time of an instant. -/
def clockText (now : Nat) : List UInt8 := timeText (shown now .hours) (shown now .minutes) (shown now .seconds)

def Date.name (d : Date) : List UInt8 := (monthName d.month).getD []

/-- "Month D, 20YY" -/
def dateText (d : Date) : List UInt8 :=
  d.name ++ [32] ++ spelled decimalChar 10 d.day ++ [44, 32, 50, 48] ++ twoDigits d.year ++ [13, 10]

variable {c : Rtc} {now : Nat} {d d' : Date} {v : Nat} {ticks : Nat → Nat} {junk b : Nat → UInt8} {line : List UInt8}

/-! ### The arrays -/

theorem decimalChar_inj {m n : Nat} (small : m < 10) (small' : n < 10) (same : decimalChar m = decimalChar n) :
    m = n := by
  have digit := decimalOf_char small
  rw [same, decimalOf_char small'] at digit
  exact (Option.some.inj digit).symm

theorem decimalChar_ne {n : Nat} (small : n < 10) : decimalChar n ≠ 0 := by
  have table : ∀ n ∈ List.range 10, decimalChar n ≠ 0 := by decide
  exact table n (List.mem_range.mpr small)

theorem spelled_two (large : 10 ≤ v) (small : v < 100) : spelled decimalChar 10 v = twoDigits v := by
  rw [spelled_step (by decide) large, spelled_small _ (show v / 10 < 10 by omega)]
  rfl

theorem spelled_long (large : 100 ≤ v) : 3 ≤ (numeral 10 v).length := by
  rw [numeral_step (by decide) (by omega), numeral_step (by decide) (by omega)]
  have nonempty := List.length_pos_of_ne_nil (numeral_ne_nil 10 (v / 10 / 10))
  simp only [List.length_append, List.length_singleton]
  omega

theorem spelled_short (small : v < 100) : (spelled decimalChar 10 v).length ≤ 2 := by
  by_cases large : 10 ≤ v
  · rw [spelled_two large small]
    exact le_refl 2
  · rw [spelled_small _ (Nat.lt_of_not_le large)]
    exact Nat.le_succ 1

theorem twoDigits_free (small : v < 100) : 0 ∉ twoDigits v := by
  unfold twoDigits
  simp only [List.mem_cons, List.not_mem_nil, or_false, not_or]
  exact ⟨(decimalChar_ne (by omega)).symm, (decimalChar_ne (Nat.mod_lt _ (by decide))).symm⟩

theorem spelled_free (small : v < 100) : 0 ∉ spelled decimalChar 10 v := by
  by_cases large : 10 ≤ v
  · rw [spelled_two large small]
    exact twoDigits_free small
  · rw [spelled_small _ (Nat.lt_of_not_le large), List.mem_singleton]
    exact (decimalChar_ne (Nat.lt_of_not_le large)).symm

theorem valueStr_holds (small : v < 100) (junk : Nat → UInt8) :
    ∃ str, valueStr junk v = some str ∧ Holds str 0 (spelled decimalChar 10 v ++ [0]) := by
  have short := spelled_short small
  obtain ⟨str, written, holds, -⟩ := itoaWrites_spelled (v := v) (by omega) 3 0 junk (by omega)
  exact ⟨str, written, holds⟩

/-- Three digits leave no room for the NUL. -/
theorem valueStr_outside (large : 100 ≤ v) (word : v < 2 ^ 31) (junk : Nat → UInt8) : valueStr junk v = none := by
  have digits := spelled_long large
  unfold valueStr
  rw [itoaAt_fill word]
  cases fill decimalChar 10 3 0 (numeral 10 v).length v junk with
  | none => rfl
  | some str => exact write_outside (by omega) _ _

theorem strChars_holds (holds : Holds b 0 (line ++ [0])) (free : 0 ∉ line) (fits : line.length < 3) :
    strChars 3 b = some line := by
  unfold strChars
  rw [length_holds holds free fits]
  exact congrArg some (holds_append.mp holds).1

theorem padded_chars (small : v < 100) (holds : Holds b 0 (spelled decimalChar 10 v ++ [0])) :
    strChars 3 (padded v b) = some (twoDigits v) := by
  refine strChars_holds ?_ (twoDigits_free small) (Nat.lt_succ_self 2)
  unfold padded
  by_cases single : v < 10
  · rw [spelled_small _ single] at holds
    obtain ⟨digit, -⟩ := holds_cons.mp holds
    rw [if_pos single]
    unfold twoDigits
    rw [Nat.div_eq_of_lt single, Nat.mod_eq_of_lt single]
    simp only [List.cons_append, List.nil_append, holds_cons, holds_nil, and_true]
    refine ⟨?_, ?_, ?_⟩
    · rw [update_of_ne (by decide), update_self]
      rfl
    · rw [update_of_ne (by decide), update_of_ne (by decide), update_self, digit]
    · exact update_self _ _ _
  · rw [if_neg single]
    rw [spelled_two (Nat.le_of_not_lt single) small] at holds
    exact holds

theorem timeFmt_parts (first second third : List UInt8) :
    compose timeFmt first second third = inBuffer (first ++ [58] ++ second ++ [58] ++ third ++ [13, 10]) := rfl

theorem dateFmt_parts (first second third : List UInt8) :
    compose dateFmt first second third =
      inBuffer (first ++ [32] ++ second ++ [44, 32, 50, 48] ++ third ++ [13, 10]) := rfl

/-- The line of the time, and no access outside of an array, for values of two digits. -/
theorem timeLine_eq (junk : RtcRegister → Nat → UInt8) {hours minutes seconds : Nat} (hour : hours < 100)
    (minute : minutes < 100) (second : seconds < 100) :
    timeLine junk hours minutes seconds = some (timeText hours minutes seconds) := by
  obtain ⟨seconds_str, writtenSeconds, holdsSeconds⟩ := valueStr_holds second (junk .seconds)
  obtain ⟨minutes_str, writtenMinutes, holdsMinutes⟩ := valueStr_holds minute (junk .minutes)
  obtain ⟨hours_str, writtenHours, holdsHours⟩ := valueStr_holds hour (junk .hours)
  unfold timeLine
  simp only [writtenSeconds, writtenMinutes, writtenHours, padded_chars second holdsSeconds,
    padded_chars minute holdsMinutes, padded_chars hour holdsHours, Option.bind_eq_bind, Option.bind_some]
  rw [timeFmt_parts]
  apply if_pos
  simp [twoDigits, bufferSize]

theorem monthName_some {month : Nat} (first : 1 ≤ month) (last : month ≤ 12) :
    ∃ name, monthName month = some name ∧ name.length ≤ 9 ∧ 32 ∉ name := by
  have table : ∀ month ∈ List.range 13, 1 ≤ month →
      ((monthName month).any fun name => decide (name.length ≤ 9 ∧ 32 ∉ name)) = true := by decide
  have named := table month (List.mem_range.mpr (by omega)) first
  obtain ⟨name, found, good⟩ := (Option.any_eq_true _ _).mp named
  exact ⟨name, found, of_decide_eq_true good⟩

theorem dateLine_eq (dayJunk yearJunk : Nat → UInt8) (valid : d.Valid) :
    dateLine dayJunk yearJunk d.day d.month d.year = some (dateText d) := by
  have last := lastDay_le d.month d.year
  have days : d.day < 100 := by
    have := valid.day
    omega
  have years : d.year < 100 := by
    have := valid.year
    omega
  obtain ⟨daystr, writtenDay, holdsDay⟩ := valueStr_holds days dayJunk
  obtain ⟨yearstr, writtenYear, holdsYear⟩ := valueStr_holds years yearJunk
  obtain ⟨name, named, short, -⟩ := monthName_some valid.month.1 valid.month.2
  have digits := spelled_short days
  unfold dateLine
  simp only [writtenDay, writtenYear, named, padded_chars years holdsYear,
    strChars_holds holdsDay (spelled_free days) (Nat.lt_succ_of_le digits), Option.bind_eq_bind, Option.bind_some]
  have text : dateText d =
      name ++ [32] ++ spelled decimalChar 10 d.day ++ [44, 32, 50, 48] ++ twoDigits d.year ++ [13, 10] := by
    unfold dateText Date.name
    rw [named, Option.getD_some]
  rw [dateFmt_parts, text]
  apply if_pos
  unfold bufferSize
  simp only [List.length_append, List.length_cons, List.length_nil, twoDigits]
  omega

end Mpx.Time

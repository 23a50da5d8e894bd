import Mpx.Command.Creation

/-! # Decimal numerals

`itoa` of `lib/string.c` on the array that it writes to, what `intParsable` and `atoi` make of its numerals, and the
loop of `alarmCommand` in `kernel/comhand.c` that puts numbers behind `timer_`. -/

namespace Mpx.Command
open Library.Buffer Library.Digits Library.Numerals Mpx.Process

/-- The first loop of `itoa`. -/
def itoaCount : Nat → Int32 → Option Nat
  | 0, _ => none
  | fuel + 1, temp => if temp ≠ 0 then (itoaCount fuel (temp / 10)).map (· + 1) else some 0

/-- The second loop, with `temp` at `n`. -/
def itoaDigits (bufSize start : Nat) : Nat → Int32 → (Nat → UInt8) → Option (Nat → UInt8)
  | 0, _, string => some string
  | n + 1, integer, string => do
    let string ← write bufSize string (start + n) (integer % 10 + 48).toUInt32.toUInt8
    itoaDigits bufSize start n (integer / 10) string

/-- `itoa` on the cells from `start` on. `none` is an access outside of the array. -/
def itoaAt (bufSize start : Nat) (string : Nat → UInt8) (integer : Int32) : Option (Nat → UInt8) := do
  if integer = 0 then
    let string ← write bufSize string start '0'.toUInt8
    write bufSize string (start + 1) 0
  else
    let size ← itoaCount 11 integer
    let string ← itoaDigits bufSize start size integer string
    write bufSize string (start + size) 0

/-! ### The numbers of the timers -/

/-- `itoa` puts the number behind the prefix. The string in the array is the name that `pcb_find` looks for. -/
def timerNumber (timername : Nat → UInt8) (i : Nat) : Option ((Nat → UInt8) × List UInt8) := do
  let timername ← itoaAt pcbProcnameBufferSz alarmcmdTimerPrefix.length timername (Int32.ofNat i)
  let len ← length 0 pcbProcnameBufferSz timername
  return (timername, text timername 0 len)

/-- The `memset` at the end of a turn, over the `strlen` of the number. -/
def timerClear (timername : Nat → UInt8) : Option (Nat → UInt8) := do
  let stop ← lengthFrom 0 timername (pcbProcnameBufferSz - alarmcmdTimerPrefix.length) alarmcmdTimerPrefix.length
  return fun j => if alarmcmdTimerPrefix.length ≤ j ∧ j < stop then 0 else timername j

/-- The loop, in the array, with `n` numbers to go. -/
def timerSearch (s : Procs) : Nat → Nat → (Nat → UInt8) → Option (Nat → UInt8)
  | 0, _, timername => some timername
  | n + 1, i, timername => do
    let (timername, name) ← timerNumber timername i
    let found ← pcbFind s name
    if found = 0 then return timername
    let timername ← timerClear timername
    timerSearch s n (i + 1) timername

/-- The names that the loop tries for as long as all of them are in use. -/
def timerTries : Nat → Nat → (Nat → UInt8) → Option (List (List UInt8))
  | 0, _, _ => some []
  | n + 1, i, timername => do
    let (timername, name) ← timerNumber timername i
    let timername ← timerClear timername
    let names ← timerTries n (i + 1) timername
    return name :: names

/-! ### What a numeral is for -/

/-- The numeral of `v` without leading zeros. -/
structure ShortestDecimal (line : List UInt8) (v : Nat) : Prop where
  written : Decimal line v
  shortest : ∀ other, Decimal other v → line.length ≤ other.length

/-- `itoa` makes the string `line` of `n` in every array with room for it, and changes nothing around it. -/
def ItoaWrites (n : Int32) (line : List UInt8) : Prop :=
  ∀ (bufSize start : Nat) (string : Nat → UInt8), start + line.length < bufSize →
    ∃ b, itoaAt bufSize start string n = some b ∧ Holds b start (line ++ [0]) ∧
      ∀ j, j < start ∨ start + line.length < j → b j = string j

/-- Every array that holds the string `line` is accepted, and read as `n`. -/
def AtoiReads (line : List UInt8) (n : Int32) : Prop :=
  ∀ (size : Nat) (s : Nat → UInt8), Holds s 0 (line ++ [0]) → line.length < size →
    intParsable s line.length = true ∧ atoi size s = some n

/-! ### Characters -/

def decimalChar (d : Nat) : UInt8 := UInt8.ofNat (d + 48)

variable {c : UInt8} {d v n i : Nat} {line : List UInt8}

theorem decimalOf_char (digit : d < 10) : decimalOf (decimalChar d) = some d := by
  have table : ∀ d ∈ List.range 10, decimalOf (decimalChar d) = some d := by decide
  exact table d (List.mem_range.mpr digit)

theorem decimalOf_some : decimalOf c = some d ↔ d < 10 ∧ c.toNat = d + 48 := by
  unfold decimalOf
  split
  · rw [Option.some.injEq]
    omega
  · simp only [reduceCtorEq, false_iff]
    omega

theorem decimalOf_lt (c : UInt8) (d : Nat) (digit : decimalOf c = some d) : d < 10 := (decimalOf_some.mp digit).1

theorem decimalChar_of (c : UInt8) (d : Nat) (digit : decimalOf c = some d) : decimalChar d = c := by
  unfold decimalChar
  rw [← (decimalOf_some.mp digit).2, UInt8.ofNat_toNat]

theorem decimalOf_zero (c : UInt8) (digit : decimalOf c = some 0) : c = '0'.toUInt8 :=
  (decimalChar_of c 0 digit).symm

theorem digit_char (small : v < 2 ^ 31) : (Int32.ofNat v % 10 + 48).toUInt32.toUInt8 = decimalChar (v % 10) := by
  have table : ∀ d ∈ List.range 10, (Int32.ofNat d + 48).toUInt32.toUInt8 = decimalChar d := by decide
  have mod : Int32.ofNat v % 10 = Int32.ofNat (v % 10) := by
    apply Int32.toInt_inj.mp
    rw [Int32.toInt_mod, toInt_of_lt small, toInt_of_lt (by omega)]
    exact (Int.ofNat_tmod v 10).symm
  rw [mod]
  exact table _ (List.mem_range.mpr (Nat.mod_lt _ (by decide)))

theorem ofNat_div_ten (small : v < 2 ^ 31) : Int32.ofNat v / 10 = Int32.ofNat (v / 10) :=
  (Int32.ofNat_div small (by decide)).symm

theorem ofNat_eq_zero (small : v < 2 ^ 31) : Int32.ofNat v = 0 ↔ v = 0 := by
  rw [← Int32.toInt_inj, toInt_of_lt small]
  change (v : Int) = 0 ↔ _
  omega

/-! ### What `itoa` writes -/

theorem itoaCount_count {fuel : Nat} (small : v < 2 ^ 31) : itoaCount fuel (Int32.ofNat v) = count 10 fuel v := by
  induction fuel generalizing v with
  | zero => rfl
  | succ fuel ih =>
    rw [itoaCount, count, ofNat_div_ten small, ih (by omega)]
    simp only [ne_eq, ofNat_eq_zero small]

theorem itoaDigits_fill {bufSize start : Nat} (small : v < 2 ^ 31) (string : Nat → UInt8) :
    itoaDigits bufSize start n (Int32.ofNat v) string = fill decimalChar 10 bufSize start n v string := by
  induction n generalizing v string with
  | zero => rfl
  | succ n ih =>
    unfold itoaDigits fill
    rw [digit_char small, ofNat_div_ten small]
    simp only [ih (show v / 10 < 2 ^ 31 by omega)]

/-- The digits are written from the last one down, and the string is closed behind them. -/
theorem itoaAt_fill {bufSize start : Nat} (small : v < 2 ^ 31) (string : Nat → UInt8) :
    itoaAt bufSize start string (Int32.ofNat v) =
      (fill decimalChar 10 bufSize start (numeral 10 v).length v string).bind fun c =>
        write bufSize c (start + (numeral 10 v).length) 0 := by
  unfold itoaAt
  by_cases zero : v = 0
  · subst zero
    rw [if_pos (show Int32.ofNat 0 = 0 from rfl), numeral_zero, List.length_singleton]
    simp only [fill, Nat.add_zero, Option.bind_eq_bind, Option.bind_fun_some]
    rfl
  · have digits := count_eq (show 1 < 10 by decide) zero (show v < 10 ^ 10 by omega)
    rw [if_neg (mt (ofNat_eq_zero small).mp zero), itoaCount_count small, digits, Option.bind_eq_bind,
      Option.bind_some, itoaDigits_fill small]
    rfl

theorem itoaWrites_spelled (small : v < 2 ^ 31) : ItoaWrites (Int32.ofNat v) (spelled decimalChar 10 v) := by
  intro bufSize start string room
  rw [length_spelled] at room ⊢
  rw [itoaAt_fill small]
  exact fill_closed decimalChar 0 (by decide) rfl room string

theorem itoaSize_count {fuel k : Nat} (counted : count 10 (fuel + 1) v = some k) : itoaSize fuel v = k := by
  induction fuel generalizing v k with
  | zero =>
    unfold count at counted
    split at counted
    · cases counted
    · cases counted
      rfl
  | succ fuel ih =>
    unfold count at counted
    unfold itoaSize
    split at counted
    · rename_i nonzero
      obtain ⟨digits, rest, rfl⟩ := Option.map_eq_some_iff.mp counted
      rw [if_pos nonzero, ih rest]
    · rename_i zero
      cases counted
      exact if_neg zero

theorem itoaFill_spelled (digits : (numeral 10 v).length = n) (string : List UInt8) :
    itoaFill n v string = spelled decimalChar 10 v ++ string := by
  induction n generalizing v string with
  | zero => exact absurd (List.length_eq_zero_iff.mp digits) (numeral_ne_nil 10 _)
  | succ n ih =>
    rw [itoaFill]
    by_cases large : 10 ≤ v
    · rw [numeral_step (by decide) large, List.length_append, List.length_singleton] at digits
      rw [ih (by omega), spelled_step (by decide) large, List.append_assoc]
      rfl
    · have single := spelled_small decimalChar (Nat.lt_of_not_le large)
      have last : n = 0 := by
        rw [← length_spelled decimalChar, single, List.length_singleton] at digits
        omega
      rw [last, single, Nat.mod_eq_of_lt (Nat.lt_of_not_le large)]
      rfl

theorem itoa_spelled (v : Nat) : itoa v = spelled decimalChar 10 v := by
  unfold itoa
  split
  · rename_i zero
    rw [zero, spelled_zero]
    rfl
  · rename_i nonzero
    have digits := count_eq (show 1 < 10 by decide) nonzero (Nat.lt_pow_self (by decide))
    rw [itoaSize_count digits, itoaFill_spelled rfl, List.append_nil]

theorem itoa_injective {j : Nat} (same : itoa i = itoa j) : i = j := by
  rw [itoa_spelled, itoa_spelled] at same
  exact spelled_injective (by decide) (fun _ digit => decimalOf_char digit) same

/-! ### What is read -/

theorem atoiReads_written (written : Decimal line v) : AtoiReads line (Int32.ofNat v) := by
  obtain ⟨-, ds, digits, rfl⟩ := written
  intro size s holds fits
  exact ⟨(intParsable_holds (holds_append.mp holds).1).mpr (digits_some.mpr ⟨ds, digits⟩),
    atoi_digits holds digits fits⟩

theorem decimal_spelled (v : Nat) : Decimal (spelled decimalChar 10 v) v :=
  writes_spelled (by decide) (fun _ digit => decimalOf_char digit) v

theorem shortestDecimal_spelled (v : Nat) : ShortestDecimal (spelled decimalChar 10 v) v :=
  ⟨decimal_spelled v, fun _ other => by
    rw [length_spelled]
    exact writes_length (by decide) decimalOf_lt other⟩

theorem spelled_decimal (written : Decimal line v) (lead : line.head? = some '0'.toUInt8 → line = ['0'.toUInt8]) :
    spelled decimalChar 10 v = line := by
  have same := spelled_value (by decide) decimalOf_lt decimalChar_of decimalOf_zero written lead
  rw [List.map_id'] at same
  exact same

/-! ### Timers -/

section Timers
variable {timername b : Nat → UInt8} {s : Procs}

theorem named_text (holds : Holds b 0 (line ++ [0])) (free : 0 ∉ line) (fits : line.length < pcbProcnameBufferSz) :
    (length 0 pcbProcnameBufferSz b).map (text b 0) = some line := by
  rw [length_holds holds free fits]
  exact congrArg some (holds_append.mp holds).1

theorem free_itoa (i : Nat) : 0 ∉ itoa i := by
  rw [itoa_spelled]
  exact digits_free (show decimalOf 0 = none from rfl)
    (spelled_digits (by decide) (fun _ digit => decimalOf_char digit) i)

theorem length_itoa (small : i < 2 ^ 31) : (itoa i).length ≤ 10 := by
  rw [itoa_spelled, length_spelled]
  exact numeral_length (by decide) (by decide) (by omega)

theorem length_timerPrefix : alarmcmdTimerPrefix.length = 6 := by decide

theorem holds_timerPrefix : Holds (ofList 0 alarmcmdTimerPrefix) 0 (alarmcmdTimerPrefix ++ [0]) := rfl

/-- The number is put behind the prefix. -/
theorem timerNumber_holds (small : i < 2 ^ 31) (holds : Holds timername 0 (alarmcmdTimerPrefix ++ [0])) :
    ∃ b, timerNumber timername i = some (b, alarmcmdTimerPrefix ++ itoa i) ∧
      Holds b 0 (alarmcmdTimerPrefix ++ (itoa i ++ [0])) := by
  have short := length_itoa small
  have six := length_timerPrefix
  have room : alarmcmdTimerPrefix.length + (itoa i).length < pcbProcnameBufferSz := by
    unfold pcbProcnameBufferSz
    omega
  have writes := itoaWrites_spelled small
  rw [← itoa_spelled] at writes
  obtain ⟨b, written, number, frame⟩ := writes pcbProcnameBufferSz alarmcmdTimerPrefix.length timername room
  have named : Holds b 0 (alarmcmdTimerPrefix ++ (itoa i ++ [0])) := by
    rw [holds_append, Nat.zero_add]
    refine ⟨holds_congr (fun j _ below => frame j (.inl ?_)) (holds_append.mp holds).1, number⟩
    rw [Nat.zero_add] at below
    exact below
  have free : 0 ∉ alarmcmdTimerPrefix ++ itoa i :=
    List.not_mem_append (by decide) (free_itoa i)
  have name := named_text (by rw [List.append_assoc]; exact named) free (by rw [List.length_append]; exact room)
  obtain ⟨len, counted, shown⟩ := Option.map_eq_some_iff.mp name
  refine ⟨b, ?_, named⟩
  unfold timerNumber
  rw [written, Option.bind_eq_bind, Option.bind_some, counted, Option.bind_eq_bind, Option.bind_some, shown]
  rfl

/-- The `memset` leaves the prefix alone in the array. -/
theorem timerClear_holds (small : i < 2 ^ 31) (holds : Holds b 0 (alarmcmdTimerPrefix ++ (itoa i ++ [0]))) :
    ∃ c, timerClear b = some c ∧ Holds c 0 (alarmcmdTimerPrefix ++ [0]) := by
  have short := length_itoa small
  have six := length_timerPrefix
  have nonempty : 0 < (itoa i).length := by
    rw [itoa_spelled, length_spelled]
    exact List.length_pos_iff.mpr (numeral_ne_nil 10 i)
  obtain ⟨first, number⟩ := holds_append.mp holds
  rw [Nat.zero_add] at number
  have stop := lengthFrom_holds (n := pcbProcnameBufferSz - alarmcmdTimerPrefix.length) number (free_itoa i)
    (by unfold pcbProcnameBufferSz; omega)
  unfold timerClear
  rw [stop, Option.bind_eq_bind, Option.bind_some]
  refine ⟨_, rfl, ?_⟩
  rw [holds_append, holds_cons]
  refine ⟨holds_congr ?_ first, if_pos (by omega), holds_nil _ _⟩
  intro j _ below
  exact if_neg (by omega)

theorem timerTries_eq (small : i + n ≤ 2 ^ 31) (holds : Holds timername 0 (alarmcmdTimerPrefix ++ [0])) :
    timerTries n i timername = some ((List.range' i n).map fun j => alarmcmdTimerPrefix ++ itoa j) := by
  induction n generalizing i timername with
  | zero => rfl
  | succ n ih =>
    obtain ⟨b, numbered, named⟩ := timerNumber_holds (i := i) (by omega) holds
    obtain ⟨c, cleared, again⟩ := timerClear_holds (by omega) named
    unfold timerTries
    simp only [numbered, Option.bind_eq_bind, Option.bind_some, cleared, ih (i := i + 1) (by omega) again]
    rfl

/-- The loop leaves in the array the name that the list of the numbers gives. -/
theorem timerSearch_name (small : i + n ≤ 2 ^ 31) (holds : Holds timername 0 (alarmcmdTimerPrefix ++ [0])) :
    ((timerSearch s n i timername).bind fun b => (length 0 pcbProcnameBufferSz b).map (text b 0)) =
      timerName s n i := by
  induction n generalizing i timername with
  | zero => exact named_text holds (by decide) (by decide)
  | succ n ih =>
    obtain ⟨b, numbered, named⟩ := timerNumber_holds (i := i) (by omega) holds
    obtain ⟨c, cleared, again⟩ := timerClear_holds (by omega) named
    have short := length_itoa (show i < 2 ^ 31 by omega)
    have six := length_timerPrefix
    have name := named_text (by rw [List.append_assoc]; exact named)
      (List.not_mem_append (by decide) (free_itoa i))
      (by rw [List.length_append]; unfold pcbProcnameBufferSz; omega)
    unfold timerSearch timerName
    simp only [numbered, Option.bind_eq_bind, Option.bind_some, cleared]
    cases pcbFind s (alarmcmdTimerPrefix ++ itoa i) with
    | none => rfl
    | some found =>
      simp only [Option.bind_some]
      split
      · exact name
      · exact ih (i := i + 1) (by omega) again

end Timers

/-! ### The round trip -/

/-- A number is written as its shortest numeral, which is accepted and read back, a numeral without leading zeros is
written as it was read, and so the names that are tried for timers are all different. -/
theorem decimal_round_trip :
    (∀ k : Int32, 0 ≤ k → ∃ line, ShortestDecimal line k.toInt.toNat ∧ ItoaWrites k line ∧ AtoiReads line k) ∧
    (∀ line v, Decimal line v → (line.head? = some '0'.toUInt8 → line = ['0'.toUInt8]) → v < 2 ^ 31 →
      ∃ k : Int32, k.toInt = v ∧ AtoiReads line k ∧ ItoaWrites k line) ∧
    ∀ n ≤ 2 ^ 31, ∃ names, timerTries n 0 (ofList 0 alarmcmdTimerPrefix) = some names ∧
      names = (List.range n).map (fun i => alarmcmdTimerPrefix ++ itoa i) ∧ names.Nodup := by
  refine ⟨?_, ?_, ?_⟩
  · intro k positive
    have fits := Int32.toInt_lt k
    have small : k.toInt.toNat < 2 ^ 31 := by omega
    have same := eq_ofNat (x := k) (Int32.le_iff_toInt_le.mp positive)
    refine ⟨_, shortestDecimal_spelled k.toInt.toNat, ?_, ?_⟩
    · have writes := itoaWrites_spelled small
      rw [← same] at writes
      exact writes
    · have reads := atoiReads_written (decimal_spelled k.toInt.toNat)
      rw [← same] at reads
      exact reads
  · intro line v written lead small
    refine ⟨Int32.ofNat v, toInt_of_lt small, atoiReads_written written, ?_⟩
    have writes := itoaWrites_spelled small
    rw [spelled_decimal written lead] at writes
    exact writes
  · intro n small
    have tried := timerTries_eq (n := n) (i := 0) (by omega) holds_timerPrefix
    rw [← List.range_eq_range'] at tried
    refine ⟨_, tried, rfl, List.nodup_range.map ?_⟩
    intro i j same
    exact itoa_injective (List.append_cancel_left same)

example : (itoaAt 12 1 (fun _ => 7) 2147483647).map (text · 0 12) = some (7 :: bytes "2147483647" ++ [0]) := by
  decide +kernel

end Mpx.Command

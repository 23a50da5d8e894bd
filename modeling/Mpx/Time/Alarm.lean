import Mpx.Library.Transition
import Mathlib.Algebra.Group.Nat.Defs

/-! # The alarm process

`alarmProcess` of `kernel/time.c` polls the real-time clock, one register after the other, while the clock
runs on. Instants are seconds since the midnight before the process starts. -/

namespace Mpx.Time
open Library.Transition

def decimalToBcd (integer : Nat) : UInt8 := UInt8.ofNat ((integer / 10) <<< 4 ||| integer % 10)

def bcdToDecimal (bcd : UInt8) : Nat := (bcd &&& 0x0F).toNat + (bcd >>> 4).toNat * 10

inductive RtcRegister where
  | seconds | minutes | hours
  deriving DecidableEq, Repr

def daySeconds : Nat := 24 * 60 * 60

/-- What the clock shows at an instant. -/
def shown (now : Nat) : RtcRegister → Nat
  | .seconds => now % 60
  | .minutes => now / 60 % 60
  | .hours => now / 60 / 60 % 24

/-- The register's content: the clock counts in decimal digits. -/
def rtcRead (now : Nat) (r : RtcRegister) : UInt8 := decimalToBcd (shown now r)

/-- The time of `struct alarmProcessParams`. -/
structure AlarmProcessParams where
  hours : Nat
  minutes : Nat
  seconds : Nat

/-- `alarmCommand` takes nothing else. -/
def AlarmProcessParams.Valid (args : AlarmProcessParams) : Prop :=
  args.hours < 24 ∧ args.minutes < 60 ∧ args.seconds < 60

def AlarmProcessParams.timeToMatch (args : AlarmProcessParams) : Nat :=
  (args.hours * 60 + args.minutes) * 60 + args.seconds

/-- A register is selected by `outb(0x70, ..)` and then read by `inb(0x71)`. -/
inductive AlarmPc where
  | selects (r : RtcRegister)
  | reads (r : RtcRegister)
  | compares
  | left
  deriving DecidableEq, Repr

/-- The instants of a poll: of its first and last step and of the three reads; and how it ended. -/
structure Poll where
  begins : Nat
  second : Nat
  minute : Nat
  hour : Nat
  ends : Nat
  leaves : Bool
  deriving DecidableEq

/-- The process with the clock, the poll it is in and the polls it has made. -/
structure Alarm where
  now : Nat
  pc : AlarmPc
  secondNow : Nat
  minuteNow : Nat
  hourNow : Nat
  poll : Poll
  polls : List Poll

inductive AlarmInput where
  | tick
  | runs
  deriving DecidableEq, Repr

def Alarm.select (s : Alarm) : RtcRegister → Alarm
  | .seconds => { s with pc := .reads .seconds, poll := { s.poll with begins := s.now } }
  | r => { s with pc := .reads r }

def Alarm.read (s : Alarm) : RtcRegister → Alarm
  | .seconds => { s with
      pc := .selects .minutes
      secondNow := bcdToDecimal (rtcRead s.now .seconds)
      poll := { s.poll with second := s.now } }
  | .minutes => { s with
      pc := .selects .hours
      minuteNow := bcdToDecimal (rtcRead s.now .minutes)
      poll := { s.poll with minute := s.now } }
  | .hours => { s with
      pc := .compares
      hourNow := bcdToDecimal (rtcRead s.now .hours)
      poll := { s.poll with hour := s.now } }

/-- The condition of the loop. -/
def Alarm.waits (s : Alarm) (args : AlarmProcessParams) : Bool :=
  (s.hourNow * 60 + s.minuteNow) * 60 + s.secondNow < args.timeToMatch

/-- The poll that the comparison ends. -/
def Alarm.ended (s : Alarm) (args : AlarmProcessParams) : Poll :=
  { s.poll with ends := s.now, leaves := !s.waits args }

/-- The process gives the processor up by `idle` before each new poll. -/
def Alarm.compare (s : Alarm) (args : AlarmProcessParams) : Alarm :=
  { s with pc := if s.waits args then .selects .seconds else .left, polls := s.polls ++ [s.ended args] }

def Alarm.step (args : AlarmProcessParams) (s : Alarm) : AlarmInput → Option Alarm
  | .tick => some { s with now := s.now + 1 }
  | .runs =>
    match s.pc with
    | .selects r => some (s.select r)
    | .reads r => some (s.read r)
    | .compares => some (s.compare args)
    | .left => none

structure Started (s : Alarm) : Prop where
  today : s.now < daySeconds
  pc : s.pc = .selects .seconds
  polls : s.polls = []

/-- A poll leaves the loop not before the alarm instant, and one that begins at it or later does. -/
structure Poll.Right (p : Poll) (args : AlarmProcessParams) : Prop where
  early : p.ends < args.timeToMatch → p.leaves = false
  late : args.timeToMatch ≤ p.begins → p.leaves = true

/-- Before the alarm instant no minute begins before the minutes are read and no hour before the hours are, and
from it on the hours are read before midnight. -/
structure Poll.Steady (p : Poll) (args : AlarmProcessParams) : Prop where
  early : p.ends < args.timeToMatch → p.second / 60 = p.minute / 60 ∧ p.minute / 3600 = p.hour / 3600
  late : args.timeToMatch ≤ p.begins → p.hour < daySeconds

def AlarmInput.Steady (args : AlarmProcessParams) (s : Alarm) (i : AlarmInput) : Prop :=
  i = .runs → s.pc = .compares → (s.ended args).Steady args

variable {s s' : Alarm} {args : AlarmProcessParams} {p : Poll}

theorem bcd_round_trip {n : Nat} (small : n < 100) : bcdToDecimal (decimalToBcd n) = n := by
  have digits : ∀ n : Fin 100, bcdToDecimal (decimalToBcd n.val) = n.val := by decide +kernel
  exact digits ⟨n, small⟩

theorem shown_small (now : Nat) (r : RtcRegister) : shown now r < 100 := by
  cases r with
  | seconds => exact Nat.lt_trans (Nat.mod_lt _ (by decide)) (by decide)
  | minutes => exact Nat.lt_trans (Nat.mod_lt _ (by decide)) (by decide)
  | hours => exact Nat.lt_trans (Nat.mod_lt _ (by decide)) (by decide)

theorem rtcRead_shown (now : Nat) (r : RtcRegister) : bcdToDecimal (rtcRead now r) = shown now r :=
  bcd_round_trip (shown_small now r)

/-! ### What the process knows in a poll -/

def SecondRead (s : Alarm) : Prop :=
  s.poll.begins ≤ s.poll.second ∧ s.poll.second ≤ s.now ∧ s.secondNow = shown s.poll.second .seconds

def MinuteRead (s : Alarm) : Prop :=
  SecondRead s ∧ s.poll.second ≤ s.poll.minute ∧ s.poll.minute ≤ s.now ∧
    s.minuteNow = shown s.poll.minute .minutes

def HourRead (s : Alarm) : Prop :=
  MinuteRead s ∧ s.poll.minute ≤ s.poll.hour ∧ s.poll.hour ≤ s.now ∧ s.hourNow = shown s.poll.hour .hours

/-- What has been read so far was shown at its instant. -/
def Polling (s : Alarm) : Prop :=
  match s.pc with
  | .reads .seconds => s.poll.begins ≤ s.now
  | .selects .minutes | .reads .minutes => SecondRead s
  | .selects .hours | .reads .hours => MinuteRead s
  | .compares => HourRead s
  | .selects .seconds | .left => True

theorem secondRead_tick (known : SecondRead s) : SecondRead { s with now := s.now + 1 } := by
  obtain ⟨begins, past, value⟩ := known
  exact ⟨begins, Nat.le_succ_of_le past, value⟩

theorem minuteRead_tick (known : MinuteRead s) : MinuteRead { s with now := s.now + 1 } := by
  obtain ⟨before, order, past, value⟩ := known
  exact ⟨secondRead_tick before, order, Nat.le_succ_of_le past, value⟩

theorem hourRead_tick (known : HourRead s) : HourRead { s with now := s.now + 1 } := by
  obtain ⟨before, order, past, value⟩ := known
  exact ⟨minuteRead_tick before, order, Nat.le_succ_of_le past, value⟩

theorem tick_polling (known : Polling s) : Polling { s with now := s.now + 1 } := by
  unfold Polling at known ⊢
  dsimp only
  cases pc : s.pc with
  | selects r =>
    rw [pc] at known
    cases r with
    | seconds => trivial
    | minutes => exact secondRead_tick known
    | hours => exact minuteRead_tick known
  | reads r =>
    rw [pc] at known
    cases r with
    | seconds => exact Nat.le_succ_of_le known
    | minutes => exact secondRead_tick known
    | hours => exact minuteRead_tick known
  | compares =>
    rw [pc] at known
    exact hourRead_tick known
  | left => trivial

theorem select_polling {r : RtcRegister} (known : Polling s) (pc : s.pc = .selects r) : Polling (s.select r) := by
  unfold Polling at known
  rw [pc] at known
  cases r with
  | seconds => exact Nat.le_refl s.now
  | minutes => exact known
  | hours => exact known

theorem read_polling {r : RtcRegister} (known : Polling s) (pc : s.pc = .reads r) : Polling (s.read r) := by
  unfold Polling at known
  rw [pc] at known
  cases r with
  | seconds => exact ⟨known, Nat.le_refl _, rtcRead_shown _ _⟩
  | minutes => exact ⟨⟨known.1, known.2.1, known.2.2⟩, known.2.1, Nat.le_refl _, rtcRead_shown _ _⟩
  | hours => exact ⟨known, known.2.2.1, Nat.le_refl _, rtcRead_shown _ _⟩

theorem compare_polling (s : Alarm) (args : AlarmProcessParams) : Polling (s.compare args) := by
  unfold Polling Alarm.compare
  dsimp only
  cases s.waits args <;> trivial

theorem step_polling {i : AlarmInput} (known : Polling s) (moved : s.step args i = some s') : Polling s' := by
  cases i with
  | tick =>
    obtain rfl := Option.some.inj moved
    exact tick_polling known
  | runs =>
    unfold Alarm.step at moved
    dsimp only at moved
    cases pc : s.pc with
    | selects r =>
      rw [pc] at moved
      obtain rfl := Option.some.inj moved
      exact select_polling known pc
    | reads r =>
      rw [pc] at moved
      obtain rfl := Option.some.inj moved
      exact read_polling known pc
    | compares =>
      rw [pc] at moved
      obtain rfl := Option.some.inj moved
      exact compare_polling s args
    | left =>
      rw [pc] at moved
      cases moved

/-! ### What a poll decides -/

/-- The hour, the minute and the second that are shown when they are read have come to the alarm's. -/
def Poll.Reached (p : Poll) (args : AlarmProcessParams) : Prop :=
  args.hours < shown p.hour .hours ∨ args.hours = shown p.hour .hours ∧
    (args.minutes < shown p.minute .minutes ∨ args.minutes = shown p.minute .minutes ∧
      args.seconds ≤ shown p.second .seconds)

/-- The poll leaves exactly if what it was shown has reached the alarm's time. -/
theorem leaves_reached (valid : args.Valid) (known : HourRead s) :
    (s.ended args).leaves = true ↔ (s.ended args).Reached args := by
  obtain ⟨⟨⟨_, _, second⟩, _, _, minute⟩, _, _, hour⟩ := known
  have seconds : shown s.poll.second .seconds < 60 := Nat.mod_lt _ (by decide)
  have minutes : shown s.poll.minute .minutes < 60 := Nat.mod_lt _ (by decide)
  obtain ⟨_, minuteBound, secondBound⟩ := valid
  unfold Alarm.ended Alarm.waits AlarmProcessParams.timeToMatch Poll.Reached
  dsimp only
  rw [second, minute, hour]
  simp only [Bool.not_eq_true', decide_eq_false_iff_not]
  omega

/-- Where nothing begins between the reads, what is shown is the time of the first of them. -/
theorem steady_reached (valid : args.Valid) (today : p.hour < daySeconds) (minute : p.second / 60 = p.minute / 60)
    (hour : p.minute / 3600 = p.hour / 3600) (reached : p.Reached args) : args.timeToMatch ≤ p.second := by
  obtain ⟨_, minuteBound, secondBound⟩ := valid
  unfold Poll.Reached at reached
  unfold AlarmProcessParams.timeToMatch
  unfold daySeconds at today
  simp only [shown, Nat.div_div_eq_div_mul, ← minute] at reached
  have hours : p.second / 3600 = p.hour / 3600 := by omega
  simp only [← hours] at reached
  omega

/-- On the first day what is shown is never less than the time of the first read. -/
theorem first_day (valid : args.Valid) (today : p.hour < daySeconds) (past : args.timeToMatch ≤ p.second)
    (first : p.second ≤ p.minute) (last : p.minute ≤ p.hour) : p.Reached args := by
  obtain ⟨_, minuteBound, secondBound⟩ := valid
  have minute : p.second / 60 ≤ p.minute / 60 := Nat.div_le_div_right first
  have hour : p.minute / 60 / 60 ≤ p.hour / 60 / 60 := Nat.div_le_div_right (Nat.div_le_div_right last)
  unfold AlarmProcessParams.timeToMatch at past
  unfold daySeconds at today
  unfold Poll.Reached
  simp only [shown]
  omega

theorem ended_right (valid : args.Valid) (known : HourRead s) (steady : (s.ended args).Steady args) :
    (s.ended args).Right args := by
  have leaves := leaves_reached valid known
  obtain ⟨⟨⟨began, _, _⟩, first, _, _⟩, last, past, _⟩ := known
  refine ⟨fun before => ?_, fun after => leaves.mpr ?_⟩
  · apply eq_false_of_ne_true
    intro left
    obtain ⟨minute, hour⟩ := steady.early before
    have bound : args.timeToMatch < daySeconds := by
      obtain ⟨_, _, _⟩ := valid
      unfold AlarmProcessParams.timeToMatch daySeconds
      omega
    have now : (s.ended args).hour ≤ (s.ended args).ends := past
    have time := steady_reached valid (by omega) minute hour (leaves.mp left)
    have order : (s.ended args).second ≤ (s.ended args).hour := Nat.le_trans first last
    omega
  · exact first_day valid (steady.late after) (Nat.le_trans after began) first last

/-! ### Runs -/

theorem step_polls {i : AlarmInput} (moved : s.step args i = some s') :
    (i = .runs ∧ s.pc = .compares ∧ s'.polls = s.polls ++ [s.ended args]) ∨
      ¬(i = .runs ∧ s.pc = .compares) ∧ s'.polls = s.polls := by
  cases i with
  | tick =>
    obtain rfl := Option.some.inj moved
    exact .inr ⟨fun compares => absurd compares.1 (by decide), rfl⟩
  | runs =>
    unfold Alarm.step at moved
    dsimp only at moved
    cases pc : s.pc with
    | selects r =>
      rw [pc] at moved
      obtain rfl := Option.some.inj moved
      refine .inr ⟨fun compares => absurd compares.2 (by simp), ?_⟩
      cases r <;> rfl
    | reads r =>
      rw [pc] at moved
      obtain rfl := Option.some.inj moved
      refine .inr ⟨fun compares => absurd compares.2 (by simp), ?_⟩
      cases r <;> rfl
    | compares =>
      rw [pc] at moved
      obtain rfl := Option.some.inj moved
      exact .inl ⟨rfl, rfl, rfl⟩
    | left =>
      rw [pc] at moved
      cases moved

theorem step_right {i : AlarmInput} (valid : args.Valid) (known : Polling s) (rights : ∀ p ∈ s.polls, p.Right args)
    (steady : i.Steady args s) (moved : s.step args i = some s') : ∀ p ∈ s'.polls, p.Right args := by
  rcases step_polls moved with ⟨runs, compares, polls⟩ | ⟨_, polls⟩
  · have read : HourRead s := by
      unfold Polling at known
      rw [compares] at known
      exact known
    intro p member
    rw [polls] at member
    rcases List.mem_append.mp member with old | new
    · exact rights p old
    · rw [List.mem_singleton.mp new]
      exact ended_right valid read (steady runs compares)
  · rw [polls]
    exact rights

/-- In every run of steady polls each poll leaves the loop when it is time, and not before. -/
theorem alarm_right (valid : args.Valid)
    (reached : Reaches Started (AlarmInput.Steady args · ·) (Alarm.step args) s) : ∀ p ∈ s.polls, p.Right args := by
  have kept : Polling s ∧ ∀ p ∈ s.polls, p.Right args := by
    apply reaches_invariant (P := fun s => Polling s ∧ ∀ p ∈ s.polls, p.Right args) ?_ ?_ reached
    · intro s start
      constructor
      · unfold Polling
        rw [start.pc]
        trivial
      · intro p member
        rw [start.polls] at member
        cases member
    · intro s i s' kept steady moved
      exact ⟨step_polling kept.1 moved, step_right valid kept.1 kept.2 steady moved⟩
  exact kept.2

def alarmStart (now : Nat) : Alarm :=
  { now := now
    pc := .selects .seconds
    secondNow := 0
    minuteNow := 0
    hourNow := 0
    poll := ⟨0, 0, 0, 0, 0, false⟩
    polls := [] }

instance pollDecidable (p : Poll) (args : AlarmProcessParams) : Decidable (p.Steady args) :=
  decidable_of_iff ((p.ends < args.timeToMatch → p.second / 60 = p.minute / 60 ∧ p.minute / 3600 = p.hour / 3600) ∧
      (args.timeToMatch ≤ p.begins → p.hour < daySeconds))
    ⟨fun steady => ⟨steady.1, steady.2⟩, fun steady => ⟨steady.early, steady.late⟩⟩

instance steadyDecidable (args : AlarmProcessParams) (s : Alarm) (i : AlarmInput) : Decidable (i.Steady args s) :=
  inferInstanceAs (Decidable (_ → _ → _))

/-- A poll before the alarm instant and one after it. -/
theorem alarm_right_example : ∃ s : Alarm, s.pc = .left ∧ ∀ p ∈ s.polls, p.Right ⟨1, 0, 1⟩ := by
  have ran : (run (AlarmInput.Steady ⟨1, 0, 1⟩) (Alarm.step ⟨1, 0, 1⟩) (alarmStart 3599)
      (.replicate 7 .runs ++ [.tick, .tick] ++ .replicate 7 .runs)).map (·.pc) = some .left := by
    decide +kernel
  obtain ⟨s, ran, left⟩ := Option.map_eq_some_iff.mp ran
  have start : Started (alarmStart 3599) := ⟨by decide, rfl, rfl⟩
  have valid : AlarmProcessParams.Valid ⟨1, 0, 1⟩ := by
    refine ⟨?_, ?_, ?_⟩ <;> decide
  exact ⟨s, left, alarm_right valid (run_reaches (.start start) ran)⟩

/-- The second is read at 00:59:59, and the rest a second later: the poll takes it for 01:00:59. -/
theorem alarm_not_right : ¬∀ args : AlarmProcessParams, args.Valid → ∀ s,
    Reaches Started (fun _ _ => True) (Alarm.step args) s → ∀ p ∈ s.polls, p.Right args := by
  intro always
  have ran : (run (fun _ _ => True) (Alarm.step ⟨1, 0, 30⟩) (alarmStart 3599)
      [.runs, .runs, .tick, .runs, .runs, .runs, .runs, .runs]).map (fun s => s.polls) =
        some [⟨3599, 3599, 3600, 3600, 3600, true⟩] := by
    decide +kernel
  obtain ⟨s, ran, polls⟩ := Option.map_eq_some_iff.mp ran
  have start : Started (alarmStart 3599) := ⟨by decide, rfl, rfl⟩
  have valid : AlarmProcessParams.Valid ⟨1, 0, 30⟩ := by
    refine ⟨?_, ?_, ?_⟩ <;> decide
  have right := always ⟨1, 0, 30⟩ valid s (run_reaches (.start start) ran) _ (polls ▸ List.mem_singleton.mpr rfl)
  exact absurd (right.early (by decide)) (by decide)

end Mpx.Time

import Mathlib.Logic.Function.Iterate
import Mpx.Command.Numbers
import Mpx.Time.Alarm

/-! # Setting and reading the clock

`setTime`, `getTime`, `setDate` and `getDate` of `kernel/time.c` reach the real-time clock through two ports, and
the clock runs on between any two of their accesses. -/

namespace Mpx.Time
open Function Mpx.Command

/-! ### The clock -/

/-- The register that port 0x70 selects, and the registers, which hold binary coded decimals. -/
structure Rtc where
  index : UInt8
  cells : UInt8 → UInt8

inductive Access where
  | outb (port value : UInt8)
  | inb (port : UInt8)
  deriving DecidableEq, Repr

namespace Rtc

def get (c : Rtc) (r : UInt8) : Nat := bcdToDecimal (c.cells r)

def put (c : Rtc) (r : UInt8) (value : Nat) : Rtc := { c with cells := update c.cells r (decimalToBcd value) }

/-- Bit 7 of what is written to port 0x70 selects no register. -/
def outb (c : Rtc) (port value : UInt8) : Rtc :=
  if port = 0x70 then { c with index := value &&& 0x7f }
  else if port = 0x71 then { c with cells := update c.cells c.index value }
  else c

def inb (c : Rtc) (port : UInt8) : UInt8 := if port = 0x71 then c.cells c.index else 0xff

def nextDay (c : Rtc) : Rtc :=
  if c.get 7 < lastDay (c.get 8) (c.get 9) then c.put 7 (c.get 7 + 1)
  else if c.get 8 < 12 then (c.put 7 1).put 8 (c.get 8 + 1)
  else ((c.put 7 1).put 8 1).put 9 ((c.get 9 + 1) % 100)

/-- A second passes. -/
def tick (c : Rtc) : Rtc :=
  let now := (c.get 4 * 60 + c.get 2) * 60 + c.get 0 + 1
  let c := ((c.put 0 (now % 60)).put 2 (now / 60 % 60)).put 4 (now / 60 / 60 % 24)
  if now = daySeconds then c.nextDay else c

/-- The accesses in order, with the bytes that they read. `ticks i` seconds pass in front of the access `i`. -/
def perform (c : Rtc) (ticks : Nat → Nat) : List Access → Rtc × List UInt8
  | [] => (c, [])
  | .outb port value :: rest => ((tick^[ticks 0] c).outb port value).perform (fun i => ticks (i + 1)) rest
  | .inb port :: rest =>
    let (c', bytes) := (tick^[ticks 0] c).perform (fun i => ticks (i + 1)) rest
    (c', (tick^[ticks 0] c).inb port :: bytes)

end Rtc

/-- The seconds from the start to the access `i`. -/
def elapsed (ticks : Nat → Nat) : Nat → Nat
  | 0 => ticks 0
  | i + 1 => elapsed ticks i + ticks (i + 1)

/-! ### The functions -/

def setTime (hours minute seconds : Nat) : List Access :=
  [.outb 0x70 0x00, .outb 0x71 (decimalToBcd seconds),
    .outb 0x70 0x02, .outb 0x71 (decimalToBcd minute),
    .outb 0x70 0x04, .outb 0x71 (decimalToBcd hours)]

/-- Seconds, minutes and hours are read. -/
def getTime : List Access :=
  [.outb 0x70 0x00, .inb 0x71, .outb 0x70 0x02, .inb 0x71, .outb 0x70 0x04, .inb 0x71]

def setDate (day month year : Nat) : List Access :=
  [.outb 0x70 (0x09 &&& ~~~0x80 ||| 0x80), .outb 0x71 (decimalToBcd year),
    .outb 0x70 (0x08 &&& ~~~0x80 ||| 0x80), .outb 0x71 (decimalToBcd month),
    .outb 0x70 (0x07 &&& ~~~0x80 ||| 0x80), .outb 0x71 (decimalToBcd day)]

/-- The year, the month and the day are read. -/
def getDate : List Access :=
  [.outb 0x70 (0x09 &&& ~~~0x80 ||| 0x80), .inb 0x71, .outb 0x70 (0x08 &&& ~~~0x80 ||| 0x80), .inb 0x71,
    .outb 0x70 (0x07 &&& ~~~0x80 ||| 0x80), .inb 0x71]

/-! ### What the clock shows -/

structure Date where
  day : Nat
  month : Nat
  year : Nat
  deriving DecidableEq, Repr

/-- A day of the years that the clock knows. -/
structure Date.Valid (d : Date) : Prop where
  month : 1 ≤ d.month ∧ d.month ≤ 12
  day : 1 ≤ d.day ∧ d.day ≤ lastDay d.month d.year
  year : d.year ≤ 99

def Date.next (d : Date) : Date :=
  if d.day < lastDay d.month d.year then { d with day := d.day + 1 }
  else if d.month < 12 then { d with day := 1, month := d.month + 1 }
  else { day := 1, month := 1, year := (d.year + 1) % 100 }

def RtcRegister.index : RtcRegister → UInt8
  | .seconds => 0
  | .minutes => 2
  | .hours => 4

/-- The instant is given in seconds since some midnight. -/
structure ShowsTime (c : Rtc) (now : Nat) : Prop where
  cells : ∀ r : RtcRegister, c.cells r.index = rtcRead now r

structure ShowsDate (c : Rtc) (d : Date) : Prop where
  day : c.cells 7 = decimalToBcd d.day
  month : c.cells 8 = decimalToBcd d.month
  year : c.cells 9 = decimalToBcd d.year

variable {c c' : Rtc} {now n : Nat} {d : Date} {r : UInt8} {ticks : Nat → Nat}

@[simp] theorem put_cells (c : Rtc) (r : UInt8) (value : Nat) (q : UInt8) :
    (c.put r value).cells q = if q = r then decimalToBcd value else c.cells q := update_apply ..

@[simp] theorem put_index (c : Rtc) (r : UInt8) (value : Nat) : (c.put r value).index = c.index := rfl

theorem lastDay_long (month year : Nat) : 28 ≤ lastDay month year := by
  unfold lastDay
  split <;> split <;> omega

theorem next_valid (valid : d.Valid) : d.next.Valid := by
  obtain ⟨month, day, year⟩ := valid
  have first : ∀ m y, 1 ≤ lastDay m y := fun m y => Nat.le_trans (by decide) (lastDay_long m y)
  unfold Date.next
  split
  · exact ⟨month, ⟨by dsimp only; omega, by dsimp only; omega⟩, year⟩
  · split
    · exact ⟨⟨by dsimp only; omega, by dsimp only; omega⟩, ⟨le_refl _, first _ _⟩, year⟩
    · exact ⟨⟨le_refl _, by dsimp only; omega⟩, ⟨le_refl _, first _ _⟩, by dsimp only; omega⟩

/-- Midnight does not change the time. -/
theorem nextDay_time (c : Rtc) (r : RtcRegister) : c.nextDay.cells r.index = c.cells r.index := by
  unfold Rtc.nextDay
  split
  · cases r <;> simp [RtcRegister.index]
  · split <;> cases r <;> simp [RtcRegister.index]

theorem nextDay_date (shows : ShowsDate c d) (valid : d.Valid) : ShowsDate c.nextDay d.next := by
  obtain ⟨month, day, year⟩ := valid
  have last := lastDay_le d.month d.year
  have days : c.get 7 = d.day := by
    unfold Rtc.get
    rw [shows.day, bcd_round_trip (by omega)]
  have months : c.get 8 = d.month := by
    unfold Rtc.get
    rw [shows.month, bcd_round_trip (by omega)]
  have years : c.get 9 = d.year := by
    unfold Rtc.get
    rw [shows.year, bcd_round_trip (by omega)]
  unfold Rtc.nextDay Date.next
  rw [days, months, years]
  split
  · exact ⟨by simp, by simp [shows.month], by simp [shows.year]⟩
  · split
    · exact ⟨by simp, by simp, by simp [shows.year]⟩
    · exact ⟨by simp, by simp, by simp⟩

theorem get_time (shows : ShowsTime c now) (r : RtcRegister) : c.get r.index = shown now r := by
  unfold Rtc.get
  rw [shows.cells, rtcRead_shown]

/-- The registers count to the end of the day. -/
theorem count_shown (shows : ShowsTime c now) :
    (c.get 4 * 60 + c.get 2) * 60 + c.get 0 + 1 = now % daySeconds + 1 := by
  have hours := get_time shows .hours
  have minutes := get_time shows .minutes
  have seconds := get_time shows .seconds
  simp only [RtcRegister.index, shown] at hours minutes seconds
  rw [hours, minutes, seconds]
  unfold daySeconds
  omega

/-- The clock in a tick, without the date. -/
def Rtc.counted (c : Rtc) (now : Nat) : Rtc := ((c.put 0 (now % 60)).put 2 (now / 60 % 60)).put 4 (now / 60 / 60 % 24)

theorem counted_time (c : Rtc) (now : Nat) : ShowsTime (c.counted (now % daySeconds + 1)) (now + 1) := by
  constructor
  intro r
  unfold Rtc.counted rtcRead daySeconds
  cases r <;> simp [RtcRegister.index, shown] <;> congr 1 <;> omega

theorem counted_date (shows : ShowsDate c d) : ShowsDate (c.counted now) d := by
  unfold Rtc.counted
  exact ⟨by simp [shows.day], by simp [shows.month], by simp [shows.year]⟩

theorem tick_eq (shows : ShowsTime c now) : c.tick =
    if (now + 1) % daySeconds = 0 then (c.counted (now % daySeconds + 1)).nextDay
    else c.counted (now % daySeconds + 1) := by
  have midnight : now % daySeconds + 1 = daySeconds ↔ (now + 1) % daySeconds = 0 := by
    unfold daySeconds
    omega
  unfold Rtc.tick
  rw [count_shown shows]
  simp only [midnight]
  rfl

/-- The date that is shown `n` seconds later. -/
def Date.later (d : Date) (now n : Nat) : Date := Date.next^[(now + n) / daySeconds - now / daySeconds] d

theorem later_valid (valid : d.Valid) : (d.later now n).Valid := by
  unfold Date.later
  generalize (now + n) / daySeconds - now / daySeconds = days
  induction days with
  | zero => exact valid
  | succ days ih =>
    rw [iterate_succ_apply']
    exact next_valid ih

theorem later_succ (d : Date) (now n : Nat) :
    d.later now (n + 1) = if (now + n + 1) % daySeconds = 0 then (d.later now n).next else d.later now n := by
  unfold Date.later
  split
  · rename_i midnight
    rw [← iterate_succ_apply' Date.next]
    congr 2
    unfold daySeconds at midnight ⊢
    omega
  · rename_i sameDay
    congr 2
    unfold daySeconds at sameDay ⊢
    omega

theorem tick_time (shows : ShowsTime c now) : ShowsTime c.tick (now + 1) := by
  rw [tick_eq shows]
  split
  · refine ⟨fun r => ?_⟩
    rw [nextDay_time]
    exact (counted_time c now).cells r
  · exact counted_time c now

/-- The clock runs. -/
theorem ticks_time (shows : ShowsTime c now) (n : Nat) : ShowsTime (Rtc.tick^[n] c) (now + n) := by
  induction n with
  | zero => exact shows
  | succ n ih =>
    rw [iterate_succ_apply']
    exact tick_time ih

theorem ticks_date (time : ShowsTime c now) (date : ShowsDate c d) (valid : d.Valid) (n : Nat) :
    ShowsDate (Rtc.tick^[n] c) (d.later now n) := by
  induction n with
  | zero =>
    unfold Date.later
    rw [Nat.add_zero, Nat.sub_self]
    exact date
  | succ n ih =>
    rw [iterate_succ_apply', tick_eq (ticks_time time n), later_succ]
    split
    · exact nextDay_date (counted_date ih) (later_valid valid)
    · exact counted_date ih

/-! ### The ports -/

theorem outb_data (c : Rtc) (value : UInt8) : c.outb 0x71 value = { c with cells := update c.cells c.index value } := by
  unfold Rtc.outb
  rw [if_neg (by decide), if_pos rfl]

theorem inb_data (c : Rtc) : c.inb 0x71 = c.cells c.index := if_pos rfl

/-- Another register is selected. -/
def Rtc.aim (i : UInt8) (c : Rtc) : Rtc := { c with index := i }

theorem nextDay_aim (c : Rtc) (i : UInt8) : (c.aim i).nextDay = c.nextDay.aim i := by
  unfold Rtc.nextDay
  simp only [apply_ite (Rtc.aim i)]
  rfl

theorem tick_aim (c : Rtc) (i : UInt8) : (c.aim i).tick = c.tick.aim i := by
  unfold Rtc.tick
  simp only [apply_ite (Rtc.aim i), ← nextDay_aim]
  rfl

theorem outb_select (c : Rtc) (value : UInt8) : c.outb 0x70 value = c.aim (value &&& 0x7f) := if_pos rfl

/-- The register stays selected while the clock runs on. -/
theorem ticks_select (c : Rtc) (value : UInt8) (n : Nat) :
    Rtc.tick^[n] (c.outb 0x70 value) = (Rtc.tick^[n] c).outb 0x70 value := by
  induction n with
  | zero => rfl
  | succ n ih => rw [iterate_succ_apply', iterate_succ_apply', ih, outb_select, outb_select, tick_aim]

/-- A register is selected, and written to. -/
theorem select_write (c : Rtc) (n m : Nat) (select value : UInt8) :
    (Rtc.tick^[m] ((Rtc.tick^[n] c).outb 0x70 select)).outb 0x71 value =
      { index := select &&& 0x7f, cells := update (Rtc.tick^[n + m] c).cells (select &&& 0x7f) value } := by
  rw [ticks_select, ← iterate_add_apply, Nat.add_comm m, outb_select, outb_data]
  rfl

theorem select_read (c : Rtc) (n m : Nat) (select : UInt8) :
    (Rtc.tick^[m] ((Rtc.tick^[n] c).outb 0x70 select)).inb 0x71 = (Rtc.tick^[n + m] c).cells (select &&& 0x7f) := by
  rw [ticks_select, ← iterate_add_apply, Nat.add_comm m, outb_select, inb_data]
  rfl

theorem index_select (r : RtcRegister) : r.index &&& 0x7f = r.index := by cases r <;> decide

/-! ### Setting the time -/

/-- The instant with another value in one register. -/
def replaced (now : Nat) : RtcRegister → Nat → Nat
  | .seconds, value => now - now % 60 + value
  | .minutes, value => now - now / 60 % 60 * 60 + value * 60
  | .hours, value => now - now / 60 / 60 % 24 * 3600 + value * 3600

def RtcRegister.limit : RtcRegister → Nat
  | .seconds => 60
  | .minutes => 60
  | .hours => 24

theorem replaced_shown (now : Nat) {r q : RtcRegister} {value : Nat} (good : value < r.limit) :
    shown (replaced now r value) q = if q = r then value else shown now q := by
  cases r <;> cases q <;> simp only [RtcRegister.limit] at good <;> simp [replaced, shown] <;> omega

theorem index_inj {r q : RtcRegister} : q.index = r.index ↔ q = r := by
  cases r <;> cases q <;> decide

theorem write_time (shows : ShowsTime c now) (n m : Nat) (r : RtcRegister) {value : Nat} (good : value < r.limit) :
    ShowsTime ((Rtc.tick^[m] ((Rtc.tick^[n] c).outb 0x70 r.index)).outb 0x71 (decimalToBcd value))
      (replaced (now + (n + m)) r value) := by
  have before := ticks_time shows (n + m)
  rw [select_write, index_select]
  constructor
  intro q
  unfold rtcRead
  dsimp only
  rw [replaced_shown _ good, update_apply]
  by_cases same : q = r
  · rw [if_pos same, if_pos (index_inj.mpr same)]
  · rw [if_neg same, if_neg fun equal => same (index_inj.mp equal)]
    exact before.cells q

theorem decimalToBcd_inj {n m : Nat} (small : n < 100) (small' : m < 100) (same : decimalToBcd n = decimalToBcd m) :
    n = m := by
  rw [← bcd_round_trip small, same, bcd_round_trip small']

/-- The clock shows two instants only if they are the same time of day. -/
theorem shows_same (shows : ShowsTime c now) : ShowsTime c n ↔ n % daySeconds = now % daySeconds := by
  have fields : ∀ a, a % daySeconds = (shown a .hours * 60 + shown a .minutes) * 60 + shown a .seconds := by
    intro a
    simp only [daySeconds, shown]
    omega
  constructor
  · intro other
    have same : ∀ r, shown n r = shown now r := by
      intro r
      apply decimalToBcd_inj (shown_small n r) (shown_small now r)
      exact (other.cells r).symm.trans (shows.cells r)
    rw [fields n, fields now, same, same, same]
  · intro same
    constructor
    intro r
    rw [shows.cells r]
    unfold rtcRead
    congr 1
    unfold daySeconds at same
    cases r <;> simp only [shown] <;> omega

/-- A time of day in seconds. -/
def daytime (hours minute seconds : Nat) : Nat := (hours * 60 + minute) * 60 + seconds

theorem setTime_shows (shows : ShowsTime c now) (ticks : Nat → Nat) {hours minute seconds : Nat} (day : hours < 24)
    (hour : minute < 60) (minutely : seconds < 60) : ∃ a,
      ShowsTime (c.perform ticks (setTime hours minute seconds)).1
        (replaced (replaced (replaced a .seconds seconds + (ticks 2 + ticks 3)) .minutes minute + (ticks 4 + ticks 5))
          .hours hours) := by
  have first := write_time shows (ticks 0) (ticks 1) .seconds minutely
  have second := write_time first (ticks 2) (ticks 3) .minutes hour
  exact ⟨_, write_time second (ticks 4) (ticks 5) .hours day⟩

theorem elapsed_late (ticks : Nat → Nat) : elapsed ticks 3 - elapsed ticks 1 = ticks 2 + ticks 3 ∧
    elapsed ticks 5 - elapsed ticks 1 = ticks 2 + ticks 3 + (ticks 4 + ticks 5) := by
  change elapsed ticks 1 + ticks 2 + ticks 3 - elapsed ticks 1 = _ ∧
    elapsed ticks 1 + ticks 2 + ticks 3 + ticks 4 + ticks 5 - elapsed ticks 1 = _
  omega

theorem setTime_steady (shows : ShowsTime c now) {hours minute seconds : Nat} (day : hours < 24) (hour : minute < 60)
    (minutely : seconds < 60) (sameMinute : seconds + (elapsed ticks 3 - elapsed ticks 1) < 60)
    (sameHour : minute * 60 + seconds + (elapsed ticks 5 - elapsed ticks 1) < 3600) :
    ShowsTime (c.perform ticks (setTime hours minute seconds)).1
      (daytime hours minute seconds + (elapsed ticks 5 - elapsed ticks 1)) := by
  obtain ⟨a, final⟩ := setTime_shows shows ticks day hour minutely
  obtain ⟨early, late⟩ := elapsed_late ticks
  rw [early] at sameMinute
  rw [late] at sameHour ⊢
  rw [shows_same final]
  unfold replaced daytime daySeconds
  dsimp only
  generalize ticks 2 + ticks 3 = n at sameMinute sameHour ⊢
  generalize ticks 4 + ticks 5 = m at sameMinute sameHour ⊢
  omega

/-- After `setTime` the clock is right, counted from the moment at which the seconds are written, if and only if no
minute begins before the minutes are written and no hour before the hours are. -/
theorem setTime_exact (shows : ShowsTime c now) {hours minute seconds : Nat} (day : hours < 24) (hour : minute < 60)
    (minutely : seconds < 60) (quick : elapsed ticks 5 < elapsed ticks 1 + 60) :
    ShowsTime (c.perform ticks (setTime hours minute seconds)).1
        (daytime hours minute seconds + (elapsed ticks 5 - elapsed ticks 1)) ↔
      seconds + (elapsed ticks 3 - elapsed ticks 1) < 60 ∧
        minute * 60 + seconds + (elapsed ticks 5 - elapsed ticks 1) < 3600 := by
  obtain ⟨early, late⟩ := elapsed_late ticks
  constructor
  · intro right
    obtain ⟨a, final⟩ := setTime_shows shows ticks day hour minutely
    have short : ticks 2 + ticks 3 + (ticks 4 + ticks 5) < 60 := by
      rw [← late]
      omega
    have same := (shows_same final).mp right
    rw [late] at same
    rw [early, late]
    unfold replaced daytime daySeconds at same
    dsimp only at same
    generalize ticks 2 + ticks 3 = n at short same ⊢
    generalize ticks 4 + ticks 5 = m at short same ⊢
    omega
  · rintro ⟨sameMinute, sameHour⟩
    exact setTime_steady shows day hour minutely sameMinute sameHour

/-- A clock that stands at noon. -/
def noon : Rtc := ⟨0, fun r => if r = 4 then 0x12 else 0⟩

theorem noon_shows : ShowsTime noon 43200 := by
  constructor
  intro r
  cases r <;> decide

/-- A second passes in front of the access `i`. -/
def passes (i : Nat) : Nat → Nat := fun j => if j = i then 1 else 0

/-- A minute begins between the two writes, and the clock is a minute slow. -/
theorem setTime_exact_example :
    ¬ShowsTime (noon.perform (passes 2) (setTime 7 29 59)).1
      (daytime 7 29 59 + (elapsed (passes 2) 5 - elapsed (passes 2) 1)) := by
  have right := setTime_exact noon_shows (show 7 < 24 by decide) (show 29 < 60 by decide) (show 59 < 60 by decide)
    (show elapsed (passes 2) 5 < elapsed (passes 2) 1 + 60 by decide)
  exact mt right.mp (by decide)

end Mpx.Time

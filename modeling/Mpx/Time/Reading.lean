import Mpx.Time.Printing

/-! # Reading the clock

The clock may run on between the bytes of one reading or of one setting. -/

namespace Mpx.Time
open Function Library.Digits Mpx.Command

variable {c : Rtc} {now : Nat} {d d' : Date} {inputs between others rest : List Input} {ticks : Nat → Nat}

/-! ### Every line tells one time or one date -/

theorem twoDigits_inj {m n : Nat} (small : m < 100) (small' : n < 100) (same : twoDigits m = twoDigits n) : m = n := by
  unfold twoDigits at same
  simp only [List.cons.injEq, and_true] at same
  have tens := decimalChar_inj (by omega) (by omega) same.1
  have ones := decimalChar_inj (by omega) (by omega) same.2
  omega

theorem monthName_inj {m n : Nat} (first : 1 ≤ m) (last : m ≤ 12) (first' : 1 ≤ n) (last' : n ≤ 12)
    (same : monthName m = monthName n) : m = n := by
  have table : ∀ m ∈ List.range 13, ∀ n ∈ List.range 13, 1 ≤ m → 1 ≤ n → monthName m = monthName n → m = n := by
    decide +kernel
  exact table m (List.mem_range.mpr (by omega)) n (List.mem_range.mpr (by omega)) first first' same

theorem name_some (valid : d.Valid) : monthName d.month = some d.name ∧ 32 ∉ d.name := by
  obtain ⟨name, named, -, free⟩ := monthName_some valid.month.1 valid.month.2
  unfold Date.name
  rw [named]
  exact ⟨rfl, free⟩

theorem name_end {name : List UInt8} (free : 32 ∉ name) (others : List UInt8) :
    (name ++ 32 :: others).takeWhile (· ≠ 32) = name := by
  have inside : ∀ a ∈ name, decide (a ≠ 32) = true := by
    intro a member
    apply decide_eq_true
    rintro rfl
    exact free member
  rw [List.takeWhile_append_of_pos inside, List.takeWhile_cons_of_neg (by decide), List.append_nil]

theorem dateText_inj (valid : d.Valid) (valid' : d'.Valid) (same : dateText d = dateText d') : d = d' := by
  obtain ⟨named, free⟩ := name_some valid
  obtain ⟨named', free'⟩ := name_some valid'
  have split : ∀ e : Date, dateText e =
      e.name ++ 32 :: (spelled decimalChar 10 e.day ++ ([44, 32, 50, 48] ++ (twoDigits e.year ++ [13, 10]))) := by
    intro e
    simp only [dateText, List.append_assoc, List.cons_append, List.nil_append]
  rw [split, split] at same
  have names : d.name = d'.name := by
    rw [← name_end free, same, name_end free']
  rw [names] at same
  have digits := (List.cons.inj (List.append_cancel_left same)).2
  obtain ⟨days, others⟩ := List.append_inj' digits rfl
  have years := List.append_cancel_right (List.append_cancel_left others)
  have day : d.day = d'.day := spelled_injective (by decide) (fun _ => decimalOf_char) days
  have month : d.month = d'.month := by
    apply monthName_inj valid.month.1 valid.month.2 valid'.month.1 valid'.month.2
    rw [named, named', names]
  have year : d.year = d'.year :=
    twoDigits_inj (Nat.lt_succ_of_le valid.year) (Nat.lt_succ_of_le valid'.year) years
  cases d
  cases d'
  dsimp only at day month year
  rw [day, month, year]

/-! ### Reading -/

theorem read_three (c : Rtc) (ticks : Nat → Nat) (x y z : UInt8) :
    (c.perform ticks [.outb 0x70 x, .inb 0x71, .outb 0x70 y, .inb 0x71, .outb 0x70 z, .inb 0x71]).2 =
      [(Rtc.tick^[elapsed ticks 1] c).cells (x &&& 0x7f), (Rtc.tick^[elapsed ticks 3] c).cells (y &&& 0x7f),
        (Rtc.tick^[elapsed ticks 5] c).cells (z &&& 0x7f)] := by
  have second : elapsed ticks 3 = ticks 2 + ticks 3 + (ticks 1 + ticks 0) := by
    change ticks 0 + ticks 1 + ticks 2 + ticks 3 = _
    omega
  have third : elapsed ticks 5 = ticks 4 + ticks 5 + (ticks 3 + (ticks 2 + (ticks 1 + ticks 0))) := by
    change ticks 0 + ticks 1 + ticks 2 + ticks 3 + ticks 4 + ticks 5 = _
    omega
  simp only [Rtc.perform, select_read]
  simp only [ticks_select, ← iterate_add_apply]
  rw [second, third]
  rfl

/-- The seconds, the minutes and the hours are those of three instants. -/
theorem getTime_bytes (shows : ShowsTime c now) (ticks : Nat → Nat) : (c.perform ticks getTime).2 =
    [rtcRead (now + elapsed ticks 1) .seconds, rtcRead (now + elapsed ticks 3) .minutes,
      rtcRead (now + elapsed ticks 5) .hours] := by
  have bytes := read_three c ticks 0 2 4
  rw [← (ticks_time shows _).cells .seconds, ← (ticks_time shows _).cells .minutes,
    ← (ticks_time shows _).cells .hours]
  exact bytes

/-- The year, the month and the day are those of three dates. -/
theorem getDate_bytes (time : ShowsTime c now) (date : ShowsDate c d) (valid : d.Valid) (ticks : Nat → Nat) :
    (c.perform ticks getDate).2 =
      [decimalToBcd (d.later now (elapsed ticks 1)).year, decimalToBcd (d.later now (elapsed ticks 3)).month,
        decimalToBcd (d.later now (elapsed ticks 5)).day] := by
  have bytes := read_three c ticks 0x89 0x88 0x87
  rw [← (ticks_date time date valid _).year, ← (ticks_date time date valid _).month,
    ← (ticks_date time date valid _).day]
  exact bytes

theorem getTime_line (shows : ShowsTime c now) (ticks : Nat → Nat) (junk : RtcRegister → Nat → UInt8) :
    getTimeLine junk (c.perform ticks getTime).2 =
      some (timeText (shown (now + elapsed ticks 5) .hours) (shown (now + elapsed ticks 3) .minutes)
        (shown (now + elapsed ticks 1) .seconds)) := by
  rw [getTime_bytes shows, getTimeLine, rtcRead_shown, rtcRead_shown, rtcRead_shown]
  exact timeLine_eq junk (shown_small _ _) (shown_small _ _) (shown_small _ _)

theorem timeText_inj {h m s h' m' s' : Nat} (hour : h < 100) (minute : m < 100) (second : s < 100) (hour' : h' < 100)
    (minute' : m' < 100) (second' : s' < 100) (same : timeText h m s = timeText h' m' s') :
    h = h' ∧ m = m' ∧ s = s' := by
  unfold timeText at same
  simp only [List.append_assoc] at same
  obtain ⟨hours, others⟩ := List.append_inj same rfl
  obtain ⟨minutes, others⟩ := List.append_inj (List.append_cancel_left others) rfl
  obtain ⟨seconds, -⟩ := List.append_inj (List.append_cancel_left others) rfl
  exact ⟨twoDigits_inj hour hour' hours, twoDigits_inj minute minute' minutes, twoDigits_inj second second' seconds⟩

theorem elapsed_mono (ticks : Nat → Nat) : Monotone (elapsed ticks) :=
  monotone_nat_of_le_succ fun _ => Nat.le_add_right _ _

/-- No minute begins before the minutes are read, and no hour before the hours are. -/
structure TimeSteady (now : Nat) (ticks : Nat → Nat) : Prop where
  minute : (now + elapsed ticks 1) / 60 = (now + elapsed ticks 3) / 60
  hour : (now + elapsed ticks 1) / 3600 = (now + elapsed ticks 5) / 3600

theorem getTime_steady (shows : ShowsTime c now) (steady : TimeSteady now ticks) (junk : RtcRegister → Nat → UInt8) :
    getTimeLine junk (c.perform ticks getTime).2 = some (clockText (now + elapsed ticks 1)) := by
  rw [getTime_line shows]
  unfold clockText
  simp only [shown, Nat.div_div_eq_div_mul]
  rw [steady.minute, steady.hour]

/-- A `getTime` of less than a minute prints the time of some instant of its reading if and only if no minute begins
before the minutes are read and no hour before the hours are. -/
theorem getTime_exact (shows : ShowsTime c now) (quick : elapsed ticks 5 < elapsed ticks 1 + 60)
    (junk : RtcRegister → Nat → UInt8) :
    (∃ n, elapsed ticks 1 ≤ n ∧ n ≤ elapsed ticks 5 ∧
        getTimeLine junk (c.perform ticks getTime).2 = some (clockText (now + n))) ↔ TimeSteady now ticks := by
  have early : elapsed ticks 1 ≤ elapsed ticks 3 := elapsed_mono ticks (by decide)
  have late : elapsed ticks 3 ≤ elapsed ticks 5 := elapsed_mono ticks (by decide)
  constructor
  · rintro ⟨n, first, last, same⟩
    rw [getTime_line shows] at same
    obtain ⟨hours, minutes, seconds⟩ := timeText_inj (shown_small _ _) (shown_small _ _) (shown_small _ _)
      (shown_small _ _) (shown_small _ _) (shown_small _ _) (Option.some.inj same)
    simp only [shown] at hours minutes seconds
    exact ⟨by omega, by omega⟩
  · intro steady
    exact ⟨elapsed ticks 1, le_refl _, Nat.le_trans early late, getTime_steady shows steady junk⟩

/-- A second in front of a year. -/
def yearsEnd : Rtc where
  index := 0
  cells r := if r = 4 then 0x23 else if r = 7 then 0x31 else if r = 8 then 0x12 else if r = 9 then 0x24 else 0x59

theorem yearsEnd_time : ShowsTime yearsEnd 86399 := by
  constructor
  intro r
  cases r <;> decide

theorem yearsEnd_date : ShowsDate yearsEnd ⟨31, 12, 24⟩ := by constructor <;> decide

theorem yearsEnd_valid : Date.Valid ⟨31, 12, 24⟩ := by constructor <;> decide

/-- "00:00:59" -/
theorem getTime_exact_example :
    ¬∃ n, elapsed (passes 2) 1 ≤ n ∧ n ≤ elapsed (passes 2) 5 ∧
      getTimeLine (fun _ _ => 0) (yearsEnd.perform (passes 2) getTime).2 = some (clockText (86399 + n)) := by
  have right := getTime_exact yearsEnd_time (show elapsed (passes 2) 5 < elapsed (passes 2) 1 + 60 by decide)
    fun _ _ => 0
  exact mt right.mp fun steady => absurd steady.minute (by decide)

/-- What the bytes of `getDate` say. -/
def Date.read (d : Date) (now : Nat) (ticks : Nat → Nat) : Date where
  day := (d.later now (elapsed ticks 5)).day
  month := (d.later now (elapsed ticks 3)).month
  year := (d.later now (elapsed ticks 1)).year

theorem getDate_line (time : ShowsTime c now) (date : ShowsDate c d) (valid : d.Valid) (good : (d.read now ticks).Valid)
    (dayJunk yearJunk : Nat → UInt8) :
    getDateLine dayJunk yearJunk (c.perform ticks getDate).2 = some (dateText (d.read now ticks)) := by
  have last := lastDay_le (d.read now ticks).month (d.read now ticks).year
  have day : (d.read now ticks).day < 100 := by
    have := good.day
    omega
  have month : (d.read now ticks).month < 100 := by
    have := good.month
    omega
  have year : (d.read now ticks).year < 100 := Nat.lt_succ_of_le good.year
  have bytes : (c.perform ticks getDate).2 = [decimalToBcd (d.read now ticks).year,
      decimalToBcd (d.read now ticks).month, decimalToBcd (d.read now ticks).day] :=
    getDate_bytes time date valid ticks
  rw [bytes, getDateLine, bcd_round_trip day, bcd_round_trip month, bcd_round_trip year]
  exact dateLine_eq dayJunk yearJunk good

/-! ### Midnight -/

theorem later_steady {n m : Nat} (sameDay : (now + n) / daySeconds = (now + m) / daySeconds) :
    d.later now m = d.later now n := by
  unfold Date.later
  rw [sameDay]

theorem later_midnight {n m : Nat} (midnight : (now + m) / daySeconds = (now + n) / daySeconds + 1) :
    d.later now m = (d.later now n).next := by
  have before : now / daySeconds ≤ (now + n) / daySeconds := Nat.div_le_div_right (Nat.le_add_right _ _)
  unfold Date.later
  rw [midnight, Nat.sub_add_comm before, iterate_succ_apply']

theorem next_day (d : Date) : d.next.day ≠ d.day := by
  have long := lastDay_long d.month d.year
  unfold Date.next
  split
  · exact Nat.succ_ne_self _
  · split <;> dsimp only <;> omega

/-- A day behind a midnight goes with a month or a year in front of it. -/
theorem mixed_valid (valid : d.Valid) {month : Nat} (mixed : month = d.month ∨ month = d.next.month) :
    Date.Valid { day := d.next.day, month := month, year := d.year } := by
  have good := next_valid valid
  have first : ∀ m y, 1 ≤ lastDay m y := fun m y => Nat.le_trans (by decide) (lastDay_long m y)
  by_cases inside : d.day < lastDay d.month d.year
  · have next : d.next = { d with day := d.day + 1 } := if_pos inside
    rw [next] at good mixed ⊢
    rw [or_self] at mixed
    rw [mixed]
    exact ⟨valid.month, good.day, valid.year⟩
  · have day : d.next.day = 1 := by
      unfold Date.next
      rw [if_neg inside]
      split <;> rfl
    rw [day]
    refine ⟨?_, ⟨le_refl _, first _ _⟩, valid.year⟩
    obtain rfl | rfl := mixed
    · exact valid.month
    · exact good.month

/-- No more than one midnight falls into a reading of less than a day. -/
theorem midnight_once (now : Nat) {first last n : Nat} (quick : last < first + daySeconds) (from_first : first ≤ n)
    (to_last : n ≤ last) :
    (now + n) / daySeconds = (now + last) / daySeconds ∨
      (now + first) / daySeconds = (now + n) / daySeconds ∧
        (now + last) / daySeconds = (now + first) / daySeconds + 1 := by
  unfold daySeconds at quick ⊢
  omega

theorem read_valid (valid : d.Valid) (quick : elapsed ticks 5 < elapsed ticks 1 + daySeconds) :
    (d.read now ticks).Valid := by
  have early : elapsed ticks 1 ≤ elapsed ticks 3 := elapsed_mono ticks (by decide)
  have late : elapsed ticks 3 ≤ elapsed ticks 5 := elapsed_mono ticks (by decide)
  have whole := Nat.le_trans early late
  have good : (d.later now (elapsed ticks 1)).Valid := later_valid valid
  unfold Date.read
  obtain sameDay | ⟨before, midnight⟩ := midnight_once now quick early late
  · rw [← later_steady sameDay]
    obtain steady | ⟨-, midnight⟩ := midnight_once now quick (le_refl _) whole
    · rw [later_steady steady]
      exact good
    · rw [later_midnight midnight]
      exact mixed_valid good (.inr rfl)
  · rw [later_midnight midnight, later_steady before]
    exact mixed_valid good (.inl rfl)

/-- The year stays the same to the end, and the month does from the instant at which it is read. -/
structure DateSteady (d : Date) (now : Nat) (ticks : Nat → Nat) : Prop where
  year : (d.later now (elapsed ticks 1)).year = (d.later now (elapsed ticks 5)).year
  month : (d.later now (elapsed ticks 3)).month = (d.later now (elapsed ticks 5)).month

theorem getDate_steady (time : ShowsTime c now) (date : ShowsDate c d) (valid : d.Valid)
    (steady : DateSteady d now ticks) (dayJunk yearJunk : Nat → UInt8) :
    getDateLine dayJunk yearJunk (c.perform ticks getDate).2 = some (dateText (d.later now (elapsed ticks 5))) := by
  have same : d.read now ticks = d.later now (elapsed ticks 5) := by
    unfold Date.read
    rw [steady.year, steady.month]
  rw [getDate_line time date valid (same ▸ later_valid valid), same]

/-- A `getDate` of less than a day prints the date of some instant of its reading if and only if the year stays the
same to the end of the reading, and the month does from the instant at which it is read. -/
theorem getDate_exact (time : ShowsTime c now) (date : ShowsDate c d) (valid : d.Valid)
    (quick : elapsed ticks 5 < elapsed ticks 1 + daySeconds) (dayJunk yearJunk : Nat → UInt8) :
    (∃ n, elapsed ticks 1 ≤ n ∧ n ≤ elapsed ticks 5 ∧
        getDateLine dayJunk yearJunk (c.perform ticks getDate).2 = some (dateText (d.later now n))) ↔
      DateSteady d now ticks := by
  have whole : elapsed ticks 1 ≤ elapsed ticks 5 := elapsed_mono ticks (by decide)
  have good : (d.read now ticks).Valid := read_valid valid quick
  constructor
  · rintro ⟨n, first, last, same⟩
    rw [getDate_line time date valid good] at same
    have told := dateText_inj good (later_valid valid) (Option.some.inj same)
    obtain sameDay | ⟨before, midnight⟩ := midnight_once now quick first last
    · rw [← later_steady sameDay] at told
      obtain ⟨-, month, year⟩ := Date.mk.inj told
      exact ⟨year, month⟩
    · -- the day that is read is the later one
      rw [later_steady before] at told
      obtain ⟨day, -⟩ := Date.mk.inj told
      rw [later_midnight midnight] at day
      exact absurd day (next_day _)
  · intro steady
    exact ⟨elapsed ticks 5, whole, le_refl _, getDate_steady time date valid steady dayJunk yearJunk⟩

/-- "January 1, 2024" -/
theorem getDate_exact_example :
    ¬∃ n, elapsed (passes 2) 1 ≤ n ∧ n ≤ elapsed (passes 2) 5 ∧
      getDateLine (fun _ => 0) (fun _ => 0) (yearsEnd.perform (passes 2) getDate).2 =
        some (dateText (Date.later ⟨31, 12, 24⟩ 86399 n)) := by
  have right := getDate_exact yearsEnd_time yearsEnd_date yearsEnd_valid
    (show elapsed (passes 2) 5 < elapsed (passes 2) 1 + daySeconds by decide) (fun _ => 0) fun _ => 0
  exact mt right.mp fun steady => absurd steady.year (by decide)

/-! ### Setting the date -/

/-- None of the registers of the time. -/
def Dated (r : UInt8) : Prop := ∀ q : RtcRegister, q.index ≠ r

theorem counted_dated {r : UInt8} (dated : Dated r) (c : Rtc) (now : Nat) : (c.counted now).cells r = c.cells r := by
  unfold Rtc.counted
  rw [put_cells, if_neg (show ¬r = 4 from (dated .hours).symm), put_cells,
    if_neg (show ¬r = 2 from (dated .minutes).symm), put_cells, if_neg (show ¬r = 0 from (dated .seconds).symm)]

/-- Up to midnight the date stays, whatever it is. -/
theorem ticks_dated (shows : ShowsTime c now) {r : UInt8} (dated : Dated r) {n : Nat}
    (sameDay : (now + n) / daySeconds = now / daySeconds) : (Rtc.tick^[n] c).cells r = c.cells r := by
  induction n with
  | zero => rfl
  | succ n ih =>
    have before : (now + n) / daySeconds = now / daySeconds := by
      unfold daySeconds at sameDay ⊢
      omega
    have inside : ¬(now + n + 1) % daySeconds = 0 := by
      unfold daySeconds at sameDay before ⊢
      omega
    rw [iterate_succ_apply', tick_eq (ticks_time shows n), if_neg inside, counted_dated dated, ih before]

/-- A register of the date is selected, and written to. -/
theorem write_dated (shows : ShowsTime c now) (n m : Nat) {r : UInt8} (dated : Dated r) (select value : UInt8)
    (selects : select &&& 0x7f = r) :
    ∃ c', (Rtc.tick^[m] ((Rtc.tick^[n] c).outb 0x70 select)).outb 0x71 value = c' ∧ ShowsTime c' (now + (n + m)) ∧
      c'.cells = update (Rtc.tick^[n + m] c).cells r value := by
  rw [select_write, selects]
  refine ⟨_, rfl, ?_, rfl⟩
  constructor
  intro q
  rw [← (ticks_time shows (n + m)).cells q]
  exact update_of_ne (dated q) _ _

theorem setDate_shows (shows : ShowsTime c now) (ticks : Nat → Nat) (d : Date) :
    ShowsTime (c.perform ticks (setDate d.day d.month d.year)).1 (now + elapsed ticks 5) ∧
      (c.perform ticks (setDate d.day d.month d.year)).1.cells 7 = decimalToBcd d.day ∧
      ((now + elapsed ticks 5) / daySeconds = (now + elapsed ticks 1) / daySeconds →
        ShowsDate (c.perform ticks (setDate d.day d.month d.year)).1 d) := by
  have year : Dated 9 := by intro q; cases q <;> decide
  have month : Dated 8 := by intro q; cases q <;> decide
  have day : Dated 7 := by intro q; cases q <;> decide
  obtain ⟨c₁, first, time₁, cells₁⟩ :=
    write_dated shows (ticks 0) (ticks 1) year 0x89 (decimalToBcd d.year) (by decide)
  obtain ⟨c₂, second, time₂, cells₂⟩ :=
    write_dated time₁ (ticks 2) (ticks 3) month 0x88 (decimalToBcd d.month) (by decide)
  obtain ⟨c₃, third, time₃, cells₃⟩ :=
    write_dated time₂ (ticks 4) (ticks 5) day 0x87 (decimalToBcd d.day) (by decide)
  have final : (c.perform ticks (setDate d.day d.month d.year)).1 = c₃ := by
    rw [← third, ← second, ← first]
    rfl
  have whole : now + elapsed ticks 5 = now + (ticks 0 + ticks 1) + (ticks 2 + ticks 3) + (ticks 4 + ticks 5) := by
    change now + (ticks 0 + ticks 1 + ticks 2 + ticks 3 + ticks 4 + ticks 5) = _
    omega
  have start : now + elapsed ticks 1 = now + (ticks 0 + ticks 1) := rfl
  have days : c₃.cells 7 = decimalToBcd d.day := by
    rw [cells₃]
    exact update_self _ _ _
  rw [final, whole, start]
  refine ⟨time₃, days, fun sameDay => ⟨days, ?_, ?_⟩⟩
  · rw [cells₃, update_of_ne (by decide), ticks_dated time₂ month (by unfold daySeconds at sameDay ⊢; omega), cells₂]
    exact update_self _ _ _
  · rw [cells₃, update_of_ne (by decide), ticks_dated time₂ year (by unfold daySeconds at sameDay ⊢; omega), cells₂,
      update_of_ne (by decide), ticks_dated time₁ year (by unfold daySeconds at sameDay ⊢; omega), cells₁]
    exact update_self _ _ _

/-- After a `setDate` of less than a day the clock is right, counted from the moment at which the year is written, if
and only if midnight does not come before the day is. -/
theorem setDate_exact (shows : ShowsTime c now) (valid : d.Valid)
    (quick : elapsed ticks 5 < elapsed ticks 1 + daySeconds) :
    ShowsDate (c.perform ticks (setDate d.day d.month d.year)).1
        (d.later (now + elapsed ticks 1) (elapsed ticks 5 - elapsed ticks 1)) ↔
      (now + elapsed ticks 5) / daySeconds = (now + elapsed ticks 1) / daySeconds := by
  have whole : elapsed ticks 1 ≤ elapsed ticks 5 := elapsed_mono ticks (by decide)
  have last : now + elapsed ticks 1 + (elapsed ticks 5 - elapsed ticks 1) = now + elapsed ticks 5 := by omega
  have start : d.later (now + elapsed ticks 1) 0 = d := by
    unfold Date.later
    rw [Nat.add_zero, Nat.sub_self]
    rfl
  obtain ⟨-, days, dates⟩ := setDate_shows shows ticks d
  constructor
  · intro right
    obtain sameDay | ⟨-, midnight⟩ := midnight_once now quick (le_refl _) whole
    · exact sameDay.symm
    · -- the day that is written is that of the date before
      have next : d.later (now + elapsed ticks 1) (elapsed ticks 5 - elapsed ticks 1) = d.next := by
        rw [later_midnight (n := 0) (by rw [last]; exact midnight), start]
      rw [next] at right
      have good := next_valid valid
      have same := decimalToBcd_inj (Nat.lt_of_le_of_lt (good.day.2.trans (lastDay_le _ _)) (by decide))
        (Nat.lt_of_le_of_lt (valid.day.2.trans (lastDay_le _ _)) (by decide)) (right.day.symm.trans days)
      exact absurd same (next_day d)
  · intro sameDay
    have kept : d.later (now + elapsed ticks 1) (elapsed ticks 5 - elapsed ticks 1) = d := by
      rw [later_steady (n := 0) (by rw [last]; exact sameDay.symm), start]
    rw [kept]
    exact dates sameDay

theorem setDate_exact_example :
    ¬ShowsDate (yearsEnd.perform (passes 4) (setDate 15 6 24)).1
      (Date.later ⟨15, 6, 24⟩ (86399 + elapsed (passes 4) 1) (elapsed (passes 4) 5 - elapsed (passes 4) 1)) := by
  have valid : Date.Valid ⟨15, 6, 24⟩ := by constructor <;> decide
  have right := setDate_exact yearsEnd_time valid
    (show elapsed (passes 4) 5 < elapsed (passes 4) 1 + daySeconds by decide)
  exact mt right.mp (by decide)

/-! ### From one command to the other -/

theorem later_add (d : Date) (now n m : Nat) : (d.later now n).later (now + n) m = d.later now (n + m) := by
  have first : now / daySeconds ≤ (now + n) / daySeconds := Nat.div_le_div_right (Nat.le_add_right _ _)
  have second : (now + n) / daySeconds ≤ (now + n + m) / daySeconds := Nat.div_le_div_right (Nat.le_add_right _ _)
  unfold Date.later
  rw [← iterate_add_apply, ← Nat.add_assoc]
  congr 1
  omega

/-- The numbers typed at Set Time are what Get Time prints later, with the seconds that have passed, unless a minute or
an hour begins between two of the bytes. -/
theorem time_kept {hour minute second : Nat} (hours : Answers .hour hour between inputs)
    (minutes : Answers .minute minute others between) (seconds : Answers .second second rest others)
    (shows : ShowsTime c now) {set get : Nat → Nat} (sameMinute : second + (elapsed set 3 - elapsed set 1) < 60)
    (sameHour : minute * 60 + second + (elapsed set 5 - elapsed set 1) < 3600) {n start : Nat}
    (starts : start = daytime hour minute second + (elapsed set 5 - elapsed set 1) + n) (steady : TimeSteady start get)
    (junk : RtcRegister → Nat → UInt8) :
    ∃ h m s : Int32, setTimeCommand inputs = .ok ((h, m, s), rest) ∧
      getTimeLine junk ((Rtc.tick^[n] (c.perform set
          (setTime h.toInt.toNat m.toInt.toNat s.toInt.toNat)).1).perform get getTime).2 =
        some (clockText (start + elapsed get 1)) := by
  have done := setTimeCommand_answers hours minutes seconds
  refine ⟨.ofNat hour, .ofNat minute, .ofNat second, done, ?_⟩
  obtain ⟨hourRange, minuteRange, secondRange⟩ := setTimeCommand_time done
  simp only [toInt_inRange hours.inRange, toInt_inRange minutes.inRange, toInt_inRange seconds.inRange,
    Int.toNat_natCast] at hourRange minuteRange secondRange ⊢
  have written := setTime_steady shows (show hour < 24 by omega) (show minute < 60 by omega)
    (show second < 60 by omega) sameMinute sameHour
  have later := ticks_time written n
  rw [← starts] at later
  exact getTime_steady later steady junk

def typedLine (line : List UInt8) : Input := ⟨Library.Buffer.ofList 0 line, line.length⟩

theorem typedLine_typed {line : List UInt8} (fits : line.length < userInputSize)
    (holds : Library.Buffer.Holds (Library.Buffer.ofList 0 line) 0 (line ++ [0])) : Typed (typedLine line) line :=
  ⟨holds, rfl, fits⟩

/-- 77 and 7, 29, and 58 are typed. -/
theorem time_kept_example :
    ∃ h m s : Int32,
      setTimeCommand [typedLine [55, 55], typedLine [55], typedLine [50, 57], typedLine [53, 56]] =
        .ok ((h, m, s), []) ∧
      getTimeLine (fun _ _ => 0) ((Rtc.tick^[3] (noon.perform (passes 3)
          (setTime h.toInt.toNat m.toInt.toNat s.toInt.toNat)).1).perform (passes 0) getTime).2 =
        some (clockText (daytime 7 29 58 + 1 + 3 + elapsed (passes 0) 1)) := by
  have refused : Decimal [55, 55] 77 := ⟨by decide, [7, 7], rfl, rfl⟩
  have hours : Answers .hour 7 [typedLine [50, 57], typedLine [53, 56]]
      [typedLine [55, 55], typedLine [55], typedLine [50, 57], typedLine [53, 56]] := by
    refine .refused (typedLine_typed (by decide) rfl) (sound_of_decimal refused (by decide)) ?_
      (.accepted (typedLine_typed (by decide) rfl) ⟨by decide, [7], rfl, rfl⟩ (by decide))
    rintro ⟨v, written, good⟩
    obtain rfl := Library.Numerals.writes_unique refused written
    exact absurd good (by decide)
  have minutes : Answers .minute 29 [typedLine [53, 56]] [typedLine [50, 57], typedLine [53, 56]] :=
    .accepted (typedLine_typed (by decide) rfl) ⟨by decide, [2, 9], rfl, rfl⟩ (by decide)
  have seconds : Answers .second 58 [] [typedLine [53, 56]] :=
    .accepted (typedLine_typed (by decide) rfl) ⟨by decide, [5, 8], rfl, rfl⟩ (by decide)
  exact time_kept hours minutes seconds noon_shows (by decide) (by decide) rfl ⟨by decide, by decide⟩ fun _ _ => 0

/-- The numbers typed at Set Date are what Get Date prints later, with the days that have passed, unless a month or a
year begins between two of the bytes. -/
theorem date_kept (months : Answers .month d.month between inputs) (years : Answers .year d.year others between)
    (days : Answers (.day (.ofNat d.month) (.ofNat d.year)) d.day rest others) (shows : ShowsTime c now)
    {set get : Nat → Nat} (sameDay : (now + elapsed set 5) / daySeconds = (now + elapsed set 1) / daySeconds)
    {n start : Nat} (starts : start = now + elapsed set 5) (steady : DateSteady (d.later start n) (start + n) get)
    (dayJunk yearJunk : Nat → UInt8) :
    ∃ day month year : Int32, setDateCommand inputs = .ok ((day, month, year), rest) ∧
      getDateLine dayJunk yearJunk ((Rtc.tick^[n] (c.perform set
          (setDate day.toInt.toNat month.toInt.toNat year.toInt.toNat)).1).perform get getDate).2 =
        some (dateText (d.later start (n + elapsed get 5))) := by
  have done := setDateCommand_answers months years days
  refine ⟨.ofNat d.day, .ofNat d.month, .ofNat d.year, done, ?_⟩
  obtain ⟨monthRange, yearRange, dayRange⟩ := setDateCommand_date done
  simp only [toInt_inRange months.inRange, toInt_inRange years.inRange, toInt_inRange days.inRange,
    Int.toNat_natCast] at monthRange yearRange dayRange ⊢
  have valid : d.Valid := ⟨by omega, by omega, by omega⟩
  obtain ⟨time, -, date⟩ := setDate_shows shows set d
  rw [← starts] at time
  have laterDate := ticks_date time (date sameDay) valid n
  rw [getDate_steady (ticks_time time n) laterDate (later_valid valid) steady, later_add]

/-- 2, 24 and 28 are typed. -/
theorem date_kept_example :
    ∃ day month year : Int32,
      setDateCommand [typedLine [50], typedLine [50, 52], typedLine [50, 56]] = .ok ((day, month, year), []) ∧
      getDateLine (fun _ => 0) (fun _ => 0) ((Rtc.tick^[100000] (noon.perform (passes 3)
          (setDate day.toInt.toNat month.toInt.toNat year.toInt.toNat)).1).perform (passes 0) getDate).2 =
        some (dateText (Date.later ⟨28, 2, 24⟩ (43200 + elapsed (passes 3) 5) (100000 + elapsed (passes 0) 5))) := by
  have months : Answers .month 2 [typedLine [50, 52], typedLine [50, 56]]
      [typedLine [50], typedLine [50, 52], typedLine [50, 56]] :=
    .accepted (typedLine_typed (by decide) rfl) ⟨by decide, [2], rfl, rfl⟩ (by decide)
  have years : Answers .year 24 [typedLine [50, 56]] [typedLine [50, 52], typedLine [50, 56]] :=
    .accepted (typedLine_typed (by decide) rfl) ⟨by decide, [2, 4], rfl, rfl⟩ (by decide)
  have days : Answers (.day (.ofNat 2) (.ofNat 24)) 28 [] [typedLine [50, 56]] :=
    .accepted (typedLine_typed (by decide) rfl) ⟨by decide, [2, 8], rfl, rfl⟩ (by decide)
  exact date_kept (d := ⟨28, 2, 24⟩) months years days noon_shows (by decide) rfl ⟨by decide, by decide⟩ (fun _ => 0)
    fun _ => 0

end Mpx.Time

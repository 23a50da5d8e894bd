import Mpx.Device.Ports

/-! # Supported speeds

`serial_open` for every speed. Its search goes on behind the table, until it has read an entry for each byte
of it, so what stands there in memory is a parameter. -/

namespace Mpx.Device

/-- `sizeof(serial_supported_baud_rates)`, in bytes. -/
def sizeofRates : Nat := 4 * serialSupportedBaudRates.length

/-- What is read as entry `i`. -/
def rateAt (behind : Nat → Int32) (i : Nat) : Int := serialSupportedBaudRates[i]?.getD (behind i).toInt

/-- Whether an entry is the speed, with the entries that are read. -/
def searchRates (behind : Nat → Int32) (speed : Int32) : Nat → Nat → Bool × List Nat
  | 0, _ => (false, [])
  | left + 1, i =>
    if rateAt behind i = speed.toInt then (true, [i])
    else
      let (matched, entries) := searchRates behind speed left (i + 1)
      (matched, i :: entries)

/-- The port is set up with the divisor. -/
def openWith (s : Station) (dev : UInt32) (d : Fin 4) (brd : UInt32) : Station :=
  let s := installIsr (openDcb s d) d
  let s := s.setIer dev d 0x00
  let s := s.outb (dev + lcrOffset) 0x80
  let s := s.outb (dev + dllOffset) brd.toUInt8
  let s := s.outb (dev + dlmOffset) (brd >>> 8).toUInt8
  let s := s.outb (dev + lcrOffset) 0x03
  let s := s.outb (dev + fcrOffset) 0xC7
  let s := { s with mask := openMask d s.mask }
  let s := s.outb (dev + mcrOffset) ((1 : UInt8) <<< 3)
  s.setIer dev d ((1 : UInt8) <<< 0)

/-- `serial_open`, and the entries that it reads. There is no outcome if it divides by zero. -/
def serialOpenBehind (behind : Nat → Int32) (s : Station) (dev : UInt32) (speed : Int32) :
    Option (Station × Option PortError) × List Nat :=
  match serialDevno dev with
  | none => (some (s, some .devNotFound), [])
  | some d =>
    if (s.kernel.dcb d).isOpen then (some (s, some .oPortAlreadyOpen), [])
    else
      let (matched, entries) := searchRates behind speed sizeofRates 0
      if !matched then (some (s, some .oInvalidSpeed), entries)
      else if speed = 0 then (none, entries)
      else (some (openWith s dev d (115200 / speed).toUInt32, none), entries)

/-! ### The divisor latch -/

/-- The divisor latch of a UART, which bit 7 of the line control register gives access to. -/
structure Latch where
  access : Bool
  dll : UInt8
  dlm : UInt8

def Latch.write (dev : UInt32) (latch : Latch) (write : UInt32 × UInt8) : Latch :=
  if write.1 = dev + lcrOffset then { latch with access := write.2 &&& 0x80 ≠ 0 }
  else if latch.access ∧ write.1 = dev + dllOffset then { latch with dll := write.2 }
  else if latch.access ∧ write.1 = dev + dlmOffset then { latch with dlm := write.2 }
  else latch

/-- The latch after the divisor is set. -/
def Latch.set (brd : UInt32) : Latch := { access := false, dll := brd.toUInt8, dlm := (brd >>> 8).toUInt8 }

def Latch.divisor (latch : Latch) : Nat := latch.dlm.toNat * 256 + latch.dll.toNat

/-- The divisor that a UART is left with. -/
def divisorAt (dev : UInt32) (latch : Latch) (s : Station) : Nat := (s.written.foldl (Latch.write dev) latch).divisor

/-! ### What a call on a closed port has to do -/

/-- A speed of the table is accepted with its divisor, and any other one is refused. -/
structure Answers (outcome : Option (Station × Option PortError)) (s : Station) (dev : UInt32) (speed : Int32) :
    Prop where
  defined : outcome ≠ none
  accepts : (∃ s', outcome = some (s', none)) ↔ speed.toInt ∈ serialSupportedBaudRates
  divisor : ∀ s', outcome = some (s', none) → ∀ latch, 1 ≤ divisorAt dev latch s' ∧
    divisorAt dev latch s' < 2 ^ 16 ∧ (divisorAt dev latch s' : Int) = 115200 / speed.toInt
  refuses : speed.toInt ∉ serialSupportedBaudRates → outcome = some (s, some .oInvalidSpeed)

/-- Only entries of the table are read. -/
structure OpensChecked (behind : Nat → Int32) (s : Station) (dev : UInt32) (speed : Int32) : Prop where
  reads : ∀ i ∈ (serialOpenBehind behind s dev speed).2, i < serialSupportedBaudRates.length
  answers : Answers (serialOpenBehind behind s dev speed).1 s dev speed

variable {behind : Nat → Int32} {s : Station} {dev : UInt32} {speed : Int32} {d : Fin 4} {n i j : Nat}

/-! ### The search -/

theorem search_matched :
    (searchRates behind speed n i).1 = true ↔ ∃ j, i ≤ j ∧ j < i + n ∧ rateAt behind j = speed.toInt := by
  induction n generalizing i with
  | zero =>
    constructor
    · intro matched
      exact absurd matched (by simp [searchRates])
    · rintro ⟨j, low, high, _⟩
      omega
  | succ n ih =>
    rw [searchRates]
    by_cases here : rateAt behind i = speed.toInt
    · rw [if_pos here]
      exact ⟨fun _ => ⟨i, Nat.le_refl _, by omega, here⟩, fun _ => rfl⟩
    · rw [if_neg here]
      apply ih.trans
      constructor
      · rintro ⟨j, low, high, found⟩
        exact ⟨j, by omega, by omega, found⟩
      · rintro ⟨j, low, high, found⟩
        have later : j ≠ i := fun same => here (same ▸ found)
        exact ⟨j, by omega, by omega, found⟩

/-- An entry is read if none before it is the speed. -/
theorem search_entries :
    j ∈ (searchRates behind speed n i).2 ↔
      i ≤ j ∧ j < i + n ∧ ∀ m, i ≤ m → m < j → rateAt behind m ≠ speed.toInt := by
  induction n generalizing i with
  | zero =>
    constructor
    · intro read
      exact absurd read (by simp [searchRates])
    · rintro ⟨low, high, _⟩
      omega
  | succ n ih =>
    rw [searchRates]
    by_cases here : rateAt behind i = speed.toInt
    · rw [if_pos here, List.mem_singleton]
      constructor
      · rintro rfl
        exact ⟨Nat.le_refl _, by omega, fun m low high => by omega⟩
      · rintro ⟨low, high, before⟩
        by_contra other
        exact before i (Nat.le_refl _) (by omega) here
    · rw [if_neg here]
      rw [List.mem_cons]
      constructor
      · rintro (rfl | read)
        · exact ⟨Nat.le_refl _, by omega, fun m low high => by omega⟩
        · obtain ⟨low, high, before⟩ := ih.mp read
          refine ⟨by omega, by omega, fun m low' high' => ?_⟩
          by_cases first : m = i
          · exact first ▸ here
          · exact before m (by omega) high'
      · rintro ⟨low, high, before⟩
        by_cases first : j = i
        · exact .inl first
        · exact .inr (ih.mpr ⟨by omega, by omega, fun m low' => before m (by omega)⟩)

theorem rateAt_listed (behind : Nat → Int32) :
    (∃ j < serialSupportedBaudRates.length, rateAt behind j = speed.toInt) ↔
      speed.toInt ∈ serialSupportedBaudRates := by
  rw [List.mem_iff_getElem]
  constructor
  · rintro ⟨j, inside, found⟩
    exact ⟨j, inside, by simpa [rateAt, inside] using found⟩
  · rintro ⟨j, inside, found⟩
    exact ⟨j, inside, by simpa [rateAt, inside] using found⟩

theorem rateAt_behind (outside : serialSupportedBaudRates.length ≤ i) :
    rateAt behind i = speed.toInt ↔ behind i = speed := by
  rw [rateAt, List.getElem?_eq_none outside, Option.getD_none, Int32.toInt_inj]

/-- The search finds a speed of the table, or one behind it. -/
theorem search_rates :
    (searchRates behind speed sizeofRates 0).1 = true ↔ speed.toInt ∈ serialSupportedBaudRates ∨
      ∃ i, serialSupportedBaudRates.length ≤ i ∧ i < sizeofRates ∧ behind i = speed := by
  have longer : serialSupportedBaudRates.length ≤ sizeofRates := by decide
  rw [search_matched, ← rateAt_listed behind]
  constructor
  · rintro ⟨j, -, high, found⟩
    by_cases inside : j < serialSupportedBaudRates.length
    · exact .inl ⟨j, inside, found⟩
    · exact .inr ⟨j, by omega, by omega, (rateAt_behind (by omega)).mp found⟩
  · rintro (⟨j, inside, found⟩ | ⟨j, outside, high, found⟩)
    · exact ⟨j, by omega, by omega, found⟩
    · exact ⟨j, by omega, by omega, (rateAt_behind outside).mpr found⟩

/-- The search stays in the table only if the speed is in it. -/
theorem search_inside :
    (∀ i ∈ (searchRates behind speed sizeofRates 0).2, i < serialSupportedBaudRates.length) ↔
      speed.toInt ∈ serialSupportedBaudRates := by
  have longer : serialSupportedBaudRates.length < sizeofRates := by decide
  rw [← rateAt_listed behind]
  constructor
  · intro inside
    by_contra unlisted
    have read : serialSupportedBaudRates.length ∈ (searchRates behind speed sizeofRates 0).2 := by
      apply search_entries.mpr
      exact ⟨Nat.zero_le _, by omega, fun m _ high found => unlisted ⟨m, high, found⟩⟩
    exact absurd (inside _ read) (Nat.lt_irrefl _)
  · rintro ⟨j, inside, found⟩ i read
    obtain ⟨-, -, before⟩ := search_entries.mp read
    by_contra outside
    exact before j (Nat.zero_le _) (by omega) found

/-! ### The port -/

/-- A rate of the table fits into the latch, and has the two bytes that `programUart` writes. -/
theorem rate_brd (listed : speed.toInt ∈ serialSupportedBaudRates) :
    speed ≠ 0 ∧ 1 ≤ (Latch.set (115200 / speed).toUInt32).divisor ∧
      (Latch.set (115200 / speed).toUInt32).divisor < 2 ^ 16 ∧
      ((Latch.set (115200 / speed).toUInt32).divisor : Int) = 115200 / speed.toInt ∧
      (115200 / speed).toUInt32.toUInt8 = UInt8.ofNat (115200 / speed.toInt).toNat ∧
      ((115200 / speed).toUInt32 >>> 8).toUInt8 = UInt8.ofNat ((115200 / speed.toInt).toNat / 2 ^ 8) := by
  have rates : ∀ rate ∈ serialSupportedBaudRates,
      Int32.ofInt rate ≠ 0 ∧ 1 ≤ (Latch.set (115200 / Int32.ofInt rate).toUInt32).divisor ∧
        (Latch.set (115200 / Int32.ofInt rate).toUInt32).divisor < 2 ^ 16 ∧
        ((Latch.set (115200 / Int32.ofInt rate).toUInt32).divisor : Int) = 115200 / rate ∧
        (115200 / Int32.ofInt rate).toUInt32.toUInt8 = UInt8.ofNat (115200 / rate).toNat ∧
        ((115200 / Int32.ofInt rate).toUInt32 >>> 8).toUInt8 = UInt8.ofNat ((115200 / rate).toNat / 2 ^ 8) := by
    decide +kernel
  have own := rates _ listed
  rw [Int32.ofInt_toInt] at own
  exact own

/-- The UART is left with the divisor, whatever it was set to before. -/
theorem openWith_divisor (s : Station) (dev : UInt32) (d : Fin 4) (brd : UInt32) (latch : Latch) :
    divisorAt dev latch (openWith s dev d brd) = (Latch.set brd).divisor := by
  have unwritten : (installIsr (openDcb s d) d).written = s.written := by
    unfold installIsr
    dsimp only
    split <;> rfl
  have written : (openWith s dev d brd).written = s.written ++
      [(dev + ierOffset, 0x00), (dev + lcrOffset, 0x80), (dev + dllOffset, brd.toUInt8),
        (dev + dlmOffset, (brd >>> 8).toUInt8), (dev + lcrOffset, 0x03), (dev + fcrOffset, 0xC7),
        (dev + mcrOffset, (1 : UInt8) <<< 3), (dev + ierOffset, (1 : UInt8) <<< 0)] := by
    simp [openWith, Station.setIer, Station.outb, unwritten]
  have locked : (0x03 : UInt8) &&& 0x80 = 0 := by decide
  rw [divisorAt, written, List.foldl_append]
  generalize s.written.foldl (Latch.write dev) latch = before
  simp [Latch.write, Latch.divisor, Latch.set, locked, ierOffset, lcrOffset, dllOffset, dlmOffset, fcrOffset,
    mcrOffset]

theorem open_closed (port : serialDevno dev = some d) (closed : (s.kernel.dcb d).isOpen = false) :
    serialOpenBehind behind s dev speed =
      (if (searchRates behind speed sizeofRates 0).1 = true then
        if speed = 0 then none else some (openWith s dev d (115200 / speed).toUInt32, none)
      else some (s, some .oInvalidSpeed), (searchRates behind speed sizeofRates 0).2) := by
  unfold serialOpenBehind
  rw [port]
  dsimp only
  rw [closed, if_neg (by decide)]
  cases (searchRates behind speed sizeofRates 0).1 with
  | false => rfl
  | true =>
    rw [if_neg (by decide), if_pos rfl]
    split <;> rfl

/-- For a speed of the table it does not matter what stands behind it. -/
theorem open_listed (listed : speed.toInt ∈ serialSupportedBaudRates) :
    (serialOpenBehind behind s dev speed).1 = serialOpen s dev speed.toInt := by
  unfold serialOpen
  cases port : serialDevno dev with
  | none =>
    unfold serialOpenBehind
    rw [port]
  | some d =>
    dsimp only
    cases isOpen : (s.kernel.dcb d).isOpen with
    | true =>
      unfold serialOpenBehind
      rw [port]
      dsimp only
      rw [isOpen, if_pos rfl, if_pos rfl]
    | false =>
      obtain ⟨nonzero, -, -, -, low, high⟩ := rate_brd listed
      rw [open_closed port isOpen, if_pos (search_rates.mpr (.inl listed)), if_neg nonzero, if_neg (by decide),
        if_pos listed]
      unfold openWith programUart
      rw [low, high]

/-- Only a speed that stands behind the table gets a wrong answer. -/
theorem open_answers (port : serialDevno dev = some d) (closed : (s.kernel.dcb d).isOpen = false) :
    Answers (serialOpenBehind behind s dev speed).1 s dev speed ↔ speed.toInt ∈ serialSupportedBaudRates ∨
      ∀ i, serialSupportedBaudRates.length ≤ i → i < sizeofRates → behind i ≠ speed := by
  rw [open_closed port closed]
  dsimp only
  by_cases listed : speed.toInt ∈ serialSupportedBaudRates
  · obtain ⟨nonzero, positive, small, quotient, -, -⟩ := rate_brd listed
    rw [if_pos (search_rates.mpr (.inl listed)), if_neg nonzero]
    refine ⟨fun _ => .inl listed, fun _ => ⟨Option.some_ne_none _, ⟨fun _ => listed, fun _ => ⟨_, rfl⟩⟩, ?_, ?_⟩⟩
    · intro s' opened latch
      obtain rfl := congrArg Prod.fst (Option.some.inj opened)
      rw [openWith_divisor]
      exact ⟨positive, small, quotient⟩
    · exact fun unlisted => absurd listed unlisted
  · by_cases hit : ∃ i, serialSupportedBaudRates.length ≤ i ∧ i < sizeofRates ∧ behind i = speed
    · rw [if_pos (search_rates.mpr (.inr hit))]
      obtain ⟨i, outside, high, found⟩ := hit
      constructor
      · intro answers
        -- The call divides by zero or accepts the speed.
        by_cases zero : speed = 0
        · rw [if_pos zero] at answers
          exact absurd rfl answers.defined
        · rw [if_neg zero] at answers
          exact .inl (answers.accepts.mp ⟨_, rfl⟩)
      · rintro (known | absent)
        · exact absurd known listed
        · exact absurd found (absent i outside high)
    · have unmatched : ¬(searchRates behind speed sizeofRates 0).1 = true := by
        rw [search_rates]
        exact not_or.mpr ⟨listed, hit⟩
      rw [if_neg unmatched]
      constructor
      · intro _
        exact .inr fun i outside high found => hit ⟨i, outside, high, found⟩
      · intro _
        refine ⟨Option.some_ne_none _, ⟨?_, fun known => absurd known listed⟩, ?_, fun _ => rfl⟩
        · rintro ⟨s', accepted⟩
          exact absurd (congrArg Prod.snd (Option.some.inj accepted)) (by simp)
        · intro s' accepted
          exact absurd (congrArg Prod.snd (Option.some.inj accepted)) (by simp)

/-- `serial_open` on a closed port keeps to the table exactly for the speeds that are in it, and answers wrongly
exactly for the other ones that stand in memory among the entries read behind it. -/
theorem open_checked (behind : Nat → Int32) (s : Station) (dev : UInt32) (speed : Int32) (d : Fin 4)
    (port : serialDevno dev = some d) (closed : (s.kernel.dcb d).isOpen = false) :
    (OpensChecked behind s dev speed ↔ speed.toInt ∈ serialSupportedBaudRates) ∧
      (Answers (serialOpenBehind behind s dev speed).1 s dev speed ↔ speed.toInt ∈ serialSupportedBaudRates ∨
        ∀ i, serialSupportedBaudRates.length ≤ i → i < sizeofRates → behind i ≠ speed) := by
  have entries : (serialOpenBehind behind s dev speed).2 = (searchRates behind speed sizeofRates 0).2 := by
    rw [open_closed port closed]
  refine ⟨⟨?_, ?_⟩, open_answers port closed⟩
  · intro checked
    have reads := checked.reads
    rw [entries] at reads
    exact search_inside.mp reads
  · intro listed
    refine ⟨?_, (open_answers port closed).mpr (.inl listed)⟩
    rw [entries]
    exact search_inside.mpr listed

/-- COM1 is opened at 9600, with the divisor 12. -/
theorem open_checked_example : OpensChecked (fun _ => 0) shutStation com1 9600 :=
  (open_checked (fun _ => 0) shutStation com1 9600 0 rfl rfl).1.mpr (by decide)

/-- An unlisted rate is looked for behind the table, and 0 is found there and divided by. -/
theorem open_not_checked :
    ¬OpensChecked (fun _ => 0) shutStation com1 115200 ∧
      (serialOpenBehind (fun _ => 0) shutStation com1 0).1.isNone = true := by
  have read : 9 ∈ (serialOpenBehind (fun _ => 0) shutStation com1 115200).2 := by decide +kernel
  constructor
  · intro checked
    exact absurd (checked.reads 9 read) (by decide)
  · decide +kernel

end Mpx.Device

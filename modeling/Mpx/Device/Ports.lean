import Mpx.Device.Requests
import Mpx.Library.Transition

/-! # Opening and closing ports

`serial_open` and `serial_close` of `kernel/serial.c`, with the mask register of the interrupt
controller. COM1 and COM3 share one interrupt line, COM2 and COM4 another one. -/

namespace Mpx.Device
open Function Library.Transition Mpx.Process

inductive PortError where
  | devNotFound | oInvalidSpeed | oPortAlreadyOpen | cPortNotOpen | cDevBusy
  deriving DecidableEq, Repr

/-- The kernel with what the two functions write outside of it: the register behind `PIC_1_MASK`, the
registers of the UARTs, in order, and the vectors that `idt_install` was called for. -/
structure Station where
  kernel : Kernel
  mask : UInt8
  written : List (UInt32 × UInt8)
  vectors : List Nat

def serialSupportedBaudRates : List Int := [110, 150, 300, 600, 1200, 2400, 4800, 9600, 19200]

def ierOffset : UInt32 := 1
def dllOffset : UInt32 := 0
def dlmOffset : UInt32 := 1
def fcrOffset : UInt32 := 2
def lcrOffset : UInt32 := 3
def mcrOffset : UInt32 := 4

def irqvBase : Nat := 0x20
def serialIrqCom24 : Nat := 3
def serialIrqCom13 : Nat := 4

def irqBit (irq : Nat) : UInt8 := 1 <<< UInt8.ofNat irq

/-- COM1 and COM3. -/
def onCom13 (d : Fin 4) : Bool := d = 0 ∨ d = 2

/-- The other port on the interrupt line. -/
def sibling (d : Fin 4) : Fin 4 :=
  if d = 0 then 2
  else if d = 2 then 0
  else if d = 1 then 3
  else 1

def Station.outb (s : Station) (a : UInt32) (byte : UInt8) : Station := { s with written := s.written ++ [(a, byte)] }

def Station.setIer (s : Station) (dev : UInt32) (d : Fin 4) (byte : UInt8) : Station :=
  { s.outb (dev + ierOffset) byte with kernel := s.kernel.setIer d byte }

/-- The cases for COM1 and COM3 run on into those for COM2 and COM4. -/
def openMask (d : Fin 4) (mask : UInt8) : UInt8 :=
  let mask := if onCom13 d then mask &&& ~~~irqBit serialIrqCom13 else mask
  mask &&& ~~~irqBit serialIrqCom24

def closeMask (d : Fin 4) (mask : UInt8) : UInt8 :=
  let mask := if onCom13 d then mask ||| irqBit serialIrqCom13 else mask
  mask ||| irqBit serialIrqCom24

/-- The ring buffer is reset. -/
def openDcb (s : Station) (d : Fin 4) : Station :=
  let dcb := { s.kernel.dcb d with rbufferIdxBegin := 0, rbufferIdxEnd := 0, isOpen := true, event := false }
  { s with kernel := s.kernel.setDcb d dcb }

def installIsr (s : Station) (d : Fin 4) : Station :=
  let irq := if onCom13 d then serialIrqCom13 else serialIrqCom24
  if (s.kernel.dcb (sibling d)).isOpen then s else { s with vectors := s.vectors ++ [irqvBase + irq] }

def programUart (s : Station) (dev : UInt32) (d : Fin 4) (speed : Int) : Station :=
  let brd := (115200 / speed).toNat
  let s := s.setIer dev d 0x00
  let s := s.outb (dev + lcrOffset) 0x80
  let s := s.outb (dev + dllOffset) (UInt8.ofNat brd)
  let s := s.outb (dev + dlmOffset) (UInt8.ofNat (brd / 2 ^ 8))
  let s := s.outb (dev + lcrOffset) 0x03
  s.outb (dev + fcrOffset) 0xC7

def serialOpen (s : Station) (dev : UInt32) (speed : Int) : Option (Station × Option PortError) :=
  match serialDevno dev with
  | none => some (s, some .devNotFound)
  | some d =>
    if (s.kernel.dcb d).isOpen then some (s, some .oPortAlreadyOpen)
    else if speed ∈ serialSupportedBaudRates then
      let s := programUart (installIsr (openDcb s d) d) dev d speed
      let s := { s with mask := openMask d s.mask }
      let s := s.outb (dev + mcrOffset) ((1 : UInt8) <<< 3)
      some (s.setIer dev d ((1 : UInt8) <<< 0), none)
    -- The loop goes as many entries past the table as it has bytes more than entries.
    else none

/-- The line is masked if the port is the last open one on it. -/
def releaseLine (s : Station) (d : Fin 4) : Station :=
  if (s.kernel.dcb (sibling d)).isOpen then s else { s with mask := closeMask d s.mask }

def serialClose (s : Station) (dev : UInt32) : Station × Option PortError :=
  match serialDevno dev with
  | none => (s, some .devNotFound)
  | some d =>
    if !(s.kernel.dcb d).isOpen then (s, some .cPortNotOpen)
    else if (s.kernel.dcb d).iocbQueueHead ≠ 0 then (s, some .cDevBusy)
    else
      let s := (releaseLine s d).setIer dev d 0x00
      let s := s.outb (dev + mcrOffset) 0x00
      ({ s with kernel := s.kernel.setDcb d { s.kernel.dcb d with isOpen := false } }, none)

/-! ### Sequences of calls -/

/-- The calls, and whatever the rest of the kernel does to the ports without opening or closing one. -/
inductive PortCall where
  | opens (dev : UInt32) (speed : Int)
  | closes (dev : UInt32)
  | others (kernel : Kernel)

def Station.step (s : Station) : PortCall → Option Station
  | .opens dev speed => (serialOpen s dev speed).map (·.1)
  | .closes dev => some (serialClose s dev).1
  | .others kernel => some { s with kernel := kernel }

def PortCall.Valid (s : Station) : PortCall → Prop
  | .opens _ speed => speed ∈ serialSupportedBaudRates
  | .closes _ => True
  | .others kernel => ∀ d, (kernel.dcb d).isOpen = (s.kernel.dcb d).isOpen

/-- The bits of the mask other than those of the two lines. -/
def otherBits (mask : UInt8) : UInt8 := mask &&& ~~~(irqBit serialIrqCom13 ||| irqBit serialIrqCom24)

/-- Both lines are masked and no port is open. -/
structure Shut (mask : UInt8) (s : Station) : Prop where
  com13 : mask &&& irqBit serialIrqCom13 ≠ 0
  com24 : mask &&& irqBit serialIrqCom24 ≠ 0
  own : s.mask = mask
  closed : ∀ d, (s.kernel.dcb d).isOpen = false

/-- A line is unmasked while one of its ports is open, and the rest of the mask is as it was. -/
structure Intact (mask : UInt8) (s : Station) : Prop where
  com13 : s.mask &&& irqBit serialIrqCom13 = 0 ↔ (s.kernel.dcb 0).isOpen = true ∨ (s.kernel.dcb 2).isOpen = true
  com24 : s.mask &&& irqBit serialIrqCom24 = 0 ↔ (s.kernel.dcb 1).isOpen = true ∨ (s.kernel.dcb 3).isOpen = true
  rest : otherBits s.mask = otherBits mask

/-- COM2 or COM4 is open. -/
def Com24Open (s : Station) : Prop := (s.kernel.dcb 1).isOpen = true ∨ (s.kernel.dcb 3).isOpen = true

/-- COM1 and COM3 are opened only beside an open port of the other line, and the last of them is closed
only when none is open there. -/
def PortCall.Apart (s : Station) : PortCall → Prop
  | .opens dev _ => ∀ d ∈ serialDevno dev, (s.kernel.dcb d).isOpen = false → onCom13 d = true → Com24Open s
  | .closes dev => ∀ d ∈ serialDevno dev, (s.kernel.dcb d).isOpen = true → (s.kernel.dcb d).iocbQueueHead = 0 →
      onCom13 d = true → (s.kernel.dcb (sibling d)).isOpen = false → ¬Com24Open s
  | .others _ => True

variable {s s' : Station} {dev : UInt32} {speed : Int} {d e : Fin 4} {result : Option PortError} {mask : UInt8}
  {c : PortCall}

/-! ### What a call does to the mask and the open flags -/

theorem openMask_bits (d : Fin 4) (mask : UInt8) :
    (openMask d mask &&& irqBit serialIrqCom13 = 0 ↔ onCom13 d = true ∨ mask &&& irqBit serialIrqCom13 = 0) ∧
      openMask d mask &&& irqBit serialIrqCom24 = 0 ∧ otherBits (openMask d mask) = otherBits mask := by
  have bits : ∀ (d : Fin 4) (b : BitVec 8),
      (openMask d ⟨b⟩ &&& irqBit serialIrqCom13 = 0 ↔ onCom13 d = true ∨ ⟨b⟩ &&& irqBit serialIrqCom13 = 0) ∧
        openMask d ⟨b⟩ &&& irqBit serialIrqCom24 = 0 ∧ otherBits (openMask d ⟨b⟩) = otherBits ⟨b⟩ := by
    decide +kernel
  exact bits d mask.toBitVec

theorem closeMask_bits (d : Fin 4) (mask : UInt8) :
    (closeMask d mask &&& irqBit serialIrqCom13 = 0 ↔ onCom13 d = false ∧ mask &&& irqBit serialIrqCom13 = 0) ∧
      closeMask d mask &&& irqBit serialIrqCom24 ≠ 0 ∧ otherBits (closeMask d mask) = otherBits mask := by
  have bits : ∀ (d : Fin 4) (b : BitVec 8),
      (closeMask d ⟨b⟩ &&& irqBit serialIrqCom13 = 0 ↔ onCom13 d = false ∧ ⟨b⟩ &&& irqBit serialIrqCom13 = 0) ∧
        closeMask d ⟨b⟩ &&& irqBit serialIrqCom24 ≠ 0 ∧ otherBits (closeMask d ⟨b⟩) = otherBits ⟨b⟩ := by
    decide +kernel
  exact bits d mask.toBitVec

theorem setIer_isOpen (s : Station) (dev : UInt32) (d e : Fin 4) (byte : UInt8) :
    ((s.setIer dev d byte).kernel.dcb e).isOpen = (s.kernel.dcb e).isOpen := by
  show ((s.kernel.setPort d _).ports e).dcb.isOpen = _
  rw [setPort_ports]
  by_cases same : e = d
  · rw [if_pos same, same]
    rfl
  · rw [if_neg same]
    rfl

theorem setDcb_isOpen (k : Kernel) (d e : Fin 4) (dcb : Dcb) :
    ((k.setDcb d dcb).dcb e).isOpen = if e = d then dcb.isOpen else (k.dcb e).isOpen := by
  show ((k.setPort d _).ports e).dcb.isOpen = _
  rw [setPort_ports]
  by_cases same : e = d
  · rw [if_pos same, if_pos same]
  · rw [if_neg same, if_neg same]
    rfl

theorem installIsr_station (s : Station) (d : Fin 4) :
    (installIsr s d).mask = s.mask ∧ (installIsr s d).kernel = s.kernel := by
  unfold installIsr
  dsimp only
  split <;> exact ⟨rfl, rfl⟩

theorem programUart_isOpen (s : Station) (dev : UInt32) (d e : Fin 4) (speed : Int) :
    ((programUart s dev d speed).kernel.dcb e).isOpen = (s.kernel.dcb e).isOpen :=
  setIer_isOpen s dev d e 0

theorem releaseLine_station (s : Station) (d : Fin 4) :
    (releaseLine s d).mask = (if (s.kernel.dcb (sibling d)).isOpen = true then s.mask else closeMask d s.mask) ∧
      (releaseLine s d).kernel = s.kernel := by
  unfold releaseLine
  split <;> exact ⟨rfl, rfl⟩

/-- An open call with a valid speed fails and changes nothing, or opens its port. -/
theorem open_effect (valid : speed ∈ serialSupportedBaudRates) (ran : serialOpen s dev speed = some (s', result)) :
    (s' = s ∧ ∀ d ∈ serialDevno dev, (s.kernel.dcb d).isOpen = true) ∨
      ∃ d, serialDevno dev = some d ∧ (s.kernel.dcb d).isOpen = false ∧ s'.mask = openMask d s.mask ∧
        ∀ e, (s'.kernel.dcb e).isOpen = if e = d then true else (s.kernel.dcb e).isOpen := by
  unfold serialOpen at ran
  cases devno : serialDevno dev with
  | none =>
    rw [devno] at ran
    obtain rfl := congrArg Prod.fst (Option.some.inj ran)
    exact .inl ⟨rfl, fun d found => by cases found⟩
  | some d =>
    rw [devno] at ran
    dsimp only at ran
    cases isOpen : (s.kernel.dcb d).isOpen with
    | true =>
      rw [isOpen, if_pos rfl] at ran
      obtain rfl := congrArg Prod.fst (Option.some.inj ran)
      refine .inl ⟨rfl, fun e found => ?_⟩
      obtain rfl : d = e := Option.some.inj found
      exact isOpen
    | false =>
      rw [isOpen, if_neg (by decide), if_pos valid] at ran
      have unmasked : (programUart (installIsr (openDcb s d) d) dev d speed).mask = s.mask :=
        (installIsr_station _ d).1
      have flagged : ∀ e, ((programUart (installIsr (openDcb s d) d) dev d speed).kernel.dcb e).isOpen =
          if e = d then true else (s.kernel.dcb e).isOpen := by
        intro e
        rw [programUart_isOpen, (installIsr_station _ d).2]
        exact setDcb_isOpen ..
      generalize programUart (installIsr (openDcb s d) d) dev d speed = t at ran unmasked flagged
      have opened : _ = s' := congrArg Prod.fst (Option.some.inj ran)
      refine .inr ⟨d, rfl, isOpen, ?_, fun e => ?_⟩
      · rw [← opened, ← unmasked]
        rfl
      · rw [← opened, setIer_isOpen]
        exact flagged e

theorem close_effect (ran : (serialClose s dev).1 = s') :
    (s' = s ∧ ∀ d ∈ serialDevno dev, (s.kernel.dcb d).isOpen = false ∨ (s.kernel.dcb d).iocbQueueHead ≠ 0) ∨
      ∃ d, serialDevno dev = some d ∧ (s.kernel.dcb d).isOpen = true ∧ (s.kernel.dcb d).iocbQueueHead = 0 ∧
        s'.mask = (if (s.kernel.dcb (sibling d)).isOpen = true then s.mask else closeMask d s.mask) ∧
          ∀ e, (s'.kernel.dcb e).isOpen = if e = d then false else (s.kernel.dcb e).isOpen := by
  unfold serialClose at ran
  cases devno : serialDevno dev with
  | none =>
    rw [devno] at ran
    exact .inl ⟨ran.symm, fun d found => by cases found⟩
  | some d =>
    rw [devno] at ran
    dsimp only at ran
    cases isOpen : (s.kernel.dcb d).isOpen with
    | false =>
      rw [isOpen, if_pos (by decide)] at ran
      refine .inl ⟨ran.symm, fun e found => .inl ?_⟩
      obtain rfl : d = e := Option.some.inj found
      exact isOpen
    | true =>
      rw [isOpen, if_neg (by decide)] at ran
      by_cases busy : (s.kernel.dcb d).iocbQueueHead ≠ 0
      · rw [if_pos busy] at ran
        refine .inl ⟨ran.symm, fun e found => .inr ?_⟩
        obtain rfl : d = e := Option.some.inj found
        exact busy
      · rw [if_neg busy] at ran
        dsimp only at ran
        subst ran
        refine .inr ⟨d, rfl, isOpen, not_not.mp busy, (releaseLine_station s d).1, fun e => ?_⟩
        rw [setDcb_isOpen]
        by_cases same : e = d
        · rw [if_pos same, if_pos same]
        · rw [if_neg same, if_neg same]
          show (((releaseLine s d).setIer dev d 0).kernel.dcb e).isOpen = _
          rw [setIer_isOpen, (releaseLine_station s d).2]

/-! ### When the lines stay intact -/

theorem port_cases (d : Fin 4) : d = 0 ∨ d = 1 ∨ d = 2 ∨ d = 3 := by
  revert d
  decide

theorem open_intact (intact : Intact mask s) (bits : s'.mask = openMask d s.mask)
    (flags : ∀ e, (s'.kernel.dcb e).isOpen = if e = d then true else (s.kernel.dcb e).isOpen) :
    Intact mask s' ↔ (onCom13 d = true → Com24Open s) := by
  obtain ⟨com13, com24, rest⟩ := intact
  obtain ⟨outer, off, others⟩ := openMask_bits d s.mask
  rw [← bits] at outer off others
  have kept : otherBits s'.mask = otherBits mask := others.trans rest
  constructor
  · intro after shared
    have unmasked := after.com24.mp off
    unfold Com24Open
    rw [flags, flags] at unmasked
    rcases port_cases d with rfl | rfl | rfl | rfl
    · exact unmasked
    · exact absurd shared (by decide)
    · exact unmasked
    · exact absurd shared (by decide)
  · intro apart
    refine ⟨?_, ?_, kept⟩
    · rw [outer, com13, flags, flags]
      rcases port_cases d with rfl | rfl | rfl | rfl <;> simp [onCom13]
    · rw [flags, flags]
      refine ⟨fun _ => ?_, fun _ => off⟩
      rcases port_cases d with rfl | rfl | rfl | rfl
      · exact apart rfl
      · exact .inl rfl
      · exact apart rfl
      · exact .inr rfl

theorem close_masked (intact : Intact mask s) (closes : (s.kernel.dcb d).isOpen = true)
    (alone : (s.kernel.dcb (sibling d)).isOpen = false) (bits : s'.mask = closeMask d s.mask)
    (flags : ∀ e, (s'.kernel.dcb e).isOpen = if e = d then false else (s.kernel.dcb e).isOpen) :
    Intact mask s' ↔ (onCom13 d = true → ¬Com24Open s) := by
  obtain ⟨com13, com24, rest⟩ := intact
  obtain ⟨outer, off, others⟩ := closeMask_bits d s.mask
  rw [← bits] at outer off others
  have kept : otherBits s'.mask = otherBits mask := others.trans rest
  constructor
  · intro after shared some
    apply off
    apply after.com24.mpr
    rw [flags, flags]
    rcases port_cases d with rfl | rfl | rfl | rfl
    · exact some
    · exact absurd shared (by decide)
    · exact some
    · exact absurd shared (by decide)
  · intro apart
    refine ⟨?_, ?_, kept⟩
    · rw [outer, com13, flags, flags]
      rcases port_cases d with rfl | rfl | rfl | rfl
      · simpa [onCom13, sibling] using alone
      · simp [onCom13]
      · simpa [onCom13, sibling] using alone
      · simp [onCom13]
    · rw [flags, flags]
      refine ⟨fun unmasked => (off unmasked).elim, fun some => ?_⟩
      rcases port_cases d with rfl | rfl | rfl | rfl
      · exact (apart rfl some).elim
      · change (s.kernel.dcb 3).isOpen = false at alone
        exact absurd some (by simp [alone])
      · exact (apart rfl some).elim
      · change (s.kernel.dcb 1).isOpen = false at alone
        exact absurd some (by simp [alone])

/-- The other port keeps the line. -/
theorem close_shared (intact : Intact mask s) (closes : (s.kernel.dcb d).isOpen = true)
    (shared : (s.kernel.dcb (sibling d)).isOpen = true) (bits : s'.mask = s.mask)
    (flags : ∀ e, (s'.kernel.dcb e).isOpen = if e = d then false else (s.kernel.dcb e).isOpen) : Intact mask s' := by
  obtain ⟨com13, com24, rest⟩ := intact
  refine ⟨?_, ?_, bits ▸ rest⟩
  · rw [bits, com13, flags, flags]
    rcases port_cases d with rfl | rfl | rfl | rfl <;> simp_all [sibling]
  · rw [bits, com24, flags, flags]
    rcases port_cases d with rfl | rfl | rfl | rfl <;> simp_all [sibling]

theorem step_intact (intact : Intact mask s) (valid : c.Valid s) (moved : s.step c = some s') :
    Intact mask s' ↔ c.Apart s := by
  cases c with
  | opens dev speed =>
    obtain ⟨⟨s₁, result⟩, ran, rfl⟩ := Option.map_eq_some_iff.mp moved
    rcases open_effect valid ran with ⟨same, refused⟩ | ⟨d, devno, closed, bits, flags⟩
    · have same : s₁ = s := same
      refine ⟨fun _ d found closed => ?_, fun _ => same ▸ intact⟩
      exact absurd (closed.symm.trans (refused d found)) (by decide)
    · rw [open_intact intact bits flags]
      constructor
      · intro apart e found _ outer
        obtain rfl : d = e := Option.some.inj (devno.symm.trans found)
        exact apart outer
      · intro apart outer
        exact apart d devno closed outer
  | closes dev =>
    rcases close_effect (Option.some.inj moved) with ⟨same, refused⟩ | ⟨d, devno, isOpen, idle, bits, flags⟩
    · refine ⟨fun _ d found isOpen idle => ?_, fun _ => same.symm ▸ intact⟩
      cases refused d found with
      | inl closed => exact absurd (closed.symm.trans isOpen) (by decide)
      | inr busy => exact (busy idle).elim
    · cases shared : (s.kernel.dcb (sibling d)).isOpen with
      | true =>
        rw [shared, if_pos rfl] at bits
        refine ⟨fun _ e found _ _ _ alone => ?_, fun _ => close_shared intact isOpen shared bits flags⟩
        obtain rfl : d = e := Option.some.inj (devno.symm.trans found)
        exact absurd (alone.symm.trans shared) (by decide)
      | false =>
        rw [shared, if_neg (by decide)] at bits
        rw [close_masked intact isOpen shared bits flags]
        constructor
        · intro apart e found _ _ outer _
          obtain rfl : d = e := Option.some.inj (devno.symm.trans found)
          exact apart outer
        · intro apart outer
          exact apart d devno isOpen idle outer shared
  | others kernel =>
    obtain rfl := Option.some.inj moved
    refine ⟨fun _ => trivial, fun _ => ⟨?_, ?_, intact.rest⟩⟩
    · rw [valid, valid]
      exact intact.com13
    · rw [valid, valid]
      exact intact.com24

theorem shut_intact (shut : Shut mask s) : Intact mask s := by
  obtain ⟨com13, com24, own, closed⟩ := shut
  refine ⟨?_, ?_, by rw [own]⟩
  · rw [own, closed, closed]
    simpa using com13
  · rw [own, closed, closed]
    simpa using com24

/-- In every run of calls that keep to the condition the lines are intact, and the next call keeps them so
exactly if it keeps to it. -/
theorem lines_intact (reached : Reaches (Shut mask) (fun s c => c.Valid s ∧ c.Apart s) Station.step s) :
    Intact mask s ∧ ∀ c s', c.Valid s → s.step c = some s' → (Intact mask s' ↔ c.Apart s) := by
  have intact : Intact mask s := by
    apply reaches_invariant (P := Intact mask) ?_ ?_ reached
    · intro s shut
      exact shut_intact shut
    · intro s c s' intact admitted moved
      exact (step_intact intact admitted.1 moved).mpr admitted.2
  exact ⟨intact, fun c s' valid moved => step_intact intact valid moved⟩

/-- All ports closed and all lines masked. -/
def shutStation : Station := { kernel := bootKernel fun _ => false, mask := 0xFF, written := [], vectors := [] }

theorem shutStation_shut : Shut 0xFF shutStation := by
  refine ⟨by decide, by decide, rfl, fun d => rfl⟩

/-- COM1 is opened beside COM2. -/
theorem lines_intact_example : ∃ s, Intact 0xFF s ∧ (s.kernel.dcb 0).isOpen = true := by
  have opened : ∃ s₁ s₂, shutStation.step (.opens com2 110) = some s₁ ∧ s₁.step (.opens com1 110) = some s₂ ∧
      (s₁.kernel.dcb 1).isOpen = true ∧ (s₂.kernel.dcb 0).isOpen = true :=
    ⟨_, _, rfl, rfl, by decide +kernel⟩
  obtain ⟨s₁, s₂, first, second, com2Open, com1Open⟩ := opened
  have valid : ∀ s dev, (PortCall.opens dev 110).Valid s := by
    intro s dev
    show (110 : Int) ∈ serialSupportedBaudRates
    decide
  have start : (PortCall.opens com2 110).Apart shutStation := by
    intro d found _ outer
    obtain rfl : (1 : Fin 4) = d := Option.some.inj found
    exact absurd outer (by decide)
  have reached : Reaches (Shut 0xFF) (fun s c => c.Valid s ∧ c.Apart s) Station.step s₁ :=
    .step (.start shutStation_shut) ⟨valid _ _, start⟩ first
  have beside : (PortCall.opens com1 110).Apart s₁ := fun _ _ _ _ => .inl com2Open
  exact ⟨s₂, (lines_intact (.step reached ⟨valid _ _, beside⟩ second)).1, com1Open⟩

/-- COM1 is opened alone, and the line of COM2 and COM4 is unmasked with it. -/
theorem lines_not_intact : ¬∀ mask s, Reaches (Shut mask) (fun s c => c.Valid s) Station.step s → Intact mask s := by
  intro always
  have opened : ∃ s, shutStation.step (.opens com1 110) = some s ∧ s.mask = 0xE7 ∧
      (s.kernel.dcb 1).isOpen = false ∧ (s.kernel.dcb 3).isOpen = false :=
    ⟨_, rfl, by decide +kernel⟩
  obtain ⟨s, moved, unmasked, com2, com4⟩ := opened
  have valid : (PortCall.opens com1 110).Valid shutStation := by
    show (110 : Int) ∈ serialSupportedBaudRates
    decide
  have intact := always 0xFF s (.step (.start shutStation_shut) valid moved)
  have com24 := intact.com24
  rw [unmasked, com2, com4] at com24
  exact absurd com24 (by decide)

end Mpx.Device

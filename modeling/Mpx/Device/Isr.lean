import Mpx.Device.Ports
import Mpx.Library.Processor

/-! # The serial interrupt and the code it interrupts

The accesses that `serial_interrupt` of `kernel/serial.c` makes to the ports, on each of its paths, and the stub
`serial_isr` of `kernel/irq.s`, which saves no register. -/

namespace Mpx.Device
open Library.Processor Mpx.Process

def pic1Cmd : UInt16 := 0x20
def picEoi : UInt8 := 0x20
def picReadIsr : UInt8 := 0x0b

def iirOffset : UInt16 := 2
def lsrOffset : UInt16 := 5
def msrOffset : UInt16 := 6

def dev (d : Fin 4) : UInt16 :=
  if d = 0 then com1.toUInt16
  else if d = 1 then com2.toUInt16
  else if d = 2 then com3.toUInt16
  else com4.toUInt16

/-- What a port gives when it is read. The handler reads none of them twice. -/
abbrev PortAnswers := UInt16 → UInt8

/-- One of the two devices on a line is selected by bit 0 of their `IIR`: with that `IIR` and the reads made. -/
def selectOf (answers : PortAnswers) (first second : Fin 4) : Fin 4 × UInt8 × List Access :=
  let serialIir := answers (dev first + iirOffset)
  if serialIir &&& 0x01 = 0 then (first, serialIir, [.inb (dev first + iirOffset) serialIir])
  else
    let serialIir' := answers (dev second + iirOffset)
    (second, serialIir', [.inb (dev first + iirOffset) serialIir, .inb (dev second + iirOffset) serialIir'])

/-- No device is selected for other interrupts, and `dcb_select` has no value. -/
def interruptSelect (answers : PortAnswers) : Option (Fin 4 × UInt8 × List Access) :=
  let irq := answers pic1Cmd
  if irq = irqBit serialIrqCom24 then some (selectOf answers 1 3)
  else if irq = irqBit serialIrqCom13 then some (selectOf answers 0 2)
  else none

def inputAccesses (k : Kernel) (d : Fin 4) (answers : PortAnswers) : Option (List Access) :=
  if (k.dcb d).iocbQueueHead = 0 then none else some [.inb (dev d) (answers (dev d))]

def outputAccesses (k : Kernel) (d : Fin 4) (answers : PortAnswers) : Option (List Access) :=
  let dcb := k.dcb d
  if !dcb.event then
    if dcb.iocbQueueHead = 0 then none
    else
      let iocbRq := k.iocbs dcb.iocbQueueHead
      if iocbRq.ioOp = .write then
        let bufferIdx := dcb.bufferIdx + 1
        let ierPort := dev d + ierOffset.toUInt16
        if bufferIdx = iocbRq.bufferSz then
          some [.inb ierPort (answers ierPort), .outb ierPort (answers ierPort &&& ~~~ierOutput)]
        else some [.outb (dev d) (k.buffers (iocbRq.buffer + bufferIdx))]
      else some []
  else some []

/-- What the interrupt identification register reports. The byte of an input is read from the device. -/
def interruptOf (answers : PortAnswers) (d : Fin 4) (serialIir : UInt8) : Interrupt :=
  if serialIir &&& 0x06 = 0x00 then .modemStatus
  else if serialIir &&& 0x06 = 0x02 then .output
  else if serialIir &&& 0x06 = 0x04 then .input (answers (dev d))
  else .lineStatus

def handlerAccesses (k : Kernel) (d : Fin 4) (answers : PortAnswers) (i : Interrupt) : Option (List Access) :=
  if !(k.dcb d).isOpen then some []
  else
    match i with
    | .modemStatus => some [.inb (dev d + msrOffset) (answers (dev d + msrOffset))]
    | .output => outputAccesses k d answers
    | .input _ => inputAccesses k d answers
    | .lineStatus => some [.inb (dev d + lsrOffset) (answers (dev d + lsrOffset))]

/-- The accesses of `serial_interrupt`, if it follows no NULL pointer and selects a device. -/
def interruptAccesses (k : Kernel) (answers : PortAnswers) : Option (List Access) := do
  let (d, serialIir, selecting) ← interruptSelect answers
  let handling ← handlerAccesses k d answers (interruptOf answers d serialIir)
  return .outb pic1Cmd picReadIsr :: .inb pic1Cmd (answers pic1Cmd) :: selecting ++ handling ++ [.outb pic1Cmd picEoi]

variable {k : Kernel} {d : Fin 4} {answers : PortAnswers} {serialIir : UInt8} {selecting l : List Access}

theorem outputAccesses_runs : (outputAccesses k d answers).isSome ↔ (serialOutputInterrupt k d).isSome := by
  unfold outputAccesses serialOutputInterrupt
  dsimp only
  cases (k.dcb d).event with
  | true => simp
  | false =>
    rw [if_pos Bool.not_false, if_pos Bool.not_false]
    by_cases empty : (k.dcb d).iocbQueueHead = 0
    · simp [empty]
    · rw [if_neg empty, if_neg empty]
      split
      · split <;> simp
      · simp

theorem inputAccesses_runs (byte : UInt8) :
    (inputAccesses k d answers).isSome ↔ (serialInputInterrupt k d byte).isSome := by
  unfold inputAccesses serialInputInterrupt
  dsimp only
  by_cases empty : (k.dcb d).iocbQueueHead = 0
  · simp [empty]
  · rw [if_neg empty, if_neg empty]
    split
    · simp
    · split <;> simp

theorem handlerAccesses_runs (answers : PortAnswers) (i : Interrupt) :
    (handlerAccesses k d answers i).isSome ↔ (serialInterrupt k d i).isSome := by
  unfold handlerAccesses
  cases isOpen : (k.dcb d).isOpen with
  | false => cases i <;> simp [serialInterrupt, isOpen]
  | true =>
    cases i with
    | modemStatus => simp [serialInterrupt]
    | output => simp [serialInterrupt, isOpen, outputAccesses_runs]
    | input byte => simp [serialInterrupt, isOpen, inputAccesses_runs byte]
    | lineStatus => simp [serialInterrupt]

theorem interruptAccesses_runs (select : interruptSelect answers = some (d, serialIir, selecting)) :
    (interruptAccesses k answers).isSome ↔ (serialInterrupt k d (interruptOf answers d serialIir)).isSome := by
  rw [← handlerAccesses_runs answers]
  unfold interruptAccesses
  rw [select]
  change (Option.bind (handlerAccesses k d answers _) _).isSome ↔ _
  generalize handlerAccesses k d answers _ = handling
  cases handling <;> simp

theorem interruptAccesses_last (h : interruptAccesses k answers = some l) :
    ∃ front, l = front ++ [.outb pic1Cmd picEoi] := by
  unfold interruptAccesses at h
  obtain ⟨⟨d, serialIir, selecting⟩, -, h⟩ := Option.bind_eq_some_iff.mp h
  obtain ⟨handling, -, h⟩ := Option.bind_eq_some_iff.mp h
  obtain rfl := Option.some.inj h
  exact ⟨.outb pic1Cmd picReadIsr :: .inb pic1Cmd (answers pic1Cmd) :: selecting ++ handling, rfl⟩

/-- `serial_isr` for an interrupt in the state `c`, with the `iret`. -/
def SerialIsr (l : List Access) (c c' : Cpu) : Prop :=
  ∃ called, Called l (step c.interrupt .cli) called ∧ c' = step called .iret

def Invisible (c c' : Cpu) : Prop := (∀ r, c'.reg r = c.reg r) ∧ c'.eflags = c.eflags

variable {c c' : Cpu}

/-- The `iret` goes back to the interrupted code, whatever the handler did. -/
theorem serialIsr_returns (isr : SerialIsr l c c') :
    c'.eip = c.eip ∧ c'.seg = c.seg ∧ c'.eflags = c.eflags ∧ ∀ r ∈ calleeSaved, c'.reg r = c.reg r := by
  obtain ⟨called, call, rfl⟩ := isr
  have frame : called.frame = (c.eip, c.seg .cs, c.eflags) := call.frame.trans c.interrupt_frame
  have seg : called.seg = c.seg := call.seg
  rw [iret_frame frame]
  refine ⟨rfl, ?_, rfl, ?_⟩
  · funext s
    cases s <;> simp [seg]
  · intro r saved
    have kept : called.reg r = c.interrupt.reg r := call.saved r saved
    have esp : called.reg .esp = c.interrupt.reg .esp := call.saved .esp (by decide)
    by_cases stack : r = .esp
    · simp [stack, esp]
    · simp [stack, kept]

theorem serialIsr_last (h : interruptAccesses k answers = some l) (isr : SerialIsr l c c') :
    c'.al = picEoi ∧ c'.dx = pic1Cmd := by
  obtain ⟨front, rfl⟩ := interruptAccesses_last h
  obtain ⟨called, call, rfl⟩ := isr
  exact called_last call

theorem serialIsr_any (h : interruptAccesses k answers = some l) (c : Cpu) (eax ecx edx : UInt32)
    (al : eax.toUInt8 = picEoi) (dx : edx.toUInt16 = pic1Cmd) :
    ∃ c', SerialIsr l c c' ∧ c'.reg .eax = eax ∧ c'.reg .ecx = ecx ∧ c'.reg .edx = edx := by
  obtain ⟨front, rfl⟩ := interruptAccesses_last h
  let entered := step c.interrupt .cli
  let called := ((entered.setReg .eax eax).setReg .ecx ecx).setReg .edx edx
  have call : Called (front ++ [.outb pic1Cmd picEoi]) entered called := by
    constructor
    case body => exact ⟨called, accesses_any al dx, rfl, rfl⟩
    case saved =>
      intro r saved
      cases r <;> first | rfl | simp [calleeSaved] at saved
    case seg => rfl
    case frame => rfl
  exact ⟨_, ⟨called, call, rfl⟩, rfl, rfl, rfl⟩

/-- The handler is free to leave another value in `ecx`. -/
theorem serialIsr_clobbers (h : interruptAccesses k answers = some l) (c : Cpu) :
    ∃ c', SerialIsr l c c' ∧ ¬Invisible c c' := by
  obtain ⟨c', isr, -, ecx, -⟩ := serialIsr_any h c 0x20 (c.reg .ecx + 1) 0x20 rfl rfl
  refine ⟨c', isr, fun invisible => ?_⟩
  have same := invisible.1 .ecx
  rw [ecx] at same
  simp at same

/-- On no path is a serial interrupt invisible: `serial_isr` saves no register, `serial_interrupt` restores neither
`eax` nor `ecx` nor `edx`, and its last access leaves `0x20` in `al` and in `dx`. Only code that has just these values
there can go on undisturbed. -/
theorem serialIsr_visible (h : interruptAccesses k answers = some l) (c : Cpu) :
    ¬(∀ c', SerialIsr l c c' → Invisible c c') ∧
      ((∃ c', SerialIsr l c c' ∧ Invisible c c') ↔ c.al = picEoi ∧ c.dx = pic1Cmd) := by
  refine ⟨fun always => ?_, ?_, ?_⟩
  · obtain ⟨c', isr, visible⟩ := serialIsr_clobbers h c
    exact visible (always c' isr)
  · rintro ⟨c', isr, regs, -⟩
    obtain ⟨al, dx⟩ := serialIsr_last h isr
    unfold Cpu.al at al ⊢
    unfold Cpu.dx at dx ⊢
    rw [regs .eax] at al
    rw [regs .edx] at dx
    exact ⟨al, dx⟩
  · rintro ⟨al, dx⟩
    obtain ⟨c', isr, eax, ecx, edx⟩ := serialIsr_any h c (c.reg .eax) (c.reg .ecx) (c.reg .edx) al dx
    obtain ⟨-, -, eflags, saved⟩ := serialIsr_returns isr
    refine ⟨c', isr, fun r => ?_, eflags⟩
    cases r with
    | eax => exact eax
    | ecx => exact ecx
    | edx => exact edx
    | _ => exact saved _ (by decide)

def modemAnswers : PortAnswers := fun port => if port = pic1Cmd then irqBit serialIrqCom13 else 0

/-- A process in its main loop, with a pointer in `edx`. -/
def interruptedCpu : Cpu :=
  { reg := fun
      | .esp => 0x0D001000
      | .edx => 0x0D000200
      | _ => 0
    seg := fun
      | .cs => 0x0008
      | _ => 0x0010
    eip := 0x00100000
    eflags := 0x00000202
    mem := fun _ => 0 }

def modemAccesses : List Access :=
  [.outb 0x20 0x0b, .inb 0x20 0x10, .inb 0x3fa 0, .inb 0x3fe 0, .outb 0x20 0x20]

theorem modemAccesses_run : interruptAccesses (bootKernel fun _ => true) modemAnswers = some modemAccesses := by
  decide

theorem serialIsr_visible_modem :
    ¬(∀ c', SerialIsr modemAccesses interruptedCpu c' → Invisible interruptedCpu c') ∧
      ((∃ c', SerialIsr modemAccesses interruptedCpu c' ∧ Invisible interruptedCpu c') ↔
        interruptedCpu.al = picEoi ∧ interruptedCpu.dx = pic1Cmd) :=
  serialIsr_visible modemAccesses_run interruptedCpu

theorem serialIsr_not_invisible : ¬∀ (k : Kernel) (answers : PortAnswers) (l : List Access),
    interruptAccesses k answers = some l → ∀ c : Cpu, c.eflags &&& ifFlag ≠ 0 →
      ∀ c', SerialIsr l c c' → Invisible c c' := by
  intro always
  obtain ⟨c', isr, visible⟩ := serialIsr_clobbers modemAccesses_run interruptedCpu
  exact visible (always _ _ _ modemAccesses_run interruptedCpu (by decide) c' isr)

end Mpx.Device

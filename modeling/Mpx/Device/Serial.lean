import Mpx.Process.Pcb

/-! # The serial driver

The interrupt-driven part of `kernel/serial.c`, with `device.h`. The four ports are numbered as in
`serial_dcb_list`, and what `sys_alloc_mem` returns is an argument. Buffers are bytes of a memory of
their own, which kernel objects do not share. -/

namespace Mpx.Device
open Function Mpx.Process

inductive IoOp where
  | read | write
  deriving DecidableEq, Repr

structure Iocb where
  pNext : Ptr
  pcbRq : Ptr
  buffer : Ptr
  bufferSz : UInt32
  ioOp : IoOp
  deriving DecidableEq, Repr

structure Dcb where
  iocbQueueHead : Ptr
  iocbQueueTail : Ptr
  rbuffer : UInt32 → UInt8
  rbufferSz : UInt32
  rbufferIdxBegin : UInt32
  rbufferIdxEnd : UInt32
  bufferIdx : UInt32
  isOpen : Bool
  event : Bool

/-- A request as it was accepted. -/
structure Request where
  pcb : Ptr
  op : IoOp
  buffer : Ptr
  size : UInt32
  deriving DecidableEq, Repr

def Iocb.request (iocb : Iocb) : Request := ⟨iocb.pcbRq, iocb.ioOp, iocb.buffer, iocb.bufferSz⟩

/-- What has happened at a port: the requests accepted and retired, and the bytes carried between
buffer and device, each with the number of the request in service. The code does not see it. -/
structure History where
  accepted : List Request
  retired : List Request
  moved : List (Nat × UInt8)
  deriving DecidableEq, Repr

/-- A device control block with the registers of its UART: `sent` is what went to the data port. -/
structure Port where
  dcb : Dcb
  ier : UInt8
  sent : List UInt8
  history : History

structure Kernel where
  procs : Procs
  pcbRunning : Ptr
  contextOriginal : Option CtxPtr
  ports : Fin 4 → Port
  iocbs : Ptr → Iocb
  buffers : Ptr → UInt8

inductive SerialError where
  | devNotFound
  | rPortNotOpen | rInvalidBuffer | rInvalidBufLen | rDevBusy | rOutOfMem
  | wPortNotOpen | wInvalidBuffer | wInvalidBufLen | wDevBusy | wOutOfMem
  | sDevNotFound | sPortNotOpen | sInvalidBuffer | sInvalidBufLen | sDevBusy | sOutOfMem
  deriving DecidableEq, Repr

def com1 : UInt32 := 0x3f8
def com2 : UInt32 := 0x2f8
def com3 : UInt32 := 0x3e8
def com4 : UInt32 := 0x2e8

def serialDevno (dev : UInt32) : Option (Fin 4) :=
  if dev = com1 then some 0
  else if dev = com2 then some 1
  else if dev = com3 then some 2
  else if dev = com4 then some 3
  else none

def carriageReturn : UInt8 := 13

/-- Bit 1 of the interrupt enable register. -/
def ierOutput : UInt8 := 2

namespace Kernel

def dcb (k : Kernel) (d : Fin 4) : Dcb := (k.ports d).dcb

def history (k : Kernel) (d : Fin 4) : History := (k.ports d).history

def setPort (k : Kernel) (d : Fin 4) (port : Port) : Kernel := { k with ports := update k.ports d port }

def setDcb (k : Kernel) (d : Fin 4) (dcb : Dcb) : Kernel := k.setPort d { k.ports d with dcb := dcb }

def setHistory (k : Kernel) (d : Fin 4) (history : History) : Kernel :=
  k.setPort d { k.ports d with history := history }

def setIer (k : Kernel) (d : Fin 4) (ier : UInt8) : Kernel := k.setPort d { k.ports d with ier := ier }

def setIocb (k : Kernel) (a : Ptr) (iocb : Iocb) : Kernel := { k with iocbs := update k.iocbs a iocb }

def setBufferIdx (k : Kernel) (d : Fin 4) (idx : UInt32) : Kernel :=
  k.setDcb d { k.dcb d with bufferIdx := idx }

/-- A byte is carried for the request in service. -/
def carry (k : Kernel) (d : Fin 4) (byte : UInt8) : Kernel :=
  let h := k.history d
  k.setHistory d { h with moved := h.moved ++ [(h.retired.length, byte)] }

/-- `iocb_rq->buffer[idx] = byte`. -/
def storeByte (k : Kernel) (d : Fin 4) (a : Ptr) (byte : UInt8) : Kernel :=
  { k.carry d byte with buffers := update k.buffers a byte }

/-- `outb(dev, byte)`. -/
def outByte (k : Kernel) (d : Fin 4) (byte : UInt8) : Kernel :=
  let k := k.carry d byte
  k.setPort d { k.ports d with sent := (k.ports d).sent ++ [byte] }

def enableOutput (k : Kernel) (d : Fin 4) : Kernel := k.setIer d ((k.ports d).ier ||| ierOutput)

def disableOutput (k : Kernel) (d : Fin 4) : Kernel := k.setIer d ((k.ports d).ier &&& ~~~ierOutput)

def accept (k : Kernel) (d : Fin 4) (r : Request) : Kernel :=
  let h := k.history d
  k.setHistory d { h with accepted := h.accepted ++ [r] }

def retire (k : Kernel) (d : Fin 4) (r : Request) : Kernel :=
  let h := k.history d
  k.setHistory d { h with retired := h.retired ++ [r] }

end Kernel

/-- The loop that serves a READ from the ring buffer: the new state and how much was copied. -/
def drainRing (d : Fin 4) (buffer len : UInt32) : Nat → Kernel → UInt32 → Option (Kernel × UInt32)
  | 0, _, _ => none
  | fuel + 1, k, bufIdx =>
    let dcb := k.dcb d
    if dcb.rbufferIdxBegin < dcb.rbufferIdxEnd ∧ bufIdx < len then
      let byte := dcb.rbuffer dcb.rbufferIdxBegin
      let k := k.storeByte d (buffer + bufIdx) byte
      let next := dcb.rbufferIdxBegin + 1
      let k := k.setDcb d { dcb with rbufferIdxBegin := if next = dcb.rbufferSz then 0 else next }
      if byte = carriageReturn then some (k, bufIdx + 1) else drainRing d buffer len fuel k (bufIdx + 1)
    else some (k, bufIdx)

/-- The first steps of a READ. -/
def startRead (k : Kernel) (d : Fin 4) (buffer len : UInt32) : Option Kernel := do
  let (k, bufIdx) ← drainRing d buffer len addressSpace k 0
  return k.setBufferIdx d bufIdx

/-- The first steps of a WRITE. -/
def startWrite (k : Kernel) (d : Fin 4) (buffer : UInt32) : Kernel :=
  let k := k.setBufferIdx d 0
  (k.outByte d (k.buffers buffer)).enableOutput d

/-- An iocb becomes the only one of an idle device. -/
def queueFirst (k : Kernel) (d : Fin 4) (a buffer len : UInt32) (op : IoOp) : Kernel :=
  let k := k.setDcb d { k.dcb d with iocbQueueHead := a, iocbQueueTail := a }
  let iocbNew := { pNext := 0, pcbRq := k.pcbRunning, buffer := buffer, bufferSz := len, ioOp := op }
  (k.setIocb a iocbNew).accept d iocbNew.request

/-- An iocb joins the queue of a busy device. -/
def queueLast (k : Kernel) (d : Fin 4) (a buffer len : UInt32) (op : IoOp) : Kernel :=
  let iocbNew := { pNext := 0, pcbRq := k.pcbRunning, buffer := buffer, bufferSz := len, ioOp := op }
  let tail := (k.dcb d).iocbQueueTail
  let k := k.setIocb a iocbNew
  let k := k.setIocb tail { k.iocbs tail with pNext := a }
  (k.setDcb d { k.dcb d with iocbQueueTail := a }).accept d iocbNew.request

def serialRead (k : Kernel) (dev buf len alloc : UInt32) : Option (Kernel × Option SerialError) :=
  if buf = 0 then some (k, some .rInvalidBuffer)
  else if len = 0 then some (k, some .rInvalidBufLen)
  else
    match serialDevno dev with
    | none => some (k, some .devNotFound)
    | some d =>
      if !(k.dcb d).isOpen then some (k, some .rPortNotOpen)
      else if (k.dcb d).iocbQueueHead ≠ 0 then some (k, some .rDevBusy)
      else if alloc = 0 then some (k, some .rOutOfMem)
      else (startRead (queueFirst k d alloc buf len .read) d buf len).map (·, none)

def serialWrite (k : Kernel) (dev buf len alloc : UInt32) : Kernel × Option SerialError :=
  if buf = 0 then (k, some .wInvalidBuffer)
  else if len = 0 then (k, some .wInvalidBufLen)
  else
    match serialDevno dev with
    | none => (k, some .devNotFound)
    | some d =>
      if !(k.dcb d).isOpen then (k, some .wPortNotOpen)
      else if (k.dcb d).iocbQueueHead ≠ 0 then (k, some .wDevBusy)
      else if alloc = 0 then (k, some .wOutOfMem)
      else (startWrite (queueFirst k d alloc buf len .write) d buf, none)

/-- How `serial_schedule_io` passes on the result of `serial_read` and `serial_write`. -/
def scheduleResult : Option SerialError → Option SerialError
  | some .rDevBusy => some .sDevBusy
  | some .rOutOfMem => some .sOutOfMem
  | some .wDevBusy => some .sDevBusy
  | some .wOutOfMem => some .sOutOfMem
  | _ => none

def serialScheduleIo (k : Kernel) (dev buffer bufferSz : UInt32) (ioOp : IoOp) (alloc : Ptr) :
    Option (Kernel × Option SerialError) :=
  if buffer = 0 then some (k, some .sInvalidBuffer)
  else if bufferSz = 0 then some (k, some .sInvalidBufLen)
  else
    match serialDevno dev with
    | none => some (k, some .sDevNotFound)
    | some d =>
      if !(k.dcb d).isOpen then some (k, some .sPortNotOpen)
      else if (k.dcb d).iocbQueueHead = 0 then
        match ioOp with
        | .read => do
          let (k, result) ← serialRead k dev buffer bufferSz alloc
          return (k, scheduleResult result)
        | .write =>
          let (k, result) := serialWrite k dev buffer bufferSz alloc
          some (k, scheduleResult result)
      else if alloc = 0 then some (k, some .sOutOfMem)
      else if (k.dcb d).iocbQueueTail = 0 then none
      else some (queueLast k d alloc buffer bufferSz ioOp, none)

/-- The wake-up of the process whose request is complete. -/
def wake (s : Procs) (pcb : Ptr) (count : UInt32) : Option Procs := do
  let (s, _) ← pcbRemove s pcb
  let s := s.setExec pcb .ready
  let ctxt ← (s.pcbs pcb).pctxt
  pcbInsert (s.setEax ctxt count) pcb

/-- The first iocb leaves the queue. -/
def dequeue (k : Kernel) (d : Fin 4) : Kernel :=
  let head := (k.dcb d).iocbQueueHead
  let iocbNext := (k.iocbs head).pNext
  let tail := if head = (k.dcb d).iocbQueueTail then iocbNext else (k.dcb d).iocbQueueTail
  (k.setDcb d { k.dcb d with event := false, iocbQueueHead := iocbNext, iocbQueueTail := tail }).retire d
    (k.iocbs head).request

/-- The first iocb leaves the queue, and the next one, if any, is started. -/
def advance (k : Kernel) (d : Fin 4) : Option Kernel :=
  let iocbPrev := k.iocbs (k.dcb d).iocbQueueHead
  let iocbNext := iocbPrev.pNext
  let k := dequeue k d
  if iocbNext ≠ 0 then
    let next := k.iocbs iocbNext
    let k := if next.ioOp ≠ iocbPrev.ioOp ∧ iocbPrev.ioOp = .write then k.disableOutput d else k
    match next.ioOp with
    | .read => startRead k d next.buffer next.bufferSz
    | .write => some (startWrite k d next.buffer)
  else some k

def serialCheckIo (k : Kernel) (dev : UInt32) : Option (Kernel × Int) :=
  match serialDevno dev with
  | none => some (k, -1)
  | some d =>
    if !(k.dcb d).isOpen then some (k, 0)
    else if (k.dcb d).event then
      let head := (k.dcb d).iocbQueueHead
      if head = 0 then none
      else do
        let procs ← wake k.procs (k.iocbs head).pcbRq (k.dcb d).bufferIdx
        let k ← advance { k with procs := procs } d
        return (k, 1)
    else some (k, 0)

/-- A byte is written to the ring buffer. A ring buffer whose indices are equal is taken to be full here. -/
def Dcb.push (dcb : Dcb) (byte : UInt8) : Dcb :=
  let rbegin :=
    if dcb.rbufferIdxEnd = dcb.rbufferIdxBegin then
      if dcb.rbufferIdxBegin + 1 = dcb.rbufferSz then 0 else dcb.rbufferIdxBegin + 1
    else dcb.rbufferIdxBegin
  { dcb with
    rbuffer := update dcb.rbuffer dcb.rbufferIdxEnd byte
    rbufferIdxBegin := rbegin
    rbufferIdxEnd := if dcb.rbufferIdxEnd + 1 = dcb.rbufferSz then 0 else dcb.rbufferIdxEnd + 1 }

def serialInputInterrupt (k : Kernel) (d : Fin 4) (byte : UInt8) : Option Kernel :=
  let dcb := k.dcb d
  if dcb.iocbQueueHead = 0 then none
  else
    let iocbRq := k.iocbs dcb.iocbQueueHead
    if iocbRq.ioOp ≠ .read then some (k.setDcb d (dcb.push byte))
    else if !dcb.event then
      let k := k.storeByte d (iocbRq.buffer + dcb.bufferIdx) byte
      let bufferIdx := dcb.bufferIdx + 1
      let event := decide (bufferIdx = iocbRq.bufferSz) || decide (byte = carriageReturn)
      some (k.setDcb d { dcb with bufferIdx := bufferIdx, event := event })
    else some k

def serialOutputInterrupt (k : Kernel) (d : Fin 4) : Option Kernel :=
  let dcb := k.dcb d
  if !dcb.event then
    if dcb.iocbQueueHead = 0 then none
    else
      let iocbRq := k.iocbs dcb.iocbQueueHead
      if iocbRq.ioOp = .write then
        let bufferIdx := dcb.bufferIdx + 1
        if bufferIdx = iocbRq.bufferSz then
          some ((k.setDcb d { dcb with bufferIdx := bufferIdx, event := true }).disableOutput d)
        else some ((k.setBufferIdx d bufferIdx).outByte d (k.buffers (iocbRq.buffer + bufferIdx)))
      else some k
  else some k

/-- What the interrupt identification register reports. -/
inductive Interrupt where
  | modemStatus | output | input (byte : UInt8) | lineStatus

/-- `serial_interrupt` for the device that raised the line. -/
def serialInterrupt (k : Kernel) (d : Fin 4) : Interrupt → Option Kernel
  | .output => if (k.dcb d).isOpen then serialOutputInterrupt k d else some k
  | .input byte => if (k.dcb d).isOpen then serialInputInterrupt k d byte else some k
  | .modemStatus => some k
  | .lineStatus => some k

def serialRbufferSize : UInt32 := 32

/-- An entry of `serial_dcb_list` before the first request, opened or not. -/
def bootPort (isOpen : Bool) : Port :=
  { dcb := {
      iocbQueueHead := 0
      iocbQueueTail := 0
      rbuffer := fun _ => 0
      rbufferSz := serialRbufferSize
      rbufferIdxBegin := 0
      rbufferIdxEnd := 0
      bufferIdx := 0
      isOpen := isOpen
      event := false }
    ier := 1
    sent := []
    history := ⟨[], [], []⟩ }

/-- The kernel before its first process. -/
def bootKernel (isOpen : Fin 4 → Bool) : Kernel :=
  { procs := {
      pcbs := fun _ => clearedPcb
      queues := fun i => { pcbHead := 0, pcbTail := 0, ispriority := decide (i = 0 ∨ i = 2) }
      contexts := fun _ => default
      clock := 0
      enqueued := fun _ => 0 }
    pcbRunning := 0
    contextOriginal := none
    ports := fun d => bootPort (isOpen d)
    iocbs := fun _ => { pNext := 0, pcbRq := 0, buffer := 0, bufferSz := 0, ioOp := .read }
    buffers := fun _ => 0 }

end Mpx.Device

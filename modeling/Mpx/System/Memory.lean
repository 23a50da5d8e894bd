import Mathlib.Algebra.BigOperators.Fin
import Mpx.Heap.Guarantees
import Mpx.Library.Holdings
import Mpx.System.Steady

/-! # The kernel and its heap

`kmain` hands `allocate_memory` and `free_memory` to `sys_set_heap_functions`. What a step of the kernel is
given by `sys_alloc_mem` and `sys_free_mem` is from then on what the heap answers, and the calls change the
heap in the order in which the step makes them. -/

namespace Mpx.System
open Function Library.Holdings Library.Transition Mpx.Process Mpx.Device
open Mpx.Heap (Session Call allocateMemory freeMemory)

/-- `sizeof(struct pcb)` and `sizeof(struct iocb)`. -/
def pcbSize : Nat := 80
def iocbSize : Nat := 20

/-- The machine, the heap, and the blocks that processes have asked for themselves. -/
structure Host where
  machine : Machine
  session : Session
  clients : List (Nat × Nat)

/-- A step of the machine, or a call of `sys_alloc_mem` or `sys_free_mem` by the running process. -/
inductive Event where
  | kernel (a : Action)
  | allocate (size : Nat)
  | free (ptr : Ptr)

/-! ### The calls of a step

`ok` says which calls of the heap are admitted: a run ends in front of a call that is not. -/

section
variable (ok : Session → Call → Prop) [∀ s c, Decidable (ok s c)]

def sysAllocMem (s : Session) (size : Nat) : Option (Session × Ptr) :=
  if ok s (.allocate size) then do
    let (h, p) ← allocateMemory s.heap size
    return ({ heap := h, live := if p = 0 then s.live else (p, size) :: s.live }, UInt32.ofNat p)
  else none

def sysFreeMem (s : Session) (ptr : Ptr) : Option (Session × Int) :=
  if ok s (.free ptr.toNat) then do
    let (h, result) ← freeMemory s.heap ptr.toNat
    return ({ heap := h, live := if result = 0 then s.live.filter (·.1 ≠ ptr.toNat) else s.live }, result)
  else none

/-- `pcb_allocate`: the PCB and its stack. -/
def pcbAllocateMem (s : Session) : Option (Session × Ptr × Ptr) := do
  let (s, pcb) ← sysAllocMem ok s pcbSize
  if pcb ≠ 0 then
    let (s, stack) ← sysAllocMem ok s pcbStackSz.toNat
    if stack ≠ 0 then return (s, pcb, stack)
    let (s, _) ← sysFreeMem ok s pcb
    return (s, pcb, 0)
  return (s, 0, 0)

/-- `pcb_setup` asks for memory once the name and the priority are good. -/
def pcbSetupMem (s : Session) (procs : Procs) (name : List UInt8) (pri : Nat) : Option (Session × Ptr × Ptr) :=
  if name.length + 1 ≤ pcbProcnameBufferSz then do
    let found ← pcbFind procs name
    if found = 0 ∧ pri ≤ pcbProcpriMax then pcbAllocateMem ok s
    else return (s, 0, 0)
  else some (s, 0, 0)

/-- `pcb_free`: the results for the stack and for the PCB. -/
def pcbFreeMem (s : Session) (procs : Procs) (pcb : Ptr) : Option (Session × Int × Int) := do
  let (s, freedStack) ← sysFreeMem ok s (procs.pcbs pcb).pstackseg
  if freedStack = 0 then
    let (s, freedPcb) ← sysFreeMem ok s pcb
    return (s, freedStack, freedPcb)
  return (s, freedStack, -1)

/-- The iocb that `serial_check_io` frees when it has work to do. -/
def headIocb (k : Kernel) (dev : UInt32) : Ptr := ((serialDevno dev).map fun d => (k.dcb d).iocbQueueHead).getD 0

/-- The loop of `sys_check_io`. -/
def checkDevicesMem : List UInt32 → Kernel → Session → Option Session
  | [], _, s => some s
  | dev :: rest, k, s => do
    let (k', result) ← serialCheckIo k dev
    if result = 1 then
      let (s, _) ← sysFreeMem ok s (headIocb k dev)
      checkDevicesMem rest k' s
    else checkDevicesMem rest k' s

def sysCheckIoMem (k : Kernel) (s : Session) : Option Session := checkDevicesMem ok [com1, com2, com3, com4] k s

/-- The trap is a READ or WRITE that gets as far as the `sys_alloc_mem` of `serial_schedule_io`. -/
def WantsIocb (k : Kernel) (context : Context) : Prop :=
  (context.eax = opRead ∨ context.eax = opWrite) ∧ context.ecx ≠ 0 ∧ context.edx ≠ 0 ∧
    (serialDevno context.ebx).any (fun d => (k.dcb d).isOpen) = true

instance (k : Kernel) (context : Context) : Decidable (WantsIocb k context) := inferInstanceAs (Decidable (_ ∧ _))

def sysScheduleIoMem (k : Kernel) (context : Context) (s : Session) : Option (Session × Ptr) :=
  if WantsIocb k context then sysAllocMem ok s iocbSize else some (s, 0)

/-- The trap frees the running process where it is an EXIT. -/
def exitPcbMem (k : Kernel) (context : Context) (s : Session) : Option (Session × Int × Int) :=
  if context.eax = opExit then pcbFreeMem ok s k.procs k.pcbRunning else some (s, 0, 0)

/-- The step has to create a process without a PCB or a stack for it. -/
def Action.Fails : Action → Prop
  | .create _ _ _ _ pcb stack => pcb = 0 ∨ stack = 0
  | _ => False

instance : (a : Action) → Decidable a.Fails
  | .create _ _ _ _ pcb stack => inferInstanceAs (Decidable (pcb = 0 ∨ stack = 0))
  | .trap .. | .poll | .interrupt .. | .compute .. | .delete .. | .suspend _ | .resume _ | .setPriority .. =>
    .isFalse not_false

/-- The action with the answers of the heap in it, and the heap after its calls. -/
def answered (m : Machine) (s : Session) : Action → Option (Session × Action)
  | .trap context offset _ _ _ => do
    let saved := saveContext m.kernel context offset
    let (k, _) ← sysCheckIo saved
    let s ← sysCheckIoMem ok saved s
    let (s, alloc) ← sysScheduleIoMem ok k context s
    let (s, freedStack, freedPcb) ← exitPcbMem ok k context s
    return (s, .trap context offset alloc freedStack freedPcb)
  | .poll => do
    let s ← sysCheckIoMem ok m.kernel s
    return (s, .poll)
  | .create name cls pri entry _ _ => do
    let (s, pcb, stack) ← pcbSetupMem ok s m.kernel.procs name pri
    return (s, .create name cls pri entry pcb stack)
  | .delete name _ _ =>
    match deleted m.kernel.procs name with
    | some pcb => do
      let (s, freedStack, freedPcb) ← pcbFreeMem ok s m.kernel.procs pcb
      return (s, .delete name freedStack freedPcb)
    | none => some (s, .delete name 0 0)
  | .interrupt d i => some (s, .interrupt d i)
  | .compute contexts buffers => some (s, .compute contexts buffers)
  | .suspend name => some (s, .suspend name)
  | .resume name => some (s, .resume name)
  | .setPriority pcb pri => some (s, .setPriority pcb pri)

namespace Host

def step (h : Host) : Event → Option Host
  | .kernel a => do
    let (s, a) ← answered ok h.machine h.session a
    -- `pcb_setup` returns NULL, and the command tells so.
    if a.Fails then
      if h.machine.kernel.pcbRunning = 0 then none
      else return { h with session := s }
    else do
      let m ← h.machine.step a
      return { h with machine := m, session := s }
  | .allocate size =>
    if h.machine.kernel.pcbRunning = 0 then none
    else do
      let (s, p) ← sysAllocMem ok h.session size
      return { h with session := s, clients := if p = 0 then h.clients else (p.toNat, size) :: h.clients }
  | .free ptr =>
    if h.machine.kernel.pcbRunning = 0 then none
    else do
      let (s, result) ← sysFreeMem ok h.session ptr
      return { h with
        session := s
        clients := if result = 0 then h.clients.filter (·.1 ≠ ptr.toNat) else h.clients }

/-- `kmain` behind `sys_set_heap_functions`. -/
def boot (k : Kernel) (b : BootInput) (s : Session) : Option Host := do
  let (s, comhandPcb, comhandStack) ← pcbAllocateMem ok s
  let (s, idlePcb, idleStack) ← pcbAllocateMem ok s
  let m ← System.boot k { b with
    comhandPcb := comhandPcb, comhandStack := comhandStack, idlePcb := idlePcb, idleStack := idleStack }
  return { machine := m, session := s, clients := [] }

/-- The boots of a kernel with a heap of `size` bytes at `base`. -/
def Booted (base size : Nat) (h : Host) : Prop :=
  ∃ k b s, Unbooted k ∧ Heap.Starts base size s ∧ b.context.eax = opIdle ∧ boot ok k b s = some h

end Host

end

/-! ### What the kernel holds -/

def pcbBlock (p : Ptr) : Nat × Nat := (p.toNat, pcbSize)

def stackBlock (procs : Procs) (p : Ptr) : Nat × Nat := ((procs.pcbs p).pstackseg.toNat, pcbStackSz.toNat)

def iocbBlock (a : Ptr) : Nat × Nat := (a.toNat, iocbSize)

/-- The PCBs and the stacks of these processes. -/
def processMem (procs : Procs) (live : List Ptr) : Multiset (Nat × Nat) :=
  ↑(live.map pcbBlock) + ↑(live.map (stackBlock procs))

/-- The iocbs in these queues. -/
def requestMem (pend : Fin 4 → List Ptr) : Multiset (Nat × Nat) := ∑ d, ↑((pend d).map iocbBlock)

def owned (m : Machine) : Multiset (Nat × Nat) :=
  processMem m.kernel.procs m.live + requestMem fun d => (m.kernel.requestQueue d).getD []

def Host.held (h : Host) : Multiset (Nat × Nat) := owned h.machine + ↑h.clients

/-- Delete PCB is not given for a blocked process, Set PCB Priority is for a queued one, and a process frees
nothing that is the kernel's. -/
def Event.Lawful (h : Host) : Event → Prop
  | .kernel (.delete name freedStack freedPcb) => (Action.delete name freedStack freedPcb).Spares h.machine
  | .kernel (.setPriority pcb pri) => (Action.setPriority pcb pri).Sane h.machine
  | .free ptr => ptr.toNat ∉ (owned h.machine).map Prod.fst
  | _ => True

instance (h : Host) : (e : Event) → Decidable (e.Lawful h)
  | .kernel (.delete name freedStack freedPcb) =>
      inferInstanceAs (Decidable ((Action.delete name freedStack freedPcb).Spares h.machine))
  | .kernel (.setPriority pcb pri) => inferInstanceAs (Decidable ((Action.setPriority pcb pri).Sane h.machine))
  | .free ptr => inferInstanceAs (Decidable (ptr.toNat ∉ (owned h.machine).map Prod.fst))
  | .kernel (.trap ..) | .kernel .poll | .kernel (.interrupt ..) | .kernel (.compute ..) | .kernel (.create ..)
  | .kernel (.suspend _) | .kernel (.resume _) | .allocate _ => .isTrue trivial

end Mpx.System

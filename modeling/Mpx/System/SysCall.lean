import Mpx.Device.Serial

/-! # System requests

`kernel/sys_call.c`, with the commands of `kernel/comhand.c` that move processes and the processes
of `kernel/kmain.c`. The results of `sys_alloc_mem` and `sys_free_mem` are arguments. -/

namespace Mpx.System
open Function Mpx.Process Mpx.Device

/-- How `sys_call` ends: with the context to load (NULL: that of the caller), or in the loop that
waits for interrupts. -/
inductive Outcome where
  | returned (ctxt : Option CtxPtr)
  | waiting
  deriving DecidableEq, Repr

def opExit : UInt32 := 0
def opIdle : UInt32 := 1
def opRead : UInt32 := 2
def opWrite : UInt32 := 3

def readyHead (k : Kernel) : Ptr := (k.procs.queues 0).pcbHead

/-- The loop of `sys_check_io` over the devices. -/
def checkDevices : List UInt32 → Kernel → Bool → Option (Kernel × Bool)
  | [], k, procsReady => some (k, procsReady)
  | dev :: rest, k, procsReady => do
    let (k, result) ← serialCheckIo k dev
    checkDevices rest k (procsReady || decide (result ≠ 0))

def sysCheckIo (k : Kernel) : Option (Kernel × Bool) := checkDevices [com1, com2, com3, com4] k false

/-- `pcb_running = runnext; runnext->state.exec = PCB_EXEC_RUNNING; return runnext->pctxt;` -/
def runPcb (k : Kernel) (runnext : Ptr) : Kernel × Outcome :=
  let procs := k.procs.setExec runnext .running
  ({ k with procs := procs, pcbRunning := runnext }, .returned (procs.pcbs runnext).pctxt)

/-- The head of the active ready queue is taken off it and run. -/
def dispatch (k : Kernel) : Option (Kernel × Outcome) := do
  let (procs, _) ← pcbRemove k.procs (readyHead k)
  return runPcb { k with procs := procs } (readyHead k)

/-- The cases READ and WRITE. -/
def requestIo (k : Kernel) (contextIn : CtxPtr) (ioOp : IoOp) (alloc : Ptr) : Option (Kernel × Outcome) :=
  if k.pcbRunning ≠ 0 then do
    let context := k.procs.contexts contextIn
    let (k, result) ← serialScheduleIo k context.ebx context.ecx context.edx ioOp alloc
    if result ≠ none then return (k, .returned none)
    let procs := (k.procs.setExec k.pcbRunning .blocked).setPctxt k.pcbRunning (some contextIn)
    let procs ← pcbInsert procs k.pcbRunning
    let k := { k with procs := procs }
    if readyHead k ≠ 0 then dispatch k
    else return ({ k with pcbRunning := 0 }, .waiting)
  else some ({ k with procs := k.procs.setEax contextIn 0xffffffff }, .returned none)

/-- The case IDLE. -/
def yieldPcb (k : Kernel) (contextIn : CtxPtr) : Option (Kernel × Outcome) :=
  let k := if k.contextOriginal = none then { k with contextOriginal := some contextIn } else k
  if readyHead k ≠ 0 then do
    let runnext := readyHead k
    let (procs, _) ← pcbRemove k.procs runnext
    if k.pcbRunning ≠ 0 then
      let procs := (procs.setPctxt k.pcbRunning (some contextIn)).setExec k.pcbRunning .ready
      let procs ← pcbInsert procs k.pcbRunning
      return runPcb { k with procs := procs } runnext
    else return runPcb { k with procs := procs } runnext
  else some (k, .returned none)

/-- The case EXIT. -/
def exitPcb (k : Kernel) (freedStack freedPcb : Int) : Option (Kernel × Outcome) := do
  let (procs, _) ← pcbFree k.procs k.pcbRunning freedStack freedPcb
  let k := { k with procs := procs }
  if readyHead k ≠ 0 then dispatch k
  else
    match k.contextOriginal with
    | some temp => return ({ k with pcbRunning := 0, contextOriginal := none }, .returned (some temp))
    | none => return (k, .returned none)

def sysCall (k : Kernel) (contextIn : CtxPtr) (alloc : Ptr) (freedStack freedPcb : Int) :
    Option (Kernel × Outcome) := do
  let op := (k.procs.contexts contextIn).eax
  let (k, _) ← sysCheckIo k
  let k := { k with procs := k.procs.setEax contextIn 0 }
  if op = opRead then requestIo k contextIn .read alloc
  else if op = opWrite then requestIo k contextIn .write alloc
  else if op = opIdle then yieldPcb k contextIn
  else if op = opExit then exitPcb k freedStack freedPcb
  else some (k, .returned none)

/-- One turn of the loop that waits for interrupts, and what follows the loop. -/
def waitIo (k : Kernel) : Option (Kernel × Outcome) := do
  let (k, procsReady) ← sysCheckIo k
  if procsReady then dispatch k else return (k, .waiting)

/-! ### Commands -/

def deletePcbCommand (s : Procs) (name : List UInt8) (freedStack freedPcb : Int) : Option Procs := do
  let procfound ← pcbFind s name
  if procfound = 0 then return s
  if (s.state procfound).cls = .system then return s
  let (s, _) ← pcbRemove s procfound
  let (s, _) ← pcbFree s procfound freedStack freedPcb
  return s

def suspendPcbCommand (s : Procs) (name : List UInt8) : Option Procs := do
  let procfound ← pcbFind s name
  if procfound = 0 then return s
  if (s.state procfound).cls = .system then return s
  let (s, _) ← pcbRemove s procfound
  pcbInsert (s.setState procfound { s.state procfound with dpatch := .suspended }) procfound

def resumePcbCommand (s : Procs) (name : List UInt8) : Option Procs := do
  let procfound ← pcbFind s name
  if procfound = 0 then return s
  let (s, _) ← pcbRemove s procfound
  pcbInsert (s.setState procfound { s.state procfound with dpatch := .active }) procfound

/-- The step of `setPcbPriorityCommand` that follows its prompts. -/
def setPcbPriority (s : Procs) (pcbFindres : Ptr) (procPri : Nat) : Option Procs :=
  if procPri ≤ pcbProcpriMax then do
    let (s, _) ← pcbRemove s pcbFindres
    pcbInsert (s.setState pcbFindres { s.state pcbFindres with pri := procPri }) pcbFindres
  else some s

/-- What the entry function of a new process is given, if its context is set up at all. -/
structure Entry where
  func : UInt32
  fargs : UInt32
  fargc : UInt32

/-- `pcb_setup`, perhaps `pcb_context_init`, and `pcb_insert`. -/
def createPcb (s : Procs) (name : List UInt8) (cls : ProcClassState) (pri : Nat) (entry : Option Entry)
    (pcb stack : Ptr) : Option Procs := do
  let (s, pcbNew) ← pcbSetup s name cls pri pcb stack
  let s ←
    match entry with
    | some e => pcbContextInit s pcbNew e.func e.fargs e.fargc
    | none => some s
  pcbInsert s pcbNew

end Mpx.System

import Mpx.Device.Service
import Mpx.System.SysCall

/-! # The machine

The kernel together with the processes and devices around it. A process computes, issues commands
and traps; interrupts arrive at any time; the loop that waits for them is taken turn by turn. Next to
the kernel stands a record of what has happened, which the code does not see. -/

namespace Mpx.System
open Function Library.Links Library.Transition Mpx.Process Mpx.Device

/-- The last trap of a process: its saved context and, if a request was accepted, the device and the
number of the request there. -/
structure Trap where
  context : Context
  request : Option (Fin 4 × Nat)
  deriving DecidableEq

/-- `live` holds the processes that were created and have not been ended, and `entered` is where
`sys_call` returned to last. -/
structure Machine where
  kernel : Kernel
  waiting : Bool
  live : List Ptr
  trapped : Ptr → Option Trap
  entered : Option CtxPtr

inductive Action where
  | trap (context : Context) (offset : UInt32) (alloc : Ptr) (freedStack freedPcb : Int)
  | poll
  | interrupt (d : Fin 4) (i : Interrupt)
  | compute (contexts : UInt32 → Context) (buffers : Ptr → UInt8)
  | create (name : List UInt8) (cls : ProcClassState) (pri : Nat) (entry : Option Entry) (pcb stack : Ptr)
  | delete (name : List UInt8) (freedStack freedPcb : Int)
  | suspend (name : List UInt8)
  | resume (name : List UInt8)
  | setPriority (pcb : Ptr) (pri : Nat)

/-- The request that `k'` has accepted and `k` has not. -/
def newRequest (k k' : Kernel) (d : Fin 4) : Option (Fin 4 × Nat) :=
  if (k.history d).accepted.length < (k'.history d).accepted.length then
    some (d, (k.history d).accepted.length)
  else none

/-- The process that `deletePcbCommand` ends. -/
def deleted (s : Procs) (name : List UInt8) : Option Ptr :=
  (pcbFind s name).filter fun p => p ≠ 0 ∧ (s.state p).cls ≠ .system

/-- The place on its own stack where a trap of the running process saves its context. -/
def savedAt (k : Kernel) (offset : UInt32) : CtxPtr := ⟨(k.procs.pcbs k.pcbRunning).pstackseg, offset⟩

/-- The running process stores into its own stack and into the buffers. -/
def store (k : Kernel) (contexts : UInt32 → Context) (buffers : Ptr → UInt8) : Kernel :=
  let own := (k.procs.pcbs k.pcbRunning).pstackseg
  let contexts := fun c => if c.segment = own then contexts c.offset else k.procs.contexts c
  { k with procs := { k.procs with contexts := contexts }, buffers := buffers }

/-- A trap saves the context of the running process. -/
def saveContext (k : Kernel) (context : Context) (offset : UInt32) : Kernel :=
  { k with procs := k.procs.setContext (savedAt k offset) context }

namespace Machine

def withProcs (m : Machine) (procs : Procs) : Machine := { m with kernel := { m.kernel with procs := procs } }

/-- `sys_call` has come to an end, or to its loop. -/
def settle (m : Machine) (caller : Option CtxPtr) : Kernel × Outcome → Machine
  | (k, .waiting) => { m with kernel := k, waiting := true }
  | (k, .returned none) => { m with kernel := k, waiting := false, entered := caller }
  | (k, .returned (some ctxt)) => { m with kernel := k, waiting := false, entered := some ctxt }

def trap (m : Machine) (context : Context) (offset : UInt32) (alloc : Ptr) (freedStack freedPcb : Int) :
    Option Machine := do
  let running := m.kernel.pcbRunning
  let contextIn := savedAt m.kernel offset
  let (k', outcome) ← sysCall (saveContext m.kernel context offset) contextIn alloc freedStack freedPcb
  let record := { context := context, request := (serialDevno context.ebx).bind (newRequest m.kernel k') }
  let live := if context.eax = opExit then m.live.filter (· ≠ running) else m.live
  return { m with live := live, trapped := update m.trapped running (some record) }.settle (some contextIn)
    (k', outcome)

def step (m : Machine) : Action → Option Machine
  | .poll =>
    if m.waiting then do
      let (k, outcome) ← waitIo m.kernel
      return m.settle none (k, outcome)
    else none
  | .interrupt d i => do
    let k ← serialInterrupt m.kernel d i
    return { m with kernel := k }
  | .trap context offset alloc freedStack freedPcb =>
    if m.kernel.pcbRunning = 0 then none else m.trap context offset alloc freedStack freedPcb
  | .compute contexts buffers =>
    if m.kernel.pcbRunning = 0 then none
    else some { m with kernel := store m.kernel contexts buffers }
  | .create name cls pri entry pcb stack =>
    if m.kernel.pcbRunning = 0 then none
    else do
      let procs ← createPcb m.kernel.procs name cls pri entry pcb stack
      return { m.withProcs procs with live := pcb :: m.live, trapped := update m.trapped pcb none }
  | .delete name freedStack freedPcb =>
    if m.kernel.pcbRunning = 0 then none
    else do
      let procs ← deletePcbCommand m.kernel.procs name freedStack freedPcb
      return { m.withProcs procs with live := m.live.filter (some · ≠ deleted m.kernel.procs name) }
  | .suspend name =>
    if m.kernel.pcbRunning = 0 then none
    else do
      let procs ← suspendPcbCommand m.kernel.procs name
      return m.withProcs procs
  | .resume name =>
    if m.kernel.pcbRunning = 0 then none
    else do
      let procs ← resumePcbCommand m.kernel.procs name
      return m.withProcs procs
  | .setPriority pcb pri =>
    if m.kernel.pcbRunning = 0 then none
    else do
      let procs ← setPcbPriority m.kernel.procs pcb pri
      return m.withProcs procs

end Machine

/-- The chain from the head of a process queue. -/
def queueList (s : Procs) (i : Fin 4) : Option (List Ptr) := walk s.pNext 0 addressSpace (s.queues i).pcbHead

/-- `sys_alloc_mem` returns NULL or memory of no live object, and a new priority is for a queued PCB. -/
def Action.Sane (m : Machine) : Action → Prop
  | .trap context offset alloc _ _ => alloc = 0 ∨
      ∀ checked ∈ sysCheckIo (saveContext m.kernel context offset),
        ∀ d, ∀ l ∈ checked.1.requestQueue d, alloc ∉ l
  | .create _ _ _ _ pcb stack =>
      pcb ∉ m.live ∧ ∀ p ∈ m.live, (m.kernel.procs.pcbs p).pstackseg ≠ stack
  | .setPriority pcb _ => ∃ i, ∃ l ∈ queueList m.kernel.procs i, pcb ∈ l
  | _ => True

/-- The command Delete PCB is not given for a blocked process. -/
def Action.Spares (m : Machine) : Action → Prop
  | .delete name _ _ => ∀ p ∈ deleted m.kernel.procs name, (m.kernel.procs.state p).exec ≠ .blocked
  | _ => True

-- The instances are named: a quantifier over pointers ranges over a list and not over all 2^32 of them.
instance (m : Machine) : (a : Action) → Decidable (a.Sane m)
  | .trap _ _ _ _ _ =>
      @instDecidableOr _ _ _ (@Option.decidableForallMem _ _ (fun _ => Nat.decidableForallFin _) _)
  | .create _ _ _ _ _ _ => @instDecidableAnd _ _ _ (List.decidableBAll _ m.live)
  | .setPriority _ _ => Nat.decidableExistsFin _
  | .poll | .interrupt .. | .compute .. | .delete .. | .suspend _ | .resume _ => .isTrue trivial

instance (m : Machine) : (a : Action) → Decidable (a.Spares m)
  | .delete _ _ _ => Option.decidableForallMem _
  | .trap .. | .poll | .interrupt .. | .compute .. | .create .. | .suspend _ | .resume _ | .setPriority .. =>
    .isTrue trivial

/-! ### Boot -/

/-- The kernel as `kmain` finds it in front of its first `pcb_setup`, with any ports opened. -/
structure Unbooted (k : Kernel) : Prop where
  ports : ∀ d, (k.ports d).Idle
  queues : ∀ i, k.procs.queues i = { pcbHead := 0, pcbTail := 0, ispriority := decide (i = 0 ∨ i = 2) }
  running : k.pcbRunning = 0
  original : k.contextOriginal = none

/-- What `sys_alloc_mem` returns for the two processes of `kmain`, where their entry functions are, and
the context that the first trap saves on the boot stack. -/
structure BootInput where
  comhandPcb : Ptr
  comhandStack : Ptr
  comhand : UInt32
  idlePcb : Ptr
  idleStack : Ptr
  sysIdleProcess : UInt32
  context : Context
  offset : UInt32

structure BootInput.Fresh (b : BootInput) : Prop where
  pcbs : b.comhandPcb ≠ b.idlePcb
  segments : b.comhandStack ≠ b.idleStack
  idle : b.context.eax = opIdle

-- "comhand" and "idle" in ASCII.
def comhandName : List UInt8 := [99, 111, 109, 104, 97, 110, 100]
def idleName : List UInt8 := [105, 100, 108, 101]

def boot (k : Kernel) (b : BootInput) : Option Machine := do
  let procs ← createPcb k.procs comhandName .system 0 (some ⟨b.comhand, 0, 0⟩) b.comhandPcb b.comhandStack
  let procs ← createPcb procs idleName .system 9 (some ⟨b.sysIdleProcess, 0, 0⟩) b.idlePcb b.idleStack
  -- The boot stack is no allocated segment.
  let contextIn := ⟨0, b.offset⟩
  let k := { k with procs := procs.setContext contextIn b.context }
  let (k, outcome) ← sysCall k contextIn 0 0 0
  let m : Machine := {
    kernel := k
    waiting := false
    live := [b.idlePcb, b.comhandPcb]
    trapped := fun _ => none
    entered := none }
  return m.settle (some contextIn) (k, outcome)

def Booted (m : Machine) : Prop := ∃ k b, Unbooted k ∧ b.Fresh ∧ boot k b = some m

end Mpx.System

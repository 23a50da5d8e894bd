import Mathlib.Algebra.Group.Nat.Defs
import Mathlib.Logic.Function.Basic

/-! # Process control blocks

`pcb.h` and `kernel/pcb.c`. Memory is typed here: a PCB is found under its address, a saved context
under the stack segment that holds it and its offset there. What `sys_alloc_mem` and `sys_free_mem`
return is an argument. `none` stands for a run that follows NULL or never leaves a loop. -/

namespace Mpx.Process
open Function

/-- An address; 0 is NULL. -/
abbrev Ptr := UInt32

/-- More nodes than addresses: a walk of this many steps goes round for ever. -/
def addressSpace : Nat := 2 ^ 32

inductive ProcExecState where
  | blocked | ready | running
  deriving DecidableEq, Repr

inductive ProcDispatchState where
  | suspended | active
  deriving DecidableEq, Repr

inductive ProcClassState where
  | system | user
  deriving DecidableEq, Repr

structure PcbState where
  exec : ProcExecState
  dpatch : ProcDispatchState
  cls : ProcClassState
  pri : Nat
  deriving DecidableEq, Repr

/-- A place in a stack segment. -/
structure CtxPtr where
  segment : Ptr
  offset : UInt32
  deriving DecidableEq, Repr

structure Context where
  gs : UInt16
  pad1 : UInt16
  fs : UInt16
  pad2 : UInt16
  es : UInt16
  pad3 : UInt16
  ds : UInt16
  pad4 : UInt16
  ss : UInt16
  pad5 : UInt16
  edi : UInt32
  esi : UInt32
  ebp : UInt32
  esp : UInt32
  ebx : UInt32
  edx : UInt32
  ecx : UInt32
  eax : UInt32
  eip : UInt32
  cs : UInt16
  pad6 : UInt16
  eflags : UInt32
  deriving DecidableEq, Repr, Inhabited

/-- `sizeof(struct context)`. -/
def contextSize : UInt32 := 64

structure Pcb where
  pNext : Ptr
  state : PcbState
  pstackseg : Ptr
  pctxt : Option CtxPtr
  name : List UInt8
  deriving DecidableEq, Repr

structure PcbQueue where
  pcbHead : Ptr
  pcbTail : Ptr
  ispriority : Bool
  deriving DecidableEq, Repr

/-- For the four queues and the four ports. -/
instance four_neZero : @NeZero Nat Zero.ofOfNat0 4 := ⟨by decide⟩

/-- The process side of kernel memory. `clock` and `enqueued` record when a PCB was last inserted
into the active ready queue; the code does not see them. -/
structure Procs where
  pcbs : Ptr → Pcb
  queues : Fin 4 → PcbQueue
  contexts : CtxPtr → Context
  clock : Nat
  enqueued : Ptr → Nat

/-- `PSTATE_QUEUE_SELECTOR`: active ready, active blocked, suspended ready, suspended blocked. -/
def PcbState.queueSelector (state : PcbState) : Fin 4 :=
  (if state.exec ≠ .ready then 1 else 0) + 2 * (if state.dpatch ≠ .active then 1 else 0)

def Procs.pNext (s : Procs) (p : Ptr) : Ptr := (s.pcbs p).pNext

def Procs.state (s : Procs) (p : Ptr) : PcbState := (s.pcbs p).state

def Procs.setPcb (s : Procs) (p : Ptr) (pcb : Pcb) : Procs := { s with pcbs := update s.pcbs p pcb }

def Procs.setNext (s : Procs) (p next : Ptr) : Procs := s.setPcb p { s.pcbs p with pNext := next }

def Procs.setState (s : Procs) (p : Ptr) (state : PcbState) : Procs :=
  s.setPcb p { s.pcbs p with state := state }

def Procs.setExec (s : Procs) (p : Ptr) (exec : ProcExecState) : Procs :=
  s.setState p { s.state p with exec := exec }

def Procs.setPctxt (s : Procs) (p : Ptr) (ctxt : Option CtxPtr) : Procs :=
  s.setPcb p { s.pcbs p with pctxt := ctxt }

def Procs.setHead (s : Procs) (i : Fin 4) (p : Ptr) : Procs :=
  { s with queues := update s.queues i { s.queues i with pcbHead := p } }

def Procs.setTail (s : Procs) (i : Fin 4) (p : Ptr) : Procs :=
  { s with queues := update s.queues i { s.queues i with pcbTail := p } }

def Procs.setContext (s : Procs) (c : CtxPtr) (context : Context) : Procs :=
  { s with contexts := update s.contexts c context }

def Procs.setEax (s : Procs) (c : CtxPtr) (eax : UInt32) : Procs :=
  s.setContext c { s.contexts c with eax := eax }

def Procs.stamp (s : Procs) (i : Fin 4) (p : Ptr) : Procs :=
  if i = 0 then { s with clock := s.clock + 1, enqueued := update s.enqueued p s.clock } else s

/-- The loop of `pcb_insert`: the first node of lower priority and the one in front of it. -/
def priorityScan (s : Procs) (pri : Nat) : Nat → Ptr → Ptr → Option (Ptr × Ptr)
  | 0, _, _ => none
  | fuel + 1, prevcmpnode, cmpnode =>
    if (s.state cmpnode).pri ≤ pri then
      if s.pNext cmpnode = 0 then some (cmpnode, 0)
      else priorityScan s pri fuel cmpnode (s.pNext cmpnode)
    else some (prevcmpnode, cmpnode)

def insertTail (s : Procs) (i : Fin 4) (tail pcbIn : Ptr) : Option Procs :=
  if tail = 0 then none else some ((s.setNext tail pcbIn).setTail i pcbIn)

def insertHead (s : Procs) (i : Fin 4) (pcbIn : Ptr) : Procs :=
  (s.setNext pcbIn (s.queues i).pcbHead).setHead i pcbIn

def pcbInsert (s : Procs) (pcbIn : Ptr) : Option Procs :=
  if pcbIn = 0 then none
  else
    let i := (s.state pcbIn).queueSelector
    let pri := (s.state pcbIn).pri
    let queue := s.queues i
    let s := s.stamp i pcbIn
    if queue.pcbHead ≠ 0 then
      if s.pNext queue.pcbHead = 0 then
        if queue.ispriority then
          if pri < (s.state queue.pcbHead).pri then some (insertHead s i pcbIn)
          else insertTail s i queue.pcbHead pcbIn
        else insertTail s i queue.pcbHead pcbIn
      else if queue.ispriority then do
        let (prevcmpnode, cmpnode) ← priorityScan s pri addressSpace 0 queue.pcbHead
        if cmpnode = 0 then insertTail s i queue.pcbTail pcbIn
        else if cmpnode = queue.pcbHead then some (insertHead s i pcbIn)
        else some ((s.setNext prevcmpnode pcbIn).setNext pcbIn cmpnode)
      else insertTail s i queue.pcbTail pcbIn
    else some ((s.setHead i pcbIn).setTail i pcbIn)

/-- The loop of `pcb_remove`: the node in front of `pcb`, or 0. -/
def removeScan (s : Procs) (pcb : Ptr) : Nat → Ptr → Option Ptr
  | 0, _ => none
  | fuel + 1, iter =>
    if s.pNext iter = 0 then some 0
    else if s.pNext iter = pcb then some iter
    else removeScan s pcb fuel (s.pNext iter)

def pcbRemove (s : Procs) (pcb : Ptr) : Option (Procs × Int) :=
  if pcb = 0 then none
  else
    let i := (s.state pcb).queueSelector
    let queue := s.queues i
    if queue.pcbHead = 0 then some (s, -1)
    else if queue.pcbHead = pcb then
      let s := if queue.pcbHead = queue.pcbTail then s.setTail i 0 else s
      some ((s.setHead i (s.pNext pcb)).setNext pcb 0, 0)
    else if s.pNext queue.pcbHead = 0 then some (s, -1)
    else do
      let iter ← removeScan s pcb addressSpace queue.pcbHead
      if iter = 0 then return (s, -1)
      let s := if pcb = queue.pcbTail then s.setTail i iter else s
      return ((s.setNext iter (s.pNext pcb)).setNext pcb 0, 0)

/-- The inner loop of `pcb_find`. -/
def findIn (s : Procs) (name : List UInt8) : Nat → Ptr → Option Ptr
  | 0, _ => none
  | fuel + 1, iter =>
    if name = (s.pcbs iter).name then some iter
    else if s.pNext iter = 0 then some 0
    else findIn s name fuel (s.pNext iter)

def findFrom (s : Procs) (name : List UInt8) : List (Fin 4) → Option Ptr
  | [] => some 0
  | i :: rest =>
    if (s.queues i).pcbHead ≠ 0 then do
      let found ← findIn s name addressSpace (s.queues i).pcbHead
      if found ≠ 0 then return found
      findFrom s name rest
    else findFrom s name rest

def pcbFind (s : Procs) (name : List UInt8) : Option Ptr := findFrom s name [0, 1, 2, 3]

def pcbProcnameBufferSz : Nat := 64
def pcbProcpriMax : Nat := 9
def pcbStackSz : UInt32 := 4096
def pcbMaxArgSz : UInt32 := 32

/-- `pcb` and `stack` are what the two calls of `sys_alloc_mem` return. -/
def pcbAllocate (s : Procs) (pcb stack : Ptr) : Procs × Ptr :=
  if pcb ≠ 0 then
    let s := s.setPcb pcb { s.pcbs pcb with pstackseg := stack }
    if stack ≠ 0 then (s, pcb) else (s, 0)
  else (s, 0)

def pcbSetup (s : Procs) (name : List UInt8) (cls : ProcClassState) (pri : Nat) (pcb stack : Ptr) :
    Option (Procs × Ptr) :=
  if name.length + 1 ≤ pcbProcnameBufferSz then do
    let found ← pcbFind s name
    if found = 0 then
      if pri ≤ pcbProcpriMax then
        let (s, pcbNew) := pcbAllocate s pcb stack
        if pcbNew ≠ 0 then
          let pcb := {
            pNext := 0
            name := name
            state := { pri := pri, exec := .ready, dpatch := .active, cls := cls }
            pstackseg := (s.pcbs pcbNew).pstackseg
            pctxt := some ⟨(s.pcbs pcbNew).pstackseg, pcbStackSz - 1⟩ }
          return (s.setPcb pcbNew pcb, pcbNew)
        return (s, 0)
      return (s, 0)
    return (s, 0)
  else some (s, 0)

/-- `fargs` is only tested for NULL here: the bytes of a stack other than saved contexts are not
part of the state. -/
def pcbContextInit (s : Procs) (pcb : Ptr) (func fargs fargc : UInt32) : Option Procs :=
  if fargc > pcbMaxArgSz then some s
  else if pcb = 0 then none
  else do
    let ctxt ← (s.pcbs pcb).pctxt
    let ctxt := if fargs ≠ 0 then { ctxt with offset := ctxt.offset - fargc + 1 } else ctxt
    let oppo := ctxt.offset - 4
    let ctxt := { ctxt with offset := oppo - contextSize }
    let s := s.setPctxt pcb (some ctxt)
    let context := {
      s.contexts ctxt with
      ss := 0x0010
      ds := 0x0010
      es := 0x0010
      fs := 0x0010
      gs := 0x0010
      edi := 0
      esi := 0
      ebp := ctxt.segment + oppo
      esp := ctxt.segment + oppo
      ebx := 0
      edx := 0
      ecx := 0
      eax := 0
      eip := func
      cs := 0x0008
      eflags := 0x00000202 }
    return s.setContext ctxt context

/-- What `memset(pcb, 0, sizeof(struct pcb))` leaves. -/
def clearedPcb : Pcb :=
  { pNext := 0, state := ⟨.blocked, .suspended, .system, 0⟩, pstackseg := 0, pctxt := none, name := [] }

/-- `freedStack` and `freedPcb` are what the two calls of `sys_free_mem` return. -/
def pcbFree (s : Procs) (pcb : Ptr) (freedStack freedPcb : Int) : Option (Procs × Int) :=
  if pcb = 0 then none
  else if freedStack = 0 then
    let s := s.setPcb pcb clearedPcb
    if freedPcb = 0 then some (s, 0) else some (s, -1)
  else some (s, -1)

end Mpx.Process

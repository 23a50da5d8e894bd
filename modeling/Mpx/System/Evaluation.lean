import Mpx.Library.Strict
import Mpx.System.Reachable

/-! # Evaluating machines

What a run on fixed inputs looks at again and again is computed after every step. -/

namespace Mpx.System
open Function Library.Strict Library.Transition Mpx.Process Mpx.Device

variable {β : Type}

def strictExec (exec : ProcExecState) (f : ProcExecState → β) : β :=
  match exec with
  | .blocked => f .blocked
  | .ready => f .ready
  | .running => f .running

def strictDispatch (dpatch : ProcDispatchState) (f : ProcDispatchState → β) : β :=
  match dpatch with
  | .suspended => f .suspended
  | .active => f .active

def strictOp (op : IoOp) (f : IoOp → β) : β :=
  match op with
  | .read => f .read
  | .write => f .write

def strictClass (cls : ProcClassState) (f : ProcClassState → β) : β :=
  match cls with
  | .system => f .system
  | .user => f .user

def strictPlace (c : Option CtxPtr) (f : Option CtxPtr → β) : β :=
  match c with
  | none => f none
  | some ⟨segment, offset⟩ => strictWord segment fun segment => strictWord offset fun offset => f (some ⟨segment, offset⟩)

def strictState (state : PcbState) (f : PcbState → β) : β :=
  match state with
  | ⟨exec, dpatch, cls, pri⟩ => strictExec exec fun exec => strictDispatch dpatch fun dpatch =>
      strictClass cls fun cls => strictNat pri fun pri => f ⟨exec, dpatch, cls, pri⟩

def strictPcb (pcb : Pcb) (f : Pcb → β) : β :=
  match pcb with
  | ⟨pNext, state, pstackseg, pctxt, name⟩ => strictWord pNext fun pNext => strictState state fun state =>
      strictWord pstackseg fun pstackseg => strictPlace pctxt fun pctxt => f ⟨pNext, state, pstackseg, pctxt, name⟩

def strictQueue (queue : PcbQueue) (f : PcbQueue → β) : β :=
  match queue with
  | ⟨head, tail, ispriority⟩ => strictWord head fun head => strictWord tail fun tail =>
      strictBool ispriority fun ispriority => f ⟨head, tail, ispriority⟩

def strictIocb (iocb : Iocb) (f : Iocb → β) : β :=
  match iocb with
  | ⟨pNext, pcbRq, buffer, bufferSz, ioOp⟩ => strictWord pNext fun pNext => strictWord pcbRq fun pcbRq =>
      strictWord buffer fun buffer => strictWord bufferSz fun bufferSz => strictOp ioOp fun ioOp =>
        f ⟨pNext, pcbRq, buffer, bufferSz, ioOp⟩

def strictDcb (dcb : Dcb) (f : Dcb → β) : β :=
  match dcb with
  | ⟨head, tail, rbuffer, size, first, last, idx, isOpen, event⟩ => strictWord head fun head =>
      strictWord tail fun tail => strictWord first fun first => strictWord last fun last =>
        strictWord idx fun idx => strictBool isOpen fun isOpen => strictBool event fun event =>
          f ⟨head, tail, rbuffer, size, first, last, idx, isOpen, event⟩

def strictPort (port : Port) (f : Port → β) : β :=
  match port with
  | ⟨dcb, ier, sent, history⟩ => strictDcb dcb fun dcb => f ⟨dcb, ier, sent, history⟩

/-- With the PCBs and the iocbs at the addresses given. -/
def strictMachine (pcbs iocbs : List Ptr) (m : Machine) (f : Machine → β) : β :=
  match m with
  | ⟨⟨⟨pcb, queue, contexts, clock, enqueued⟩, running, original, port, iocb, buffers⟩, waiting, live, trapped, entered⟩ =>
    strictAt strictPcb pcbs pcb fun pcb => strictAt strictQueue [0, 1, 2, 3] queue fun queue =>
      strictAt strictPort [0, 1, 2, 3] port fun port => strictAt strictIocb iocbs iocb fun iocb =>
        strictWord running fun running => strictPlace original fun original => strictBool waiting fun waiting =>
          f ⟨⟨⟨pcb, queue, contexts, clock, enqueued⟩, running, original, port, iocb, buffers⟩, waiting, live, trapped,
            entered⟩

theorem strictExec_eq (exec : ProcExecState) (f : ProcExecState → β) : strictExec exec f = f exec := by
  cases exec <;> rfl

theorem strictDispatch_eq (dpatch : ProcDispatchState) (f : ProcDispatchState → β) :
    strictDispatch dpatch f = f dpatch := by
  cases dpatch <;> rfl

theorem strictClass_eq (cls : ProcClassState) (f : ProcClassState → β) : strictClass cls f = f cls := by
  cases cls <;> rfl

theorem strictOp_eq (op : IoOp) (f : IoOp → β) : strictOp op f = f op := by
  cases op <;> rfl

theorem strictPlace_eq (c : Option CtxPtr) (f : Option CtxPtr → β) : strictPlace c f = f c := by
  cases c with
  | none => rfl
  | some c =>
    unfold strictPlace
    dsimp only
    rw [strictWord_eq, strictWord_eq]

theorem strictState_eq (state : PcbState) (f : PcbState → β) : strictState state f = f state := by
  unfold strictState
  dsimp only
  rw [strictExec_eq, strictDispatch_eq, strictClass_eq, strictNat_eq]

theorem strictPcb_eq (pcb : Pcb) (f : Pcb → β) : strictPcb pcb f = f pcb := by
  unfold strictPcb
  dsimp only
  rw [strictWord_eq, strictState_eq, strictWord_eq, strictPlace_eq]

theorem strictQueue_eq (queue : PcbQueue) (f : PcbQueue → β) : strictQueue queue f = f queue := by
  unfold strictQueue
  dsimp only
  rw [strictWord_eq, strictWord_eq, strictBool_eq]

theorem strictIocb_eq (iocb : Iocb) (f : Iocb → β) : strictIocb iocb f = f iocb := by
  unfold strictIocb
  dsimp only
  rw [strictWord_eq, strictWord_eq, strictWord_eq, strictWord_eq, strictOp_eq]

theorem strictPort_eq (port : Port) (f : Port → β) : strictPort port f = f port := by
  unfold strictPort strictDcb
  dsimp only
  rw [strictWord_eq, strictWord_eq, strictWord_eq, strictWord_eq, strictWord_eq, strictBool_eq, strictBool_eq]

theorem strictMachine_eq (pcbs iocbs : List Ptr) (m : Machine) (f : Machine → β) :
    strictMachine pcbs iocbs m f = f m := by
  unfold strictMachine
  dsimp only
  rw [strictAt_eq strictPcb_eq, strictAt_eq strictQueue_eq, strictAt_eq strictPort_eq, strictAt_eq strictIocb_eq,
    strictWord_eq, strictPlace_eq, strictBool_eq]

end Mpx.System

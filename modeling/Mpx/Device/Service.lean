import Mpx.Device.Devices
import Mpx.Library.Transition

/-! # First come, first served

Runs of the serial driver on its own: requests, interrupts and completions in any order, with
whatever the rest of the kernel does to the processes in between. -/

namespace Mpx.Device
open Function Library.Links Library.Transition Mpx.Process

/-- The chain from the head of a request queue. -/
def Kernel.requestQueue (k : Kernel) (d : Fin 4) : Option (List Ptr) :=
  walk (fun a => (k.iocbs a).pNext) 0 addressSpace (k.dcb d).iocbQueueHead

inductive Event where
  | schedule (dev buffer bufferSz : UInt32) (ioOp : IoOp) (alloc : Ptr)
  | interrupt (d : Fin 4) (i : Interrupt)
  | checkIo (dev : UInt32)
  | others (procs : Procs) (pcbRunning : Ptr)

def serve (k : Kernel) : Event → Option Kernel
  | .schedule dev buffer bufferSz ioOp alloc =>
    (serialScheduleIo k dev buffer bufferSz ioOp alloc).map (·.1)
  | .interrupt d i => serialInterrupt k d i
  | .checkIo dev => (serialCheckIo k dev).map (·.1)
  | .others procs pcbRunning => some { k with procs := procs, pcbRunning := pcbRunning }

/-- `sys_alloc_mem` returns NULL or an iocb that is in no queue. -/
def Admitted (k : Kernel) : Event → Prop
  | .schedule _ _ _ _ alloc => alloc = 0 ∨ ∀ d, ∀ l ∈ k.requestQueue d, alloc ∉ l
  | .interrupt _ _ => True
  | .checkIo _ => True
  | .others _ _ => True

/-- No request has been made, and no output interrupt is enabled. -/
structure Port.Idle (p : Port) : Prop where
  head : p.dcb.iocbQueueHead = 0
  tail : p.dcb.iocbQueueTail = 0
  event : p.dcb.event = false
  output : p.outputEnabled = false
  history : p.history = ⟨[], [], []⟩

/-! ### What a port should guarantee -/

/-- The queue, the event flag and the interrupt enable bit agree, and the requests that were
accepted are the retired ones and then those in the queue. -/
structure InService (k : Kernel) (d : Fin 4) (l : List Ptr) : Prop where
  chain : k.requestQueue d = some l
  tail : (k.dcb d).iocbQueueTail = l.getLastD 0
  ends : (k.dcb d).iocbQueueHead = 0 ↔ (k.dcb d).iocbQueueTail = 0
  event : (k.dcb d).event = true →
    (k.dcb d).iocbQueueHead ≠ 0 ∧ Finished (k.ports d) (k.iocbs (k.dcb d).iocbQueueHead)
  output : (k.ports d).outputEnabled = true ↔
    (k.dcb d).iocbQueueHead ≠ 0 ∧ (k.iocbs (k.dcb d).iocbQueueHead).ioOp = .write ∧
      ¬Finished (k.ports d) (k.iocbs (k.dcb d).iocbQueueHead)
  fifo : (k.history d).accepted = (k.history d).retired ++ l.map fun a => (k.iocbs a).request

/-- The process `p`, and no other one, is made ready with a result. -/
structure Woken (s s' : Procs) (p : Ptr) (count : UInt32) : Prop where
  state : ∀ q, s'.state q = if q = p then { s.state p with exec := .ready } else s.state q
  pctxt : ∀ q, (s'.pcbs q).pctxt = (s.pcbs q).pctxt
  pstackseg : ∀ q, (s'.pcbs q).pstackseg = (s.pcbs q).pstackseg
  contexts : ∃ ctxt, (s.pcbs p).pctxt = some ctxt ∧
    s'.contexts = update s.contexts ctxt { s.contexts ctxt with eax := count }

/-- The log of accepted and retired requests is the same at every port. -/
def SameLog (k k' : Kernel) : Prop :=
  ∀ d, (k'.history d).accepted = (k.history d).accepted ∧ (k'.history d).retired = (k.history d).retired

/-- What an event does to the requests. -/
def Serves (k k' : Kernel) : Event → Prop
  | .schedule _ buffer bufferSz ioOp _ => k' = k ∨ ∃ d,
      (k'.history d).accepted = (k.history d).accepted ++ [⟨k.pcbRunning, ioOp, buffer, bufferSz⟩] ∧
      (k'.history d).retired = (k.history d).retired ∧ k'.procs = k.procs ∧
      ∀ e, e ≠ d → k'.history e = k.history e
  | .interrupt _ _ => SameLog k k' ∧ k'.procs = k.procs
  | .checkIo dev =>
      (k' = k ∧ ∀ d, serialDevno dev = some d → ¬((k.dcb d).isOpen = true ∧ (k.dcb d).event = true)) ∨
      ∃ d r, serialDevno dev = some d ∧ (k.dcb d).isOpen = true ∧ (k.dcb d).event = true ∧
        (k.history d).accepted[(k.history d).retired.length]? = some r ∧
        (k'.history d).retired = (k.history d).retired ++ [r] ∧
        (k'.history d).accepted = (k.history d).accepted ∧
        Woken k.procs k'.procs r.pcb (k.dcb d).bufferIdx ∧ ∀ e, e ≠ d → k'.history e = k.history e
  | .others _ _ => SameLog k k'

variable {k k' : Kernel} {pend : Fin 4 → List Ptr} {d : Fin 4} {s s' : Procs} {p : Ptr} {count : UInt32}

theorem requestQueue_ok (ok : DevicesOk k pend) (d : Fin 4) : k.requestQueue d = some (pend d) := by
  have own := ok.port d
  have short := nodup_length own.unique own.queue.chain.nonnull
  exact walk_iff.mpr ⟨own.queue.chain, short⟩

theorem devicesOk_service (ok : DevicesOk k pend) (d : Fin 4) : InService k d (pend d) := by
  have own := ok.port d
  have ends : (k.dcb d).iocbQueueHead = 0 ↔ (k.dcb d).iocbQueueTail = 0 :=
    (queue_head_null_iff own.queue).trans (queue_tail_null_iff own.queue).symm
  have fifo := own.accepted
  cases queue : pend d with
  | nil =>
    have none : (k.dcb d).iocbQueueHead = 0 := (queue_head_null_iff own.queue).mpr queue
    obtain ⟨event, output, _⟩ := own.idle queue
    have chain := requestQueue_ok ok d
    have tail := own.queue.tail
    rw [queue] at chain fifo tail
    refine ⟨chain, tail, ends, ?_, ?_, fifo⟩
    · intro set
      exact absurd (event.symm.trans set) (by decide)
    · constructor
      · intro set
        exact absurd (output.symm.trans set) (by decide)
      · intro busy
        exact (busy.1 none).elim
  | cons a rest =>
    have chain := requestQueue_ok ok d
    rw [queue] at own chain fifo
    have head : (k.dcb d).iocbQueueHead = a := own.queue.chain.head
    have real : a ≠ 0 := fun same => own.queue.chain.nonnull (by simp [same])
    have serving := own.serving a rfl
    refine ⟨chain, own.queue.tail, ends, ?_, ?_, fifo⟩
    · intro set
      rw [head]
      refine ⟨real, ?_⟩
      cases serving with
      | reading _ _ _ done => exact done set
      | writing _ pending => exact absurd (pending.symm.trans set) (by decide)
      | written _ _ _ whole => exact .inl whole
    · rw [head]
      cases serving with
      | reading isRead _ off =>
        constructor
        · intro set
          exact absurd (off.symm.trans set) (by decide)
        · intro busy
          exact absurd (isRead.symm.trans busy.2.1) (by decide)
      | writing isWrite _ lit part =>
        refine ⟨fun _ => ⟨real, isWrite, fun finished => ?_⟩, fun _ => lit⟩
        cases finished with
        | inl full => exact absurd part (full ▸ UInt32.lt_irrefl _)
        | inr line => exact absurd (isWrite.symm.trans line.1) (by decide)
      | written _ _ off whole =>
        constructor
        · intro set
          exact absurd (off.symm.trans set) (by decide)
        · intro busy
          exact (busy.2.2 (.inl whole)).elim

theorem setExec_pcb (s : Procs) (p q : Ptr) (exec : ProcExecState) :
    (s.setExec p exec).pcbs q =
      if q = p then { s.pcbs p with state := { s.state p with exec := exec } } else s.pcbs q := by
  unfold Procs.setExec Procs.setState Procs.setPcb
  by_cases same : q = p
  · subst same
    rw [if_pos rfl]
    exact update_self ..
  · rw [if_neg same]
    exact update_of_ne same ..

theorem wake_woken (h : wake s p count = some s') : Woken s s' p count := by
  unfold wake at h
  obtain ⟨⟨s₁, r⟩, removed, h⟩ := Option.bind_eq_some_iff.mp h
  obtain ⟨ctxt, found, inserted⟩ := Option.bind_eq_some_iff.mp h
  obtain ⟨off, _⟩ := pcbRemove_relinked removed
  obtain ⟨put, _⟩ := pcbInsert_relinked inserted
  have pctxt : ∀ q, ((s₁.setExec p .ready).pcbs q).pctxt = (s₁.pcbs q).pctxt := by
    intro q
    rw [setExec_pcb]
    split
    · rename_i same
      rw [same]
    · rfl
  have own : (s.pcbs p).pctxt = some ctxt := by
    rw [← off.pctxt, ← pctxt]
    exact found
  refine ⟨?_, ?_, ?_, ctxt, own, ?_⟩
  · intro q
    have ready : ((s₁.setExec p .ready).setEax ctxt count).state q =
        if q = p then { s₁.state p with exec := .ready } else s₁.state q := by
      show ((s₁.setExec p .ready).pcbs q).state = _
      rw [setExec_pcb]
      split <;> rfl
    rw [put.state, ready, off.state, off.state]
  · intro q
    rw [put.pctxt]
    exact (pctxt q).trans (off.pctxt q)
  · intro q
    have kept : ((s₁.setExec p .ready).pcbs q).pstackseg = (s₁.pcbs q).pstackseg := by
      rw [setExec_pcb]
      split
      · rename_i same
        rw [same]
      · rfl
    rw [put.pstackseg]
    exact kept.trans (off.pstackseg q)
  · rw [put.contexts]
    show update s₁.contexts ctxt { s₁.contexts ctxt with eax := count } = _
    rw [off.contexts]

theorem sameLog_only (only : OnlyPort k k' d) : SameLog k k' := by
  intro e
  by_cases same : e = d
  · subst same
    exact ⟨only.accepted, only.retired⟩
  · unfold Kernel.history
    rw [only.ports e same]
    exact ⟨rfl, rfl⟩

theorem interrupt_devices {i : Interrupt} (ok : DevicesOk k pend) (h : serialInterrupt k d i = some k') :
    OnlyPort k k' d ∧ DevicesOk k' pend := by
  obtain ⟨only, own⟩ := interrupt_ok (ok.port d) h
  exact ⟨only, devicesOk_only ok only own⟩

theorem schedule_serve {dev buffer bufferSz : UInt32} {ioOp : IoOp} {alloc : Ptr} (ok : DevicesOk k pend)
    (fresh : Admitted k (.schedule dev buffer bufferSz ioOp alloc))
    (h : serve k (.schedule dev buffer bufferSz ioOp alloc) = some k') :
    (∃ pend', DevicesOk k' pend') ∧ Serves k k' (.schedule dev buffer bufferSz ioOp alloc) := by
  have absent : alloc = 0 ∨ ∀ d, alloc ∉ pend d := by
    cases fresh with
    | inl null => exact .inl null
    | inr fresh => exact .inr fun d => fresh d (pend d) (requestQueue_ok ok d)
  obtain ⟨⟨k₁, result⟩, ran, rfl⟩ := Option.map_eq_some_iff.mp h
  have scheduled := schedule_ok ok dev buffer bufferSz ioOp absent
  rw [ran] at scheduled
  cases scheduled with
  | refused e => exact ⟨⟨pend, ok⟩, .inl rfl⟩
  | queued d _ devno isOpen step ok' =>
    refine ⟨⟨_, ok'⟩, .inr ⟨d, step.accepted, ?_, step.procs, ?_⟩⟩
    · exact step.retired.trans (List.append_nil _)
    · intro e other
      exact congrArg Port.history (step.ports e other)

theorem checkIo_serve {dev : UInt32} (ok : DevicesOk k pend) (h : serve k (.checkIo dev) = some k') :
    (∃ pend', DevicesOk k' pend') ∧ Serves k k' (.checkIo dev) := by
  obtain ⟨⟨k₁, result⟩, ran, rfl⟩ := Option.map_eq_some_iff.mp h
  have checked := check_ok ok dev
  rw [ran] at checked
  cases checked with
  | quiet r none => exact ⟨⟨pend, ok⟩, .inl ⟨rfl, fun d found => (none d found).1⟩⟩
  | retired d a rest procs _ devno isOpen event queue woken step ok' =>
    refine ⟨⟨_, ok'⟩, .inr ⟨d, (k.iocbs a).request, devno, isOpen, event, ?_, step.retired, ?_, ?_, ?_⟩⟩
    · have fifo := (ok.port d).accepted
      rw [queue] at fifo
      show (k.ports d).history.accepted[_]? = _
      rw [fifo]
      simp [Kernel.history]
    · exact step.accepted.trans (List.append_nil _)
    · have same := step.procs
      show Woken k.procs k₁.procs _ _
      rw [same]
      exact wake_woken woken
    · intro e other
      exact congrArg Port.history (step.ports e other)

theorem serve_ok {e : Event} (ok : DevicesOk k pend) (admitted : Admitted k e) (h : serve k e = some k') :
    (∃ pend', DevicesOk k' pend') ∧ Serves k k' e := by
  cases e with
  | schedule dev buffer bufferSz ioOp alloc => exact schedule_serve ok admitted h
  | interrupt d i =>
    obtain ⟨only, ok'⟩ := interrupt_devices ok h
    exact ⟨⟨pend, ok'⟩, sameLog_only only, only.procs⟩
  | checkIo dev => exact checkIo_serve ok h
  | others procs pcbRunning =>
    cases h
    exact ⟨⟨pend, ok.port, ok.apart⟩, fun _ => ⟨rfl, rfl⟩⟩

theorem idle_ok (idle : ∀ d, (k.ports d).Idle) : DevicesOk k fun _ => [] := by
  constructor
  · intro d
    obtain ⟨head, tail, event, output, history⟩ := idle d
    refine ⟨queue_nil_iff.mpr ⟨head, tail⟩, List.nodup_nil, ?_, ?_, ?_, ?_, ?_⟩
    all_goals try rw [history]
    · intro a member
      cases member
    · rfl
    · intro e member
      cases member
    · intro a member
      cases member
    · intro _
      refine ⟨event, output, fun e member => ?_⟩
      cases member
  · intro d e a member
    cases member

theorem bootPort_idle (isOpen : Bool) : (bootPort isOpen).Idle := by
  refine ⟨rfl, rfl, rfl, ?_, rfl⟩
  show decide ((1 : UInt8) &&& ierOutput ≠ 0) = false
  decide

theorem devices_reached (h : Reaches (fun k => ∀ d, (k.ports d).Idle) Admitted serve k) :
    ∃ pend, DevicesOk k pend := by
  refine reaches_invariant (P := fun k => ∃ pend, DevicesOk k pend) ?_ ?_ h
  · intro k idle
    exact ⟨_, idle_ok idle⟩
  · intro k e k' ok admitted moved
    obtain ⟨pend, ok⟩ := ok
    exact (serve_ok ok admitted moved).1

/-- In every run every port is in service, and the next event serves its requests in order. -/
theorem requests_served (h : Reaches (fun k => ∀ d, (k.ports d).Idle) Admitted serve k) :
    (∀ d, ∃ l, InService k d l) ∧
      ∀ (e : Event) (k' : Kernel), Admitted k e → serve k e = some k' → Serves k k' e := by
  obtain ⟨pend, ok⟩ := devices_reached h
  refine ⟨fun d => ⟨pend d, devicesOk_service ok d⟩, ?_⟩
  intro e k' admitted moved
  exact (serve_ok ok admitted moved).2

instance (k : Kernel) (e : Event) : Decidable (Admitted k e) := by
  cases e <;> unfold Admitted <;> infer_instance

theorem requests_served_example : ∃ k : Kernel,
    (k.history 0).retired = [⟨8, .write, 100, 2⟩] ∧ ∃ l, InService k 0 l := by
  have ran : (run Admitted serve (bootKernel fun _ => true)
      [.others ((bootKernel fun _ => true).procs.setPctxt 8 (some ⟨16, 0⟩)) 8, .schedule com1 100 2 .write 50,
        .interrupt 0 .output, .interrupt 0 .output, .checkIo com1]).map
          (fun k => (k.history 0).retired) = some [⟨8, .write, 100, 2⟩] := by
    decide +kernel
  obtain ⟨k, ran, retired⟩ := Option.map_eq_some_iff.mp ran
  exact ⟨k, retired, (requests_served (run_reaches (.start fun _ => bootPort_idle _) ran)).1 0⟩

end Mpx.Device

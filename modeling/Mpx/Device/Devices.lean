import Mpx.Device.Requests

/-! # The four devices

`DevicesOk` says that the four request queues are in order and apart; `schedule_ok` and the lemmas
behind it say what a new request does to them. -/

namespace Mpx.Device
open Function Library.Links Mpx.Process

structure DevicesOk (k : Kernel) (pend : Fin 4 → List Ptr) : Prop where
  port : ∀ d, PortOk (k.ports d) k.iocbs (pend d)
  apart : ∀ d e a, a ∈ pend d → a ∈ pend e → d = e

variable {k k' : Kernel} {d : Fin 4} {pend : Fin 4 → List Ptr} {l : List Ptr} {a buffer len : UInt32} {op : IoOp}
  {accepted retired : List Request}

/-- A step of one port leaves the others as they are. -/
theorem devicesOk_step (ok : DevicesOk k pend) (step : PortStep k k' d accepted retired)
    (own : PortOk (k'.ports d) k'.iocbs l) (iocbs : ∀ e, e ≠ d → ∀ b ∈ pend e, k'.iocbs b = k.iocbs b)
    (new : ∀ b ∈ l, b ∈ pend d ∨ ∀ e, b ∉ pend e) : DevicesOk k' (update pend d l) := by
  have inside : ∀ e b, b ∈ update pend d l e → e ≠ d → b ∈ pend e := by
    intro e b member other
    rw [update_of_ne other] at member
    exact member
  have own_apart : ∀ e b, b ∈ l → e ≠ d → b ∉ pend e := by
    intro e b member other there
    cases new b member with
    | inl here => exact other (ok.apart e d b there here)
    | inr absent => exact absent e there
  constructor
  · intro e
    by_cases same : e = d
    · subst same
      rw [update_self]
      exact own
    · rw [update_of_ne same, step.ports e same]
      exact portOk_congr (ok.port e) (iocbs e same)
  · intro e f b left right
    by_cases here : e = d
    · by_cases there : f = d
      · exact here.trans there.symm
      · subst here
        rw [update_self] at left
        exact absurd (inside f b right there) (own_apart f b left there)
    · by_cases there : f = d
      · subst there
        rw [update_self] at right
        exact absurd (inside e b left here) (own_apart e b right here)
      · exact ok.apart e f b (inside e b left here) (inside f b right there)

theorem devicesOk_only (ok : DevicesOk k pend) (only : OnlyPort k k' d)
    (own : PortOk (k'.ports d) k.iocbs (pend d)) : DevicesOk k' pend := by
  have own : PortOk (k'.ports d) k'.iocbs (pend d) := by
    rw [only.iocbs]
    exact own
  have moved := devicesOk_step ok only.step own (fun _ _ _ _ => by rw [only.iocbs]) fun _ => .inl
  rwa [update_eq_self] at moved

/-! ### New requests -/

theorem setIocb_ports (k : Kernel) (a : Ptr) (iocb : Iocb) : (k.setIocb a iocb).ports = k.ports := rfl

theorem queueFirst_port (k : Kernel) (d : Fin 4) (a buffer len : UInt32) (op : IoOp) :
    (queueFirst k d a buffer len op).ports d =
      { k.ports d with
        dcb := { k.dcb d with iocbQueueHead := a, iocbQueueTail := a }
        history := { k.history d with
          accepted := (k.history d).accepted ++ [⟨k.pcbRunning, op, buffer, len⟩] } } := by
  unfold queueFirst
  rw [accept_port, setIocb_ports, setDcb_port]
  rfl

theorem queueLast_port (k : Kernel) (d : Fin 4) (a buffer len : UInt32) (op : IoOp) :
    (queueLast k d a buffer len op).ports d =
      { k.ports d with
        dcb := { k.dcb d with iocbQueueTail := a }
        history := { k.history d with
          accepted := (k.history d).accepted ++ [⟨k.pcbRunning, op, buffer, len⟩] } } := by
  unfold queueLast
  rw [accept_port, setDcb_port]
  rfl

theorem queueFirst_iocbs (k : Kernel) (d : Fin 4) (a buffer len : UInt32) (op : IoOp) :
    (queueFirst k d a buffer len op).iocbs = update k.iocbs a ⟨0, k.pcbRunning, buffer, len, op⟩ := rfl

/-- A request is accepted: what `queueFirst` and `queueLast` have in common. -/
theorem accepted_step {dcb : Dcb} {r : Request} (procs : k'.procs = k.procs)
    (pcbRunning : k'.pcbRunning = k.pcbRunning) (contextOriginal : k'.contextOriginal = k.contextOriginal)
    (ports : ∀ e, e ≠ d → k'.ports e = k.ports e)
    (port : k'.ports d =
      { k.ports d with
        dcb := dcb
        history := { k.history d with accepted := (k.history d).accepted ++ [r] } })
    (isOpen : dcb.isOpen = (k.dcb d).isOpen) : PortStep k k' d [r] [] := by
  refine ⟨procs, pcbRunning, contextOriginal, ports, ?_, ?_, ?_, [], ?_⟩
  all_goals rw [port]
  · exact isOpen
  · rfl
  · exact (List.append_nil _).symm
  · exact (List.append_nil _).symm

theorem queueFirst_step (k : Kernel) (d : Fin 4) (a buffer len : UInt32) (op : IoOp) :
    PortStep k (queueFirst k d a buffer len op) d [⟨k.pcbRunning, op, buffer, len⟩] [] := by
  refine accepted_step rfl rfl rfl ?_ (queueFirst_port k d a buffer len op) rfl
  intro e other
  show (Kernel.setPort (Kernel.setPort k d _) d _).ports e = _
  rw [setPort_ports, if_neg other, setPort_ports, if_neg other]

theorem queueLast_step (k : Kernel) (d : Fin 4) (a buffer len : UInt32) (op : IoOp) :
    PortStep k (queueLast k d a buffer len op) d [⟨k.pcbRunning, op, buffer, len⟩] [] := by
  refine accepted_step rfl rfl rfl ?_ (queueLast_port k d a buffer len op) rfl
  intro e other
  show (Kernel.setPort (Kernel.setPort k d _) d _).ports e = _
  rw [setPort_ports, if_neg other, setPort_ports, if_neg other]

theorem queueFirst_fresh (buffer : UInt32) (op : IoOp) (ok : PortOk (k.ports d) k.iocbs []) (real : a ≠ 0)
    (size : len ≠ 0) :
    Fresh ((queueFirst k d a buffer len op).ports d) (queueFirst k d a buffer len op).iocbs [a] := by
  obtain ⟨event, output, moved⟩ := ok.idle rfl
  rw [queueFirst_port, queueFirst_iocbs]
  refine ⟨⟨?_, rfl⟩, List.nodup_singleton a, ?_, ?_, moved, event, output⟩
  · refine chain_cons_iff.mpr ⟨rfl, real, chain_nil_iff.mpr ?_⟩
    rw [update_self]
  · intro b member
    obtain rfl := List.mem_singleton.mp member
    rw [update_self]
    exact size
  · have accepted := ok.accepted
    rw [List.map_nil, List.append_nil] at accepted
    rw [List.map_singleton, update_self]
    exact congrArg (· ++ [_]) accepted

/-- Nothing but the link of the last iocb changes. -/
theorem queueLast_iocb {b : Ptr} (other : b ≠ a) :
    (queueLast k d a buffer len op).iocbs b =
      if b = (k.dcb d).iocbQueueTail then { k.iocbs b with pNext := a } else k.iocbs b := by
  show update (update k.iocbs a _) (k.dcb d).iocbQueueTail
    { update k.iocbs a _ (k.dcb d).iocbQueueTail with pNext := a } b = _
  by_cases last : b = (k.dcb d).iocbQueueTail
  · subst last
    rw [if_pos rfl, update_self, update_of_ne other]
  · rw [if_neg last, update_of_ne last, update_of_ne other]

theorem queueLast_new (buffer len : UInt32) (op : IoOp) (apart : a ≠ (k.dcb d).iocbQueueTail) :
    (queueLast k d a buffer len op).iocbs a = ⟨0, k.pcbRunning, buffer, len, op⟩ := by
  show update (update k.iocbs a _) (k.dcb d).iocbQueueTail _ a = _
  rw [update_of_ne apart, update_self]

theorem queueLast_queue (buffer len : UInt32) (op : IoOp)
    (queue : Queue (fun b => (k.iocbs b).pNext) 0 (k.dcb d).iocbQueueHead (k.dcb d).iocbQueueTail l) (unique : l.Nodup)
    (busy : l ≠ []) (real : a ≠ 0) (fresh : a ∉ l) :
    Queue (fun b => ((queueLast k d a buffer len op).iocbs b).pNext) 0
      ((queueLast k d a buffer len op).dcb d).iocbQueueHead ((queueLast k d a buffer len op).dcb d).iocbQueueTail
      (l ++ [a]) := by
  have apart : a ≠ (k.dcb d).iocbQueueTail := by
    rw [queue.tail]
    exact ne_getLastD fresh real
  have distinct : (l ++ [a]).Nodup :=
    List.nodup_append.mpr ⟨unique, List.nodup_singleton a, fun b left c right =>
      List.mem_singleton.mp right ▸ fun same => fresh (same ▸ left)⟩
  have dcb : (queueLast k d a buffer len op).dcb d = { k.dcb d with iocbQueueTail := a } :=
    congrArg Port.dcb (queueLast_port k d a buffer len op)
  rw [dcb]
  apply queue_append queue distinct real
  · show (k.dcb d).iocbQueueHead = _
    rw [queue.chain.head, headD_front busy]
  · intro b member
    have other : b ≠ a := fun same => fresh (same ▸ member)
    rw [queueLast_iocb other, ← queue.tail]
    split <;> rfl
  · rw [queueLast_new buffer len op apart]

theorem queueLast_ok (buffer : UInt32) (op : IoOp) (ok : PortOk (k.ports d) k.iocbs l) (busy : l ≠ [])
    (real : a ≠ 0) (fresh : a ∉ l)
    (size : len ≠ 0) :
    PortOk ((queueLast k d a buffer len op).ports d) (queueLast k d a buffer len op).iocbs (l ++ [a]) := by
  have tail : (k.dcb d).iocbQueueTail = l.getLastD 0 := ok.queue.tail
  have apart : a ≠ (k.dcb d).iocbQueueTail := by
    rw [tail]
    exact ne_getLastD fresh real
  have new := queueLast_new buffer len op apart
  have old : ∀ b ∈ l, (queueLast k d a buffer len op).iocbs b =
      if b = l.getLastD 0 then { k.iocbs b with pNext := a } else k.iocbs b := by
    intro b member
    have other : b ≠ a := fun same => fresh (same ▸ member)
    rw [queueLast_iocb other, tail]
  have size_old : ∀ b ∈ l, ((queueLast k d a buffer len op).iocbs b).bufferSz = (k.iocbs b).bufferSz := by
    intro b member
    rw [old b member]
    split <;> rfl
  have request_old : ∀ b ∈ l, ((queueLast k d a buffer len op).iocbs b).request = (k.iocbs b).request := by
    intro b member
    rw [old b member]
    split <;> rfl
  have unique : (l ++ [a]).Nodup :=
    List.nodup_append.mpr ⟨ok.unique, List.nodup_singleton a, fun b left c right =>
      List.mem_singleton.mp right ▸ fun same => fresh (same ▸ left)⟩
  rw [queueLast_port]
  refine ⟨?_, unique, ?_, ?_, ok.moved, ?_, ?_⟩
  · have queue := queueLast_queue buffer len op ok.queue ok.unique busy real fresh
    rw [show (queueLast k d a buffer len op).dcb d = _ from congrArg Port.dcb (queueLast_port k d a buffer len op)] at queue
    exact queue
  · intro b member
    cases List.mem_append.mp member with
    | inl inside =>
      rw [size_old b inside]
      exact ok.sizes b inside
    | inr last =>
      rw [List.mem_singleton.mp last, new]
      exact size
  · show (k.ports d).history.accepted ++ _ = (k.ports d).history.retired ++ _
    rw [ok.accepted, List.map_append, List.map_singleton, new, List.append_assoc]
    congr 2
    exact (List.map_congr_left request_old).symm
  · intro b member
    have front : b ∈ l.head? := by
      cases l with
      | nil => exact (busy rfl).elim
      | cons c l => exact member
    have inside := List.mem_of_mem_head? front
    have op_old : ((queueLast k d a buffer len op).iocbs b).ioOp = (k.iocbs b).ioOp :=
      congrArg Request.op (request_old b inside)
    exact serving_congr (ok.serving b front) op_old (size_old b inside) rfl rfl rfl rfl rfl
  · intro empty
    exact absurd empty (by simp)

/-- How a request is started once it is first in the queue. -/
def startIo (k : Kernel) (d : Fin 4) (r : Request) : Option Kernel :=
  match r.op with
  | .read => startRead k d r.buffer r.size
  | .write => some (startWrite k d r.buffer)

theorem startIo_starts (k : Kernel) (d : Fin 4) (r : Request) : ∃ k', startIo k d r = some k' ∧ Starts k k' d := by
  unfold startIo
  cases r.op with
  | read => exact startRead_starts k d r.buffer r.size
  | write => exact ⟨_, rfl, startWrite_starts k d r.buffer⟩

/-- How a request leaves the devices: refused, with nothing changed, or accepted at one of them. -/
inductive Scheduled (k : Kernel) (pend : Fin 4 → List Ptr) (dev : UInt32) (r : Request) (alloc : Ptr) :
    Option (Kernel × Option SerialError) → Prop
  | refused (e : SerialError) : Scheduled k pend dev r alloc (some (k, some e))
  | queued (d : Fin 4) (k' : Kernel) : serialDevno dev = some d → (k.dcb d).isOpen = true →
      PortStep k k' d [r] [] → DevicesOk k' (update pend d (pend d ++ [alloc])) →
      Scheduled k pend dev r alloc (some (k', none))

theorem queueFirst_devices (ok : DevicesOk k pend) (idle : pend d = []) (absent : ∀ e, a ∉ pend e)
    (only : OnlyPort (queueFirst k d a buffer len op) k' d)
    (own : PortOk (k'.ports d) (queueFirst k d a buffer len op).iocbs [a]) :
    PortStep k k' d [⟨k.pcbRunning, op, buffer, len⟩] [] ∧ DevicesOk k' (update pend d (pend d ++ [a])) := by
  have step := (queueFirst_step k d a buffer len op).trans_only only
  refine ⟨step, devicesOk_step ok step ?_ ?_ ?_⟩
  · rw [only.iocbs, idle]
    exact own
  · intro e other b member
    rw [only.iocbs, queueFirst_iocbs, update_of_ne]
    intro same
    exact absent e (same ▸ member)
  · intro b member
    rw [idle] at member
    obtain rfl := List.mem_singleton.mp member
    exact .inr absent

theorem queueLast_devices (ok : DevicesOk k pend) (busy : pend d ≠ []) (real : a ≠ 0) (size : len ≠ 0)
    (absent : ∀ e, a ∉ pend e) :
    DevicesOk (queueLast k d a buffer len op) (update pend d (pend d ++ [a])) := by
  have own := queueLast_ok buffer op (ok.port d) busy real (absent d) size
  apply devicesOk_step ok (queueLast_step k d a buffer len op) own
  · intro e other b member
    have tail : (k.dcb d).iocbQueueTail = (pend d).getLastD 0 := (ok.port d).queue.tail
    have other' : b ≠ a := fun same => absent e (same ▸ member)
    rw [queueLast_iocb other', if_neg]
    intro last
    have inside : b ∈ pend d := last ▸ tail ▸ getLastD_mem busy
    exact other (ok.apart e d b member inside)
  · intro b member
    cases List.mem_append.mp member with
    | inl inside => exact .inl inside
    | inr last =>
      obtain rfl := List.mem_singleton.mp last
      exact .inr absent

/-- What is left of `serial_read` once `serial_schedule_io` has made its own checks. -/
theorem serialRead_idle {dev : UInt32} (buffered : buffer ≠ 0) (size : len ≠ 0) (devno : serialDevno dev = some d)
    (isOpen : (k.dcb d).isOpen = true) (idle : (k.dcb d).iocbQueueHead = 0) :
    serialRead k dev buffer len a =
      if a = 0 then some (k, some .rOutOfMem)
      else (startRead (queueFirst k d a buffer len .read) d buffer len).map (·, none) := by
  unfold serialRead
  rw [if_neg buffered, if_neg size, devno]
  dsimp only
  rw [isOpen, if_neg (by decide), if_neg (not_not.mpr idle)]

theorem serialWrite_idle {dev : UInt32} (buffered : buffer ≠ 0) (size : len ≠ 0) (devno : serialDevno dev = some d)
    (isOpen : (k.dcb d).isOpen = true) (idle : (k.dcb d).iocbQueueHead = 0) :
    serialWrite k dev buffer len a =
      if a = 0 then (k, some .wOutOfMem)
      else (startWrite (queueFirst k d a buffer len .write) d buffer, none) := by
  unfold serialWrite
  rw [if_neg buffered, if_neg size, devno]
  dsimp only
  rw [isOpen, if_neg (by decide), if_neg (not_not.mpr idle)]

/-- `serial_schedule_io` has to refuse. -/
def Refused (k : Kernel) (dev buffer len : UInt32) (alloc : Ptr) : Prop :=
  buffer = 0 ∨ len = 0 ∨ serialDevno dev = none ∨
    (∃ d, serialDevno dev = some d ∧ (k.dcb d).isOpen = false) ∨ alloc = 0

structure Usable (k : Kernel) (dev buffer len : UInt32) (alloc : Ptr) (d : Fin 4) : Prop where
  devno : serialDevno dev = some d
  isOpen : (k.dcb d).isOpen = true
  buffer : buffer ≠ 0
  size : len ≠ 0
  real : alloc ≠ 0

/-- The ways through `serial_schedule_io`. -/
inductive Schedules (k : Kernel) (dev buffer len : UInt32) (op : IoOp) (a : Ptr) :
    Option (Kernel × Option SerialError) → Prop
  | refused (e : SerialError) : Refused k dev buffer len a → Schedules k dev buffer len op a (some (k, some e))
  | started (d : Fin 4) : Usable k dev buffer len a d → (k.dcb d).iocbQueueHead = 0 →
      Schedules k dev buffer len op a
        ((startIo (queueFirst k d a buffer len op) d ⟨k.pcbRunning, op, buffer, len⟩).map (·, none))
  | queued (d : Fin 4) : Usable k dev buffer len a d → (k.dcb d).iocbQueueHead ≠ 0 →
      Schedules k dev buffer len op a
        (if (k.dcb d).iocbQueueTail = 0 then none else some (queueLast k d a buffer len op, none))

theorem schedule_schedules (k : Kernel) (dev buffer len : UInt32) (op : IoOp) (a : Ptr) :
    Schedules k dev buffer len op a (serialScheduleIo k dev buffer len op a) := by
  unfold serialScheduleIo
  by_cases noBuffer : buffer = 0
  · rw [if_pos noBuffer]
    exact .refused _ (.inl noBuffer)
  rw [if_neg noBuffer]
  by_cases size : len = 0
  · rw [if_pos size]
    exact .refused _ (.inr (.inl size))
  rw [if_neg size]
  cases devno : serialDevno dev with
  | none => exact .refused _ (.inr (.inr (.inl devno)))
  | some d =>
  dsimp only
  cases isOpen : (k.dcb d).isOpen with
  | false => exact .refused _ (.inr (.inr (.inr (.inl ⟨d, devno, isOpen⟩))))
  | true =>
  rw [if_neg (by decide)]
  by_cases real : a = 0
  · have out : Refused k dev buffer len a := .inr (.inr (.inr (.inr real)))
    by_cases idle : (k.dcb d).iocbQueueHead = 0
    · rw [if_pos idle]
      cases op with
      | read =>
        dsimp only
        rw [serialRead_idle noBuffer size devno isOpen idle, if_pos real]
        exact .refused _ out
      | write =>
        dsimp only
        rw [serialWrite_idle noBuffer size devno isOpen idle, if_pos real]
        exact .refused _ out
    · rw [if_neg idle, if_pos real]
      exact .refused _ out
  · have usable : Usable k dev buffer len a d := ⟨devno, isOpen, noBuffer, size, real⟩
    by_cases idle : (k.dcb d).iocbQueueHead = 0
    · rw [if_pos idle]
      have start : Schedules k dev buffer len op a
          ((startIo (queueFirst k d a buffer len op) d ⟨k.pcbRunning, op, buffer, len⟩).map (·, none)) :=
        .started d usable idle
      cases op with
      | read =>
        dsimp only
        rw [serialRead_idle noBuffer size devno isOpen idle, if_neg real, Option.bind_eq_bind, Option.bind_map]
        rw [Option.map_eq_bind] at start
        exact start
      | write =>
        dsimp only
        rw [serialWrite_idle noBuffer size devno isOpen idle, if_neg real]
        exact start
    · rw [if_neg idle, if_neg real]
      exact .queued d usable idle

theorem usable_accepted (usable : Usable k dev buffer len a d) : ¬Refused k dev buffer len a := by
  rintro (noBuffer | size | unknown | ⟨e, devno, closed⟩ | real)
  · exact usable.buffer noBuffer
  · exact usable.size size
  · exact absurd (unknown.symm.trans usable.devno) (by simp)
  · obtain rfl : d = e := Option.some.inj (usable.devno.symm.trans devno)
    exact absurd (closed.symm.trans usable.isOpen) (by decide)
  · exact usable.real real

theorem schedule_usable (usable : Usable k dev buffer len a d) (op : IoOp) :
    serialScheduleIo k dev buffer len op a =
      if (k.dcb d).iocbQueueHead = 0 then
        (startIo (queueFirst k d a buffer len op) d ⟨k.pcbRunning, op, buffer, len⟩).map (·, none)
      else if (k.dcb d).iocbQueueTail = 0 then none
      else some (queueLast k d a buffer len op, none) := by
  have ways := schedule_schedules k dev buffer len op a
  generalize serialScheduleIo k dev buffer len op a = outcome at ways ⊢
  cases ways with
  | refused e refused => exact (usable_accepted usable refused).elim
  | started e other idle =>
    obtain rfl : d = e := Option.some.inj (usable.devno.symm.trans other.devno)
    rw [if_pos idle]
  | queued e other busy =>
    obtain rfl : d = e := Option.some.inj (usable.devno.symm.trans other.devno)
    rw [if_neg busy]

theorem startIo_ok (fresh : Fresh (k.ports d) k.iocbs [a]) :
    ∃ k', startIo k d (k.iocbs a).request = some k' ∧ OnlyPort k k' d ∧ PortOk (k'.ports d) k.iocbs [a] :=
  startNext_ok fresh

theorem schedule_ok (ok : DevicesOk k pend) (dev buffer len : UInt32) (op : IoOp) (absent : a = 0 ∨ ∀ e, a ∉ pend e) :
    Scheduled k pend dev ⟨k.pcbRunning, op, buffer, len⟩ a (serialScheduleIo k dev buffer len op a) := by
  have ways := schedule_schedules k dev buffer len op a
  generalize serialScheduleIo k dev buffer len op a = outcome at ways ⊢
  cases ways with
  | refused e _ => exact .refused e
  | started d usable idle =>
    have empty : pend d = [] := (queue_head_null_iff (ok.port d).queue).mp idle
    have none : PortOk (k.ports d) k.iocbs [] := empty ▸ ok.port d
    have new : (queueFirst k d a buffer len op).iocbs a = ⟨0, k.pcbRunning, buffer, len, op⟩ := update_self ..
    obtain ⟨k', run, only, own⟩ := startIo_ok (queueFirst_fresh buffer op none usable.real usable.size)
    rw [new] at run
    obtain ⟨step, ok'⟩ := queueFirst_devices ok empty (absent.resolve_left usable.real) only own
    rw [show startIo _ d ⟨k.pcbRunning, op, buffer, len⟩ = _ from run]
    exact .queued d k' usable.devno usable.isOpen step ok'
  | queued d usable idle =>
    have busy : pend d ≠ [] := fun empty => idle ((queue_head_null_iff (ok.port d).queue).mpr empty)
    have tail : (k.dcb d).iocbQueueTail ≠ 0 := fun null => busy ((queue_tail_null_iff (ok.port d).queue).mp null)
    rw [if_neg tail]
    exact .queued d _ usable.devno usable.isOpen (queueLast_step k d a buffer len op)
      (queueLast_devices ok busy usable.real usable.size (absent.resolve_left usable.real))

/-! ### Completions -/

theorem advance_last (last : (k.iocbs (k.dcb d).iocbQueueHead).pNext = 0) : advance k d = some (dequeue k d) := by
  unfold advance
  dsimp only
  rw [if_neg (not_not.mpr last)]

/-- The next request is started when the head request has been taken off the queue. -/
theorem advance_next (next : (k.iocbs (k.dcb d).iocbQueueHead).pNext = a) (real : a ≠ 0) :
    ∃ k₁, (k₁ = dequeue k d ∨ k₁ = (dequeue k d).disableOutput d) ∧
      advance k d = startIo k₁ d (k.iocbs a).request := by
  unfold advance
  dsimp only
  rw [next, if_pos real]
  by_cases off : ((dequeue k d).iocbs a).ioOp ≠ (k.iocbs (k.dcb d).iocbQueueHead).ioOp ∧
      (k.iocbs (k.dcb d).iocbQueueHead).ioOp = .write
  · rw [if_pos off]
    exact ⟨_, .inr rfl, rfl⟩
  · rw [if_neg off]
    exact ⟨_, .inl rfl, rfl⟩

/-- Either nothing is to do, or the process of the head request is woken and the request retired. -/
theorem checkIo_ways {dev : UInt32} {result : Int} (h : serialCheckIo k dev = some (k', result)) :
    (k' = k ∧ ∀ d, serialDevno dev = some d → ¬((k.dcb d).isOpen = true ∧ (k.dcb d).event = true)) ∨
      ∃ d procs, serialDevno dev = some d ∧ (k.dcb d).event = true ∧ (k.dcb d).iocbQueueHead ≠ 0 ∧
        wake k.procs (k.iocbs (k.dcb d).iocbQueueHead).pcbRq (k.dcb d).bufferIdx = some procs ∧
        advance { k with procs := procs } d = some k' ∧ result = 1 := by
  unfold serialCheckIo at h
  cases devno : serialDevno dev with
  | none =>
    rw [devno] at h
    cases h
    exact .inl ⟨rfl, fun _ found => nomatch found⟩
  | some d =>
    rw [devno] at h
    dsimp only at h
    cases isOpen : (k.dcb d).isOpen with
    | false =>
      rw [isOpen, if_pos (by decide)] at h
      cases h
      refine .inl ⟨rfl, ?_⟩
      rintro d' ⟨⟩ both
      exact absurd (isOpen.symm.trans both.1) (by decide)
    | true =>
      rw [isOpen, if_neg (by decide)] at h
      cases event : (k.dcb d).event with
      | false =>
        rw [event, if_neg (by decide)] at h
        cases h
        refine .inl ⟨rfl, ?_⟩
        rintro d' ⟨⟩ both
        exact absurd (event.symm.trans both.2) (by decide)
      | true =>
        rw [event, if_pos rfl] at h
        by_cases empty : (k.dcb d).iocbQueueHead = 0
        · rw [if_pos empty] at h
          cases h
        rw [if_neg empty] at h
        obtain ⟨procs, woken, h⟩ := Option.bind_eq_some_iff.mp h
        obtain ⟨k₁, advanced, h⟩ := Option.bind_eq_some_iff.mp h
        obtain ⟨rfl, rfl⟩ := Prod.mk.inj (Option.some.inj h)
        exact .inr ⟨d, procs, rfl, event, empty, woken, advanced, rfl⟩

/-- How `serial_check_io` ends: nothing to do, or the head request is retired and its process woken. -/
inductive Checked (k : Kernel) (pend : Fin 4 → List Ptr) (dev : UInt32) : Option (Kernel × Int) → Prop
  | quiet (r : Int) :
      (∀ d, serialDevno dev = some d → ¬((k.dcb d).isOpen = true ∧ (k.dcb d).event = true) ∧ r = 0) →
      Checked k pend dev (some (k, r))
  | asleep (d : Fin 4) (a : Ptr) (rest : List Ptr) : serialDevno dev = some d → (k.dcb d).isOpen = true →
      (k.dcb d).event = true → pend d = a :: rest →
      wake k.procs (k.iocbs a).pcbRq (k.dcb d).bufferIdx = none → Checked k pend dev none
  | retired (d : Fin 4) (a : Ptr) (rest : List Ptr) (procs : Procs) (k' : Kernel) : serialDevno dev = some d →
      (k.dcb d).isOpen = true → (k.dcb d).event = true → pend d = a :: rest →
      wake k.procs (k.iocbs a).pcbRq (k.dcb d).bufferIdx = some procs →
      PortStep { k with procs := procs } k' d [] [(k.iocbs a).request] →
      DevicesOk k' (update pend d rest) → Checked k pend dev (some (k', 1))

theorem check_ok (ok : DevicesOk k pend) (dev : UInt32) : Checked k pend dev (serialCheckIo k dev) := by
  unfold serialCheckIo
  cases devno : serialDevno dev with
  | none =>
    refine .quiet (-1) fun d found => ?_
    rw [devno] at found
    cases found
  | some d =>
  have only : ∀ e, serialDevno dev = some e → e = d := fun e found => Option.some.inj (found.symm.trans devno)
  dsimp only
  cases isOpen : (k.dcb d).isOpen with
  | false =>
    refine .quiet 0 fun e found => ⟨fun both => ?_, rfl⟩
    obtain rfl := only e found
    exact absurd (isOpen.symm.trans both.1) (by decide)
  | true =>
  rw [if_neg (by decide)]
  cases event : (k.dcb d).event with
  | false =>
    refine .quiet 0 fun e found => ⟨fun both => ?_, rfl⟩
    obtain rfl := only e found
    exact absurd (event.symm.trans both.2) (by decide)
  | true =>
  rw [if_pos rfl]
  have own := ok.port d
  cases queue : pend d with
  | nil =>
    have quiet : (k.dcb d).event = false := (own.idle queue).1
    exact absurd (quiet.symm.trans event) (by decide)
  | cons a rest =>
    rw [queue] at own
    have head : (k.dcb d).iocbQueueHead = a := own.queue.chain.head
    have real : a ≠ 0 := fun same => own.queue.chain.nonnull (by simp [same])
    rw [head, if_neg real]
    cases woken : wake k.procs (k.iocbs a).pcbRq (k.dcb d).bufferIdx with
    | none => exact .asleep d a rest devno isOpen event queue woken
    | some procs =>
      obtain ⟨k', run, step, iocbs, own'⟩ := advance_ok (k := { k with procs := procs }) own event
      have moved : DevicesOk { k with procs := procs } pend := ⟨ok.port, ok.apart⟩
      have ok' : DevicesOk k' (update pend d rest) := by
        apply devicesOk_step moved step
        · rw [iocbs]
          exact own'
        · intro e _ b _
          rw [iocbs]
        · intro b member
          exact .inl (queue ▸ List.mem_cons_of_mem a member)
      have ran : (do
          let procs ← some procs
          let k ← advance { k with procs := procs } d
          return (k, (1 : Int))) = some (k', 1) := by
        show (advance { k with procs := procs } d).bind (fun k => some (k, (1 : Int))) = _
        rw [run]
        rfl
      rw [ran]
      exact .retired d a rest procs k' devno isOpen event queue woken step ok'

end Mpx.Device

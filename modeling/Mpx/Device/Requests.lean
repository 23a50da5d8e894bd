import Mpx.Device.Serial
import Mpx.Process.Queues

/-! # The request queue of a port

`PortOk` ties the request queue, the event flag, the progress index and the interrupt enable bit of
one port together. The port needs nothing of the kernel but the iocbs in its queue. -/

namespace Mpx.Device
open Function Library.Links Mpx.Process

/-- How many bytes were carried for request number `n`. -/
def History.count (h : History) (n : Nat) : Nat := h.moved.countP (·.1 = n)

/-- How many bytes were carried for the request in service. -/
def History.serviced (h : History) : Nat := h.count h.retired.length

def Port.outputEnabled (p : Port) : Bool := p.ier &&& ierOutput ≠ 0

theorem enabled_or (ier : UInt8) : (ier ||| ierOutput) &&& ierOutput ≠ 0 := by
  have bits : ∀ b : BitVec 8, (b ||| 2#8) &&& 2#8 = 2#8 := by decide
  have set : (ier ||| ierOutput) &&& ierOutput = ierOutput := UInt8.eq_of_toBitVec_eq (bits ier.toBitVec)
  rw [set]
  decide

theorem enabled_and (ier : UInt8) : (ier &&& ~~~ierOutput) &&& ierOutput = 0 := by
  have bits : ∀ b : BitVec 8, (b &&& ~~~2#8) &&& 2#8 = 0#8 := by decide
  exact UInt8.eq_of_toBitVec_eq (bits ier.toBitVec)

/-- The head request has been carried out: its buffer is used up, or a READ got a line end. -/
def Finished (p : Port) (iocb : Iocb) : Prop :=
  p.dcb.bufferIdx = iocb.bufferSz ∨
    iocb.ioOp = .read ∧ p.history.moved.getLast? = some (p.history.retired.length, carriageReturn)

/-- The state of the request in service. -/
inductive Serving (p : Port) (iocb : Iocb) : Prop
  | reading : iocb.ioOp = .read → p.dcb.bufferIdx = UInt32.ofNat p.history.serviced →
      p.outputEnabled = false → (p.dcb.event = true → Finished p iocb) → Serving p iocb
  | writing : iocb.ioOp = .write → p.dcb.event = false → p.outputEnabled = true →
      p.dcb.bufferIdx < iocb.bufferSz → p.history.serviced = p.dcb.bufferIdx.toNat + 1 → Serving p iocb
  | written : iocb.ioOp = .write → p.dcb.event = true → p.outputEnabled = false →
      p.dcb.bufferIdx = iocb.bufferSz → p.history.serviced = p.dcb.bufferIdx.toNat → Serving p iocb

structure PortOk (p : Port) (iocbs : Ptr → Iocb) (pend : List Ptr) : Prop where
  queue : Queue (fun a => (iocbs a).pNext) 0 p.dcb.iocbQueueHead p.dcb.iocbQueueTail pend
  unique : pend.Nodup
  sizes : ∀ a ∈ pend, (iocbs a).bufferSz ≠ 0
  accepted : p.history.accepted = p.history.retired ++ pend.map fun a => (iocbs a).request
  moved : ∀ e ∈ p.history.moved, e.1 ≤ p.history.retired.length
  serving : ∀ a ∈ pend.head?, Serving p (iocbs a)
  idle : pend = [] → p.dcb.event = false ∧ p.outputEnabled = false ∧
    ∀ e ∈ p.history.moved, e.1 < p.history.retired.length

variable {p p' : Port} {iocbs iocbs' : Ptr → Iocb} {pend : List Ptr} {a : Ptr} {iocb : Iocb}

theorem portOk_congr (ok : PortOk p iocbs pend) (same : ∀ a ∈ pend, iocbs' a = iocbs a) :
    PortOk p iocbs' pend := by
  obtain ⟨queue, unique, sizes, accepted, moved, serving, idle⟩ := ok
  refine ⟨?_, unique, ?_, ?_, moved, ?_, idle⟩
  · apply queue_congr queue
    intro a member
    rw [same a member]
  · intro a member
    rw [same a member]
    exact sizes a member
  · rw [accepted]
    congr 1
    exact List.map_congr_left fun a member => by rw [same a member]
  · intro a member
    rw [same a (List.mem_of_mem_head? member)]
    exact serving a member

theorem count_append (h : History) (n : Nat) (bytes : List (Nat × UInt8)) :
    { h with moved := h.moved ++ bytes }.count n = h.count n + bytes.countP (·.1 = n) :=
  List.countP_append

theorem count_zero {h : History} {n : Nat} (none : ∀ e ∈ h.moved, e.1 < n) : h.count n = 0 := by
  apply List.countP_eq_zero.mpr
  intro e member
  have := none e member
  simp only [decide_eq_true_eq]
  omega

theorem serving_congr {iocb' : Iocb} (serving : Serving p iocb) (op : iocb'.ioOp = iocb.ioOp)
    (size : iocb'.bufferSz = iocb.bufferSz) (event : p'.dcb.event = p.dcb.event)
    (bufferIdx : p'.dcb.bufferIdx = p.dcb.bufferIdx) (ier : p'.ier = p.ier)
    (retired : p'.history.retired = p.history.retired) (moved : p'.history.moved = p.history.moved) :
    Serving p' iocb' := by
  have enabled : p'.outputEnabled = p.outputEnabled := by
    unfold Port.outputEnabled
    rw [ier]
  have serviced : p'.history.serviced = p.history.serviced := by
    unfold History.serviced History.count
    rw [retired, moved]
  have finished : Finished p' iocb' ↔ Finished p iocb := by
    unfold Finished
    rw [bufferIdx, size, op, retired, moved]
  cases serving with
  | reading isRead progress off done =>
    refine .reading (op.trans isRead) ?_ (enabled.trans off) ?_
    · rw [bufferIdx, serviced]
      exact progress
    · rw [event, finished]
      exact done
  | writing isWrite pending lit part progress =>
    refine .writing (op.trans isWrite) (event.trans pending) (enabled.trans lit) ?_ ?_
    · rw [bufferIdx, size]
      exact part
    · rw [serviced, bufferIdx]
      exact progress
  | written isWrite done off whole progress =>
    refine .written (op.trans isWrite) (event.trans done) (enabled.trans off) ?_ ?_
    · rw [bufferIdx, size]
      exact whole
    · rw [serviced, bufferIdx]
      exact progress

/-! ### Interrupts -/

/-- Nothing but the ring buffer has changed. -/
structure SameService (p p' : Port) : Prop where
  head : p'.dcb.iocbQueueHead = p.dcb.iocbQueueHead
  tail : p'.dcb.iocbQueueTail = p.dcb.iocbQueueTail
  event : p'.dcb.event = p.dcb.event
  bufferIdx : p'.dcb.bufferIdx = p.dcb.bufferIdx
  ier : p'.ier = p.ier
  history : p'.history = p.history

theorem sameService_ok (ok : PortOk p iocbs pend) (same : SameService p p') : PortOk p' iocbs pend := by
  obtain ⟨queue, unique, sizes, accepted, moved, serving, idle⟩ := ok
  have retired : p'.history.retired = p.history.retired := by rw [same.history]
  have moved' : p'.history.moved = p.history.moved := by rw [same.history]
  refine ⟨?_, unique, sizes, ?_, ?_, ?_, ?_⟩
  · rw [same.head, same.tail]
    exact queue
  · rw [same.history]
    exact accepted
  · rw [same.history]
    exact moved
  · intro a member
    exact serving_congr (serving a member) rfl rfl same.event same.bufferIdx same.ier retired moved'
  · unfold Port.outputEnabled
    rw [same.event, same.ier, same.history]
    exact idle

/-- A change in the progress of the head request only. -/
theorem progress_ok (bytes : List UInt8) (ok : PortOk p iocbs (a :: pend))
    (head : p'.dcb.iocbQueueHead = p.dcb.iocbQueueHead)
    (tail : p'.dcb.iocbQueueTail = p.dcb.iocbQueueTail)
    (accepted : p'.history.accepted = p.history.accepted)
    (retired : p'.history.retired = p.history.retired)
    (moved : p'.history.moved = p.history.moved ++ bytes.map (p.history.retired.length, ·))
    (serving : Serving p' (iocbs a)) : PortOk p' iocbs (a :: pend) := by
  refine ⟨?_, ok.unique, ok.sizes, ?_, ?_, ?_, ?_⟩
  · rw [head, tail]
    exact ok.queue
  · rw [accepted, retired]
    exact ok.accepted
  · rw [moved, retired]
    intro e member
    rcases List.mem_append.mp member with old | new
    · exact ok.moved e old
    · obtain ⟨byte, _, rfl⟩ := List.mem_map.mp new
      exact Nat.le_refl _
  · intro b member
    obtain rfl : a = b := by simpa using member
    exact serving
  · intro empty
    cases empty

theorem serviced_progress {bytes : List UInt8}
    (retired : p'.history.retired = p.history.retired)
    (moved : p'.history.moved = p.history.moved ++ bytes.map (p.history.retired.length, ·)) :
    p'.history.serviced = p.history.serviced + bytes.length := by
  have new : (bytes.map (p.history.retired.length, ·)).countP (fun e => e.1 = p.history.retired.length) =
      bytes.length := by
    rw [List.countP_map]
    exact List.countP_eq_length.mpr fun _ _ => by simp
  unfold History.serviced History.count
  rw [moved, retired, List.countP_append, new]

/-- `k'` is `k` but for the port `d` and the buffers, and the port has carried more bytes at most. -/
structure OnlyPort (k k' : Kernel) (d : Fin 4) : Prop where
  procs : k'.procs = k.procs
  pcbRunning : k'.pcbRunning = k.pcbRunning
  contextOriginal : k'.contextOriginal = k.contextOriginal
  iocbs : k'.iocbs = k.iocbs
  ports : ∀ e, e ≠ d → k'.ports e = k.ports e
  isOpen : (k'.ports d).dcb.isOpen = (k.ports d).dcb.isOpen
  accepted : (k'.ports d).history.accepted = (k.ports d).history.accepted
  retired : (k'.ports d).history.retired = (k.ports d).history.retired
  moved : ∃ bytes : List UInt8, (k'.ports d).history.moved =
    (k.ports d).history.moved ++ bytes.map ((k.ports d).history.retired.length, ·)

theorem OnlyPort.refl (k : Kernel) (d : Fin 4) : OnlyPort k k d :=
  ⟨rfl, rfl, rfl, rfl, fun _ _ => rfl, rfl, rfl, rfl, [], by simp⟩

theorem OnlyPort.trans {k k' k'' : Kernel} {d : Fin 4} (h : OnlyPort k k' d) (h' : OnlyPort k' k'' d) :
    OnlyPort k k'' d := by
  obtain ⟨bytes, moved⟩ := h.moved
  obtain ⟨bytes', moved'⟩ := h'.moved
  refine ⟨h'.procs.trans h.procs, h'.pcbRunning.trans h.pcbRunning,
    h'.contextOriginal.trans h.contextOriginal, h'.iocbs.trans h.iocbs,
    fun e other => (h'.ports e other).trans (h.ports e other), h'.isOpen.trans h.isOpen,
    h'.accepted.trans h.accepted, h'.retired.trans h.retired, bytes ++ bytes', ?_⟩
  rw [moved', moved, h.retired, List.map_append, List.append_assoc]

section
variable {k k' : Kernel} {d : Fin 4} {byte : UInt8}

@[simp] theorem setPort_ports (k : Kernel) (d e : Fin 4) (p : Port) :
    (k.setPort d p).ports e = if e = d then p else k.ports e := by
  unfold Kernel.setPort
  by_cases same : e = d
  · subst same
    simp
  · simp [same]

theorem onlyPort_setPort (k : Kernel) (d : Fin 4) (p : Port) (isOpen : p.dcb.isOpen = (k.ports d).dcb.isOpen)
    (accepted : p.history.accepted = (k.ports d).history.accepted)
    (retired : p.history.retired = (k.ports d).history.retired) (bytes : List UInt8)
    (moved : p.history.moved =
      (k.ports d).history.moved ++ bytes.map ((k.ports d).history.retired.length, ·)) :
    OnlyPort k (k.setPort d p) d := by
  refine ⟨rfl, rfl, rfl, rfl, ?_, ?_, ?_, ?_, bytes, ?_⟩
  · intro e other
    rw [setPort_ports, if_neg other]
  all_goals
    rw [setPort_ports, if_pos rfl]
    assumption

theorem onlyPort_setDcb (k : Kernel) (d : Fin 4) (dcb : Dcb) (isOpen : dcb.isOpen = (k.dcb d).isOpen) :
    OnlyPort k (k.setDcb d dcb) d :=
  onlyPort_setPort k d _ isOpen rfl rfl [] (by simp)

theorem onlyPort_setIer (k : Kernel) (d : Fin 4) (ier : UInt8) : OnlyPort k (k.setIer d ier) d :=
  onlyPort_setPort k d _ rfl rfl rfl [] (by simp)

theorem onlyPort_carry (k : Kernel) (d : Fin 4) (byte : UInt8) : OnlyPort k (k.carry d byte) d :=
  onlyPort_setPort k d _ rfl rfl rfl [byte] (by simp [Kernel.history])

theorem onlyPort_storeByte (k : Kernel) (d : Fin 4) (a : Ptr) (byte : UInt8) :
    OnlyPort k (k.storeByte d a byte) d := by
  obtain ⟨procs, running, original, iocbs, ports, isOpen, accepted, retired, moved⟩ := onlyPort_carry k d byte
  exact ⟨procs, running, original, iocbs, ports, isOpen, accepted, retired, moved⟩

theorem onlyPort_outByte (k : Kernel) (d : Fin 4) (byte : UInt8) : OnlyPort k (k.outByte d byte) d :=
  (onlyPort_carry k d byte).trans (onlyPort_setPort _ d _ rfl rfl rfl [] (by simp))

theorem setDcb_port (k : Kernel) (d : Fin 4) (dcb : Dcb) :
    (k.setDcb d dcb).ports d = { k.ports d with dcb := dcb } := by
  unfold Kernel.setDcb
  rw [setPort_ports, if_pos rfl]

theorem setIer_port (k : Kernel) (d : Fin 4) (ier : UInt8) :
    (k.setIer d ier).ports d = { k.ports d with ier := ier } := by
  unfold Kernel.setIer
  rw [setPort_ports, if_pos rfl]

/-- The history of a port that has carried one more byte. -/
def History.carried (h : History) (byte : UInt8) : History :=
  { h with moved := h.moved ++ [(h.retired.length, byte)] }

theorem carry_port (k : Kernel) (d : Fin 4) (byte : UInt8) :
    (k.carry d byte).ports d = { k.ports d with history := (k.ports d).history.carried byte } := by
  unfold Kernel.carry Kernel.setHistory
  rw [setPort_ports, if_pos rfl]
  rfl

theorem storeByte_port (k : Kernel) (d : Fin 4) (a : Ptr) (byte : UInt8) :
    (k.storeByte d a byte).ports d = { k.ports d with history := (k.ports d).history.carried byte } :=
  carry_port k d byte

theorem outByte_port (k : Kernel) (d : Fin 4) (byte : UInt8) :
    (k.outByte d byte).ports d =
      { k.ports d with
        sent := (k.ports d).sent ++ [byte]
        history := (k.ports d).history.carried byte } := by
  unfold Kernel.outByte
  rw [setPort_ports, if_pos rfl, carry_port]

theorem serviced_carried (h : History) (byte : UInt8) : (h.carried byte).serviced = h.serviced + 1 := by
  unfold History.carried History.serviced
  rw [count_append]
  simp

theorem succ_toNat {idx size : UInt32} (room : idx.toNat < size.toNat) : (idx + 1).toNat = idx.toNat + 1 := by
  have := size.toNat_lt
  rw [UInt32.toNat_add, UInt32.toNat_one]
  omega

/-- The ways an input interrupt goes when `a` is the head of the queue. -/
inductive Inputs (k : Kernel) (d : Fin 4) (byte : UInt8) (a : Ptr) : Kernel → Prop
  | pushed : (k.iocbs a).ioOp ≠ .read → Inputs k d byte a (k.setDcb d ((k.dcb d).push byte))
  | finished : (k.iocbs a).ioOp = .read → (k.dcb d).event = true → Inputs k d byte a k
  | stored : (k.iocbs a).ioOp = .read → (k.dcb d).event = false → Inputs k d byte a
      ((k.storeByte d ((k.iocbs a).buffer + (k.dcb d).bufferIdx) byte).setDcb d { k.dcb d with
        bufferIdx := (k.dcb d).bufferIdx + 1
        event := decide ((k.dcb d).bufferIdx + 1 = (k.iocbs a).bufferSz) || decide (byte = carriageReturn) })

/-- The ways an output interrupt goes. -/
inductive Outputs (k : Kernel) (d : Fin 4) (a : Ptr) : Kernel → Prop
  | finished : (k.dcb d).event = true → Outputs k d a k
  | other : (k.dcb d).event = false → (k.iocbs a).ioOp ≠ .write → Outputs k d a k
  | last : (k.dcb d).event = false → (k.iocbs a).ioOp = .write → (k.dcb d).bufferIdx + 1 = (k.iocbs a).bufferSz →
      Outputs k d a
        ((k.setDcb d { k.dcb d with bufferIdx := (k.dcb d).bufferIdx + 1, event := true }).disableOutput d)
  | next : (k.dcb d).event = false → (k.iocbs a).ioOp = .write → (k.dcb d).bufferIdx + 1 ≠ (k.iocbs a).bufferSz →
      Outputs k d a ((k.setBufferIdx d ((k.dcb d).bufferIdx + 1)).outByte d
        (k.buffers ((k.iocbs a).buffer + ((k.dcb d).bufferIdx + 1))))

theorem input_ways (h : serialInputInterrupt k d byte = some k') :
    (k.dcb d).iocbQueueHead ≠ 0 ∧ Inputs k d byte (k.dcb d).iocbQueueHead k' := by
  unfold serialInputInterrupt at h
  dsimp only at h
  by_cases empty : (k.dcb d).iocbQueueHead = 0
  · rw [if_pos empty] at h
    cases h
  rw [if_neg empty] at h
  refine ⟨empty, ?_⟩
  by_cases isRead : (k.iocbs (k.dcb d).iocbQueueHead).ioOp = .read
  · rw [if_neg (not_not.mpr isRead)] at h
    cases event : (k.dcb d).event with
    | true =>
      rw [event, if_neg (by decide)] at h
      cases h
      exact .finished isRead event
    | false =>
      rw [event, if_pos (by decide)] at h
      obtain rfl := Option.some.inj h
      exact .stored isRead event
  · rw [if_pos isRead] at h
    obtain rfl := Option.some.inj h
    exact .pushed isRead

theorem output_ways (h : serialOutputInterrupt k d = some k') :
    ((k.dcb d).event = false → (k.dcb d).iocbQueueHead ≠ 0) ∧ Outputs k d (k.dcb d).iocbQueueHead k' := by
  unfold serialOutputInterrupt at h
  dsimp only at h
  cases event : (k.dcb d).event with
  | true =>
    rw [event, if_neg (by decide)] at h
    cases h
    exact ⟨fun pending => absurd pending (by decide), .finished event⟩
  | false =>
    rw [event, if_pos (by decide)] at h
    by_cases empty : (k.dcb d).iocbQueueHead = 0
    · rw [if_pos empty] at h
      cases h
    rw [if_neg empty] at h
    refine ⟨fun _ => empty, ?_⟩
    by_cases isWrite : (k.iocbs (k.dcb d).iocbQueueHead).ioOp = .write
    · rw [if_pos isWrite] at h
      by_cases full : (k.dcb d).bufferIdx + 1 = (k.iocbs (k.dcb d).iocbQueueHead).bufferSz
      · rw [if_pos full] at h
        obtain rfl := Option.some.inj h
        exact .last event isWrite full
      · rw [if_neg full] at h
        obtain rfl := Option.some.inj h
        exact .next event isWrite full
    · rw [if_neg isWrite] at h
      cases h
      exact .other event isWrite

theorem PortOk.input_ways (ok : PortOk (k.ports d) k.iocbs pend) (h : serialInputInterrupt k d byte = some k') :
    ∃ a rest, pend = a :: rest ∧ Inputs k d byte a k' := by
  obtain ⟨real, ways⟩ := Device.input_ways h
  cases pend with
  | nil => exact (real ok.queue.chain.head).elim
  | cons a rest =>
    have head : (k.dcb d).iocbQueueHead = a := ok.queue.chain.head
    exact ⟨a, rest, rfl, head ▸ ways⟩

theorem PortOk.output_ways (ok : PortOk (k.ports d) k.iocbs pend) (h : serialOutputInterrupt k d = some k') :
    ∃ a rest, pend = a :: rest ∧ Outputs k d a k' := by
  obtain ⟨real, ways⟩ := Device.output_ways h
  cases pend with
  | nil => exact (real (ok.idle rfl).1 ok.queue.chain.head).elim
  | cons a rest =>
    have head : (k.dcb d).iocbQueueHead = a := ok.queue.chain.head
    exact ⟨a, rest, rfl, head ▸ ways⟩

theorem input_ok (ok : PortOk (k.ports d) k.iocbs pend)
    (h : serialInputInterrupt k d byte = some k') :
    OnlyPort k k' d ∧ PortOk (k'.ports d) k.iocbs pend := by
  obtain ⟨a, rest, rfl, ways⟩ := ok.input_ways h
  cases ways with
  | pushed notRead =>
    refine ⟨onlyPort_setDcb k d _ rfl, ?_⟩
    rw [setDcb_port]
    exact sameService_ok ok ⟨rfl, rfl, rfl, rfl, rfl, rfl⟩
  | finished isRead event => exact ⟨OnlyPort.refl k d, ok⟩
  | stored isRead event =>
    have only : OnlyPort k (k.storeByte d ((k.iocbs a).buffer + (k.dcb d).bufferIdx) byte) d :=
      onlyPort_storeByte k d _ byte
    refine ⟨only.trans (onlyPort_setDcb _ d _ only.isOpen.symm), ?_⟩
    rw [setDcb_port, storeByte_port]
    refine progress_ok [byte] ok rfl rfl rfl rfl rfl ?_
    cases ok.serving a rfl with
    | reading op progress off done =>
      refine .reading op ?_ off fun complete => ?_
      · show (k.ports d).dcb.bufferIdx + 1 = _
        rw [serviced_carried, progress, UInt32.ofNat_add]
        rfl
      · cases Bool.or_eq_true_iff.mp complete with
        | inl full => exact .inl (of_decide_eq_true full)
        | inr line =>
          obtain rfl := of_decide_eq_true line
          exact .inr ⟨op, List.getLast?_concat⟩
    | writing op => exact absurd (isRead.symm.trans op) (by decide)
    | written op => exact absurd (isRead.symm.trans op) (by decide)

theorem output_ok (ok : PortOk (k.ports d) k.iocbs pend) (h : serialOutputInterrupt k d = some k') :
    OnlyPort k k' d ∧ PortOk (k'.ports d) k.iocbs pend := by
  obtain ⟨a, rest, rfl, ways⟩ := ok.output_ways h
  have serving := ok.serving a rfl
  cases ways with
  | finished event => exact ⟨OnlyPort.refl k d, ok⟩
  | other event notWrite => exact ⟨OnlyPort.refl k d, ok⟩
  | last event isWrite full =>
    cases serving with
    | reading op => exact absurd (isWrite.symm.trans op) (by decide)
    | written op done => exact absurd (event.symm.trans done) (by decide)
    | writing op pending lit part progress =>
      have next : ((k.dcb d).bufferIdx + 1).toNat = (k.dcb d).bufferIdx.toNat + 1 := succ_toNat (UInt32.lt_iff_toNat_lt.mp part)
      refine ⟨(onlyPort_setDcb k d _ (by rfl)).trans (onlyPort_setIer _ d _), ?_⟩
      unfold Kernel.disableOutput
      rw [setIer_port, setDcb_port]
      refine progress_ok [] ok rfl rfl rfl rfl (List.append_nil _).symm ?_
      refine .written op rfl ?_ full (progress.trans next.symm)
      simp [Port.outputEnabled, enabled_and]
  | next event isWrite notFull =>
    cases serving with
    | reading op => exact absurd (isWrite.symm.trans op) (by decide)
    | written op done => exact absurd (event.symm.trans done) (by decide)
    | writing op pending lit part progress =>
      have part : (k.dcb d).bufferIdx < (k.iocbs a).bufferSz := part
      have next : ((k.dcb d).bufferIdx + 1).toNat = (k.dcb d).bufferIdx.toNat + 1 := succ_toNat (UInt32.lt_iff_toNat_lt.mp part)
      refine ⟨(onlyPort_setDcb k d _ (by rfl)).trans (onlyPort_outByte _ d _), ?_⟩
      rw [outByte_port]
      unfold Kernel.setBufferIdx
      rw [setDcb_port]
      refine progress_ok [_] ok rfl rfl rfl rfl rfl ?_
      refine .writing op pending lit ?_ ?_
      · show (k.dcb d).bufferIdx + 1 < _
        have apart : ((k.dcb d).bufferIdx + 1).toNat ≠ (k.iocbs a).bufferSz.toNat :=
          fun same => notFull (UInt32.toNat_inj.mp same)
        have := UInt32.lt_iff_toNat_lt.mp part
        rw [UInt32.lt_iff_toNat_lt]
        omega
      · show ((k.ports d).history.carried _).serviced = ((k.dcb d).bufferIdx + 1).toNat + 1
        rw [serviced_carried, next]
        exact congrArg (· + 1) progress

theorem interrupt_ok {i : Interrupt} (ok : PortOk (k.ports d) k.iocbs pend)
    (h : serialInterrupt k d i = some k') : OnlyPort k k' d ∧ PortOk (k'.ports d) k.iocbs pend := by
  cases i with
  | modemStatus | lineStatus =>
    cases h
    exact ⟨OnlyPort.refl k d, ok⟩
  | output =>
    simp only [serialInterrupt] at h
    by_cases isOpen : (k.dcb d).isOpen
    · rw [if_pos isOpen] at h
      exact output_ok ok h
    · rw [if_neg isOpen] at h
      cases h
      exact ⟨OnlyPort.refl k d, ok⟩
  | input byte =>
    simp only [serialInterrupt] at h
    by_cases isOpen : (k.dcb d).isOpen
    · rw [if_pos isOpen] at h
      exact input_ok ok h
    · rw [if_neg isOpen] at h
      cases h
      exact ⟨OnlyPort.refl k d, ok⟩

/-! ### Starting a request -/

/-- The queue of a port whose head request has not been started. -/
structure Fresh (p : Port) (iocbs : Ptr → Iocb) (pend : List Ptr) : Prop where
  queue : Queue (fun a => (iocbs a).pNext) 0 p.dcb.iocbQueueHead p.dcb.iocbQueueTail pend
  unique : pend.Nodup
  sizes : ∀ a ∈ pend, (iocbs a).bufferSz ≠ 0
  accepted : p.history.accepted = p.history.retired ++ pend.map fun a => (iocbs a).request
  moved : ∀ e ∈ p.history.moved, e.1 < p.history.retired.length
  event : p.dcb.event = false
  output : p.outputEnabled = false

theorem fresh_ok (fresh : Fresh p iocbs pend) (serving : ∀ a ∈ pend.head?, Serving p (iocbs a)) :
    PortOk p iocbs pend :=
  ⟨fresh.queue, fresh.unique, fresh.sizes, fresh.accepted, fun e member => Nat.le_of_lt (fresh.moved e member),
    serving, fun _ => ⟨fresh.event, fresh.output, fresh.moved⟩⟩

/-- The queue stays as it is and the port carries `bytes`. -/
structure Carried (p p' : Port) (bytes : List UInt8) : Prop where
  head : p'.dcb.iocbQueueHead = p.dcb.iocbQueueHead
  tail : p'.dcb.iocbQueueTail = p.dcb.iocbQueueTail
  event : p'.dcb.event = p.dcb.event
  ier : p'.ier = p.ier
  moved : p'.history.moved = p.history.moved ++ bytes.map (p.history.retired.length, ·)

theorem fresh_progress {bytes : List UInt8} (fresh : Fresh p iocbs (a :: pend)) (carried : Carried p p' bytes)
    (accepted : p'.history.accepted = p.history.accepted) (retired : p'.history.retired = p.history.retired)
    (serving : Serving p' (iocbs a)) : PortOk p' iocbs (a :: pend) := by
  refine ⟨?_, fresh.unique, fresh.sizes, ?_, ?_, ?_, ?_⟩
  · rw [carried.head, carried.tail]
    exact fresh.queue
  · rw [accepted, retired]
    exact fresh.accepted
  · rw [carried.moved, retired]
    intro e member
    rcases List.mem_append.mp member with old | new
    · exact Nat.le_of_lt (fresh.moved e old)
    · obtain ⟨byte, _, rfl⟩ := List.mem_map.mp new
      exact Nat.le_refl _
  · intro b member
    obtain rfl : a = b := by simpa using member
    exact serving
  · intro empty
    cases empty

/-- The copying loop ends, having carried as many bytes as it counts. -/
theorem drainRing_spec (k : Kernel) (d : Fin 4) (buffer : UInt32) {len bufIdx : UInt32} {fuel : Nat}
    (enough : len.toNat - bufIdx.toNat < fuel) :
    ∃ (k' : Kernel) (bytes : List UInt8),
      drainRing d buffer len fuel k bufIdx = some (k', bufIdx + UInt32.ofNat bytes.length) ∧
      OnlyPort k k' d ∧ Carried (k.ports d) (k'.ports d) bytes := by
  induction fuel generalizing k bufIdx with
  | zero => omega
  | succ fuel ih =>
    unfold drainRing
    dsimp only
    by_cases more : (k.dcb d).rbufferIdxBegin < (k.dcb d).rbufferIdxEnd ∧ bufIdx < len
    · rw [if_pos more]
      generalize (k.dcb d).rbuffer (k.dcb d).rbufferIdxBegin = byte
      generalize (if (k.dcb d).rbufferIdxBegin + 1 = (k.dcb d).rbufferSz then 0
        else (k.dcb d).rbufferIdxBegin + 1) = next
      generalize moved : (k.storeByte d (buffer + bufIdx) byte).setDcb d
        { k.dcb d with rbufferIdxBegin := next } = k₁
      have stored : OnlyPort k (k.storeByte d (buffer + bufIdx) byte) d := onlyPort_storeByte k d _ byte
      have only : OnlyPort k k₁ d := by
        rw [← moved]
        exact stored.trans (onlyPort_setDcb _ d _ stored.isOpen.symm)
      have carried : Carried (k.ports d) (k₁.ports d) [byte] := by
        rw [← moved, setDcb_port, storeByte_port]
        exact ⟨rfl, rfl, rfl, rfl, rfl⟩
      by_cases line : byte = carriageReturn
      · rw [if_pos line]
        exact ⟨k₁, [byte], rfl, only, carried⟩
      · rw [if_neg line]
        have below := UInt32.lt_iff_toNat_lt.mp more.2
        have bound := len.toNat_lt
        have step : (bufIdx + 1).toNat = bufIdx.toNat + 1 := by
          rw [UInt32.toNat_add, UInt32.toNat_one]
          omega
        have enough' : len.toNat - (bufIdx + 1).toNat < fuel := by omega
        obtain ⟨k', bytes, run, only', carried'⟩ := ih k₁ enough'
        refine ⟨k', byte :: bytes, ?_, only.trans only', ?_⟩
        · rw [run, List.length_cons, UInt32.ofNat_add, UInt32.add_assoc, UInt32.add_comm 1]
          rfl
        · refine ⟨carried'.head.trans carried.head, carried'.tail.trans carried.tail,
            carried'.event.trans carried.event, carried'.ier.trans carried.ier, ?_⟩
          rw [carried'.moved, carried.moved, only.retired, List.append_assoc]
          rfl
    · rw [if_neg more]
      refine ⟨k, [], ?_, OnlyPort.refl k d, ⟨rfl, rfl, rfl, rfl, by simp⟩⟩
      rw [List.length_nil]
      show some (k, bufIdx) = some (k, bufIdx + 0)
      rw [UInt32.add_zero]

/-- The loop does not start when the indices of the ring buffer are not in order. -/
theorem startRead_still {len : UInt32} (buffer : UInt32)
    (still : ¬(k.dcb d).rbufferIdxBegin < (k.dcb d).rbufferIdxEnd) :
    startRead k d buffer len = some (k.setBufferIdx d 0) := by
  unfold startRead
  rw [show addressSpace = (addressSpace - 1) + 1 from rfl]
  unfold drainRing
  dsimp only
  rw [if_neg fun more => still more.1]
  rfl

/-- A port starts a request and keeps its queue. -/
structure Starts (k k' : Kernel) (d : Fin 4) : Prop where
  only : OnlyPort k k' d
  head : (k'.dcb d).iocbQueueHead = (k.dcb d).iocbQueueHead
  tail : (k'.dcb d).iocbQueueTail = (k.dcb d).iocbQueueTail

theorem startRead_starts (k : Kernel) (d : Fin 4) (buffer len : UInt32) :
    ∃ k', startRead k d buffer len = some k' ∧ Starts k k' d := by
  have enough : len.toNat - (0 : UInt32).toNat < addressSpace :=
    Nat.lt_of_le_of_lt (Nat.sub_le _ _) len.toNat_lt
  obtain ⟨k₁, bytes, run, only, carried⟩ := drainRing_spec k d buffer enough
  have dcb : (k₁.setBufferIdx d (0 + UInt32.ofNat bytes.length)).dcb d =
      { k₁.dcb d with bufferIdx := 0 + UInt32.ofNat bytes.length } := by
    unfold Kernel.setBufferIdx Kernel.dcb
    rw [setDcb_port]
  refine ⟨k₁.setBufferIdx d (0 + UInt32.ofNat bytes.length), ?_, only.trans (onlyPort_setDcb k₁ d _ (by rfl)), ?_, ?_⟩
  · unfold startRead
    rw [run]
    rfl
  · rw [dcb]
    exact carried.head
  · rw [dcb]
    exact carried.tail

theorem startWrite_starts (k : Kernel) (d : Fin 4) (buffer : UInt32) : Starts k (startWrite k d buffer) d := by
  have dcb : (startWrite k d buffer).dcb d = { k.dcb d with bufferIdx := 0 } := by
    unfold startWrite Kernel.enableOutput Kernel.setBufferIdx Kernel.dcb
    rw [setIer_port, outByte_port, setDcb_port]
  refine ⟨?_, ?_, ?_⟩
  · exact (onlyPort_setDcb k d _ (by rfl)).trans ((onlyPort_outByte _ d _).trans (onlyPort_setIer _ d _))
  all_goals rw [dcb]

theorem fresh_serviced {bytes : List UInt8} (fresh : Fresh p iocbs pend) (carried : Carried p p' bytes)
    (retired : p'.history.retired = p.history.retired) : p'.history.serviced = bytes.length := by
  have before : p.history.serviced = 0 := count_zero fresh.moved
  rw [serviced_progress retired carried.moved, before, Nat.zero_add]

theorem startRead_ok (fresh : Fresh (k.ports d) k.iocbs (a :: pend)) (op : (k.iocbs a).ioOp = .read) :
    ∃ k' : Kernel, startRead k d (k.iocbs a).buffer (k.iocbs a).bufferSz = some k' ∧ OnlyPort k k' d ∧
      PortOk (k'.ports d) k.iocbs (a :: pend) := by
  have enough : (k.iocbs a).bufferSz.toNat - (0 : UInt32).toNat < addressSpace :=
    Nat.lt_of_le_of_lt (Nat.sub_le _ _) (k.iocbs a).bufferSz.toNat_lt
  obtain ⟨k₁, bytes, run, only, carried⟩ :=
    drainRing_spec k d (k.iocbs a).buffer enough
  refine ⟨k₁.setBufferIdx d (0 + UInt32.ofNat bytes.length), ?_, ?_, ?_⟩
  · unfold startRead
    rw [run]
    rfl
  · exact only.trans (onlyPort_setDcb k₁ d _ (by rfl))
  · unfold Kernel.setBufferIdx
    rw [setDcb_port]
    have carried' : Carried (k.ports d) { k₁.ports d with
        dcb := { k₁.dcb d with bufferIdx := 0 + UInt32.ofNat bytes.length } } bytes :=
      ⟨carried.head, carried.tail, carried.event, carried.ier, carried.moved⟩
    refine fresh_progress fresh carried' only.accepted only.retired (.reading op ?_ ?_ ?_)
    · show 0 + UInt32.ofNat bytes.length = _
      rw [UInt32.zero_add, ← fresh_serviced fresh carried only.retired]
    · unfold Port.outputEnabled
      rw [carried.ier]
      exact fresh.output
    · intro event
      exact absurd ((carried.event.trans fresh.event).symm.trans event) (by decide)

theorem startWrite_ok (fresh : Fresh (k.ports d) k.iocbs (a :: pend)) (op : (k.iocbs a).ioOp = .write) :
    OnlyPort k (startWrite k d (k.iocbs a).buffer) d ∧
      PortOk ((startWrite k d (k.iocbs a).buffer).ports d) k.iocbs (a :: pend) := by
  have positive : 0 < (k.iocbs a).bufferSz := by
    have nonzero : (k.iocbs a).bufferSz ≠ 0 := fresh.sizes a (List.mem_cons_self ..)
    have : (k.iocbs a).bufferSz.toNat ≠ (0 : UInt32).toNat := fun same => nonzero (UInt32.toNat_inj.mp same)
    rw [UInt32.lt_iff_toNat_lt]
    have : (0 : UInt32).toNat = 0 := rfl
    omega
  constructor
  · exact (startWrite_starts k d _).only
  · unfold startWrite Kernel.enableOutput
    rw [setIer_port, outByte_port]
    unfold Kernel.setBufferIdx
    rw [setDcb_port]
    have before : (k.ports d).history.serviced = 0 := count_zero fresh.moved
    have serving : ∀ byte sent ier, Serving
        { k.ports d with
          dcb := { k.dcb d with bufferIdx := 0 }
          ier := ier ||| ierOutput
          sent := sent
          history := (k.ports d).history.carried byte } (k.iocbs a) := by
      intro byte sent ier
      refine .writing op fresh.event ?_ positive ?_
      · simp [Port.outputEnabled, enabled_or]
      · show ((k.ports d).history.carried byte).serviced = 0 + 1
        rw [serviced_carried, before]
    refine ⟨fresh.queue, fresh.unique, fresh.sizes, fresh.accepted, ?_, ?_, fun empty => nomatch empty⟩
    · intro e member
      rcases List.mem_append.mp member with old | new
      · exact Nat.le_of_lt (fresh.moved e old)
      · obtain rfl := List.mem_singleton.mp new
        exact Nat.le_refl _
    · intro b member
      obtain rfl : a = b := by simpa using member
      exact serving _ _ _

/-! ### Retiring a request -/

/-- A step of the port `d` that accepts and retires the given requests. -/
structure PortStep (k k' : Kernel) (d : Fin 4) (accepted retired : List Request) : Prop where
  procs : k'.procs = k.procs
  pcbRunning : k'.pcbRunning = k.pcbRunning
  contextOriginal : k'.contextOriginal = k.contextOriginal
  ports : ∀ e, e ≠ d → k'.ports e = k.ports e
  isOpen : (k'.ports d).dcb.isOpen = (k.ports d).dcb.isOpen
  accepted : (k'.ports d).history.accepted = (k.ports d).history.accepted ++ accepted
  retired : (k'.ports d).history.retired = (k.ports d).history.retired ++ retired
  moved : ∃ bytes : List UInt8, (k'.ports d).history.moved =
    (k.ports d).history.moved ++ bytes.map ((k'.ports d).history.retired.length, ·)

variable {accepted retired : List Request}

theorem OnlyPort.step (h : OnlyPort k k' d) : PortStep k k' d [] [] := by
  refine ⟨h.procs, h.pcbRunning, h.contextOriginal, h.ports, h.isOpen, ?_, ?_, ?_⟩
  · rw [h.accepted, List.append_nil]
  · rw [h.retired, List.append_nil]
  · rw [h.retired]
    exact h.moved

theorem PortStep.trans_only {k'' : Kernel} (h : PortStep k k' d accepted retired) (h' : OnlyPort k' k'' d) :
    PortStep k k'' d accepted retired := by
  obtain ⟨bytes, moved⟩ := h.moved
  obtain ⟨bytes', moved'⟩ := h'.moved
  refine ⟨h'.procs.trans h.procs, h'.pcbRunning.trans h.pcbRunning,
    h'.contextOriginal.trans h.contextOriginal,
    fun e other => (h'.ports e other).trans (h.ports e other), h'.isOpen.trans h.isOpen,
    h'.accepted.trans h.accepted, h'.retired.trans h.retired, bytes ++ bytes', ?_⟩
  rw [moved', moved, h'.retired, List.map_append, List.append_assoc]

theorem retire_port (k : Kernel) (d : Fin 4) (r : Request) :
    (k.retire d r).ports d =
      { k.ports d with
        history := { (k.ports d).history with retired := (k.ports d).history.retired ++ [r] } } := by
  unfold Kernel.retire Kernel.setHistory
  rw [setPort_ports, if_pos rfl]
  rfl

theorem accept_port (k : Kernel) (d : Fin 4) (r : Request) :
    (k.accept d r).ports d =
      { k.ports d with
        history := { (k.ports d).history with accepted := (k.ports d).history.accepted ++ [r] } } := by
  unfold Kernel.accept Kernel.setHistory
  rw [setPort_ports, if_pos rfl]
  rfl

theorem dequeue_port (k : Kernel) (d : Fin 4) :
    (dequeue k d).ports d =
      { k.ports d with
        dcb := { k.dcb d with
          event := false
          iocbQueueHead := (k.iocbs (k.dcb d).iocbQueueHead).pNext
          iocbQueueTail :=
            if (k.dcb d).iocbQueueHead = (k.dcb d).iocbQueueTail then (k.iocbs (k.dcb d).iocbQueueHead).pNext
            else (k.dcb d).iocbQueueTail }
        history := { k.history d with
          retired := (k.history d).retired ++ [(k.iocbs (k.dcb d).iocbQueueHead).request] } } := by
  unfold dequeue
  rw [retire_port, setDcb_port]
  rfl

theorem dequeue_step (k : Kernel) (d : Fin 4) :
    PortStep k (dequeue k d) d [] [(k.iocbs (k.dcb d).iocbQueueHead).request] := by
  refine ⟨rfl, rfl, rfl, ?_, ?_, ?_, ?_, [], ?_⟩
  · intro e other
    show (Kernel.setPort (Kernel.setPort k d _) d _).ports e = _
    rw [setPort_ports, if_neg other, setPort_ports, if_neg other]
  all_goals rw [dequeue_port]
  · rfl
  · exact (List.append_nil _).symm
  · rfl
  · exact (List.append_nil _).symm

theorem dequeue_fresh (ok : PortOk (k.ports d) k.iocbs (a :: pend)) (event : (k.dcb d).event = true) :
    Fresh ((dequeue k d).ports d) k.iocbs pend := by
  have queue := ok.queue
  have head : (k.dcb d).iocbQueueHead = a := queue.chain.head
  rw [dequeue_port]
  refine ⟨?_, (List.nodup_cons.mp ok.unique).2, fun b member => ok.sizes b (List.mem_cons_of_mem _ member), ?_,
    ?_, rfl, ?_⟩
  · show Queue _ 0 (k.iocbs (k.dcb d).iocbQueueHead).pNext _ pend
    rw [head]
    have popped := queue_pop queue ok.unique
    rw [show (k.ports d).dcb.iocbQueueHead = a from head] at popped
    exact popped
  · show (k.ports d).history.accepted = _
    rw [ok.accepted, head]
    show _ = ((k.ports d).history.retired ++ [(k.iocbs a).request]) ++ _
    rw [List.append_assoc]
    rfl
  · intro e member
    show e.1 < ((k.ports d).history.retired ++ _).length
    rw [List.length_append, List.length_singleton]
    exact Nat.lt_succ_of_le (ok.moved e member)
  · cases ok.serving a rfl with
    | reading _ _ off => exact off
    | writing _ pending => exact absurd (pending.symm.trans event) (by decide)
    | written _ _ off => exact off

theorem disableOutput_fresh (fresh : Fresh (k.ports d) k.iocbs pend) :
    Fresh ((k.disableOutput d).ports d) k.iocbs pend := by
  unfold Kernel.disableOutput
  rw [setIer_port]
  refine ⟨fresh.queue, fresh.unique, fresh.sizes, fresh.accepted, fresh.moved, fresh.event, ?_⟩
  simp [Port.outputEnabled, enabled_and]

/-- The next request of a port is started, whatever the one in front of it was. -/
theorem startNext_ok (fresh : Fresh (k.ports d) k.iocbs (a :: pend)) :
    ∃ k' : Kernel,
      (match (k.iocbs a).ioOp with
        | .read => startRead k d (k.iocbs a).buffer (k.iocbs a).bufferSz
        | .write => some (startWrite k d (k.iocbs a).buffer)) = some k' ∧
      OnlyPort k k' d ∧ PortOk (k'.ports d) k.iocbs (a :: pend) := by
  cases op : (k.iocbs a).ioOp with
  | read => exact startRead_ok fresh op
  | write => exact ⟨_, rfl, startWrite_ok fresh op⟩

theorem advance_ok (ok : PortOk (k.ports d) k.iocbs (a :: pend)) (event : (k.dcb d).event = true) :
    ∃ k' : Kernel, advance k d = some k' ∧ PortStep k k' d [] [(k.iocbs a).request] ∧
      k'.iocbs = k.iocbs ∧ PortOk (k'.ports d) k.iocbs pend := by
  have head : (k.dcb d).iocbQueueHead = a := ok.queue.chain.head
  have fresh := dequeue_fresh ok event
  have step := dequeue_step k d
  have next : (k.iocbs a).pNext = pend.headD 0 := ok.queue.chain.links.1
  rw [head] at step
  unfold advance
  dsimp only
  rw [head, next]
  cases pend with
  | nil => exact ⟨dequeue k d, if_neg (by simp), step, rfl, fresh_ok fresh fun _ none => nomatch none⟩
  | cons b pend =>
    have real : b ≠ 0 := fun same => ok.queue.chain.nonnull (by simp [same])
    rw [List.headD_cons, if_pos real]
    by_cases off : ((dequeue k d).iocbs b).ioOp ≠ (k.iocbs a).ioOp ∧ (k.iocbs a).ioOp = .write
    · rw [if_pos off]
      obtain ⟨k', run, only, ok'⟩ :=
        startNext_ok (k := (dequeue k d).disableOutput d) (disableOutput_fresh fresh)
      have quiet : OnlyPort (dequeue k d) ((dequeue k d).disableOutput d) d := onlyPort_setIer _ d _
      exact ⟨k', run, step.trans_only (quiet.trans only), only.iocbs, ok'⟩
    · rw [if_neg off]
      obtain ⟨k', run, only, ok'⟩ := startNext_ok (k := dequeue k d) fresh
      exact ⟨k', run, step.trans_only only, only.iocbs, ok'⟩

end

end Mpx.Device

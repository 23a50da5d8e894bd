import Mpx.Device.Line
import Mpx.Device.Service

/-! # Watched runs

A watch goes along with the driver and writes down what its code does not keep: the contents of each
request when it was accepted, and the bytes that came in. Each device is a serial line. -/

namespace Mpx.Device
open Function Library.Links Library.Transition Mpx.Process

/-- The ring buffers count as empty. -/
def Hollow (k : Kernel) : Prop :=
  ∀ d, (k.dcb d).rbufferIdxBegin = (k.dcb d).rbufferIdxEnd ∧ (k.dcb d).rbufferSz = serialRbufferSize

structure SameRing (dcb dcb' : Dcb) : Prop where
  rbufferIdxBegin : dcb'.rbufferIdxBegin = dcb.rbufferIdxBegin
  rbufferIdxEnd : dcb'.rbufferIdxEnd = dcb.rbufferIdxEnd
  rbufferSz : dcb'.rbufferSz = dcb.rbufferSz

def Port.line (p : Port) (contents : List (List UInt8)) (arrived : List (Nat × UInt8)) : Line :=
  { accepted := p.history.accepted
    contents := contents
    retired := p.history.retired.length
    moved := p.history.moved
    arrived := arrived
    sent := p.sent
    bufferIdx := p.dcb.bufferIdx.toNat
    event := p.dcb.event }

variable {k k' : Kernel} {d : Fin 4} {pend : List Ptr} {a buffer len : UInt32} {op : IoOp} {byte : UInt8}
  {contents : List (List UInt8)} {arrived : List (Nat × UInt8)} {p p' : Port} {iocbs : Ptr → Iocb}

theorem line_congr (history : p'.history = p.history) (sent : p'.sent = p.sent)
    (bufferIdx : p'.dcb.bufferIdx = p.dcb.bufferIdx) (event : p'.dcb.event = p.dcb.event) :
    p'.line contents arrived = p.line contents arrived := by
  unfold Port.line
  rw [history, sent, bufferIdx, event]

theorem line_active (contents : List (List UInt8)) (arrived : List (Nat × UInt8)) (ok : PortOk p iocbs pend) :
    (p.line contents arrived).active = (pend.map fun a => (iocbs a).request).head? := by
  show p.history.accepted[p.history.retired.length]? = _
  rw [ok.accepted, List.getElem?_append_right (Nat.le_refl _), Nat.sub_self, List.head?_eq_getElem?]

/-! ### The first steps of a request -/

theorem startRead_hollow (hollow : (k.dcb d).rbufferIdxBegin = (k.dcb d).rbufferIdxEnd) :
    startRead k d buffer len = some (k.setBufferIdx d 0) := by
  apply startRead_still
  rw [hollow]
  exact UInt32.lt_irrefl _

/-- `k'` differs from `k` at most in the progress of the port `d`. -/
structure Started (k k' : Kernel) (d : Fin 4) : Prop where
  ports : ∀ e, e ≠ d → k'.ports e = k.ports e
  accepted : (k'.history d).accepted = (k.history d).accepted
  ring : SameRing (k.dcb d) (k'.dcb d)
  buffers : k'.buffers = k.buffers

theorem startIo_line {r : Request} (hollow : (k.dcb d).rbufferIdxBegin = (k.dcb d).rbufferIdxEnd)
    (active : ((k.ports d).line contents arrived).active = some r) (ran : startIo k d r = some k') :
    Started k k' d ∧ (k'.ports d).line contents arrived = ((k.ports d).line contents arrived).start k.buffers := by
  unfold startIo at ran
  cases op : r.op with
  | read =>
    rw [op] at ran
    dsimp only at ran
    rw [startRead_hollow hollow] at ran
    obtain rfl := Option.some.inj ran
    rw [start_read active op]
    unfold Kernel.setBufferIdx
    have port := setDcb_port k d { k.dcb d with bufferIdx := 0 }
    refine ⟨⟨?_, ?_, ?_, rfl⟩, ?_⟩
    · intro e other
      unfold Kernel.setDcb
      rw [setPort_ports, if_neg other]
    · unfold Kernel.history
      rw [port]
    · unfold Kernel.dcb at port ⊢
      rw [port]
      exact ⟨rfl, rfl, rfl⟩
    · rw [port]
      rfl
  | write =>
    rw [op] at ran
    obtain rfl := Option.some.inj ran
    rw [start_write active op]
    have port : (startWrite k d r.buffer).ports d =
        { k.ports d with
          dcb := { k.dcb d with bufferIdx := 0 }
          ier := (k.ports d).ier ||| ierOutput
          sent := (k.ports d).sent ++ [k.buffers r.buffer]
          history := (k.ports d).history.carried (k.buffers r.buffer) } := by
      unfold startWrite Kernel.enableOutput
      rw [setIer_port, outByte_port]
      unfold Kernel.setBufferIdx
      rw [setDcb_port]
      rfl
    refine ⟨⟨?_, ?_, ?_, rfl⟩, ?_⟩
    · intro e other
      show (Kernel.setPort (Kernel.setPort (Kernel.setPort (Kernel.setPort k d _) d _) d _) d _).ports e = _
      rw [setPort_ports, if_neg other, setPort_ports, if_neg other, setPort_ports, if_neg other, setPort_ports,
        if_neg other]
    · unfold Kernel.history
      rw [port]
      rfl
    · unfold Kernel.dcb at port ⊢
      rw [port]
      exact ⟨rfl, rfl, rfl⟩
    · rw [port]
      rfl

/-! ### Interrupts -/

/-- The byte that an event brings in at an open device. -/
def received (k : Kernel) : Event → Fin 4 → List UInt8
  | .interrupt d (.input byte), e => if e = d ∧ (k.dcb d).isOpen = true then [byte] else []
  | _, _ => []

/-- What the event adds to the two logs of a device. -/
def contentsOf (k k' : Kernel) (d : Fin 4) : List (List UInt8) :=
  ((k'.history d).accepted.drop (k.history d).accepted.length).map (payload k.buffers)

def arrivalsOf (k : Kernel) (e : Event) (d : Fin 4) : List (Nat × UInt8) :=
  (received k e d).map ((k.history d).retired.length, ·)

theorem contents_same (same : (k'.history d).accepted = (k.history d).accepted) : contentsOf k k' d = [] := by
  unfold contentsOf
  rw [same, List.drop_length]
  rfl

theorem contents_new {r : Request} (new : (k'.history d).accepted = (k.history d).accepted ++ [r]) :
    contentsOf k k' d = [payload k.buffers r] := by
  unfold contentsOf
  rw [new, List.drop_left]
  rfl

/-- One event as a step of the line of `d`. -/
def LineMoves (k k' : Kernel) (e : Event) (d : Fin 4) (contents : List (List UInt8)) (arrived : List (Nat × UInt8)) :
    Prop :=
  Line.Step k.buffers ((k.ports d).line contents arrived)
    ((k'.ports d).line (contents ++ contentsOf k k' d) (arrived ++ arrivalsOf k e d))

theorem lineMoves_rest {e : Event} (quiet : received k e d = []) (history : k'.history d = k.history d)
    (sent : (k'.ports d).sent = (k.ports d).sent) (bufferIdx : (k'.dcb d).bufferIdx = (k.dcb d).bufferIdx)
    (event : (k'.dcb d).event = (k.dcb d).event) : LineMoves k k' e d contents arrived := by
  unfold LineMoves
  rw [contents_same (congrArg History.accepted history), line_congr history sent bufferIdx event]
  unfold arrivalsOf
  rw [quiet, List.map_nil, List.append_nil, List.append_nil]
  exact .rest

theorem lineMoves_ports {e : Event} (quiet : received k e d = []) (same : k'.ports d = k.ports d) :
    LineMoves k k' e d contents arrived := by
  have dcb : k'.dcb d = k.dcb d := congrArg Port.dcb same
  exact lineMoves_rest quiet (congrArg Port.history same) (congrArg Port.sent same) (congrArg Dcb.bufferIdx dcb)
    (congrArg Dcb.event dcb)

theorem input_line (ok : PortOk (k.ports d) k.iocbs pend) (isOpen : (k.dcb d).isOpen = true)
    (input : Input ((k.ports d).line contents arrived)) (h : serialInputInterrupt k d byte = some k') :
    LineMoves k k' (.interrupt d (.input byte)) d contents arrived := by
  have brings : arrivalsOf k (.interrupt d (.input byte)) d = [((k.history d).retired.length, byte)] := by
    unfold arrivalsOf
    rw [show received k (.interrupt d (.input byte)) d = [byte] from if_pos ⟨rfl, isOpen⟩]
    rfl
  have active := line_active contents arrived ok
  obtain ⟨a, rest, rfl, ways⟩ := ok.input_ways h
  have active : ((k.ports d).line contents arrived).active = some (k.iocbs a).request := active
  have busy : ((k.ports d).line contents arrived).active ≠ none := active ▸ Option.some_ne_none _
  unfold LineMoves
  -- The line after the interrupt is `receive` of the line before, in each of the three branches.
  suffices same : contentsOf k k' d = [] ∧
      (k'.ports d).line contents (arrived ++ [((k.history d).retired.length, byte)]) =
        ((k.ports d).line contents arrived).receive byte by
    rw [same.1, brings, List.append_nil, same.2]
    exact .received byte busy
  cases ways with
  | pushed notRead =>
    constructor
    · apply contents_same
      unfold Kernel.history
      rw [setDcb_port]
    · rw [receive_ignored]
      · rw [setDcb_port]
        rfl
      · intro r found both
        obtain rfl := Option.some.inj (active.symm.trans found)
        exact notRead both.1
  | finished isRead event =>
    refine ⟨contents_same rfl, ?_⟩
    rw [receive_ignored]
    · rfl
    · intro r found both
      exact absurd (both.2.symm.trans event) (by decide)
  | stored isRead event =>
    have room : (k.dcb d).bufferIdx.toNat < (k.iocbs a).bufferSz.toNat := input_room input active isRead event
    have next := succ_toNat room
    have full : (k.dcb d).bufferIdx + 1 = (k.iocbs a).bufferSz ↔
        (k.dcb d).bufferIdx.toNat + 1 = (k.iocbs a).bufferSz.toNat := by
      rw [← next, UInt32.toNat_inj]
    constructor
    · apply contents_same
      unfold Kernel.history
      rw [setDcb_port, storeByte_port]
      rfl
    · rw [receive_stored active isRead event, setDcb_port, storeByte_port]
      unfold Port.line
      dsimp only
      rw [next, decide_eq_decide.mpr full]
      rfl

theorem output_line (ok : PortOk (k.ports d) k.iocbs pend) (h : serialOutputInterrupt k d = some k') :
    LineMoves k k' (.interrupt d .output) d contents arrived := by
  have brings : arrivalsOf k (.interrupt d .output) d = [] := rfl
  have active := line_active contents arrived ok
  unfold LineMoves
  suffices same : contentsOf k k' d = [] ∧
      (k'.ports d).line contents arrived = ((k.ports d).line contents arrived).confirm k.buffers by
    rw [same.1, brings, List.append_nil, List.append_nil, same.2]
    exact .confirmed
  obtain ⟨a, rest, rfl, ways⟩ := ok.output_ways h
  have active : ((k.ports d).line contents arrived).active = some (k.iocbs a).request := active
  have counted : (k.iocbs a).ioOp = .write → (k.dcb d).event = false →
      ((k.dcb d).bufferIdx + 1).toNat = (k.dcb d).bufferIdx.toNat + 1 := by
    intro isWrite event
    cases ok.serving a rfl with
    | reading op => exact absurd (isWrite.symm.trans op) (by decide)
    | written op done => exact absurd (event.symm.trans done) (by decide)
    | writing op pending lit part progress => exact succ_toNat (UInt32.lt_iff_toNat_lt.mp part)
  cases ways with
  | finished event =>
    refine ⟨contents_same rfl, (confirm_ignored ?_).symm⟩
    intro r _ both
    exact absurd (both.2.symm.trans event) (by decide)
  | other event notWrite =>
    refine ⟨contents_same rfl, (confirm_ignored ?_).symm⟩
    intro r found both
    obtain rfl := Option.some.inj (active.symm.trans found)
    exact notWrite both.1
  | last event isWrite whole =>
    have next := counted isWrite event
    have full : (k.dcb d).bufferIdx.toNat + 1 = (k.iocbs a).bufferSz.toNat := by rw [← next, whole]
    rw [confirm_whole active isWrite event full]
    unfold Kernel.disableOutput
    refine ⟨contents_same ?_, ?_⟩
    · unfold Kernel.history
      rw [setIer_port, setDcb_port]
    · rw [setIer_port, setDcb_port]
      unfold Port.line
      dsimp only
      rw [next]
      rfl
  | next event isWrite part =>
    have next := counted isWrite event
    have notFull : (k.dcb d).bufferIdx.toNat + 1 ≠ (k.iocbs a).bufferSz.toNat := by
      rw [← next]
      exact mt UInt32.toNat_inj.mp part
    rw [confirm_part active isWrite event notFull]
    unfold Kernel.setBufferIdx
    refine ⟨contents_same ?_, ?_⟩
    · unfold Kernel.history
      rw [outByte_port, setDcb_port]
      rfl
    · have byte : UInt32.ofNat ((k.dcb d).bufferIdx.toNat + 1) = (k.dcb d).bufferIdx + 1 := by
        rw [← next, UInt32.ofNat_toNat]
      rw [outByte_port, setDcb_port]
      unfold Port.line
      dsimp only
      rw [next]
      show _ = Line.send _ (k.buffers ((k.iocbs a).buffer + UInt32.ofNat ((k.dcb d).bufferIdx.toNat + 1)))
      rw [byte]
      rfl

/-! ### Requests and completions -/

/-- The ring buffers and the memory of the processes stay as they are. -/
structure Frame (k k' : Kernel) : Prop where
  ring : ∀ d, SameRing (k.dcb d) (k'.dcb d)
  buffers : k'.buffers = k.buffers

theorem frame_hollow (frame : Frame k k') (hollow : Hollow k) : Hollow k' := by
  intro d
  rw [(frame.ring d).rbufferIdxBegin, (frame.ring d).rbufferIdxEnd, (frame.ring d).rbufferSz]
  exact hollow d

/-- Only the port `d` changes, and not its ring buffer. -/
theorem frame_port (ports : ∀ e, e ≠ d → k'.ports e = k.ports e)
    (ring : SameRing (k.dcb d) (k'.dcb d))
    (buffers : k'.buffers = k.buffers) : Frame k k' := by
  refine ⟨fun e => ?_, buffers⟩
  by_cases same : e = d
  · exact same ▸ ring
  · have dcb : k'.dcb e = k.dcb e := congrArg Port.dcb (ports e same)
    rw [dcb]
    exact ⟨rfl, rfl, rfl⟩

/-- The three ways a request goes. -/
theorem schedule_cases {pend : Fin 4 → List Ptr} {dev : UInt32} {result : Option SerialError} (ok : DevicesOk k pend)
    (h : serialScheduleIo k dev buffer len op a = some (k', result)) : k' = k ∨ ∃ d, len ≠ 0 ∧
      (pend d = [] ∧ startIo (queueFirst k d a buffer len op) d ⟨k.pcbRunning, op, buffer, len⟩ = some k' ∨
        pend d ≠ [] ∧ k' = queueLast k d a buffer len op) := by
  have ways := schedule_schedules k dev buffer len op a
  rw [h] at ways
  generalize way : some (k', result) = outcome at ways
  cases ways with
  | refused e _ => exact .inl (congrArg Prod.fst (Option.some.inj way))
  | started d usable idle =>
    obtain ⟨k₁, ran, same⟩ := Option.map_eq_some_iff.mp way.symm
    obtain rfl := congrArg Prod.fst same
    have empty : pend d = [] := (queue_head_null_iff (ok.port d).queue).mp idle
    exact .inr ⟨d, usable.size, .inl ⟨empty, ran⟩⟩
  | queued d usable busy =>
    split at way
    · cases way
    · obtain rfl := congrArg Prod.fst (Option.some.inj way)
      have occupied : pend d ≠ [] := fun empty => busy ((queue_head_null_iff (ok.port d).queue).mpr empty)
      exact .inr ⟨d, usable.size, .inr ⟨occupied, rfl⟩⟩

theorem schedule_line {pend : Fin 4 → List Ptr} {dev : UInt32} {result : Option SerialError} (ok : DevicesOk k pend)
    (hollow : Hollow k) (h : serialScheduleIo k dev buffer len op a = some (k', result)) (e : Fin 4)
    (contents : List (List UInt8)) (arrived : List (Nat × UInt8)) :
    LineMoves k k' (.schedule dev buffer len op a) e contents arrived ∧ Frame k k' := by
  rcases schedule_cases ok h with rfl | ⟨d, size, moved⟩
  · exact ⟨lineMoves_ports rfl rfl, fun d => ⟨rfl, rfl, rfl⟩, rfl⟩
  let r : Request := ⟨k.pcbRunning, op, buffer, len⟩
  have active := line_active contents arrived (ok.port d)
  rcases moved with ⟨idle, started⟩ | ⟨busy, rfl⟩
  · have port := queueFirst_port k d a buffer len op
    have others := (queueFirst_step k d a buffer len op).ports
    have dcb : (queueFirst k d a buffer len op).dcb d =
        { k.dcb d with iocbQueueHead := a, iocbQueueTail := a } := congrArg Port.dcb port
    have buffers : (queueFirst k d a buffer len op).buffers = k.buffers := rfl
    generalize queueFirst k d a buffer len op = k₁ at port others dcb buffers started
    have idle : ((k.ports d).line contents arrived).active = none := by
      rw [active, idle]
      rfl
    have accepts : (k₁.ports d).line (contents ++ [payload k.buffers r]) arrived =
        ((k.ports d).line contents arrived).accept k.buffers r := by
      rw [port]
      rfl
    have first : ((k₁.ports d).line (contents ++ [payload k.buffers r]) arrived).active = some r := by
      have all := List.getElem?_eq_none_iff.mp idle
      have fifo := (ok.port d).accepted
      have length : (k.ports d).history.accepted.length = (k.ports d).history.retired.length := by
        apply Nat.le_antisymm all
        show (k.ports d).history.retired.length ≤ (k.ports d).history.accepted.length
        rw [fifo, List.length_append]
        exact Nat.le_add_right _ _
      rw [accepts]
      show ((k.ports d).history.accepted ++ [r])[(k.ports d).history.retired.length]? = _
      rw [← length, List.getElem?_concat_length]
    have hollow₁ : (k₁.dcb d).rbufferIdxBegin = (k₁.dcb d).rbufferIdxEnd := by
      rw [dcb]
      exact (hollow d).1
    obtain ⟨began, line⟩ := startIo_line hollow₁ first started
    have accepted : (k'.history d).accepted = (k.history d).accepted ++ [r] := by
      rw [began.accepted]
      unfold Kernel.history
      rw [port]
      rfl
    constructor
    · by_cases same : e = d
      · subst same
        unfold LineMoves
        rw [contents_new accepted, show arrivalsOf k (.schedule dev buffer len op a) e = [] from rfl, List.append_nil,
          line, accepts, buffers]
        exact .started r size idle
      · exact lineMoves_ports rfl ((began.ports e same).trans (others e same))
    · apply frame_port (fun f other => (began.ports f other).trans (others f other))
      · have ring := began.ring
        rw [dcb] at ring
        exact ⟨ring.rbufferIdxBegin, ring.rbufferIdxEnd, ring.rbufferSz⟩
      · exact began.buffers.trans buffers
  · have port := queueLast_port k d a buffer len op
    have others := (queueLast_step k d a buffer len op).ports
    have accepted : ((queueLast k d a buffer len op).history d).accepted = (k.history d).accepted ++ [r] :=
      congrArg (fun p => p.history.accepted) port
    have busy : ((k.ports d).line contents arrived).active ≠ none := by
      rw [active]
      cases queue : pend d with
      | nil => exact (busy queue).elim
      | cons b rest => exact Option.some_ne_none _
    constructor
    · by_cases same : e = d
      · subst same
        unfold LineMoves
        rw [contents_new accepted, show arrivalsOf k (.schedule dev buffer len op a) e = [] from rfl, List.append_nil,
          port]
        exact .queued r size busy
      · exact lineMoves_ports rfl (others e same)
    · apply frame_port others
      · have dcb := congrArg Port.dcb port
        unfold Kernel.dcb
        rw [dcb]
        exact ⟨rfl, rfl, rfl⟩
      · rfl

/-- The request in service is retired and the next one, if any, is started. -/
theorem advance_line {rest : List Ptr} (ok : PortOk (k.ports d) k.iocbs (a :: rest))
    (hollow : (k.dcb d).rbufferIdxBegin = (k.dcb d).rbufferIdxEnd) (ran : advance k d = some k') :
    Started k k' d ∧
      (k'.ports d).line contents arrived = ((k.ports d).line contents arrived).retire.start k.buffers := by
  have head : (k.dcb d).iocbQueueHead = a := ok.queue.chain.head
  have next : (k.iocbs a).pNext = rest.headD 0 := ok.queue.chain.links.1
  have port := dequeue_port k d
  have retired : ((dequeue k d).ports d).line contents arrived = ((k.ports d).line contents arrived).retire := by
    rw [port]
    unfold Port.line Line.retire
    dsimp only [Kernel.history]
    rw [List.length_append, List.length_singleton]
    rfl
  have popped : Started k (dequeue k d) d := by
    refine ⟨(dequeue_step k d).ports, ?_, ?_, rfl⟩
    · unfold Kernel.history
      rw [port]
      rfl
    · unfold Kernel.dcb
      rw [port]
      exact ⟨rfl, rfl, rfl⟩
  have fifo : ((k.ports d).line contents arrived).retire.active = (rest.map fun b => (k.iocbs b).request).head? := by
    show (k.ports d).history.accepted[(k.ports d).history.retired.length + 1]? = _
    rw [ok.accepted, List.getElem?_append_right (Nat.le_add_right _ _), Nat.add_sub_cancel_left,
      List.head?_eq_getElem?]
    rfl
  rw [← head] at next
  cases rest with
  | nil =>
    obtain rfl := Option.some.inj ((advance_last next).symm.trans ran)
    rw [start_none fifo]
    exact ⟨popped, retired⟩
  | cons b rest =>
    have real : b ≠ 0 := fun same => ok.queue.chain.nonnull (by simp [same])
    obtain ⟨k₁, taken, starts⟩ := advance_next next real
    rw [starts] at ran
    -- The bit for output interrupts is no part of the line.
    have same : Started k k₁ d ∧ (k₁.ports d).line contents arrived = ((k.ports d).line contents arrived).retire := by
      rcases taken with rfl | rfl
      · exact ⟨popped, retired⟩
      · have ier := setIer_port (dequeue k d) d (((dequeue k d).ports d).ier &&& ~~~ierOutput)
        refine ⟨⟨?_, ?_, ?_, rfl⟩, ?_⟩
        · intro e other
          unfold Kernel.disableOutput Kernel.setIer
          rw [setPort_ports, if_neg other]
          exact popped.ports e other
        · unfold Kernel.disableOutput Kernel.history
          rw [ier]
          exact popped.accepted
        · unfold Kernel.disableOutput Kernel.dcb
          rw [ier]
          exact popped.ring
        · unfold Kernel.disableOutput
          rw [ier, ← retired]
          exact line_congr rfl rfl rfl rfl
    obtain ⟨quiet, line⟩ := same
    have first : ((k₁.ports d).line contents arrived).active = some (k.iocbs b).request := by
      rw [line, fifo]
      rfl
    have hollow₁ : (k₁.dcb d).rbufferIdxBegin = (k₁.dcb d).rbufferIdxEnd := by
      rw [quiet.ring.rbufferIdxBegin, quiet.ring.rbufferIdxEnd]
      exact hollow
    obtain ⟨began, started⟩ := startIo_line hollow₁ first ran
    rw [started, line, quiet.buffers]
    refine ⟨⟨?_, began.accepted.trans quiet.accepted, ?_, began.buffers.trans quiet.buffers⟩, rfl⟩
    · intro e other
      exact (began.ports e other).trans (quiet.ports e other)
    · exact ⟨began.ring.rbufferIdxBegin.trans quiet.ring.rbufferIdxBegin,
        began.ring.rbufferIdxEnd.trans quiet.ring.rbufferIdxEnd, began.ring.rbufferSz.trans quiet.ring.rbufferSz⟩

theorem check_line {pend : Fin 4 → List Ptr} {dev : UInt32} {result : Int} (ok : DevicesOk k pend)
    (hollow : Hollow k) (h : serialCheckIo k dev = some (k', result)) (e : Fin 4)
    (contents : List (List UInt8)) (arrived : List (Nat × UInt8)) :
    LineMoves k k' (.checkIo dev) e contents arrived ∧ Frame k k' := by
  have quiet : k' = k → LineMoves k k' (.checkIo dev) e contents arrived ∧ Frame k k' := by
    rintro rfl
    exact ⟨lineMoves_ports rfl rfl, fun d => ⟨rfl, rfl, rfl⟩, rfl⟩
  rcases checkIo_ways h with ⟨unchanged, -⟩ | ⟨d, procs, -, event, real, -, ran, -⟩
  · exact quiet unchanged
  have own := ok.port d
  cases queue : pend d with
  | nil =>
    rw [queue] at own
    exact (real own.queue.chain.head).elim
  | cons a rest =>
    rw [queue] at own
    have busy : (k.ports d).dcb.event = true := event
    obtain ⟨moved, line⟩ := advance_line (k := { k with procs := procs }) own (hollow d).1 ran
    have accepted : (k'.history d).accepted = (k.history d).accepted := moved.accepted
    refine ⟨?_, frame_port moved.ports moved.ring moved.buffers⟩
    by_cases same : e = d
    · subst same
      unfold LineMoves
      rw [contents_same accepted, show arrivalsOf k (.checkIo dev) e = [] from rfl, List.append_nil, List.append_nil,
        line]
      exact .retired busy
    · exact lineMoves_ports rfl (moved.ports e same)

/-! ### Watches -/

structure Watch where
  kernel : Kernel
  contents : Fin 4 → List (List UInt8)
  arrived : Fin 4 → List (Nat × UInt8)

/-- What the driver does, and what the processes do to their memory. -/
inductive Deed where
  | event (e : Event)
  | fill (buffers : Ptr → UInt8)

namespace Watch

def line (w : Watch) (d : Fin 4) : Line := (w.kernel.ports d).line (w.contents d) (w.arrived d)

def step (w : Watch) : Deed → Option Watch
  | .event e =>
    (serve w.kernel e).map fun k =>
      { kernel := k
        contents := fun d => w.contents d ++ contentsOf w.kernel k d
        arrived := fun d => w.arrived d ++ arrivalsOf w.kernel e d }
  | .fill buffers => some { w with kernel := { w.kernel with buffers := buffers } }

end Watch

/-- `serial_open` has just been called for the ports that are open. -/
structure Opened (w : Watch) : Prop where
  ports : ∀ d, (w.kernel.ports d).Idle
  ring : ∀ d, (w.kernel.dcb d).rbufferIdxBegin = 0 ∧ (w.kernel.dcb d).rbufferIdxEnd = 0 ∧
    (w.kernel.dcb d).rbufferSz = serialRbufferSize
  sent : ∀ d, (w.kernel.ports d).sent = []
  contents : ∀ d, w.contents d = []
  arrived : ∀ d, w.arrived d = []

def Deed.Admitted (w : Watch) : Deed → Prop
  | .event e => Mpx.Device.Admitted w.kernel e
  | .fill _ => True

/-- What the outstanding requests will send is not changed. -/
def Deed.Steady (w : Watch) (a : Deed) : Prop :=
  ∀ w' ∈ w.step a, ∀ d, ∀ r ∈ (w'.line d).accepted.drop (w'.line d).retired,
    payload w'.kernel.buffers r = payload w.kernel.buffers r

/-- The state of the driver that its watch relies on. -/
structure Watched (w : Watch) (pend : Fin 4 → List Ptr) : Prop where
  devices : DevicesOk w.kernel pend
  hollow : Hollow w.kernel
  input : ∀ d, Input (w.line d)

variable {w w' : Watch} {x : Deed}

theorem push_hollow (hollow : (k.dcb d).rbufferIdxBegin = (k.dcb d).rbufferIdxEnd) (byte : UInt8) :
    ((k.dcb d).push byte).rbufferIdxBegin = ((k.dcb d).push byte).rbufferIdxEnd := by
  unfold Dcb.push
  dsimp only
  rw [if_pos hollow.symm, hollow]

/-- An input interrupt stores at most one byte, behind those that are in the buffer. -/
structure Stored (k k' : Kernel) (d : Fin 4) (byte : UInt8) : Prop where
  ports : ∀ e, e ≠ d → k'.ports e = k.ports e
  rbufferSz : (k'.dcb d).rbufferSz = (k.dcb d).rbufferSz
  hollow : (k.dcb d).rbufferIdxBegin = (k.dcb d).rbufferIdxEnd → (k'.dcb d).rbufferIdxBegin = (k'.dcb d).rbufferIdxEnd
  buffers : k'.buffers = k.buffers ∨ ((k.iocbs (k.dcb d).iocbQueueHead).ioOp = .read ∧ (k.dcb d).event = false) ∧
    k'.buffers = update k.buffers ((k.iocbs (k.dcb d).iocbQueueHead).buffer + (k.dcb d).bufferIdx) byte

theorem input_stored (h : serialInputInterrupt k d byte = some k') : Stored k k' d byte := by
  obtain ⟨-, ways⟩ := input_ways h
  cases ways with
  | pushed notRead =>
    refine ⟨?_, ?_, ?_, .inl rfl⟩
    · intro e other
      unfold Kernel.setDcb
      rw [setPort_ports, if_neg other]
    · show ((k.setDcb d _).ports d).dcb.rbufferSz = _
      rw [setDcb_port]
      rfl
    · intro hollow
      have pushed := push_hollow hollow byte
      show ((k.setDcb d _).ports d).dcb.rbufferIdxBegin = ((k.setDcb d _).ports d).dcb.rbufferIdxEnd
      rw [setDcb_port]
      exact pushed
  | finished isRead event => exact ⟨fun _ _ => rfl, rfl, id, .inl rfl⟩
  | stored isRead event =>
    refine ⟨?_, ?_, ?_, .inr ⟨⟨isRead, event⟩, rfl⟩⟩
    · intro e other
      unfold Kernel.setDcb
      rw [setPort_ports, if_neg other]
      exact (onlyPort_storeByte k d _ byte).ports e other
    · unfold Kernel.dcb
      rw [setDcb_port]
    · intro hollow
      unfold Kernel.dcb
      rw [setDcb_port]
      exact hollow

theorem output_frame (ok : PortOk (k.ports d) k.iocbs pend) (h : serialOutputInterrupt k d = some k') :
    Frame k k' := by
  have others := (output_ok ok h).1.ports
  obtain ⟨-, ways⟩ := output_ways h
  cases ways with
  | finished event => exact ⟨fun _ => ⟨rfl, rfl, rfl⟩, rfl⟩
  | other event notWrite => exact ⟨fun _ => ⟨rfl, rfl, rfl⟩, rfl⟩
  | last event isWrite full =>
    apply frame_port others
    · unfold Kernel.disableOutput Kernel.dcb
      rw [setIer_port, setDcb_port]
      exact ⟨rfl, rfl, rfl⟩
    · rfl
  | next event isWrite part =>
    apply frame_port others
    · unfold Kernel.setBufferIdx Kernel.dcb
      rw [outByte_port, setDcb_port]
      exact ⟨rfl, rfl, rfl⟩
    · rfl

theorem received_other {e : Fin 4} {i : Interrupt} (other : e ≠ d) : received k (.interrupt d i) e = [] := by
  cases i with
  | input byte => exact if_neg fun both => other both.1
  | output | modemStatus | lineStatus => rfl

theorem interrupt_line {i : Interrupt} (ok : PortOk (k.ports d) k.iocbs pend)
    (input : Input ((k.ports d).line contents arrived)) (h : serialInterrupt k d i = some k') :
    LineMoves k k' (.interrupt d i) d contents arrived ∧ (Hollow k → Hollow k') := by
  cases i with
  | modemStatus | lineStatus =>
    cases h
    exact ⟨lineMoves_ports rfl rfl, id⟩
  | output =>
    simp only [serialInterrupt] at h
    by_cases isOpen : (k.dcb d).isOpen = true
    · rw [if_pos isOpen] at h
      exact ⟨output_line ok h, frame_hollow (output_frame ok h)⟩
    · rw [if_neg isOpen] at h
      cases h
      exact ⟨lineMoves_ports rfl rfl, id⟩
  | input byte =>
    simp only [serialInterrupt] at h
    by_cases isOpen : (k.dcb d).isOpen = true
    · rw [if_pos isOpen] at h
      have stored := input_stored h
      refine ⟨input_line ok isOpen input h, fun hollow e => ?_⟩
      by_cases same : e = d
      · subst same
        exact ⟨stored.hollow (hollow e).1, stored.rbufferSz.trans (hollow e).2⟩
      · have dcb : k'.dcb e = k.dcb e := congrArg Port.dcb (stored.ports e same)
        rw [dcb]
        exact hollow e
    · rw [if_neg isOpen] at h
      cases h
      exact ⟨lineMoves_ports (if_neg fun both => isOpen both.2) rfl, id⟩

/-- Each event is a step of each line, made with memory as it is before. -/
theorem event_lines {pend : Fin 4 → List Ptr} {e : Event} (W : Watched w pend) (ran : serve w.kernel e = some k') :
    (∀ d, LineMoves w.kernel k' e d (w.contents d) (w.arrived d)) ∧ Hollow k' := by
  obtain ⟨ok, hollow, input⟩ := W
  cases e with
  | schedule dev buffer bufferSz ioOp alloc =>
    obtain ⟨⟨k₁, result⟩, scheduled, rfl⟩ := Option.map_eq_some_iff.mp ran
    have moved := fun d => schedule_line ok hollow scheduled d (w.contents d) (w.arrived d)
    exact ⟨fun d => (moved d).1, frame_hollow (moved 0).2 hollow⟩
  | checkIo dev =>
    obtain ⟨⟨k₁, result⟩, checked, rfl⟩ := Option.map_eq_some_iff.mp ran
    have moved := fun d => check_line ok hollow checked d (w.contents d) (w.arrived d)
    exact ⟨fun d => (moved d).1, frame_hollow (moved 0).2 hollow⟩
  | others procs pcbRunning =>
    cases ran
    exact ⟨fun d => lineMoves_ports rfl rfl, hollow⟩
  | interrupt d i =>
    have own := interrupt_line (ok.port d) (input d) ran
    refine ⟨fun e => ?_, own.2 hollow⟩
    by_cases same : e = d
    · exact same ▸ own.1
    · exact lineMoves_ports (received_other same) ((interrupt_ok (ok.port d) ran).1.ports e same)

theorem deed_lines {pend : Fin 4 → List Ptr} (W : Watched w pend) (moved : w.step x = some w') (d : Fin 4) :
    Line.Step w.kernel.buffers (w.line d) (w'.line d) := by
  cases x with
  | event e =>
    obtain ⟨k', ran, rfl⟩ := Option.map_eq_some_iff.mp moved
    exact (event_lines W ran).1 d
  | fill buffers =>
    cases moved
    exact .rest

theorem deed_watched {pend : Fin 4 → List Ptr} (W : Watched w pend) (admitted : x.Admitted w)
    (moved : w.step x = some w') : ∃ pend', Watched w' pend' := by
  have input : ∀ d, Input (w'.line d) := fun d => step_input (W.input d) (deed_lines W moved d)
  cases x with
  | event e =>
    obtain ⟨k', ran, rfl⟩ := Option.map_eq_some_iff.mp moved
    obtain ⟨pend', ok'⟩ := (serve_ok W.devices admitted ran).1
    exact ⟨pend', ok', (event_lines W ran).2, input⟩
  | fill buffers =>
    cases moved
    exact ⟨pend, ⟨W.devices.port, W.devices.apart⟩, W.hollow, input⟩

theorem opened_line (opened : Opened w) (d : Fin 4) :
    (w.line d).accepted = [] ∧ (w.line d).contents = [] ∧ (w.line d).retired = 0 ∧ (w.line d).moved = [] ∧
      (w.line d).arrived = [] ∧ (w.line d).sent = [] ∧ (w.line d).event = false := by
  have history := (opened.ports d).history
  refine ⟨?_, opened.contents d, ?_, ?_, opened.arrived d, opened.sent d, (opened.ports d).event⟩
  all_goals
    unfold Watch.line Port.line
    rw [history]
  · rfl

theorem opened_watched (opened : Opened w) : Watched w fun _ => [] := by
  refine ⟨idle_ok opened.ports, ?_, ?_⟩
  · intro d
    rw [(opened.ring d).1, (opened.ring d).2.1]
    exact ⟨rfl, (opened.ring d).2.2⟩
  · intro d
    obtain ⟨accepted, contents, retired, moved, arrived, sent, event⟩ := opened_line opened d
    have idle : (w.line d).active = none := by
      unfold Line.active
      rw [accepted]
      rfl
    refine ⟨?_, ?_, ?_, ?_, ?_⟩
    · rw [accepted]
      intro r member
      cases member
    · rw [moved, arrived]
      intro e member
      cases member
    · intro _
      rw [moved, arrived, accepted, retired]
      refine ⟨rfl, event, fun e member => ?_⟩
      cases member
    · intro n r _ found
      rw [accepted] at found
      cases found
    · intro r active
      rw [idle] at active
      cases active

theorem watched_reached (reached : Reaches Opened Deed.Admitted Watch.step w) :
    ∃ pend, Watched w pend := by
  apply reaches_invariant (P := fun w => ∃ pend, Watched w pend) ?_ ?_ reached
  · intro w opened
    exact ⟨_, opened_watched opened⟩
  · intro w x w' W admitted moved
    obtain ⟨pend, W⟩ := W
    exact deed_watched W admitted moved

end Mpx.Device

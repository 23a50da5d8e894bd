import Mpx.Device.Starting

/-! # Two ways to start a request

`serial_schedule_io` starts a request on an idle device. On a busy one it queues the request, and
`serial_check_io` starts it with a copy of the same code. -/

namespace Mpx.Device
open Function Library.Links Mpx.Process

/-- The port `d` has nothing to do. -/
def Kernel.idleAt (k : Kernel) (d : Fin 4) : Kernel :=
  k.setDcb d { k.dcb d with iocbQueueHead := 0, iocbQueueTail := 0, event := false }

/-- The only request of the port `d` is complete. -/
def Kernel.doneAt (k : Kernel) (d : Fin 4) (a : Ptr) : Kernel :=
  k.setDcb d { k.dcb d with iocbQueueHead := a, iocbQueueTail := a, event := true }

/-- The two kernels cannot be told apart by what a request does once it is started. -/
structure Alike (k k' : Kernel) (d : Fin 4) : Prop where
  dcb : k'.dcb d = k.dcb d
  ier : (k'.ports d).ier = (k.ports d).ier
  sent : (k'.ports d).sent = (k.ports d).sent
  buffers : k'.buffers = k.buffers

/-- The device is in the same state, with one and the same request in its queue. -/
structure SameDevice (k k' : Kernel) (d : Fin 4) (a : Ptr) : Prop where
  alike : Alike k k' d
  queue : k.requestQueue d = some [a] ∧ k'.requestQueue d = some [a]
  request : k'.iocbs a = k.iocbs a

variable {k k' k₁ : Kernel} {d : Fin 4} {dev buffer len idx idx' : UInt32} {op : IoOp} {a alloc : Ptr} {byte : UInt8}

/-! ### What is done alike -/

theorem alike_dcb (h : Alike k k' d) (f : Dcb → Dcb) :
    Alike (k.setDcb d (f (k.dcb d))) (k'.setDcb d (f (k'.dcb d))) d := by
  refine ⟨?_, ?_, ?_, h.buffers⟩
  · unfold Kernel.dcb
    rw [setDcb_port, setDcb_port]
    exact congrArg f h.dcb
  · rw [setDcb_port, setDcb_port]
    exact h.ier
  · rw [setDcb_port, setDcb_port]
    exact h.sent

theorem alike_storeByte (h : Alike k k' d) (a : Ptr) (byte : UInt8) :
    Alike (k.storeByte d a byte) (k'.storeByte d a byte) d := by
  refine ⟨?_, ?_, ?_, ?_⟩
  · unfold Kernel.dcb
    rw [storeByte_port, storeByte_port]
    exact h.dcb
  · rw [storeByte_port, storeByte_port]
    exact h.ier
  · rw [storeByte_port, storeByte_port]
    exact h.sent
  · show update k'.buffers a byte = update k.buffers a byte
    rw [h.buffers]

theorem alike_outByte (h : Alike k k' d) (byte : UInt8) : Alike (k.outByte d byte) (k'.outByte d byte) d := by
  refine ⟨?_, ?_, ?_, h.buffers⟩
  · unfold Kernel.dcb
    rw [outByte_port, outByte_port]
    exact h.dcb
  · rw [outByte_port, outByte_port]
    exact h.ier
  · rw [outByte_port, outByte_port]
    exact congrArg (· ++ [byte]) h.sent

theorem alike_enableOutput (h : Alike k k' d) : Alike (k.enableOutput d) (k'.enableOutput d) d := by
  refine ⟨?_, ?_, ?_, h.buffers⟩
  · unfold Kernel.dcb Kernel.enableOutput
    rw [setIer_port, setIer_port]
    exact h.dcb
  · unfold Kernel.enableOutput
    rw [setIer_port, setIer_port]
    exact congrArg (· ||| ierOutput) h.ier
  · unfold Kernel.enableOutput
    rw [setIer_port, setIer_port]
    exact h.sent

theorem drainRing_alike {fuel : Nat} (h : Alike k k' d) (ran : drainRing d buffer len fuel k idx = some (k₁, idx')) :
    ∃ k₁', drainRing d buffer len fuel k' idx = some (k₁', idx') ∧ Alike k₁ k₁' d := by
  induction fuel generalizing k k' idx with
  | zero => cases ran
  | succ fuel ih =>
    rw [drainRing] at ran ⊢
    dsimp only at ran ⊢
    rw [h.dcb]
    by_cases more : (k.dcb d).rbufferIdxBegin < (k.dcb d).rbufferIdxEnd ∧ idx < len
    · rw [if_pos more] at ran ⊢
      generalize (k.dcb d).rbuffer (k.dcb d).rbufferIdxBegin = byte at ran ⊢
      have moved := alike_dcb (alike_storeByte h (buffer + idx) byte) fun _ => { k.dcb d with
        rbufferIdxBegin := if (k.dcb d).rbufferIdxBegin + 1 = (k.dcb d).rbufferSz then 0
          else (k.dcb d).rbufferIdxBegin + 1 }
      dsimp only at moved
      by_cases line : byte = carriageReturn
      · rw [if_pos line] at ran ⊢
        obtain ⟨rfl, rfl⟩ := Prod.mk.inj (Option.some.inj ran)
        exact ⟨_, rfl, moved⟩
      · rw [if_neg line] at ran ⊢
        exact ih moved ran
    · rw [if_neg more] at ran ⊢
      obtain ⟨rfl, rfl⟩ := Prod.mk.inj (Option.some.inj ran)
      exact ⟨k', rfl, h⟩

theorem startIo_alike {r : Request} (h : Alike k k' d) (ran : startIo k d r = some k₁) :
    ∃ k₁', startIo k' d r = some k₁' ∧ Alike k₁ k₁' d := by
  unfold startIo at ran ⊢
  cases op : r.op with
  | read =>
    rw [op] at ran
    dsimp only at ran ⊢
    unfold startRead at ran ⊢
    obtain ⟨⟨k₂, count⟩, drained, stored⟩ := Option.bind_eq_some_iff.mp ran
    obtain ⟨k₂', drained', alike⟩ := drainRing_alike h drained
    obtain rfl := Option.some.inj stored
    rw [drained']
    exact ⟨_, rfl, alike_dcb alike fun dcb => { dcb with bufferIdx := count }⟩
  | write =>
    rw [op] at ran
    obtain rfl := Option.some.inj ran
    have reset : Alike (k.setBufferIdx d 0) (k'.setBufferIdx d 0) d :=
      alike_dcb h fun dcb => { dcb with bufferIdx := 0 }
    refine ⟨_, rfl, ?_⟩
    show Alike (((k.setBufferIdx d 0).outByte d (k.buffers r.buffer)).enableOutput d)
      (((k'.setBufferIdx d 0).outByte d (k'.buffers r.buffer)).enableOutput d) d
    rw [h.buffers]
    exact alike_enableOutput (alike_outByte reset _)

/-! ### The two ways -/

theorem requestQueue_single (head : (k.dcb d).iocbQueueHead = a) (real : a ≠ 0) (last : (k.iocbs a).pNext = 0) :
    k.requestQueue d = some [a] := by
  have chain : Chain (fun a => (k.iocbs a).pNext) 0 (k.dcb d).iocbQueueHead [a] :=
    chain_cons_iff.mpr ⟨head, real, chain_nil_iff.mpr last⟩
  have short : 1 < addressSpace := by decide
  exact walk_iff.mpr ⟨chain, short⟩

theorem checkIo_retires {procs : Procs} (devno : serialDevno dev = some d) (isOpen : (k.dcb d).isOpen = true)
    (event : (k.dcb d).event = true) (head : (k.dcb d).iocbQueueHead = a) (real : a ≠ 0)
    (woken : wake k.procs (k.iocbs a).pcbRq (k.dcb d).bufferIdx = some procs)
    (advanced : advance { k with procs := procs } d = some k') : serialCheckIo k dev = some (k', 1) := by
  unfold serialCheckIo
  rw [devno]
  dsimp only
  rw [isOpen, if_neg (by decide), if_pos event, head, if_neg real, woken]
  show (advance { k with procs := procs } d).bind (fun k => some (k, (1 : Int))) = _
  rw [advanced]
  rfl

theorem idleAt_port (k : Kernel) (d : Fin 4) :
    (k.idleAt d).ports d =
      { k.ports d with dcb := { k.dcb d with iocbQueueHead := 0, iocbQueueTail := 0, event := false } } :=
  setDcb_port k d _

theorem doneAt_port (k : Kernel) (d : Fin 4) (a : Ptr) :
    (k.doneAt d a).ports d =
      { k.ports d with dcb := { k.dcb d with iocbQueueHead := a, iocbQueueTail := a, event := true } } :=
  setDcb_port k d _

theorem idleAt_dcb (k : Kernel) (d : Fin 4) :
    (k.idleAt d).dcb d = { k.dcb d with iocbQueueHead := 0, iocbQueueTail := 0, event := false } :=
  congrArg Port.dcb (idleAt_port k d)

theorem doneAt_dcb (k : Kernel) (d : Fin 4) (a : Ptr) :
    (k.doneAt d a).dcb d = { k.dcb d with iocbQueueHead := a, iocbQueueTail := a, event := true } :=
  congrArg Port.dcb (doneAt_port k d a)

theorem usable_dcb (usable : Usable k dev buffer len alloc d) (isOpen : (k'.dcb d).isOpen = (k.dcb d).isOpen) :
    Usable k' dev buffer len alloc d :=
  ⟨usable.devno, isOpen.trans usable.isOpen, usable.buffer, usable.size, usable.real⟩

theorem doneAt_queueLast (k : Kernel) (d : Fin 4) (a alloc buffer len : UInt32) (op : IoOp) :
    (queueLast (k.doneAt d a) d alloc buffer len op).dcb d =
      { k.dcb d with iocbQueueHead := a, iocbQueueTail := alloc, event := true } := by
  unfold Kernel.dcb
  rw [queueLast_port, doneAt_dcb]
  rfl

/-- What `serial_check_io` starts the request from cannot be told from what `serial_schedule_io` does. -/
theorem turned_alike {procs : Procs} (op : IoOp) (fresh : a ≠ alloc) (quiet : (k.ports d).outputEnabled = false)
    (turned : Turned { queueLast (k.doneAt d a) d alloc buffer len op with procs := procs } k₁ d alloc) :
    Alike (queueFirst (k.idleAt d) d alloc buffer len op) k₁ d := by
  have quiet' : ((queueLast (k.doneAt d a) d alloc buffer len op).ports d).outputEnabled = false := by
    rw [queueLast_port, doneAt_port]
    exact quiet
  refine ⟨?_, ?_, ?_, turned.buffers⟩
  · have dcb := doneAt_queueLast k d a alloc buffer len op
    rw [turned.dcb]
    unfold Kernel.dcb at dcb ⊢
    dsimp only
    rw [dcb]
    dsimp only
    rw [if_neg fresh, queueFirst_port, idleAt_dcb]
    rfl
  · rw [turned.ier quiet']
    dsimp only
    rw [queueLast_port, doneAt_port, queueFirst_port, idleAt_port]
  · rw [turned.sent]
    dsimp only
    rw [queueLast_port, doneAt_port, queueFirst_port, idleAt_port]

/-- Behind the completed request `a` the new one is linked in. -/
theorem doneAt_iocbs (k : Kernel) (d : Fin 4) (buffer len : UInt32) (op : IoOp) (fresh : a ≠ alloc) :
    (queueLast (k.doneAt d a) d alloc buffer len op).iocbs a = { k.iocbs a with pNext := alloc } ∧
      (queueLast (k.doneAt d a) d alloc buffer len op).iocbs alloc = ⟨0, k.pcbRunning, buffer, len, op⟩ := by
  have done := doneAt_dcb k d a
  constructor
  · rw [queueLast_iocb fresh, done]
    exact if_pos rfl
  · apply queueLast_new
    rw [done]
    exact Ne.symm fresh

/-- A request that is started at once on an idle device, and one that waits for a completed request, leave
the device in the same state. -/
theorem starts_agree (usable : Usable k dev buffer len alloc d) (quiet : (k.ports d).outputEnabled = false) (op : IoOp)
    (head : a ≠ 0) (fresh : a ≠ alloc) :
    ∃ k₁ k₂, serialScheduleIo (k.idleAt d) dev buffer len op alloc = some (k₁, none) ∧
      serialScheduleIo (k.doneAt d a) dev buffer len op alloc = some (k₂, none) ∧
      ∀ procs, wake k.procs (k.iocbs a).pcbRq (k.dcb d).bufferIdx = some procs →
        ∃ k₃, serialCheckIo k₂ dev = some (k₃, 1) ∧ SameDevice k₁ k₃ d alloc := by
  have idle := idleAt_dcb k d
  have done := doneAt_dcb k d a
  have usable₁ : Usable (k.idleAt d) dev buffer len alloc d := usable_dcb usable (by rw [idle])
  have usable₂ : Usable (k.doneAt d a) dev buffer len alloc d := usable_dcb usable (by rw [done])
  have atOnce := schedule_usable usable₁ op
  have behind := schedule_usable usable₂ op
  rw [if_pos (by rw [idle])] at atOnce
  rw [if_neg (by rw [done]; exact head), if_neg (by rw [done]; exact head)] at behind
  obtain ⟨k₁, started, starts⟩ := startIo_starts (queueFirst (k.idleAt d) d alloc buffer len op) d
    ⟨k.pcbRunning, op, buffer, len⟩
  rw [show (k.idleAt d).pcbRunning = k.pcbRunning from rfl, started] at atOnce
  refine ⟨k₁, queueLast (k.doneAt d a) d alloc buffer len op, atOnce, behind, ?_⟩
  intro procs woken
  have dcb := doneAt_queueLast k d a alloc buffer len op
  obtain ⟨retired, new⟩ := doneAt_iocbs k d buffer len op fresh
  have next : ((queueLast (k.doneAt d a) d alloc buffer len op).iocbs
      ((queueLast (k.doneAt d a) d alloc buffer len op).dcb d).iocbQueueHead).pNext = alloc := by
    rw [dcb, retired]
  obtain ⟨k₄, advanced, turned⟩ := advance_turned
    (k := { queueLast (k.doneAt d a) d alloc buffer len op with procs := procs }) (d := d) next usable.real
  obtain ⟨k₃, ran, alike⟩ := startIo_alike (turned_alike op fresh quiet turned) started
  have same : ∀ k₅, startIo k₄ d ⟨k.pcbRunning, op, buffer, len⟩ = some k₅ → k₅ = k₃ := fun k₅ other =>
    Option.some.inj (other.symm.trans ran)
  obtain ⟨k₅, ran', starts'⟩ := startIo_starts k₄ d ⟨k.pcbRunning, op, buffer, len⟩
  obtain rfl := same k₅ ran'
  have first : (k₁.dcb d).iocbQueueHead = alloc := by
    rw [starts.head]
    exact congrArg (·.dcb.iocbQueueHead) (queueFirst_port (k.idleAt d) d alloc buffer len op)
  have own : k₁.iocbs alloc = ⟨0, k.pcbRunning, buffer, len, op⟩ := by
    rw [starts.only.iocbs, queueFirst_iocbs, update_self]
    rfl
  have own' : k₅.iocbs alloc = ⟨0, k.pcbRunning, buffer, len, op⟩ := by
    rw [starts'.only.iocbs, turned.iocbs]
    exact new
  refine ⟨k₅, ?_, alike, ⟨?_, ?_⟩, own'.trans own.symm⟩
  · apply checkIo_retires usable.devno (a := a)
    · rw [dcb]
      exact usable.isOpen
    · rw [dcb]
    · rw [dcb]
    · exact head
    · rw [dcb, retired]
      exact woken
    · rw [advanced]
      dsimp only
      rw [new]
      exact ran'
  · exact requestQueue_single first usable.real (congrArg Iocb.pNext own)
  · exact requestQueue_single ((congrArg Dcb.iocbQueueHead alike.dcb).trans first) usable.real (congrArg Iocb.pNext own')

/-- A READ of five bytes when two have been left in the ring buffer, at once and behind a WRITE. -/
theorem starts_agree_example : ∃ k₁ k₂ k₃ : Kernel,
    serialScheduleIo ((writtenThenRead [104, 105]).idleAt 0) com1 300 5 .read 70 = some (k₁, none) ∧
      serialScheduleIo ((writtenThenRead [104, 105]).doneAt 0 50) com1 300 5 .read 70 = some (k₂, none) ∧
      serialCheckIo k₂ com1 = some (k₃, 1) ∧ SameDevice k₁ k₃ 0 70 := by
  have usable : Usable (writtenThenRead [104, 105]) com1 300 5 70 0 := ⟨rfl, rfl, by decide, by decide, by decide⟩
  obtain ⟨k₁, k₂, atOnce, behind, agree⟩ := starts_agree (a := 50) usable rfl .read (by decide) (by decide)
  have woken : (wake (writtenThenRead [104, 105]).procs 8 0).isSome = true := by
    decide +kernel
  obtain ⟨procs, woken⟩ := Option.isSome_iff_exists.mp woken
  obtain ⟨k₃, checked, same⟩ := agree procs woken
  exact ⟨k₁, k₂, k₃, atOnce, behind, checked, same⟩

end Mpx.Device

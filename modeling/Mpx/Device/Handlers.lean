import Mpx.Device.Starting
import Mpx.Device.Streams

/-! # When an interrupt handler is safe

The second-level handlers read `iocb_queue_head` without a test, and input comes when it likes. -/

namespace Mpx.Device
open Library.Transition Mpx.Process

/-- A READ of the device takes the next byte. -/
def ReadWaits (k : Kernel) (d : Fin 4) : Prop :=
  (k.dcb d).iocbQueueHead ≠ 0 ∧ (k.iocbs (k.dcb d).iocbQueueHead).ioOp = .read ∧ (k.dcb d).event = false

/-- A byte can come in: no NULL pointer is followed, and unless a READ waits the byte is the newest one in the ring
buffer then. -/
def InputSafe (k : Kernel) (d : Fin 4) (byte : UInt8) : Prop :=
  ∃ k', serialInterrupt k d (.input byte) = some k' ∧ (¬ReadWaits k d → (k'.dcb d).buffered.getLast? = some byte)

/-- The device can report that a byte was sent. -/
def OutputSafe (k : Kernel) (d : Fin 4) : Prop := ∃ k', serialInterrupt k d .output = some k'

variable {k : Kernel} {w : Watch} {d : Fin 4} {byte : UInt8} {pend : Fin 4 → List Ptr}

theorem buffered_hollow {dcb : Dcb} (hollow : dcb.rbufferIdxBegin = dcb.rbufferIdxEnd) : dcb.buffered = [] := by
  unfold Dcb.buffered
  rw [hollow]
  exact Library.Ring.contents_empty

/-- The handler follows the head of the queue and nothing else. -/
theorem input_runs (isOpen : (k.dcb d).isOpen = true) :
    (serialInterrupt k d (.input byte)).isSome ↔ (k.dcb d).iocbQueueHead ≠ 0 := by
  have handler : serialInterrupt k d (.input byte) = serialInputInterrupt k d byte := if_pos isOpen
  rw [handler]
  unfold serialInputInterrupt
  dsimp only
  by_cases empty : (k.dcb d).iocbQueueHead = 0
  · rw [if_pos empty]
    exact ⟨fun ran => absurd ran (by decide), fun real => (real empty).elim⟩
  · rw [if_neg empty]
    refine ⟨fun _ => empty, fun _ => ?_⟩
    split
    · rfl
    · split <;> rfl

/-- A byte that is put into a ring buffer that counts as empty is not in it: both indices move. -/
theorem input_safe (hollow : (k.dcb d).rbufferIdxBegin = (k.dcb d).rbufferIdxEnd) (isOpen : (k.dcb d).isOpen = true) :
    InputSafe k d byte ↔ ReadWaits k d := by
  constructor
  · intro safe
    by_contra idle
    obtain ⟨k', ran, ring⟩ := safe
    have handler : serialInterrupt k d (.input byte) = serialInputInterrupt k d byte := if_pos isOpen
    rw [handler] at ran
    have empty := buffered_hollow ((input_stored ran).hollow hollow)
    have newest := ring idle
    rw [empty] at newest
    cases newest
  · intro waits
    have runs : (serialInterrupt k d (.input byte)).isSome := (input_runs isOpen).mpr waits.1
    obtain ⟨k', ran⟩ := Option.isSome_iff_exists.mp runs
    exact ⟨k', ran, fun idle => (idle waits).elim⟩

theorem output_safe (ok : DevicesOk k pend) (isOpen : (k.dcb d).isOpen = true) :
    OutputSafe k d ↔ (k.dcb d).iocbQueueHead ≠ 0 := by
  have handler : serialInterrupt k d .output = serialOutputInterrupt k d := if_pos isOpen
  have quiet : (k.dcb d).event = true → (k.dcb d).iocbQueueHead ≠ 0 := fun event =>
    ((devicesOk_service ok d).event event).1
  unfold OutputSafe
  rw [handler]
  unfold serialOutputInterrupt
  dsimp only
  cases event : (k.dcb d).event with
  | true =>
    rw [if_neg (by decide)]
    exact ⟨fun _ => quiet event, fun _ => ⟨k, rfl⟩⟩
  | false =>
    rw [if_pos (by decide)]
    by_cases empty : (k.dcb d).iocbQueueHead = 0
    · rw [if_pos empty]
      exact ⟨fun ran => absurd ran (by simp), fun real => (real empty).elim⟩
    · rw [if_neg empty]
      refine ⟨fun _ => empty, fun _ => ?_⟩
      split
      · split <;> exact ⟨_, rfl⟩
      · exact ⟨k, rfl⟩

/-- In every run the handlers follow no NULL pointer as long as a request is queued, and output interrupts are
enabled only then. A byte is taken only by a READ that waits for it: the ring buffer keeps none. -/
theorem handlers_safe (reached : Reaches Opened Deed.Admitted Watch.step w)
    (isOpen : (w.kernel.dcb d).isOpen = true) :
    (∀ byte, (InputSafe w.kernel d byte ↔ ReadWaits w.kernel d) ∧
      ((serialInterrupt w.kernel d (.input byte)).isSome ↔ (w.kernel.dcb d).iocbQueueHead ≠ 0)) ∧
    (OutputSafe w.kernel d ↔ (w.kernel.dcb d).iocbQueueHead ≠ 0) ∧
    ((w.kernel.ports d).outputEnabled = true → OutputSafe w.kernel d) := by
  obtain ⟨pend, W⟩ := watched_reached reached
  have output := output_safe W.devices isOpen
  refine ⟨fun byte => ⟨input_safe (W.hollow d).1 isOpen, input_runs isOpen⟩, output, fun enabled => output.mpr ?_⟩
  exact ((devicesOk_service W.devices d).output.mp enabled).1

/-- Two WRITEs are done, and the READ behind them has its first byte. -/
theorem handlers_safe_example : ∃ w : Watch, (w.kernel.history 0).retired.length = 2 ∧ InputSafe w.kernel 0 97 := by
  have ran : (run Deed.Admitted Watch.step com1Watch
      [.event (.schedule com1 100 1 .write 50), .event (.schedule com1 200 1 .write 60),
        .event (.schedule com1 300 5 .read 70), .event (.interrupt 0 .output), .event (.checkIo com1),
        .event (.interrupt 0 .output), .event (.checkIo com1), .event (.interrupt 0 (.input 104))]).map
          (fun w => ((w.kernel.history 0).retired.length, (w.kernel.dcb 0).isOpen, (w.kernel.dcb 0).iocbQueueHead,
            (w.kernel.iocbs (w.kernel.dcb 0).iocbQueueHead).ioOp, (w.kernel.dcb 0).event)) =
              some (2, true, 70, .read, false) := by
    decide +kernel
  obtain ⟨w, ran, seen⟩ := Option.map_eq_some_iff.mp ran
  simp only [Prod.mk.injEq] at seen
  obtain ⟨retired, isOpen, head, isRead, event⟩ := seen
  have safe := ((handlers_safe (run_reaches (.start com1Watch_opened) ran) isOpen).1 97).1
  refine ⟨w, retired, safe.mpr ⟨?_, isRead, event⟩⟩
  rw [head]
  decide

/-- A key is hit while nobody reads or writes. -/
theorem handlers_unsafe : ¬∀ w : Watch, Reaches Opened Deed.Admitted Watch.step w → ∀ d,
    (w.kernel.dcb d).isOpen = true → ∀ byte, InputSafe w.kernel d byte := by
  intro always
  obtain ⟨k', ran, _⟩ := always com1Watch (.start com1Watch_opened) 0 rfl 97
  have idle : serialInterrupt com1Watch.kernel 0 (.input 97) = none := rfl
  rw [idle] at ran
  cases ran

end Mpx.Device

import Mpx.Device.Watch

/-! # What goes out and what comes in

The bytes that a device sends and the lines that its READs get, over all runs of its driver. -/

namespace Mpx.Device
open Function Library.Transition Mpx.Process

variable {w w' : Watch} {x : Deed} {d : Fin 4} {r : Request} {n : Nat}

/-! ### Output -/

/-- The outstanding requests are the same on both sides of a step that keeps what they will send. -/
theorem steady_outstanding (steady : x.Steady w) (moved : w.step x = some w') (d : Fin 4) (n : Nat) (r : Request)
    (late : (w'.line d).retired ≤ n) (found : (w'.line d).accepted[n]? = some r) :
    payload w'.kernel.buffers r = payload w.kernel.buffers r := by
  apply steady w' moved d r
  apply List.mem_of_getElem? (i := n - (w'.line d).retired)
  rw [List.getElem?_drop, Nat.add_sub_cancel' late]
  exact found

theorem opened_output (opened : Opened w) (d : Fin 4) : Output w.kernel.buffers (w.line d) := by
  obtain ⟨accepted, contents, retired, _, _, sent, event⟩ := opened_line opened d
  have idle : (w.line d).active = none := by
    unfold Line.active
    rw [accepted]
    rfl
  refine ⟨?_, ?_, ?_, ?_, ?_, ?_⟩
  · rw [contents, accepted]
    rfl
  · rw [retired]
    exact Nat.zero_le _
  · intro n r _ found
    rw [accepted] at found
    cases found
  · intro set
    exact absurd (event.symm.trans set) (by decide)
  · intro r active
    rw [idle] at active
    cases active
  · rw [sent, contents]
    simp

theorem output_reached
    (reached : Reaches Opened (fun w x => x.Admitted w ∧ x.Steady w) Watch.step w) :
    (∃ pend, Watched w pend) ∧ ∀ d, Output w.kernel.buffers (w.line d) := by
  apply reaches_invariant
    (P := fun w => (∃ pend, Watched w pend) ∧ ∀ d, Output w.kernel.buffers (w.line d)) ?_ ?_ reached
  · intro w opened
    exact ⟨⟨_, opened_watched opened⟩, opened_output opened⟩
  · intro w x w' W admitted moved
    obtain ⟨⟨pend, W⟩, output⟩ := W
    refine ⟨deed_watched W admitted.1 moved, fun d => ?_⟩
    have stepped := step_output (output d) (W.input d).sizes (deed_lines W moved d)
    exact output_kept stepped (steady_outstanding admitted.2 moved d)

/-- Request number `n` of the device has raised its event. -/
def Raised (w : Watch) (d : Fin 4) (n : Nat) : Prop :=
  n < (w.kernel.history d).retired.length ∨ n = (w.kernel.history d).retired.length ∧ (w.kernel.dcb d).event = true

/-- What a device sends is a prefix of the contents of its WRITEs, one after the other, and has all of
those that are complete. -/
theorem output_concatenated
    (reached : Reaches Opened (fun w x => x.Admitted w ∧ x.Steady w) Watch.step w) (d : Fin 4) :
    (w.contents d).length = (w.kernel.history d).accepted.length ∧
      (w.kernel.ports d).sent <+: (w.contents d).flatten ∧
        ∀ n, Raised w d n → ((w.contents d).take (n + 1)).flatten <+: (w.kernel.ports d).sent := by
  have output := (output_reached reached).2 d
  exact ⟨output.length, output_prefix output, output_whole output⟩

instance (w : Watch) : (x : Deed) → Decidable (x.Admitted w)
  | .event e => inferInstanceAs (Decidable (Admitted w.kernel e))
  | .fill _ => .isTrue trivial

instance (w : Watch) (x : Deed) : Decidable (x.Steady w) :=
  @Option.decidableForallMem _ _
    (fun _ => @Nat.decidableForallFin _ _ fun _ => List.decidableBAll _ _) (w.step x)

/-- `serial_open` has been called for COM1, and `p` is the process that runs. -/
def com1Watch : Watch :=
  { kernel := { bootKernel (fun d => decide (d = 0)) with
      procs := (bootKernel fun _ => true).procs.setPctxt 8 (some ⟨16, 0⟩), pcbRunning := 8 }
    contents := fun _ => []
    arrived := fun _ => [] }

theorem com1Watch_opened : Opened com1Watch :=
  ⟨fun _ => bootPort_idle _, fun _ => ⟨rfl, rfl, rfl⟩, fun _ => rfl, fun _ => rfl, fun _ => rfl⟩

/-- Two WRITEs: the first has been sent, and a byte of the second. -/
theorem output_concatenated_example : ∃ w : Watch, (w.kernel.ports 0).sent = [104, 105, 33] ∧
    (w.kernel.ports 0).sent <+: (w.contents 0).flatten := by
  have ran : (run (fun w x => x.Admitted w ∧ x.Steady w) Watch.step com1Watch
      [.fill fun a => if a = 100 then 104 else if a = 101 then 105 else 33, .event (.schedule com1 100 2 .write 50),
        .event (.schedule com1 102 3 .write 60), .event (.interrupt 0 .output), .event (.interrupt 0 .output),
        .event (.checkIo com1)]).map (fun w => (w.kernel.ports 0).sent) = some [104, 105, 33] := by
    decide +kernel
  obtain ⟨w, ran, sent⟩ := Option.map_eq_some_iff.mp ran
  exact ⟨w, sent, (output_concatenated (run_reaches (.start com1Watch_opened) ran) 0).2.1⟩

/-! ### Input -/

/-- A READ in service. What was stored is a line of what came in since it became active; the next byte
goes behind it, inside the buffer, and none does once the event is raised. No other step writes to
memory, and the requester gets the number of bytes. -/
structure ReadServed (w : Watch) (d : Fin 4) (r : Request) (stored : List UInt8) : Prop where
  line : stored = lineOf r.size.toNat (tagged (w.kernel.history d).retired.length (w.arrived d))
  bufferIdx : (w.kernel.dcb d).bufferIdx.toNat = stored.length
  event : (w.kernel.dcb d).event = true ↔ Filled r.size.toNat stored
  room : (w.kernel.dcb d).event = false → stored.length < r.size.toNat
  input : ∀ byte k', serialInterrupt w.kernel d (.input byte) = some k' →
    k'.buffers = if (w.kernel.dcb d).event = true then w.kernel.buffers
      else update w.kernel.buffers (r.buffer + UInt32.ofNat stored.length) byte
  others : ∀ e k', (∀ f byte, e ≠ .interrupt f (.input byte)) → serve w.kernel e = some k' →
    k'.buffers = w.kernel.buffers
  reply : ∀ dev k' result, serialDevno dev = some d → (w.kernel.dcb d).event = true →
    serialCheckIo w.kernel dev = some (k', result) →
    Woken w.kernel.procs k'.procs r.pcb (UInt32.ofNat stored.length)

theorem serve_buffers {pend : Fin 4 → List Ptr} {e : Event} {k' : Kernel} (W : Watched w pend)
    (other : ∀ f byte, e ≠ .interrupt f (.input byte)) (ran : serve w.kernel e = some k') :
    k'.buffers = w.kernel.buffers := by
  cases e with
  | schedule dev buffer bufferSz ioOp alloc =>
    obtain ⟨⟨k₁, result⟩, scheduled, rfl⟩ := Option.map_eq_some_iff.mp ran
    exact (schedule_line W.devices W.hollow scheduled 0 [] []).2.buffers
  | checkIo dev =>
    obtain ⟨⟨k₁, result⟩, checked, rfl⟩ := Option.map_eq_some_iff.mp ran
    exact (check_line W.devices W.hollow checked 0 [] []).2.buffers
  | others procs pcbRunning =>
    cases ran
    rfl
  | interrupt f i =>
    have ran : serialInterrupt w.kernel f i = some k' := ran
    cases i with
    | modemStatus | lineStatus =>
      cases ran
      rfl
    | input byte => exact (other f byte rfl).elim
    | output =>
      simp only [serialInterrupt] at ran
      by_cases isOpen : (w.kernel.dcb f).isOpen = true
      · rw [if_pos isOpen] at ran
        exact (output_frame (W.devices.port f) ran).buffers
      · rw [if_neg isOpen] at ran
        cases ran
        rfl

theorem active_head {pend : Fin 4 → List Ptr} (W : Watched w pend) (active : (w.line d).active = some r) :
    (w.kernel.dcb d).iocbQueueHead ≠ 0 ∧ (w.kernel.iocbs (w.kernel.dcb d).iocbQueueHead).request = r := by
  have own := W.devices.port d
  have first := line_active (w.contents d) (w.arrived d) own
  have first : (pend d |>.map fun a => (w.kernel.iocbs a).request).head? = some r := first.symm.trans active
  cases queue : pend d with
  | nil =>
    rw [queue] at first
    cases first
  | cons a rest =>
    rw [queue] at first own
    have head : (w.kernel.dcb d).iocbQueueHead = a := own.queue.chain.head
    rw [head]
    exact ⟨fun null => own.queue.chain.nonnull (by simp [null]), Option.some.inj first⟩

/-- A device with a request in service is open, or takes no part in interrupts. -/
theorem input_update {byte : UInt8} {k' : Kernel} {pend : Fin 4 → List Ptr} (W : Watched w pend)
    (active : (w.line d).active = some r) (op : r.op = .read) (isOpen : (w.kernel.dcb d).isOpen = true)
    (ran : serialInterrupt w.kernel d (.input byte) = some k') :
    k'.buffers = if (w.kernel.dcb d).event = true then w.kernel.buffers
      else update w.kernel.buffers (r.buffer + (w.kernel.dcb d).bufferIdx) byte := by
  obtain ⟨real, rfl⟩ := active_head W active
  have isRead : (w.kernel.iocbs (w.kernel.dcb d).iocbQueueHead).ioOp = .read := op
  simp only [serialInterrupt] at ran
  rw [if_pos isOpen] at ran
  obtain ⟨-, ways⟩ := input_ways ran
  cases ways with
  | pushed notRead => exact (notRead isRead).elim
  | finished _ event => rw [if_pos event]
  | stored _ event =>
    rw [if_neg (by rw [event]; decide)]
    rfl

theorem check_reply {pend : Fin 4 → List Ptr} {dev : UInt32} {k' : Kernel} {result : Int} (W : Watched w pend)
    (active : (w.line d).active = some r) (devno : serialDevno dev = some d) (isOpen : (w.kernel.dcb d).isOpen = true)
    (event : (w.kernel.dcb d).event = true) (ran : serialCheckIo w.kernel dev = some (k', result)) :
    Woken w.kernel.procs k'.procs r.pcb (w.kernel.dcb d).bufferIdx := by
  have served : serve w.kernel (.checkIo dev) = some k' := by
    show Option.map _ _ = _
    rw [ran]
    rfl
  rcases (checkIo_serve W.devices served).2 with ⟨_, quiet⟩ | ⟨e, r', devno', _, _, found, _, _, woken, _⟩
  · exact (quiet d devno ⟨isOpen, event⟩).elim
  · obtain rfl : d = e := Option.some.inj (devno.symm.trans devno')
    obtain rfl : r = r' := Option.some.inj (active.symm.trans found)
    exact woken

/-- In every run a READ gets its line: what was retired keeps it, and the request in service is on the
way to it. -/
theorem read_served (reached : Reaches Opened Deed.Admitted Watch.step w)
    (isOpen : (w.kernel.dcb d).isOpen = true)
    (active : (w.kernel.history d).accepted[(w.kernel.history d).retired.length]? = some r) (op : r.op = .read) :
    ReadServed w d r (tagged (w.kernel.history d).retired.length (w.kernel.history d).moved) ∧
      ∀ n r', n < (w.kernel.history d).retired.length → (w.kernel.history d).accepted[n]? = some r' → r'.op = .read →
        tagged n (w.kernel.history d).moved = lineOf r'.size.toNat (tagged n (w.arrived d)) := by
  obtain ⟨pend, W⟩ := watched_reached reached
  have input := W.input d
  have active : (w.line d).active = some r := active
  obtain ⟨count, raised⟩ := input.progress r active op
  have index : (w.kernel.dcb d).bufferIdx =
      UInt32.ofNat (tagged (w.kernel.history d).retired.length (w.kernel.history d).moved).length := by
    rw [show (tagged (w.kernel.history d).retired.length (w.kernel.history d).moved).length =
      (w.kernel.dcb d).bufferIdx.toNat from count.symm, UInt32.ofNat_toNat]
  refine ⟨⟨input.reads _ r (Nat.le_refl _) active op, count, raised, ?_, ?_, ?_, ?_⟩, ?_⟩
  · intro event
    have room := input_room input active op event
    exact count ▸ room
  · intro byte k' ran
    rw [← index]
    exact input_update W active op isOpen ran
  · intro e k' other ran
    exact serve_buffers W other ran
  · intro dev k' result devno event ran
    rw [← index]
    exact check_reply W active devno isOpen event ran
  · intro n r' past found read
    exact input.reads n r' (Nat.le_of_lt past) found read

/-- A READ of five bytes has two of them. -/
theorem read_served_example : ∃ w : Watch, ReadServed w 0 ⟨8, .read, 100, 5⟩ [104, 105] := by
  have ran : (run Deed.Admitted Watch.step com1Watch
      [.event (.schedule com1 100 5 .read 50), .event (.interrupt 0 (.input 104)),
        .event (.interrupt 0 (.input 105))]).map (fun w => ((w.kernel.dcb 0).isOpen,
          (w.kernel.history 0).accepted[(w.kernel.history 0).retired.length]?,
          tagged (w.kernel.history 0).retired.length (w.kernel.history 0).moved)) =
            some (true, some ⟨8, .read, 100, 5⟩, [104, 105]) := by
    decide +kernel
  obtain ⟨w, ran, seen⟩ := Option.map_eq_some_iff.mp ran
  obtain ⟨isOpen, seen⟩ := Prod.mk.inj seen
  obtain ⟨active, stored⟩ := Prod.mk.inj seen
  have served := (read_served (run_reaches (.start com1Watch_opened) ran) isOpen active rfl).1
  rw [stored] at served
  exact ⟨w, served⟩

/-! ### Typed-ahead input -/

/-- The ring buffer is empty when its indices meet, so one entry less than its size is of use. -/
def ringRoom : Nat := serialRbufferSize.toNat - 1

/-- What should be typed ahead of request number `n`: the bytes that came in during the WRITEs in front of
it, the newest of them at most, less those that a READ has taken. -/
def typedAhead (accepted : List Request) (arrived : List (Nat × UInt8)) : Nat → List UInt8
  | 0 => []
  | n + 1 =>
    let ahead := typedAhead accepted arrived n
    match accepted[n]? with
    | none => ahead
    | some r =>
      match r.op with
      | .write => (ahead ++ tagged n arrived).drop ((ahead ++ tagged n arrived).length - ringRoom)
      | .read => ahead.drop (lineOf r.size.toNat (ahead ++ tagged n arrived)).length

/-- READ number `n` gets what was typed ahead, and then what comes in. -/
def Delivered (w : Watch) (d : Fin 4) (n : Nat) (r : Request) : Prop :=
  tagged n (w.kernel.history d).moved = lineOf r.size.toNat
    (typedAhead (w.kernel.history d).accepted (w.arrived d) n ++ tagged n (w.arrived d))

/-- Where nothing is typed ahead of a READ it gets its bytes, and a READ that becomes active gets
them only then. -/
theorem typed_ahead_delivered (reached : Reaches Opened Deed.Admitted Watch.step w) (d : Fin 4) (n : Nat) (r : Request)
    (served : n ≤ (w.kernel.history d).retired.length) (found : (w.kernel.history d).accepted[n]? = some r)
    (op : r.op = .read) :
    (typedAhead (w.kernel.history d).accepted (w.arrived d) n = [] → Delivered w d n r) ∧
      (tagged n (w.arrived d) = [] → Delivered w d n r →
        typedAhead (w.kernel.history d).accepted (w.arrived d) n = []) := by
  obtain ⟨pend, W⟩ := watched_reached reached
  have line := (W.input d).reads n r served found op
  have line : tagged n (w.kernel.history d).moved = lineOf r.size.toNat (tagged n (w.arrived d)) := line
  have positive := size_positive ((W.input d).sizes r (List.mem_of_getElem? found))
  unfold Delivered
  rw [line]
  constructor
  · intro none
    rw [none, List.nil_append]
  · intro nothing same
    rw [nothing, List.append_nil, lineOf_nil] at same
    generalize typedAhead _ _ n = ahead at same
    cases ahead with
    | nil => rfl
    | cons byte rest =>
      obtain ⟨size, sized⟩ := Nat.exists_eq_succ_of_ne_zero (Nat.ne_of_gt positive)
      rw [sized] at same
      simp only [lineOf] at same
      split at same <;> cases same

/-- Two READs get what is typed during them, the first up to a carriage return, and with a WRITE between them. -/
theorem typed_ahead_delivered_example : ∃ w : Watch, w.arrived 0 = [(0, 104), (0, 13), (2, 105), (2, 106)] ∧
    Delivered w 0 0 ⟨8, .read, 100, 5⟩ ∧ Delivered w 0 2 ⟨8, .read, 200, 2⟩ := by
  have ran : (run Deed.Admitted Watch.step com1Watch
      [.event (.schedule com1 100 5 .read 50), .event (.interrupt 0 (.input 104)), .event (.interrupt 0 (.input 13)),
        .event (.checkIo com1), .event (.schedule com1 150 1 .write 60), .event (.interrupt 0 .output),
        .event (.checkIo com1), .event (.schedule com1 200 2 .read 70), .event (.interrupt 0 (.input 105)),
        .event (.interrupt 0 (.input 106))]).map
        (fun w => ((w.kernel.history 0).retired.length, (w.kernel.history 0).accepted, w.arrived 0)) =
      some (2, [⟨8, .read, 100, 5⟩, ⟨8, .write, 150, 1⟩, ⟨8, .read, 200, 2⟩],
        [(0, 104), (0, 13), (2, 105), (2, 106)]) := by
    decide +kernel
  obtain ⟨w, ran, seen⟩ := Option.map_eq_some_iff.mp ran
  simp only [Prod.mk.injEq] at seen
  obtain ⟨retired, accepted, arrived⟩ := seen
  have reached := run_reaches (.start com1Watch_opened) ran
  have first := typed_ahead_delivered reached 0 0 ⟨8, .read, 100, 5⟩ (Nat.zero_le _) (by rw [accepted]; rfl) rfl
  have second := typed_ahead_delivered reached 0 2 ⟨8, .read, 200, 2⟩ (Nat.le_of_eq retired.symm)
    (by rw [accepted]; rfl) rfl
  refine ⟨w, arrived, first.1 rfl, second.1 ?_⟩
  rw [accepted, arrived]
  decide

/-- A byte comes in during a WRITE, and the READ behind it starts with nothing. -/
theorem typed_ahead_lost : ¬∀ w : Watch, Reaches Opened Deed.Admitted Watch.step w → ∀ d n r,
    n ≤ (w.kernel.history d).retired.length → (w.kernel.history d).accepted[n]? = some r → r.op = .read →
      Delivered w d n r := by
  intro always
  have ran : (run Deed.Admitted Watch.step com1Watch
      [.event (.schedule com1 100 1 .write 50), .event (.interrupt 0 (.input 97)), .event (.interrupt 0 .output),
        .event (.checkIo com1), .event (.schedule com1 200 5 .read 60)]).map
          (fun w => ((w.kernel.history 0).retired.length, (w.kernel.history 0).accepted,
            tagged 1 (w.kernel.history 0).moved, w.arrived 0)) =
              some (1, [⟨8, .write, 100, 1⟩, ⟨8, .read, 200, 5⟩], [], [(0, 97)]) := by
    decide +kernel
  obtain ⟨w, ran, seen⟩ := Option.map_eq_some_iff.mp ran
  obtain ⟨retired, seen⟩ := Prod.mk.inj seen
  obtain ⟨accepted, seen⟩ := Prod.mk.inj seen
  obtain ⟨moved, arrived⟩ := Prod.mk.inj seen
  have delivered := always w (run_reaches (.start com1Watch_opened) ran) 0 1 ⟨8, .read, 200, 5⟩
    (Nat.le_of_eq retired.symm) (by rw [accepted]; rfl) rfl
  unfold Delivered at delivered
  rw [moved, accepted, arrived] at delivered
  exact absurd delivered (by decide)

end Mpx.Device

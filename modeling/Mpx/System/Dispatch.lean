import Mpx.System.Reachable

/-! # What runs next

When the loop that waits for interrupts and the request EXIT find a process to run, and which one it is. -/

namespace Mpx.System
open Library.Links Library.Transition Mpx.Process Mpx.Device

/-- The process behind the head request of `d`. -/
def requester (k : Kernel) (d : Fin 4) : Ptr := (k.iocbs (k.dcb d).iocbQueueHead).pcbRq

/-- A completion makes an active process ready. -/
def Awakens (k : Kernel) : Prop := ∃ d, Completes k d ∧ (k.procs.state (requester k d)).dpatch = .active

theorem awakens_iff (k : Kernel) : (∃ d ∈ ([0, 1, 2, 3] : List (Fin 4)),
    Completes k d ∧ (k.procs.state (requester k d)).dpatch = .active) ↔ Awakens k := by
  have every : ∀ d : Fin 4, d ∈ ([0, 1, 2, 3] : List (Fin 4)) := by decide
  constructor
  · rintro ⟨d, _, found⟩
    exact ⟨d, found⟩
  · rintro ⟨d, found⟩
    exact ⟨d, every d, found⟩

instance (k : Kernel) : Decidable (Awakens k) := decidable_of_iff _ (awakens_iff k)

variable {m m' : Machine} {k k' : Kernel} {loose live : List Ptr} {qs qs' : Fin 4 → List Ptr}
  {trapped : Ptr → Option Trap} {d : Fin 4} {p r : Ptr} {contextIn : CtxPtr} {outcome : Outcome} {a : Action}

theorem wakes_iff {pend : Fin 4 → List Ptr} (ok : DevicesOk k pend) :
    Wakes k d p ↔ Completes k d ∧ p = requester k d := by
  have own := ok.port d
  apply and_congr_right
  intro completes
  rw [wanting_pend ok]
  cases queue : pend d with
  | nil =>
    have quiet : (k.dcb d).event = false := (own.idle queue).1
    rw [completes.2] at quiet
    cases quiet
  | cons a rest =>
    have head : (k.dcb d).iocbQueueHead = a := by
      have chain := own.queue.chain.head
      rw [queue] at chain
      exact chain
    unfold requester
    rw [head]
    exact Option.some_inj.trans eq_comm

/-- After `sys_check_io` a process is ready if one was before or a completion has made it so. -/
theorem checkup_ready {pend : Fin 4 → List Ptr} (ok : DevicesOk k pend)
    (checkup : Checkup k k' loose qs qs' [0, 1, 2, 3]) : qs' 0 ≠ [] ↔ qs 0 ≠ [] ∨ Awakens k := by
  constructor
  · intro some
    obtain ⟨p, member⟩ := List.exists_mem_of_ne_nil _ some
    cases (checkup.ready p).mp member with
    | inl old => exact .inl (List.ne_nil_of_mem old)
    | inr new =>
      obtain ⟨d, _, wakes, active⟩ := new
      obtain ⟨completes, rfl⟩ := (wakes_iff ok).mp wakes
      exact .inr ⟨d, completes, active⟩
  · intro some
    cases some with
    | inl old =>
      obtain ⟨p, member⟩ := List.exists_mem_of_ne_nil _ old
      exact List.ne_nil_of_mem ((checkup.ready p).mpr (.inl member))
    | inr new =>
      obtain ⟨d, completes, active⟩ := new
      have every : ∀ d : Fin 4, d ∈ ([0, 1, 2, 3] : List (Fin 4)) := by decide
      have wakes : Wakes k d (requester k d) := (wakes_iff ok).mpr ⟨completes, rfl⟩
      exact List.ne_nil_of_mem ((checkup.ready _).mpr (.inr ⟨d, every d, wakes, active⟩))

/-! ### The loop that waits for interrupts -/

theorem poll_step (waits : m.waiting = true) {ready : Bool} (checked : sysCheckIo m.kernel = some (k, ready)) :
    m.step .poll = (if ready = true then dispatch k else some (k, .waiting)).map (m.settle none) := by
  show (if m.waiting = true then (waitIo m.kernel).bind fun result => some (m.settle none result) else none) = _
  rw [if_pos waits]
  unfold waitIo
  rw [checked, Option.map_eq_bind]
  rfl

/-- The loop finds a ready process at its end, and the dispatcher one to take off the queue, if and only if
a completion that ends the loop is one of an active process. -/
theorem wait_dispatches (h : Reached m) (waits : m.waiting = true) :
    ∃ k ready, sysCheckIo m.kernel = some (k, ready) ∧
      ((ready = true → readyHead k ≠ 0) ↔ ((∃ d, Completes m.kernel d) → Awakens m.kernel)) ∧
      ((m.step .poll).isSome ↔ ((∃ d, Completes m.kernel d) → Awakens m.kernel)) := by
  cases reached_standing h with
  | running _ _ mode _ => rw [mode] at waits; cases waits
  | left _ mode _ => rw [mode] at waits; cases waits
  | waiting qs _ rests original =>
    obtain ⟨k, qs₁, ready, checked, S₁, checkup, done⟩ := sysCheckIo_sound rests.sound
    obtain ⟨pend, ok⟩ := rests.sound.devices
    have head : readyHead k ≠ 0 ↔ Awakens m.kernel := by
      rw [Ne, readyHead_null S₁, ← Ne, checkup_ready ok checkup]
      exact or_iff_right fun old => old rests.ready
    refine ⟨k, ready, checked, by rw [done, head], ?_⟩
    rw [poll_step waits checked, Option.isSome_map, ← done, ← head]
    by_cases completed : ready = true
    · rw [if_pos completed]
      by_cases empty : qs₁ 0 = []
      · rw [dispatch_empty S₁ empty]
        have null := (readyHead_null S₁).mpr empty
        simp [completed, null]
      · have away : (0 : Ptr) ∉ qs₁ 0 := fun null => S₁.placed.queued.nonnull null rfl
        have original₁ : k.contextOriginal ≠ none := by
          rw [checkup.contextOriginal]
          exact original
        obtain ⟨_, _, _, _, ran, _⟩ := dispatch_switches S₁ empty original₁ away
        rw [ran]
        have busy : readyHead k ≠ 0 := fun null => empty ((readyHead_null S₁).mp null)
        simp [busy]
    · rw [if_neg completed]
      simp [completed]

/-- A line for `comhand` ends the loop. -/
theorem wait_dispatches_example : ∃ m : Machine, m.waiting = true ∧ Awakens m.kernel ∧ (m.step .poll).isSome := by
  have ran : (oneport Lawful [.trap (request opRead com1 1000 5) 20 700 0 0,
      .trap (request opWrite com1 1100 3) 20 800 0 0, .interrupt 0 (.input carriageReturn)]).map
        (fun m => (m.waiting, decide (Awakens m.kernel))) = some (true, true) := by
    decide +kernel
  obtain ⟨m, ran, seen⟩ := Option.map_eq_some_iff.mp ran
  have waits : m.waiting = true := congrArg Prod.fst seen
  have awakens : Awakens m.kernel := of_decide_eq_true (congrArg Prod.snd seen)
  obtain ⟨_, _, _, _, steps⟩ := wait_dispatches (oneport_reaches ran) waits
  exact ⟨m, waits, awakens, steps.mpr fun _ => awakens⟩

/-- A process reads, is suspended, and gets its line when all others are blocked. -/
theorem wait_stuck : ¬∀ m : Machine, Reached m → m.waiting = true → ∀ k ready,
    sysCheckIo m.kernel = some (k, ready) → ready = true → readyHead k ≠ 0 := by
  have ran : (oneport Lawful [.create [112] .user 1 (some ⟨3, 0, 0⟩) 500 600, .trap (request opIdle 0 0 0) 20 0 0 0,
      .trap (request opRead com1 1000 5) 20 700 0 0, .suspend [112], .trap (request opRead com1 1100 5) 20 800 0 0,
      .trap (request opWrite com1 1200 3) 20 900 0 0, .interrupt 0 (.input carriageReturn)]).map
        (fun m => (m.waiting, (sysCheckIo m.kernel).map fun result => (result.2, readyHead result.1))) =
          some (true, some (true, 0)) := by
    decide +kernel
  obtain ⟨m, ran, seen⟩ := Option.map_eq_some_iff.mp ran
  obtain ⟨result, checked, found⟩ := Option.map_eq_some_iff.mp (congrArg Prod.snd seen)
  intro always
  exact always m (oneport_reaches ran) (congrArg Prod.fst seen) result.1 result.2 checked
    (congrArg Prod.fst found) (congrArg Prod.snd found)

/-! ### EXIT -/

/-- Control is back at the boot context only if the process queues are empty, and not past a process that
is blocked. -/
structure LeavesLast (k : Kernel) : Prop where
  empty : k.pcbRunning = 0 → ∀ i, queueList k.procs i = some []
  blocked : ∀ i, ∀ l ∈ queueList k.procs i, ∀ p ∈ l, (k.procs.state p).exec = .blocked → k.pcbRunning ≠ 0

theorem rests_leaves (rests : Rests k live trapped qs) : LeavesLast k ↔ ∀ i, qs i = [] := by
  have rows := queueList_eq rests.sound.placed.queued
  constructor
  · intro last i
    exact Option.some.inj ((rows i).symm.trans (last.empty rests.pcbRunning i))
  · intro none
    refine ⟨fun _ i => (rows i).trans (congrArg some (none i)), ?_⟩
    intro i l row p member
    obtain rfl := Option.some.inj ((rows i).symm.trans row)
    rw [none i] at member
    cases member

theorem checkup_empty (checkup : Checkup k k' loose qs qs' [0, 1, 2, 3]) : (∀ i, qs' i = []) ↔ ∀ i, qs i = [] := by
  have filed : ∀ f : Fin 4 → List Ptr, (∀ i, f i = []) ↔ ¬∃ p i, p ∈ f i := by
    intro f
    constructor
    · rintro none ⟨p, i, member⟩
      rw [none i] at member
      cases member
    · intro none i
      exact List.eq_nil_iff_forall_not_mem.mpr fun p member => none ⟨p, i, member⟩
  rw [filed qs', filed qs]
  exact not_congr (exists_congr fun p => checkup.members p)

/-- EXIT hands control back to the boot context too early unless a process is ready, a completion makes
one ready, or none is left. -/
theorem exit_leaves (h : Reached m) (busy : m.kernel.pcbRunning ≠ 0) {context : Context}
    (exit : context.eax = opExit) (offset : UInt32) (alloc : Ptr) (freedStack freedPcb : Int) :
    ∃ m', m.step (.trap context offset alloc freedStack freedPcb) = some m' ∧
      (m'.kernel.pcbRunning = 0 → m'.entered = m.kernel.contextOriginal) ∧
      (LeavesLast m'.kernel ↔ readyHead m.kernel ≠ 0 ∨ Awakens m.kernel ∨
        ∀ i, queueList m.kernel.procs i = some []) := by
  obtain ⟨qs, R⟩ := standing_running (reached_standing h) busy
  obtain ⟨k₁, qs₁, ready, checked, checkup, T⟩ := trapping_check R context offset
  obtain ⟨k', outcome, ran, _, leaves, goes⟩ := exit_settles T freedStack freedPcb
  have served : sysCall (saveContext m.kernel context offset) (savedAt m.kernel offset) alloc freedStack
      freedPcb = some (k', outcome) := by
    rw [sysCall_eq checked, exit]
    exact ran
  obtain ⟨pend, ok⟩ := R.sound.devices
  have some : qs₁ 0 ≠ [] ↔ qs 0 ≠ [] ∨ Awakens m.kernel :=
    checkup_ready (k := saveContext m.kernel context offset) (devicesOk_congr ok rfl rfl) checkup
  have before : (∀ i, queueList m.kernel.procs i = .some []) ↔ ∀ i, qs i = [] :=
    forall_congr' fun i => by rw [queueList_eq R.sound.placed.queued, Option.some_inj]
  refine ⟨_, trap_step busy served, ?_, ?_⟩
  · rw [settle_kernel]
    intro idle
    by_cases quiet : qs₁ 0 = []
    · obtain ⟨c, original, rfl, _⟩ := leaves quiet
      exact original.symm.trans checkup.contextOriginal
    · exact (goes quiet idle).elim
  · rw [settle_kernel, before, Ne, readyHead_null R.sound, ← Ne, ← or_assoc, ← some]
    by_cases quiet : qs₁ 0 = []
    · obtain ⟨_, _, _, rests⟩ := leaves quiet
      rw [rests_leaves rests, checkup_empty checkup, or_iff_right (not_not.mpr quiet)]
    · have going := goes quiet
      exact iff_of_true ⟨fun idle => (going idle).elim, fun _ _ _ _ _ _ => going⟩ (.inl quiet)

/-- A process ends, and `comhand` goes on. -/
theorem exit_leaves_example : ∃ m m' : Machine,
    m.step (.trap (request opExit 0 0 0) 20 0 0 0) = some m' ∧ LeavesLast m'.kernel := by
  have ran : (oneport Lawful [.create [112] .user 1 (some ⟨3, 0, 0⟩) 500 600,
      .trap (request opIdle 0 0 0) 20 0 0 0]).map (fun m => (m.kernel.pcbRunning, readyHead m.kernel)) =
        some (500, 100) := by
    decide +kernel
  obtain ⟨m, ran, seen⟩ := Option.map_eq_some_iff.mp ran
  simp only [Prod.mk.injEq] at seen
  obtain ⟨running, head⟩ := seen
  have busy : m.kernel.pcbRunning ≠ 0 := by rw [running]; decide
  obtain ⟨m', stepped, _, leaves⟩ :=
    exit_leaves (oneport_reaches ran) busy (show (request opExit 0 0 0).eax = opExit from rfl) 20 0 0 0
  refine ⟨m, m', stepped, leaves.mpr (.inl ?_)⟩
  rw [head]
  decide

/-- A process ends while `comhand` and `idle` wait for their requests. -/
theorem exit_early : ¬∀ m m' : Machine, Reached m → ∀ context offset alloc freedStack freedPcb,
    context.eax = opExit → m.step (.trap context offset alloc freedStack freedPcb) = some m' →
      LeavesLast m'.kernel := by
  have ran : (oneport Lawful [.create [112] .user 1 (some ⟨3, 0, 0⟩) 500 600,
      .trap (request opRead com1 1000 5) 20 700 0 0, .trap (request opIdle 0 0 0) 20 0 0 0,
      .trap (request opWrite com1 1100 3) 20 800 0 0]).map (fun m =>
        (m.step (.trap (request opExit 0 0 0) 20 0 0 0)).map fun m' =>
          (m'.kernel.pcbRunning, queueList m'.kernel.procs 1)) = some (some (0, some [100, 300])) := by
    decide +kernel
  obtain ⟨m, ran, seen⟩ := Option.map_eq_some_iff.mp ran
  obtain ⟨m', stepped, found⟩ := Option.map_eq_some_iff.mp seen
  simp only [Prod.mk.injEq] at found
  obtain ⟨idle, row⟩ := found
  intro always
  have leaves := always m m' (oneport_reaches ran) (request opExit 0 0 0) 20 0 0 0 rfl stepped
  have empty := leaves.empty idle 1
  rw [row] at empty
  cases empty

/-! ### Priority -/

/-- The running process comes before all that are ready, `r` apart. -/
def Chosen (k : Kernel) (r : Ptr) : Prop :=
  ∃ l, queueList k.procs 0 = some l ∧ ∀ q ∈ l, q ≠ r → Before k.procs k.pcbRunning q

theorem settles_chosen (settles : Settles k live trapped r contextIn outcome) (busy : k.pcbRunning ≠ 0)
    (switched : k.pcbRunning ≠ r) : Chosen k r := by
  cases settles with
  | stays qs stays => exact (switched stays.pcbRunning).elim
  | switches qs p c switches =>
    refine ⟨qs 0, queueList_eq switches.sound.placed.queued 0, ?_⟩
    rw [switches.pcbRunning]
    exact switches.first
  | waits qs rests original => exact (busy rests.pcbRunning).elim
  | leaves qs c rests => exact (busy rests.pcbRunning).elim

theorem boot_chosen (h : Booted m) (busy : m.kernel.pcbRunning ≠ 0) : Chosen m.kernel 0 := by
  obtain ⟨k, b, U, fresh, booted⟩ := h
  obtain ⟨m₀, result, rfl, _, settles | ⟨_, _, rests⟩⟩ := boot_settles U fresh booted
  · rw [settle_kernel] at busy ⊢
    exact settles_chosen settles busy busy
  · rw [settle_kernel] at busy
    exact (busy rests.pcbRunning).elim

theorem step_chosen (stands : Standing m) (lawful : Lawful m a) (moved : m.step a = some m')
    (busy : m'.kernel.pcbRunning ≠ 0) (switched : m'.kernel.pcbRunning ≠ m.kernel.pcbRunning) :
    Chosen m'.kernel m.kernel.pcbRunning := by
  rcases step_settles stands lawful moved with ⟨_, _, _, _, _, k', outcome, settles, rfl, _⟩ | ⟨_, same⟩
  · rw [settle_kernel] at busy switched ⊢
    exact settles_chosen settles busy switched
  · exact (switched same).elim

/-- Whenever another process is switched to, it comes before all that are ready: by its priority, and by
the age of its last insertion among those of the same priority. A process that yields is no candidate. -/
theorem dispatch_first : (∀ m, Booted m → m.kernel.pcbRunning ≠ 0 → Chosen m.kernel 0) ∧
    ∀ m m' a, Reached m → Lawful m a → m.step a = some m' → m'.kernel.pcbRunning ≠ 0 →
      m'.kernel.pcbRunning ≠ m.kernel.pcbRunning → Chosen m'.kernel m.kernel.pcbRunning := by
  refine ⟨fun m booted busy => boot_chosen booted busy, ?_⟩
  intro m m' a reached lawful moved busy switched
  exact step_chosen (reached_standing reached) lawful moved busy switched

/-- `comhand` runs first, and yields to the older of two processes of its own priority. -/
theorem dispatch_first_example : (∃ m, Booted m ∧ m.kernel.pcbRunning = 100 ∧ Chosen m.kernel 0) ∧
    ∃ m m' : Machine, m.step (.trap (request opIdle 0 0 0) 20 0 0 0) = some m' ∧ m'.kernel.pcbRunning = 500 ∧
      Chosen m'.kernel m.kernel.pcbRunning := by
  constructor
  · have ran : (boot oneportKernel oneportBoot).map (fun m => m.kernel.pcbRunning) = some 100 := by
      decide +kernel
    obtain ⟨m, booted, running⟩ := Option.map_eq_some_iff.mp ran
    have start : Booted m := ⟨oneportKernel, oneportBoot, bootKernel_unbooted _, oneportBoot_fresh, booted⟩
    exact ⟨m, start, running, dispatch_first.1 m start (by rw [running]; decide)⟩
  · have ran : (oneport Lawful [.create [112] .user 0 (some ⟨3, 0, 0⟩) 500 600,
        .create [113] .user 0 (some ⟨3, 0, 0⟩) 700 800]).map (fun m =>
          (m.kernel.pcbRunning, (m.step (.trap (request opIdle 0 0 0) 20 0 0 0)).map fun m' => m'.kernel.pcbRunning)) =
            some (100, some 500) := by
      decide +kernel
    obtain ⟨m, ran, seen⟩ := Option.map_eq_some_iff.mp ran
    have before : m.kernel.pcbRunning = 100 := congrArg Prod.fst seen
    obtain ⟨m', stepped, after⟩ := Option.map_eq_some_iff.mp (congrArg Prod.snd seen)
    have lawful : Lawful m (.trap (request opIdle 0 0 0) 20 0 0 0) := ⟨Or.inl rfl, trivial⟩
    refine ⟨m, m', stepped, after, ?_⟩
    apply dispatch_first.2 m m' _ (oneport_reaches ran) lawful stepped
    · rw [after]
      decide
    · rw [after, before]
      decide

end Mpx.System

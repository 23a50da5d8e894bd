import Mpx.System.Reachable

/-! # Set PCB Priority between its prompts

`setPcbPriorityCommand` finds a PCB by the name it is given, and then waits for the priority while other
processes run. -/

namespace Mpx.System
open Library.Links Library.Transition Mpx.Process Mpx.Device

/-- `ended` records whether the process that was found has ended since. -/
structure Pending where
  machine : Machine
  comhand : Ptr
  pcbFindres : Ptr
  ended : Bool

def Action.Ends (m : Machine) (p : Ptr) : Action → Prop
  | .trap context _ _ _ _ => context.eax = opExit ∧ m.kernel.pcbRunning = p
  | .delete name _ _ => deleted m.kernel.procs name = some p
  | _ => False

/-- A new process is not given the memory of `p`. -/
def Action.Elsewhere (p : Ptr) : Action → Prop
  | .create _ _ _ _ pcb _ => pcb ≠ p
  | _ => True

instance endsDecidable (m : Machine) (p : Ptr) : (a : Action) → Decidable (a.Ends m p)
  | .trap .. => inferInstanceAs (Decidable (_ ∧ _))
  | .delete .. => inferInstanceAs (Decidable (_ = _))
  | .poll | .interrupt .. | .compute .. | .create .. | .suspend _ | .resume _ | .setPriority .. => .isFalse not_false

instance elsewhereDecidable (p : Ptr) : (a : Action) → Decidable (a.Elsewhere p)
  | .create .. => inferInstanceAs (Decidable (_ ≠ _))
  | .trap .. | .poll | .interrupt .. | .compute .. | .delete .. | .suspend _ | .resume _ | .setPriority .. =>
    .isTrue trivial

namespace Pending

def step (s : Pending) (a : Action) : Option Pending :=
  (s.machine.step a).map fun m =>
    { s with machine := m, ended := s.ended || decide (a.Ends s.machine s.pcbFindres) }

def Admits (s : Pending) (a : Action) : Prop := Lawful s.machine a ∧ a.Elsewhere s.pcbFindres

instance admitsDecidable (s : Pending) (a : Action) : Decidable (s.Admits a) := inferInstanceAs (Decidable (_ ∧ _))

end Pending

/-- `comhand` has found the PCB and goes on to the second prompt. -/
structure Prompted (s : Pending) : Prop where
  reached : Reached s.machine
  runs : s.machine.kernel.pcbRunning = s.comhand
  busy : s.comhand ≠ 0
  found : ∃ name, pcbFind s.machine.kernel.procs name = some s.pcbFindres
  real : s.pcbFindres ≠ 0
  starts : s.ended = false

def InQueue (s : Procs) (p : Ptr) : Prop := ∃ i, ∃ l ∈ queueList s i, p ∈ l

/-- The command changes a process that is there, and nothing else about who is queued. -/
structure Revises (m : Machine) (p : Ptr) (pri : Nat) : Prop where
  live : p ∈ m.live
  queued : InQueue m.kernel.procs p
  after : ∃ procs, setPcbPriority m.kernel.procs p pri = some procs ∧
    (∀ i, ∃ l, queueList procs i = some l ∧ ∀ q ∈ l, q ∈ m.live) ∧
    ∀ q, InQueue procs q ↔ InQueue m.kernel.procs q

variable {m m' : Machine} {k : Kernel} {s s' : Pending} {a : Action} {p q : Ptr} {pri : Nat} {loose live : List Ptr}
  {qs : Fin 4 → List Ptr} {trapped : Ptr → Option Trap} {procs : Procs}

/-! ### Who lives -/

theorem remaining_iff {op : UInt32} {r : Ptr} : p ∈ remaining op live r ↔ p ∈ live ∧ ¬(op = opExit ∧ r = p) := by
  unfold remaining
  by_cases exits : op = opExit
  · rw [if_pos exits, List.mem_filter, decide_eq_true_iff]
    apply and_congr_right
    intro _
    constructor
    · intro other both
      exact other both.2.symm
    · intro survives same
      exact survives ⟨exits, same.symm⟩
  · rw [if_neg exits]
    constructor
    · intro there
      exact ⟨there, fun both => exits both.1⟩
    · intro both
      exact both.1

/-- A process is there until a step ends it. -/
theorem step_live (elsewhere : a.Elsewhere p) (moved : m.step a = some m') :
    p ∈ m'.live ↔ p ∈ m.live ∧ ¬a.Ends m p := by
  have kept : ∀ {m₁ : Machine}, m'.live = m₁.live → (p ∈ m'.live ↔ p ∈ m₁.live ∧ ¬False) := by
    intro m₁ same
    rw [same]
    exact (and_iff_left not_false).symm
  cases step_moves moved with
  | trap _ ran =>
    rw [trap_live ran]
    exact remaining_iff
  | poll _ _ same => exact kept (same ▸ settle_live ..)
  | interrupt _ same => exact kept (same ▸ rfl)
  | compute _ same => exact kept (same ▸ rfl)
  | @create _ _ _ _ pcb _ _ _ _ same =>
    have other : p ≠ pcb := fun equal => elsewhere equal.symm
    subst same
    show p ∈ pcb :: m.live ↔ p ∈ m.live ∧ ¬False
    rw [List.mem_cons, or_iff_right other, and_iff_left not_false]
  | @delete name _ _ _ _ _ same =>
    subst same
    show p ∈ m.live.filter (some · ≠ deleted m.kernel.procs name) ↔
      p ∈ m.live ∧ ¬deleted m.kernel.procs name = some p
    rw [List.mem_filter, decide_eq_true_iff, ne_comm]
  | suspend _ _ same => exact kept (same ▸ rfl)
  | resume _ _ same => exact kept (same ▸ rfl)
  | setPriority _ _ same => exact kept (same ▸ rfl)

/-! ### The second prompt -/

/-- What holds while the command waits. -/
structure Holds (s : Pending) : Prop where
  reached : Reached s.machine
  apart : s.pcbFindres ≠ s.comhand
  busy : s.comhand ≠ 0
  live : s.pcbFindres ∈ s.machine.live ↔ s.ended = false

theorem prompted_holds (start : Prompted s) : Holds s := by
  obtain ⟨reached, runs, busy, ⟨name, found⟩, real, starts⟩ := start
  have running : s.machine.kernel.pcbRunning ≠ 0 := runs ▸ busy
  obtain ⟨qs, R⟩ := standing_running (reached_standing reached) running
  have P := R.sound.placed
  obtain ⟨which, ran, null | ⟨i, member⟩⟩ := pcbFind_queued P.queued name
  · rw [ran] at found
    exact (real ((Option.some.inj found).symm.trans null)).elim
  · obtain rfl : which = s.pcbFindres := Option.some.inj (ran.symm.trans found)
    refine ⟨reached, ?_, busy, iff_of_true (P.live_queued member) starts⟩
    intro same
    apply P.apart member
    rw [same, runs]
    exact List.mem_cons_self

theorem step_holds (held : Holds s) (admitted : s.Admits a) (moved : s.step a = some s') : Holds s' := by
  obtain ⟨m, ran, rfl⟩ := Option.map_eq_some_iff.mp moved
  obtain ⟨reached, apart, busy, live⟩ := held
  refine ⟨.step reached admitted.1 ran, apart, busy, ?_⟩
  rw [step_live admitted.2 ran, live]
  show s.ended = false ∧ _ ↔ (s.ended || decide _) = false
  rw [Bool.or_eq_false_iff, decide_eq_false_iff_not]

theorem inQueue_iff (P : Placed procs loose live qs) : InQueue procs p ↔ ∃ i, p ∈ qs i := by
  constructor
  · intro queued
    obtain ⟨i, l, row, member⟩ := queued
    rw [queueList_eq P.queued] at row
    obtain rfl := Option.some.inj row
    exact ⟨i, member⟩
  · intro queued
    obtain ⟨i, member⟩ := queued
    exact ⟨i, qs i, queueList_eq P.queued i, member⟩

/-- Who is queued: the live processes that are not in hand. -/
theorem inQueue_live (P : Placed procs loose live qs) : InQueue procs p ↔ p ∈ live ∧ p ∉ loose := by
  rw [inQueue_iff P, P.members]
  constructor
  · intro queued
    obtain ⟨i, member⟩ := queued
    exact ⟨.inr ⟨i, member⟩, P.apart member⟩
  · intro there
    exact there.1.resolve_left there.2

theorem setPriority_runs (S : Sound k loose live qs trapped) (queued : InQueue k.procs p) (pri : Nat) :
    ∃ procs qs', setPcbPriority k.procs p pri = some procs ∧ Sound { k with procs := procs } loose live qs' trapped := by
  obtain ⟨i, member⟩ := (inQueue_iff S.placed).mp queued
  unfold setPcbPriority
  by_cases allowed : pri ≤ pcbProcpriMax
  · obtain ⟨procs, procs', qs', removed, inserted, S', _⟩ :=
      refile_sound S member (fun state => { state with pri := pri }) fun _ => rfl
    refine ⟨procs', qs', ?_, S'⟩
    rw [if_pos allowed, removed]
    exact inserted
  · exact ⟨k.procs, qs, if_neg allowed, S⟩

/-- When the priority has come in, the command does what it should exactly if the process that was found
has not ended since. -/
theorem priority_revised (reached : Reaches Prompted Pending.Admits Pending.step s)
    (runs : s.machine.kernel.pcbRunning = s.comhand) (pri : Nat) :
    Revises s.machine s.pcbFindres pri ↔ s.ended = false := by
  have held : Holds s := by
    apply reaches_invariant (P := Holds) ?_ ?_ reached
    · intro s start
      exact prompted_holds start
    · intro s a s' held admitted moved
      exact step_holds held admitted moved
  constructor
  · intro revised
    exact held.live.mp revised.live
  · intro lives
    have live := held.live.mpr lives
    obtain ⟨qs, R⟩ := standing_running (reached_standing held.reached) (runs ▸ held.busy)
    have S := R.sound
    have queued : InQueue s.machine.kernel.procs s.pcbFindres := by
      apply (inQueue_live S.placed).mpr
      refine ⟨live, ?_⟩
      intro running
      exact held.apart ((List.mem_singleton.mp running).trans runs)
    obtain ⟨procs, qs', ran, S'⟩ := setPriority_runs S queued pri
    refine ⟨live, queued, procs, ran, ?_, ?_⟩
    · intro i
      exact ⟨qs' i, queueList_eq S'.placed.queued i, fun q member => S'.placed.live_queued member⟩
    · intro q
      exact (inQueue_live S'.placed).trans (inQueue_live S.placed).symm

/-- `comhand` has found the process that it created, and takes the actions that follow. -/
def prompt (actions : List Action) : Option (Machine × Pending) :=
  (oneport Lawful [.create [112] .user 1 (some ⟨3, 0, 0⟩) 500 600]).bind fun m =>
    (run Pending.Admits Pending.step ⟨m, 100, 500, false⟩ actions).map (m, ·)

theorem prompt_reaches {actions : List Action} (ran : prompt actions = some (m, s))
    (found : m.kernel.pcbRunning = 100 ∧ pcbFind m.kernel.procs [112] = some 500) :
    Reaches Prompted Pending.Admits Pending.step s := by
  unfold prompt at ran
  obtain ⟨m₀, created, made⟩ := Option.bind_eq_some_iff.mp ran
  obtain ⟨s₀, prompts, same⟩ := Option.map_eq_some_iff.mp made
  obtain ⟨rfl, rfl⟩ := Prod.mk.inj same
  have real : (100 : Ptr) ≠ 0 ∧ (500 : Ptr) ≠ 0 := by decide
  have start : Prompted ⟨m₀, 100, 500, false⟩ :=
    ⟨oneport_reaches created, found.1, real.1, ⟨_, found.2⟩, real.2, rfl⟩
  exact run_reaches (.start start) prompts

/-- The process yields, and `comhand` gets its line. -/
theorem priority_revised_example : ∃ s : Pending, Revises s.machine 500 2 := by
  have ran : (prompt [.trap (request opRead com1 1000 1) 20 700 0 0, .interrupt 0 (.input 50),
      .trap (request opIdle 0 0 0) 20 0 0 0]).map (fun x => (x.1.kernel.pcbRunning, pcbFind x.1.kernel.procs [112],
        x.2.machine.kernel.pcbRunning, x.2.comhand, x.2.pcbFindres, x.2.ended)) =
          some (100, some 500, 100, 100, 500, false) := by
    decide +kernel
  obtain ⟨⟨m, s⟩, ran, seen⟩ := Option.map_eq_some_iff.mp ran
  simp only [Prod.mk.injEq] at seen
  obtain ⟨before, found, after, comhand, which, ended⟩ := seen
  refine ⟨s, which ▸ ?_⟩
  exact (priority_revised (prompt_reaches ran ⟨before, found⟩) (after.trans comhand.symm) 2).mpr ended

/-- The process ends while `comhand` waits for the priority, and is in a queue again afterwards. -/
theorem priority_resurrects : ¬∀ s : Pending, Reaches Prompted Pending.Admits Pending.step s →
    s.machine.kernel.pcbRunning = s.comhand → ∀ pri ≤ pcbProcpriMax, Revises s.machine s.pcbFindres pri := by
  intro always
  have ran : (prompt [.trap (request opRead com1 1000 1) 20 700 0 0, .trap (request opExit 0 0 0) 20 0 0 0,
      .interrupt 0 (.input 50), .trap (request opIdle 0 0 0) 20 0 0 0]).map (fun x =>
        ((x.1.kernel.pcbRunning, pcbFind x.1.kernel.procs [112]),
          (x.2.machine.kernel.pcbRunning, x.2.comhand, x.2.pcbFindres), x.2.machine.live,
          (setPcbPriority x.2.machine.kernel.procs 500 2).map fun procs => queueList procs 3)) =
          some ((100, some 500), (100, 100, 500), [300, 100], some (some [500])) := by
    decide +kernel
  obtain ⟨⟨m, s⟩, ran, seen⟩ := Option.map_eq_some_iff.mp ran
  simp only [Prod.mk.injEq] at seen
  obtain ⟨⟨before, found⟩, ⟨after, comhand, which⟩, live, queued⟩ := seen
  have revised := always s (prompt_reaches ran ⟨before, found⟩) (after.trans comhand.symm) 2 (by decide)
  obtain ⟨procs, done, lists, _⟩ := revised.after
  obtain ⟨l, row, alive⟩ := lists 3
  rw [which] at done
  rw [done] at queued
  have row' : queueList procs 3 = some [500] := Option.some.inj queued
  obtain rfl := Option.some.inj (row.symm.trans row')
  have resurrected := alive 500 List.mem_cons_self
  rw [live] at resurrected
  exact absurd resurrected (by decide)

end Mpx.System

import Mpx.System.Placement
import Mpx.System.Steady

/-! # Suspended processes and system processes

What a run can do to the state of one process. A suspended process does not run until Resume PCB finds it,
and a system process is out of the reach of the commands until it exits by itself. -/

namespace Mpx.System
open Function Library.Transition Mpx.Process Mpx.Device

/-- The command Resume PCB finds the process `p`. -/
def Action.Resumes (m : Machine) (p : Ptr) : Action → Prop
  | .resume name => pcbFind m.kernel.procs name = some p
  | _ => False

instance resumesDecidable (m : Machine) (p : Ptr) : (a : Action) → Decidable (a.Resumes m p)
  | .resume _ => inferInstanceAs (Decidable (_ = _))
  | .trap .. | .poll | .interrupt .. | .compute .. | .create .. | .delete .. | .suspend _ | .setPriority .. =>
    .isFalse not_false

variable {m m₀ m' : Machine} {a : Action} {p q : Ptr} {s s' : Procs} {name : List UInt8}

/-! ### One step -/

theorem suspend_state (ran : suspendPcbCommand s name = some s') (found : pcbFind s name = some p) (real : p ≠ 0)
    (user : (s.state p).cls ≠ .system) : s'.state p = { s.state p with dpatch := .suspended } := by
  obtain ⟨f, searched, ran⟩ := Option.bind_eq_some_iff.mp ran
  obtain rfl := Option.some.inj (found.symm.trans searched)
  rw [if_neg real, if_neg user] at ran
  exact refile_state (fun state => { state with dpatch := .suspended }) ran

theorem resume_state (ran : resumePcbCommand s name = some s') (found : pcbFind s name = some p) (real : p ≠ 0) :
    s'.state p = { s.state p with dpatch := .active } := by
  obtain ⟨f, searched, ran⟩ := Option.bind_eq_some_iff.mp ran
  obtain rfl := Option.some.inj (found.symm.trans searched)
  rw [if_neg real] at ran
  exact refile_state (fun state => { state with dpatch := .active }) ran

theorem setPriority_state {pri : Nat} (ran : setPcbPriority s p pri = some s') :
    (s'.state p).cls = (s.state p).cls ∧ (s'.state p).dpatch = (s.state p).dpatch := by
  unfold setPcbPriority at ran
  split at ran
  · have state := refile_state (fun state => { state with pri := pri }) ran
    rw [state]
    exact ⟨rfl, rfl⟩
  · cases ran
    exact ⟨rfl, rfl⟩

/-- What a step can do to the name, the class and the dispatch state of a process that it does not end. -/
structure Handles (m m' : Machine) (a : Action) (p : Ptr) : Prop where
  name : (m'.kernel.procs.pcbs p).name = (m.kernel.procs.pcbs p).name
  cls : (m'.kernel.procs.state p).cls = (m.kernel.procs.state p).cls
  dpatch : (m'.kernel.procs.state p).dpatch = (m.kernel.procs.state p).dpatch ∨
    (m.kernel.procs.state p).cls ≠ .system ∧ (m'.kernel.procs.state p).dpatch = .suspended ∨
    a.Resumes m p ∧ (m'.kernel.procs.state p).dpatch = .active

theorem live_real (stands : Standing m) (live : p ∈ m.live) : p ≠ 0 := by
  obtain ⟨qs, S, _⟩ := standing_sound stands
  rcases (S.placed.members p).mp live with loose | ⟨i, queued⟩
  · exact (S.placed.loose p loose).1
  · exact S.placed.queued.nonnull queued

theorem step_handles (stands : Standing m) (lawful : Lawful m a) (moved : m.step a = some m') (live : p ∈ m.live)
    (spared : ¬a.Ends m p) : Handles m m' a p := by
  have real := live_real stands live
  by_cases touched : a.Touches m p
  swap
  · have same := step_fixed stands moved touched
    exact ⟨fixed_name same, fixed_cls same, .inl (fixed_dpatch same)⟩
  cases step_moves moved with
  | trap _ _ => exact (spared touched).elim
  | poll _ _ _ => exact touched.elim
  | interrupt _ _ => exact touched.elim
  | compute _ _ => exact touched.elim
  | create _ _ _ => exact (lawful.1.1 (touched ▸ live)).elim
  | delete _ _ _ => exact (spared touched).elim
  | suspend _ ran same =>
    obtain ⟨found, user⟩ := touched
    have state := suspend_state ran found real user
    have cls := congrArg PcbState.cls state
    have dpatch := congrArg PcbState.dpatch state
    subst same
    exact ⟨suspend_names ran p, cls, .inr (.inl ⟨user, dpatch⟩)⟩
  | resume _ ran same =>
    have state := resume_state ran touched real
    have cls := congrArg PcbState.cls state
    have dpatch := congrArg PcbState.dpatch state
    subst same
    exact ⟨resume_names ran p, cls, .inr (.inr ⟨touched, dpatch⟩)⟩
  | setPriority _ ran same =>
    obtain rfl := touched
    have state := setPriority_state ran
    subst same
    exact ⟨setPriority_names ran _, state.1, .inl state.2⟩

theorem lawful_elsewhere (lawful : Lawful m a) (live : p ∈ m.live) : a.Elsewhere p := by
  cases a with
  | create name cls pri entry pcb stack =>
    intro same
    exact lawful.1.1 (same ▸ live)
  | _ => trivial

theorem step_stays (lawful : Lawful m a) (moved : m.step a = some m') (live : p ∈ m.live) (spared : ¬a.Ends m p) :
    p ∈ m'.live :=
  (step_live (lawful_elsewhere lawful live) moved).mpr ⟨live, spared⟩

/-! ### Runs -/

/-- A suspended process does not run, whatever becomes ready, until Resume PCB finds it or Delete PCB ends it. -/
theorem suspension_honoured (reached : Reached m₀) (live : p ∈ m₀.live)
    (suspended : (m₀.kernel.procs.state p).dpatch = .suspended)
    (run : Reaches (· = m₀) (fun m a => Lawful m a ∧ ¬a.Ends m p ∧ ¬a.Resumes m p) Machine.step m) :
    p ∈ m.live ∧ (m.kernel.procs.state p).dpatch = .suspended ∧ m.kernel.pcbRunning ≠ p := by
  have inv : Reached m ∧ p ∈ m.live ∧ (m.kernel.procs.state p).dpatch = .suspended := by
    refine reaches_invariant
      (P := fun m => Reached m ∧ p ∈ m.live ∧ (m.kernel.procs.state p).dpatch = .suspended) ?_ ?_ run
    · rintro m rfl
      exact ⟨reached, live, suspended⟩
    · intro m a m' held admitted moved
      obtain ⟨reached, live, suspended⟩ := held
      obtain ⟨lawful, spared, quiet⟩ := admitted
      refine ⟨.step reached lawful moved, step_stays lawful moved live spared, ?_⟩
      rcases (step_handles (reached_standing reached) lawful moved live spared).dpatch with same | ⟨_, there⟩ | ⟨found, _⟩
      · exact same.trans suspended
      · exact there
      · exact (quiet found).elim
  obtain ⟨reached, live, suspended⟩ := inv
  obtain ⟨_, _, _, _, away⟩ := processes_filed reached
  exact ⟨live, suspended, (away p live suspended).symm⟩

/-- Of two processes the one that is to run first is suspended, and `comhand` waits for a line: `idle` runs. -/
theorem suspension_honoured_example : ∃ m : Machine, m.kernel.pcbRunning = 300 ∧ 500 ∈ m.live ∧
    (m.kernel.procs.state 500).dpatch = .suspended ∧ m.kernel.pcbRunning ≠ 500 := by
  have ran : (oneport Lawful [.create [112] .user 1 (some ⟨3, 0, 0⟩) 500 600, .suspend [112]]).bind (fun m =>
      (run (fun m a => Lawful m a ∧ ¬a.Ends m 500 ∧ ¬a.Resumes m 500) Machine.step m
        [.trap (request opRead com1 1000 5) 20 700 0 0]).map fun m' =>
          (decide (500 ∈ m.live), (m.kernel.procs.state 500).dpatch, m'.kernel.pcbRunning)) =
      some (true, .suspended, 300) := by
    decide +kernel
  obtain ⟨m₀, begins, ran⟩ := Option.bind_eq_some_iff.mp ran
  obtain ⟨m, ran, seen⟩ := Option.map_eq_some_iff.mp ran
  simp only [Prod.mk.injEq, decide_eq_true_eq] at seen
  obtain ⟨live, suspended, running⟩ := seen
  exact ⟨m, running, suspension_honoured (oneport_reaches begins) live suspended (run_reaches (.start rfl) ran)⟩

/-- Suspend PCB and Delete PCB have no hold on a system process. -/
structure Secure (m : Machine) (p : Ptr) (name : List UInt8) : Prop where
  live : p ∈ m.live
  name : (m.kernel.procs.pcbs p).name = name
  cls : (m.kernel.procs.state p).cls = .system
  dpatch : (m.kernel.procs.state p).dpatch = .active

theorem secure_step (stands : Standing m) (lawful : Lawful m a) (moved : m.step a = some m')
    (exits : ¬(m.kernel.pcbRunning = p ∧ a.Ends m p)) (secure : Secure m p name) : Secure m' p name := by
  obtain ⟨live, named, system, active⟩ := secure
  have spared : ¬a.Ends m p := by
    intro ends
    cases a with
    | trap context offset alloc freedStack freedPcb => exact exits ⟨ends.2, ends⟩
    | delete name freedStack freedPcb =>
      have user := (Option.filter_eq_some_iff.mp ends).2
      exact (of_decide_eq_true user).2 system
    | _ => exact ends
  have handles := step_handles stands lawful moved live spared
  refine ⟨step_stays lawful moved live spared, handles.name.trans named, handles.cls.trans system, ?_⟩
  rcases handles.dpatch with same | ⟨user, _⟩ | ⟨_, there⟩
  · exact same.trans active
  · exact (user system).elim
  · exact there

theorem boot_secure {k : Kernel} {b : BootInput} (fresh : b.Fresh) (booted : boot k b = some m) :
    Secure m b.comhandPcb comhandName ∧ Secure m b.idlePcb idleName := by
  obtain ⟨live, comhand, idle⟩ := boot_fixed fresh.idle fresh.pcbs booted
  constructor
  · exact ⟨live ▸ List.mem_cons_of_mem _ List.mem_cons_self, fixed_name comhand, fixed_cls comhand, fixed_dpatch comhand⟩
  · exact ⟨live ▸ List.mem_cons_self, fixed_name idle, fixed_cls idle, fixed_dpatch idle⟩

/-- In every run without Shut Down `comhand` stays alive, active and under its name for as long as it does not exit by
itself, whatever other commands it is given, and so does `idle`. -/
theorem kmain_processes_stay {k : Kernel} {b : BootInput} (U : Unbooted k) (fresh : b.Fresh)
    (booted : boot k b = some m₀) (which : p = b.comhandPcb ∧ name = comhandName ∨ p = b.idlePcb ∧ name = idleName)
    (run : Reaches (· = m₀) (fun m a => Lawful m a ∧ ¬(m.kernel.pcbRunning = p ∧ a.Ends m p)) Machine.step m) :
    p ∈ m.live ∧ (m.kernel.procs.pcbs p).name = name ∧ (m.kernel.procs.state p).cls = .system ∧
      (m.kernel.procs.state p).dpatch = .active := by
  have inv : Reached m ∧ Secure m p name := by
    refine reaches_invariant (P := fun m => Reached m ∧ Secure m p name) ?_ ?_ run
    · rintro m rfl
      refine ⟨.start ⟨k, b, U, fresh, booted⟩, ?_⟩
      rcases which with ⟨rfl, rfl⟩ | ⟨rfl, rfl⟩
      · exact (boot_secure fresh booted).1
      · exact (boot_secure fresh booted).2
    · intro m a m' held admitted moved
      obtain ⟨reached, secure⟩ := held
      obtain ⟨lawful, exits⟩ := admitted
      exact ⟨.step reached lawful moved, secure_step (reached_standing reached) lawful moved exits secure⟩
  exact ⟨inv.2.live, inv.2.name, inv.2.cls, inv.2.dpatch⟩

/-- While `idle` runs, `comhand` is to be suspended and deleted; it goes on. -/
theorem kmain_processes_stay_example : ∃ m : Machine, m.kernel.pcbRunning = 100 ∧ 100 ∈ m.live ∧
    (m.kernel.procs.pcbs 100).name = comhandName ∧ (m.kernel.procs.state 100).cls = .system ∧
      (m.kernel.procs.state 100).dpatch = .active := by
  have ran : ((boot oneportKernel oneportBoot).bind fun m =>
      (run (fun m a => Lawful m a ∧ ¬(m.kernel.pcbRunning = 100 ∧ a.Ends m 100)) Machine.step m
        [.trap (request opIdle 0 0 0) 20 0 0 0, .suspend comhandName, .delete comhandName 0 0,
          .trap (request opIdle 0 0 0) 20 0 0 0]).map (·.kernel.pcbRunning)) = some 100 := by
    decide +kernel
  obtain ⟨m₀, booted, ran⟩ := Option.bind_eq_some_iff.mp ran
  obtain ⟨m, ran, running⟩ := Option.map_eq_some_iff.mp ran
  have stays := kmain_processes_stay (p := 100) (bootKernel_unbooted _) oneportBoot_fresh booted (.inl ⟨rfl, rfl⟩)
    (run_reaches (.start rfl) ran)
  exact ⟨m, running, stays⟩

end Mpx.System

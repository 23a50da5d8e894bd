import Mpx.System.Traps

/-! # Reachable machines

Every machine that is reached from a boot stands in one of three ways: a process runs, the kernel waits
for interrupts, or control is back in `kmain`. -/

namespace Mpx.System
open Function Library.Links Library.Transition Mpx.Process Mpx.Device

inductive Standing (m : Machine) : Prop
  | running (qs : Fin 4 → List Ptr) (r : Ptr) : m.waiting = false → Running m.kernel m.live qs m.trapped r →
      Standing m
  | waiting (qs : Fin 4 → List Ptr) : m.waiting = true → Rests m.kernel m.live m.trapped qs →
      m.kernel.contextOriginal ≠ none → Standing m
  | left (qs : Fin 4 → List Ptr) : m.waiting = false → Rests m.kernel m.live m.trapped qs → Standing m

variable {m m' : Machine} {k k' : Kernel} {loose live : List Ptr} {qs : Fin 4 → List Ptr}
  {trapped : Ptr → Option Trap} {r : Ptr} {contextIn : CtxPtr} {outcome : Outcome} {a : Action}

@[simp] theorem settle_kernel (m : Machine) (caller : Option CtxPtr) (result : Kernel × Outcome) :
    (m.settle caller result).kernel = result.1 := by
  obtain ⟨k, outcome⟩ := result
  cases outcome with
  | waiting => rfl
  | returned ctxt => cases ctxt <;> rfl

@[simp] theorem settle_trapped (m : Machine) (caller : Option CtxPtr) (result : Kernel × Outcome) :
    (m.settle caller result).trapped = m.trapped := by
  obtain ⟨k, outcome⟩ := result
  cases outcome with
  | waiting => rfl
  | returned ctxt => cases ctxt <;> rfl

@[simp] theorem settle_live (m : Machine) (caller : Option CtxPtr) (result : Kernel × Outcome) :
    (m.settle caller result).live = m.live := by
  obtain ⟨k, outcome⟩ := result
  cases outcome with
  | waiting => rfl
  | returned ctxt => cases ctxt <;> rfl

theorem settles_standing {caller : Option CtxPtr} (settles : Settles k m.live m.trapped r contextIn outcome) :
    Standing (m.settle caller (k, outcome)) := by
  cases settles with
  | stays qs stays => exact .running qs r rfl ⟨stays.sound, stays.pcbRunning, stays.state, stays.original⟩
  | switches qs p c switches =>
    exact .running qs p rfl ⟨switches.sound, switches.pcbRunning, switches.state, switches.original⟩
  | waits qs rests original => exact .waiting qs rfl rests original
  | leaves qs c rests => exact .left qs rfl rests

/-! ### Steps -/

/-- What a step can do. -/
inductive Moves (m m' : Machine) : Action → Prop
  | trap {context : Context} {offset : UInt32} {alloc : Ptr} {freedStack freedPcb : Int} :
      m.kernel.pcbRunning ≠ 0 → m.trap context offset alloc freedStack freedPcb = some m' →
      Moves m m' (.trap context offset alloc freedStack freedPcb)
  | poll {result : Kernel × Outcome} : m.waiting = true → waitIo m.kernel = some result →
      m' = m.settle none result → Moves m m' .poll
  | interrupt {d : Fin 4} {i : Interrupt} {k : Kernel} : serialInterrupt m.kernel d i = some k →
      m' = { m with kernel := k } → Moves m m' (.interrupt d i)
  | compute {contexts : UInt32 → Context} {buffers : Ptr → UInt8} : m.kernel.pcbRunning ≠ 0 →
      m' = { m with kernel := store m.kernel contexts buffers } → Moves m m' (.compute contexts buffers)
  | create {name : List UInt8} {cls : ProcClassState} {pri : Nat} {entry : Option Entry} {pcb stack : Ptr}
      {procs : Procs} : m.kernel.pcbRunning ≠ 0 → createPcb m.kernel.procs name cls pri entry pcb stack = some procs →
      m' = { m.withProcs procs with live := pcb :: m.live, trapped := update m.trapped pcb none } →
      Moves m m' (.create name cls pri entry pcb stack)
  | delete {name : List UInt8} {freedStack freedPcb : Int} {procs : Procs} : m.kernel.pcbRunning ≠ 0 →
      deletePcbCommand m.kernel.procs name freedStack freedPcb = some procs →
      m' = { m.withProcs procs with live := m.live.filter (some · ≠ deleted m.kernel.procs name) } →
      Moves m m' (.delete name freedStack freedPcb)
  | suspend {name : List UInt8} {procs : Procs} : m.kernel.pcbRunning ≠ 0 →
      suspendPcbCommand m.kernel.procs name = some procs → m' = m.withProcs procs → Moves m m' (.suspend name)
  | resume {name : List UInt8} {procs : Procs} : m.kernel.pcbRunning ≠ 0 →
      resumePcbCommand m.kernel.procs name = some procs → m' = m.withProcs procs → Moves m m' (.resume name)
  | setPriority {pcb : Ptr} {pri : Nat} {procs : Procs} : m.kernel.pcbRunning ≠ 0 →
      setPcbPriority m.kernel.procs pcb pri = some procs → m' = m.withProcs procs →
      Moves m m' (.setPriority pcb pri)

theorem running_real (R : Running k live qs trapped r) : k.pcbRunning ≠ 0 := by
  rw [R.pcbRunning]
  exact (R.sound.placed.loose r List.mem_cons_self).1

/-- A command is one of the running process. -/
theorem busy_bind {o : Option Procs} {f : Procs → Machine}
    (h : (if m.kernel.pcbRunning = 0 then none else o.bind fun procs => some (f procs)) = some m') :
    m.kernel.pcbRunning ≠ 0 ∧ ∃ procs, o = some procs ∧ m' = f procs := by
  by_cases idle : m.kernel.pcbRunning = 0
  · rw [if_pos idle] at h
    cases h
  · rw [if_neg idle] at h
    obtain ⟨procs, ran, same⟩ := Option.bind_eq_some_iff.mp h
    exact ⟨idle, procs, ran, (Option.some.inj same).symm⟩

theorem step_moves (h : m.step a = some m') : Moves m m' a := by
  cases a with
  | trap context offset alloc freedStack freedPcb =>
    change (if m.kernel.pcbRunning = 0 then none else m.trap context offset alloc freedStack freedPcb) = some m' at h
    by_cases idle : m.kernel.pcbRunning = 0
    · rw [if_pos idle] at h
      cases h
    · rw [if_neg idle] at h
      exact .trap idle h
  | poll =>
    change (if m.waiting = true then (waitIo m.kernel).bind fun result => some (m.settle none result) else none) =
      some m' at h
    by_cases waits : m.waiting = true
    · rw [if_pos waits] at h
      obtain ⟨result, ran, same⟩ := Option.bind_eq_some_iff.mp h
      exact .poll waits ran (Option.some.inj same).symm
    · rw [if_neg waits] at h
      cases h
  | interrupt d i =>
    obtain ⟨k', ran, same⟩ := Option.bind_eq_some_iff.mp h
    exact .interrupt ran (Option.some.inj same).symm
  | compute contexts buffers =>
    change (if m.kernel.pcbRunning = 0 then none else _) = some m' at h
    by_cases idle : m.kernel.pcbRunning = 0
    · rw [if_pos idle] at h
      cases h
    · rw [if_neg idle] at h
      exact .compute idle (Option.some.inj h).symm
  | create name cls pri entry pcb stack =>
    obtain ⟨busy, procs, ran, same⟩ := busy_bind h
    exact .create busy ran same
  | delete name freedStack freedPcb =>
    obtain ⟨busy, procs, ran, same⟩ := busy_bind h
    exact .delete busy ran same
  | suspend name =>
    obtain ⟨busy, procs, ran, same⟩ := busy_bind h
    exact .suspend busy ran same
  | resume name =>
    obtain ⟨busy, procs, ran, same⟩ := busy_bind h
    exact .resume busy ran same
  | setPriority pcb pri =>
    obtain ⟨busy, procs, ran, same⟩ := busy_bind h
    exact .setPriority busy ran same

theorem trap_step {context : Context} {offset : UInt32} {alloc : Ptr} {freedStack freedPcb : Int}
    {result : Kernel × Outcome} (busy : m.kernel.pcbRunning ≠ 0)
    (ran : sysCall (saveContext m.kernel context offset) (savedAt m.kernel offset) alloc freedStack freedPcb =
      some result) :
    m.step (.trap context offset alloc freedStack freedPcb) = some ({ m with
      live := remaining context.eax m.live m.kernel.pcbRunning
      trapped := update m.trapped m.kernel.pcbRunning (some (recorded m.kernel result.1 context)) }.settle
        (some (savedAt m.kernel offset)) result) := by
  show (if m.kernel.pcbRunning = 0 then none else m.trap context offset alloc freedStack freedPcb) = _
  rw [if_neg busy]
  unfold Machine.trap
  dsimp only
  rw [ran]
  rfl

theorem trap_live {context : Context} {offset : UInt32} {alloc : Ptr} {freedStack freedPcb : Int}
    (ran : m.trap context offset alloc freedStack freedPcb = some m') :
    m'.live = remaining context.eax m.live m.kernel.pcbRunning := by
  obtain ⟨⟨k', outcome⟩, _, same⟩ := Option.bind_eq_some_iff.mp ran
  rw [← Option.some.inj same]
  exact settle_live ..

theorem trap_standing {context : Context} {offset : UInt32} {alloc : Ptr} {freedStack freedPcb : Int}
    (R : Running m.kernel m.live qs m.trapped r)
    (sane : (Action.trap context offset alloc freedStack freedPcb).Sane m)
    (h : m.step (.trap context offset alloc freedStack freedPcb) = some m') :
    ∃ k' outcome,
      Settles k' (remaining context.eax m.live r) (update m.trapped r (some (recorded m.kernel k' context))) r
        (savedAt m.kernel offset) outcome ∧
      m' = { m with
        live := remaining context.eax m.live r
        trapped := update m.trapped r (some (recorded m.kernel k' context)) }.settle
          (some (savedAt m.kernel offset)) (k', outcome) := by
  obtain ⟨k', outcome, ran, settles⟩ := sysCall_settles R context offset sane freedStack freedPcb
  refine ⟨k', outcome, settles, ?_⟩
  rw [trap_step (running_real R) ran, R.pcbRunning] at h
  exact (Option.some.inj h).symm

theorem kept_running {procs : Procs} {live' : List Ptr} {trapped' : Ptr → Option Trap}
    (R : Running k live qs trapped r) (kept : Kept k procs [r] live' trapped') :
    ∃ qs', Running { k with procs := procs } live' qs' trapped' r := by
  obtain ⟨⟨qs', S'⟩, state⟩ := kept
  refine ⟨qs', S', R.pcbRunning, ?_, R.original⟩
  show (procs.state r).exec = _ ∧ (procs.state r).dpatch = _
  rw [state r List.mem_cons_self]
  exact R.state

theorem store_running {contexts : UInt32 → Context} {buffers : Ptr → UInt8} (R : Running k live qs trapped r) :
    Running (store k contexts buffers) live qs trapped r := by
  obtain ⟨S, rfl, state, original⟩ := R
  refine ⟨?_, rfl, state, original⟩
  refine contexts_sound S List.mem_cons_self _ ?_ rfl rfl rfl
  intro c other
  exact if_neg other

theorem interrupt_standing {d : Fin 4} {i : Interrupt} (stands : Standing m)
    (h : serialInterrupt m.kernel d i = some k') : Standing { m with kernel := k' } := by
  cases stands with
  | running qs r mode R =>
    obtain ⟨S', only⟩ := interrupt_sound R.sound h
    refine .running qs r mode ⟨S', only.pcbRunning.trans R.pcbRunning, ?_, ?_⟩
    · show (k'.procs.state r).exec = _ ∧ (k'.procs.state r).dpatch = _
      rw [only.procs]
      exact R.state
    · show k'.contextOriginal ≠ none
      rw [only.contextOriginal]
      exact R.original
  | waiting qs mode rests original =>
    obtain ⟨S', only⟩ := interrupt_sound rests.sound h
    refine .waiting qs mode ⟨S', only.pcbRunning.trans rests.pcbRunning, rests.ready⟩ ?_
    show k'.contextOriginal ≠ none
    rw [only.contextOriginal]
    exact original
  | left qs mode rests =>
    obtain ⟨S', only⟩ := interrupt_sound rests.sound h
    exact .left qs mode ⟨S', only.pcbRunning.trans rests.pcbRunning, rests.ready⟩

/-- A step that a process takes, when one runs. -/
theorem running_step (R : Running m.kernel m.live qs m.trapped r) (mode : m.waiting = false) (sane : a.Sane m)
    (spares : a.Spares m) (h : m.step a = some m') : Standing m' := by
  have kept : ∀ {procs live' trapped'}, Kept m.kernel procs [r] live' trapped' →
      Standing { m.withProcs procs with live := live', trapped := trapped' } := by
    intro procs live' trapped' kept
    obtain ⟨qs', R'⟩ := kept_running R kept
    exact .running qs' r mode R'
  cases step_moves h with
  | trap _ _ =>
    obtain ⟨k', outcome, settles, rfl⟩ := trap_standing R sane h
    exact settles_standing settles
  | poll waits _ _ =>
    rw [mode] at waits
    cases waits
  | interrupt ran same =>
    subst same
    exact interrupt_standing (.running qs r mode R) ran
  | compute _ same =>
    subst same
    exact .running qs r mode (store_running R)
  | create _ ran same =>
    subst same
    exact kept (create_kept R.sound sane.1 sane.2 ran).1
  | delete _ ran same =>
    subst same
    exact kept (delete_kept R.sound spares ran)
  | suspend _ ran same =>
    subst same
    exact kept (suspend_kept R.sound ran)
  | resume _ ran same =>
    subst same
    exact kept (resume_kept R.sound ran)
  | setPriority _ ran same =>
    subst same
    exact kept (setPriority_kept R.sound sane ran)

/-- Without a process only the loop and the interrupts take steps. -/
theorem idle_step (idle : m.kernel.pcbRunning = 0) (h : m.step a = some m') :
    (m.waiting = true ∧ ∃ result, waitIo m.kernel = some result ∧ m' = m.settle none result) ∨
      ∃ d i k', serialInterrupt m.kernel d i = some k' ∧ m' = { m with kernel := k' } := by
  cases step_moves h with
  | poll waits ran same => exact .inl ⟨waits, _, ran, same⟩
  | interrupt ran same => exact .inr ⟨_, _, _, ran, same⟩
  | trap busy _ => exact (busy idle).elim
  | compute busy _ => exact (busy idle).elim
  | create busy _ _ => exact (busy idle).elim
  | delete busy _ _ => exact (busy idle).elim
  | suspend busy _ _ => exact (busy idle).elim
  | resume busy _ _ => exact (busy idle).elim
  | setPriority busy _ _ => exact (busy idle).elim

theorem standing_step (stands : Standing m) (sane : a.Sane m) (spares : a.Spares m) (h : m.step a = some m') :
    Standing m' := by
  cases stands with
  | running qs r mode R => exact running_step R mode sane spares h
  | waiting qs mode rests original =>
    rcases idle_step rests.pcbRunning h with ⟨_, result, ran, rfl⟩ | ⟨d, i, k', ran, rfl⟩
    · exact settles_standing (waitIo_settles ⟨0, 0⟩ rests.sound rests.pcbRunning rests.ready original ran)
    · exact interrupt_standing (.waiting qs mode rests original) ran
  | left qs mode rests =>
    rcases idle_step rests.pcbRunning h with ⟨waits, _⟩ | ⟨d, i, k', ran, rfl⟩
    · rw [mode] at waits
      cases waits
    · exact interrupt_standing (.left qs mode rests) ran

/-! ### Boot -/

variable {b : BootInput}

theorem unbooted_sound (U : Unbooted k) : Sound k [] [] (fun _ => []) fun _ => none := by
  have wants : ∀ d, wanting k d = [] := by
    intro d
    unfold wanting Kernel.history
    rw [(U.ports d).history]
    rfl
  refine ⟨⟨_, idle_ok U.ports⟩, ?_, ?_, ?_⟩
  · refine ⟨⟨?_, ?_, fun _ => List.nodup_nil, ?_⟩, ?_, List.nodup_nil, ?_, ?_, .nil, ?_, ?_, ?_⟩
    · intro i
      rw [U.queues]
      exact queue_nil_iff.mpr ⟨rfl, rfl⟩
    · intro i
      rw [U.queues]
    · intro _ _ inside
      cases inside
    · simp
    · intro _ inside
      cases inside
    · intro _ _ inside
      cases inside
    · intro _ inside
      cases inside
    · intro _ inside
      cases inside
    · intro _ _ inside
      cases inside
  · refine ⟨?_, ?_, ?_, ?_⟩
    · intro d p inside
      rw [wants] at inside
      cases inside
    · intro p asleep
      cases asleep with
      | inl inside => cases inside
      | inr inside => cases inside
    · intro d
      rw [wants]
      exact List.nodup_nil
    · intro d e p inside
      rw [wants] at inside
      cases inside
  · refine ⟨?_, ?_, ?_, ?_⟩
    · intro _ inside
      cases inside
    · intro d j p found
      rw [wants] at found
      cases found
    · intro _ inside
      cases inside
    · intro _ _ inside
      cases inside

/-- Before the first trap of a process no context matters. -/
theorem untrapped_sound (S : Sound k loose live qs fun _ => none) (contexts : CtxPtr → Context) :
    Sound { k with procs := { k.procs with contexts := contexts } } loose live qs fun _ => none := by
  obtain ⟨⟨pend, ok⟩, P, R, D⟩ := S
  refine ⟨⟨pend, devicesOk_congr ok rfl rfl⟩, ?_, requested_congr R (fun _ => rfl) fun _ => Iff.rfl, ?_⟩
  · exact P.congr rfl rfl rfl (fun _ _ => rfl) (fun _ _ => rfl) fun _ _ => rfl
  · refine ⟨D.accepted, D.pending, D.done, ?_⟩
    intro _ _ _ _ found
    cases found

theorem yieldPcb_first {c : CtxPtr} (idle : k.pcbRunning = 0) (first : k.contextOriginal = none)
    (busy : readyHead k ≠ 0) : yieldPcb k c = dispatch { k with contextOriginal := some c } := by
  unfold yieldPcb
  rw [if_pos first]
  refine (if_pos busy).trans ?_
  show (pcbRemove k.procs (readyHead k)).bind _ = (pcbRemove k.procs (readyHead k)).bind _
  exact congrArg _ (funext fun _ => if_neg (not_not.mpr idle))

/-- The first trap comes from the boot stack. -/
theorem first_settles {c : CtxPtr} (S : Sound k [] live qs fun _ => none) (idle : k.pcbRunning = 0)
    (first : k.contextOriginal = none) (code : (k.procs.contexts c).eax = opIdle) {result : Kernel × Outcome}
    (h : sysCall k c 0 0 0 = some result) :
    Settles result.1 live (fun _ => none) 0 c result.2 ∨
      result.2 = .returned none ∧ ∃ qs, Rests result.1 live (fun _ => none) qs := by
  obtain ⟨k₁, qs₁, ready, checked, S₁, checkup, _⟩ := sysCheckIo_sound S
  have S₂ : Sound { k₁ with procs := k₁.procs.setEax c 0 } [] live qs₁ fun _ => none := untrapped_sound S₁ _
  have S₃ : Sound { k₁ with procs := k₁.procs.setEax c 0, contextOriginal := some c } [] live qs₁ fun _ => none :=
    registers_sound S₂ rfl rfl rfl
  have served : sysCall k c 0 0 0 = yieldPcb { k₁ with procs := k₁.procs.setEax c 0 } c := by
    unfold sysCall
    rw [checked, code]
    rfl
  rw [served] at h
  have idle₁ : k₁.pcbRunning = 0 := checkup.pcbRunning.trans idle
  have first₁ : k₁.contextOriginal = none := checkup.contextOriginal.trans first
  by_cases quiet : qs₁ 0 = []
  · right
    have head : readyHead { k₁ with procs := k₁.procs.setEax c 0, contextOriginal := some c } = 0 :=
      (readyHead_null S₃).mpr quiet
    unfold yieldPcb at h
    rw [if_pos first₁] at h
    obtain rfl := Option.some.inj ((if_neg (not_not.mpr head)).symm.trans h)
    exact ⟨rfl, qs₁, S₃, idle₁, quiet⟩
  · left
    have busy : readyHead { k₁ with procs := k₁.procs.setEax c 0 } ≠ 0 :=
      fun null => quiet ((readyHead_null S₂).mp null)
    have h := (yieldPcb_first (k := { k₁ with procs := k₁.procs.setEax c 0 }) idle₁ first₁ busy).symm.trans h
    have away : (0 : Ptr) ∉ qs₁ 0 := fun null => S₂.placed.queued.nonnull null rfl
    obtain ⟨k', p, c', qs', ran, switches, _⟩ :=
      dispatch_switches S₃ quiet (fun none => nomatch none) away
    rw [ran] at h
    obtain rfl := Option.some.inj h
    exact .switches qs' p c' switches

theorem boot_settles (U : Unbooted k) (fresh : b.Fresh) (h : boot k b = some m) :
    ∃ m₀ result, m = Machine.settle m₀ (some ⟨0, b.offset⟩) result ∧ m₀.waiting = false ∧
      (Settles result.1 m₀.live m₀.trapped 0 ⟨0, b.offset⟩ result.2 ∨
        result.2 = .returned none ∧ ∃ qs, Rests result.1 m₀.live m₀.trapped qs) := by
  obtain ⟨procs₁, made, h⟩ := Option.bind_eq_some_iff.mp h
  obtain ⟨procs₂, made', h⟩ := Option.bind_eq_some_iff.mp h
  obtain ⟨result, ran, h⟩ := Option.bind_eq_some_iff.mp h
  obtain ⟨⟨⟨qs₁, S₁⟩, _⟩, stack⟩ :=
    create_kept (unbooted_sound U) List.not_mem_nil (fun _ inside => nomatch inside) made
  have absent : b.idlePcb ∉ [b.comhandPcb] := fun same => fresh.pcbs (List.mem_singleton.mp same).symm
  have apart : ∀ q ∈ [b.comhandPcb], (procs₁.pcbs q).pstackseg ≠ b.idleStack := by
    intro q inside
    obtain rfl := List.mem_singleton.mp inside
    rw [stack]
    exact fresh.segments
  obtain ⟨⟨⟨qs₂, S₂⟩, _⟩, _⟩ := create_kept (k := { k with procs := procs₁ }) S₁ absent apart made'
  rw [update_eq_self_iff.mpr rfl, update_eq_self_iff.mpr rfl] at S₂
  refine ⟨_, result, (Option.some.inj h).symm, rfl, ?_⟩
  refine first_settles (untrapped_sound S₂ _) U.running U.original ?_ ran
  show (update procs₂.contexts ⟨0, b.offset⟩ b.context ⟨0, b.offset⟩).eax = _
  rw [update_self]
  exact fresh.idle

theorem booted_standing (h : Booted m) : Standing m := by
  obtain ⟨k, b, U, fresh, booted⟩ := h
  obtain ⟨m₀, ⟨k', outcome⟩, rfl, mode, settles | ⟨ended, qs, rests⟩⟩ := boot_settles U fresh booted
  · exact settles_standing settles
  · obtain rfl : outcome = .returned none := ended
    exact .left qs rfl rests

def Lawful (m : Machine) (a : Action) : Prop := a.Sane m ∧ a.Spares m

instance (m : Machine) (a : Action) : Decidable (Lawful m a) := inferInstanceAs (Decidable (_ ∧ _))

/-- The machines of the runs in which no process is deleted while it is blocked. -/
def Reached : Machine → Prop := Reaches Booted Lawful Machine.step

theorem reached_standing (h : Reached m) : Standing m := by
  refine reaches_invariant (P := Standing) (fun _ booted => booted_standing booted) ?_ h
  intro _ _ _ stands ok moved
  exact standing_step stands ok.1 ok.2 moved

theorem standing_sound (stands : Standing m) :
    ∃ qs, Sound m.kernel (if m.kernel.pcbRunning = 0 then [] else [m.kernel.pcbRunning]) m.live qs m.trapped ∧
      (m.kernel.pcbRunning ≠ 0 → (m.kernel.procs.state m.kernel.pcbRunning).exec = .running ∧
        (m.kernel.procs.state m.kernel.pcbRunning).dpatch = .active) := by
  cases stands with
  | running qs r _ R =>
    have real := running_real R
    obtain ⟨S, rfl, state, _⟩ := R
    rw [if_neg real]
    exact ⟨qs, S, fun _ => state⟩
  | waiting qs _ rests _ =>
    rw [if_pos rests.pcbRunning]
    exact ⟨qs, rests.sound, fun busy => (busy rests.pcbRunning).elim⟩
  | left qs _ rests =>
    rw [if_pos rests.pcbRunning]
    exact ⟨qs, rests.sound, fun busy => (busy rests.pcbRunning).elim⟩

theorem standing_running (stands : Standing m) (busy : m.kernel.pcbRunning ≠ 0) :
    ∃ qs, Running m.kernel m.live qs m.trapped m.kernel.pcbRunning := by
  cases stands with
  | running qs r _ R =>
    obtain ⟨S, rfl, state, original⟩ := R
    exact ⟨qs, S, rfl, state, original⟩
  | waiting _ _ rests _ => exact (busy rests.pcbRunning).elim
  | left _ _ rests => exact (busy rests.pcbRunning).elim

/-- The kernel is in `sys_call` during the step. -/
def Action.Calls : Action → Prop
  | .trap _ _ _ _ _ | .poll => True
  | _ => False

/-- The process that runs changes only in `sys_call`. -/
theorem step_settles (stands : Standing m) (lawful : Lawful m a) (moved : m.step a = some m') :
    (a.Calls ∧ ∃ live trapped contextIn caller k' outcome,
      Settles k' live trapped m.kernel.pcbRunning contextIn outcome ∧
      m' = { m with live := live, trapped := trapped }.settle caller (k', outcome) ∧
      (caller = some contextIn ∨ m.kernel.pcbRunning = 0)) ∨
    ¬a.Calls ∧ m'.kernel.pcbRunning = m.kernel.pcbRunning := by
  cases step_moves moved with
  | trap busy _ =>
    obtain ⟨qs, R⟩ := standing_running stands busy
    obtain ⟨k', outcome, settles, same⟩ := trap_standing R lawful.1 moved
    exact .inl ⟨trivial, _, _, _, _, k', outcome, settles, same, .inl rfl⟩
  | poll waits ran same =>
    cases stands with
    | running _ _ mode _ => rw [mode] at waits; cases waits
    | left _ mode _ => rw [mode] at waits; cases waits
    | waiting qs _ rests original =>
      have settles := waitIo_settles ⟨0, 0⟩ rests.sound rests.pcbRunning rests.ready original ran
      rw [rests.pcbRunning]
      exact .inl ⟨trivial, m.live, m.trapped, _, none, _, _, settles, same, .inr rfl⟩
  | interrupt ran same =>
    subst same
    obtain ⟨qs, S, _⟩ := standing_sound stands
    exact .inr ⟨not_false, (interrupt_sound S ran).2.pcbRunning⟩
  | compute _ same => exact .inr ⟨not_false, congrArg (·.kernel.pcbRunning) same⟩
  | create _ _ same => exact .inr ⟨not_false, congrArg (·.kernel.pcbRunning) same⟩
  | delete _ _ same => exact .inr ⟨not_false, congrArg (·.kernel.pcbRunning) same⟩
  | suspend _ _ same => exact .inr ⟨not_false, congrArg (·.kernel.pcbRunning) same⟩
  | resume _ _ same => exact .inr ⟨not_false, congrArg (·.kernel.pcbRunning) same⟩
  | setPriority _ _ same => exact .inr ⟨not_false, congrArg (·.kernel.pcbRunning) same⟩

/-! ### Runs on fixed inputs -/

theorem bootKernel_unbooted (isOpen : Fin 4 → Bool) : Unbooted (bootKernel isOpen) :=
  ⟨fun _ => bootPort_idle _, fun _ => rfl, rfl, rfl⟩

/-- The registers that `sys_req` sets. -/
def request (eax ebx ecx edx : UInt32) : Context :=
  { (default : Context) with eax := eax, ebx := ebx, ecx := ecx, edx := edx }

/-- A boot with one open port. -/
def oneportKernel : Kernel := bootKernel fun d => decide (d = 0)

def oneportBoot : BootInput :=
  { comhandPcb := 100, comhandStack := 200, comhand := 1, idlePcb := 300, idleStack := 400, sysIdleProcess := 2,
    context := request opIdle 0 0 0, offset := 7 }

theorem oneportBoot_fresh : oneportBoot.Fresh := ⟨by decide, by decide, rfl⟩

def oneport (ok : Machine → Action → Prop) [∀ m a, Decidable (ok m a)] (actions : List Action) :
    Option Machine :=
  (boot oneportKernel oneportBoot).bind fun m => run ok Machine.step m actions

theorem oneport_reaches {ok : Machine → Action → Prop} [∀ m a, Decidable (ok m a)] {actions : List Action}
    (ran : oneport ok actions = some m) : Reaches Booted ok Machine.step m := by
  obtain ⟨m₀, booted, ran⟩ := Option.bind_eq_some_iff.mp ran
  have start : Booted m₀ := ⟨oneportKernel, oneportBoot, bootKernel_unbooted _, oneportBoot_fresh, booted⟩
  exact run_reaches (.start start) ran

end Mpx.System

import Mpx.System.Names
import Mpx.System.Priority

/-! # What scheduling leaves alone

Between its creation and its end a process keeps its name, its stack, its class, its dispatch state and
its priority, but for the commands that are there to change one of them. -/

namespace Mpx.System
open Function Library.Links Library.Transition Mpx.Process Mpx.Device

/-- A PCB but for its link, its execution state and its saved context. -/
def fixed (pcb : Pcb) : Pcb :=
  { pcb with pNext := 0, pctxt := none, state := { pcb.state with exec := .ready } }

def Steady (s s' : Procs) : Prop := ∀ q, fixed (s'.pcbs q) = fixed (s.pcbs q)

/-- The step gives the PCB of `p` another content, or changes the dispatch state or the priority of `p`. -/
def Action.Touches (m : Machine) (p : Ptr) : Action → Prop
  | .trap context _ _ _ _ => context.eax = opExit ∧ m.kernel.pcbRunning = p
  | .create _ _ _ _ pcb _ => pcb = p
  | .delete name _ _ => deleted m.kernel.procs name = some p
  | .suspend name => pcbFind m.kernel.procs name = some p ∧ (m.kernel.procs.state p).cls ≠ .system
  | .resume name => pcbFind m.kernel.procs name = some p
  | .setPriority pcb _ => pcb = p
  | .poll | .interrupt _ _ | .compute _ _ => False

variable {s s' t : Procs} {k k' : Kernel} {m m' : Machine} {p q : Ptr} {a : Action} {name : List UInt8}
  {alloc : Ptr} {contextIn : CtxPtr} {outcome : Outcome} {freedStack freedPcb : Int}

theorem fixed_cls {pcb pcb' : Pcb} (same : fixed pcb' = fixed pcb) : pcb'.state.cls = pcb.state.cls := by
  have state : (fixed pcb').state.cls = (fixed pcb).state.cls := by rw [same]
  exact state

theorem fixed_dpatch {pcb pcb' : Pcb} (same : fixed pcb' = fixed pcb) : pcb'.state.dpatch = pcb.state.dpatch := by
  have state : (fixed pcb').state.dpatch = (fixed pcb).state.dpatch := by rw [same]
  exact state

theorem fixed_pstackseg {pcb pcb' : Pcb} (same : fixed pcb' = fixed pcb) : pcb'.pstackseg = pcb.pstackseg := by
  have stack : (fixed pcb').pstackseg = (fixed pcb).pstackseg := by rw [same]
  exact stack

theorem fixed_name {pcb pcb' : Pcb} (same : fixed pcb' = fixed pcb) : pcb'.name = pcb.name := by
  have name : (fixed pcb').name = (fixed pcb).name := by rw [same]
  exact name

theorem steady_refl (s : Procs) : Steady s s := fun _ => rfl

theorem steady_trans (first : Steady s s') (second : Steady s' t) : Steady s t :=
  fun q => (second q).trans (first q)

/-! ### The queues -/

theorem relinked_steady (relinked : Relinked s s') : Steady s s' := by
  intro q
  rw [← relinked.pcbs q]
  rfl

theorem setPcb_steady {pcb : Pcb} (same : fixed pcb = fixed (s.pcbs p)) : Steady s (s.setPcb p pcb) := by
  intro q
  rw [setPcb_pcb]
  split
  · rename_i here
    rw [here]
    exact same
  · rfl

theorem setExec_steady (s : Procs) (p : Ptr) (exec : ProcExecState) : Steady s (s.setExec p exec) :=
  setPcb_steady rfl

theorem setPctxt_steady (s : Procs) (p : Ptr) (ctxt : Option CtxPtr) : Steady s (s.setPctxt p ctxt) :=
  setPcb_steady rfl

theorem pcbInsert_steady (h : pcbInsert s p = some s') : Steady s s' := relinked_steady (pcbInsert_relinked h).1

theorem pcbRemove_steady {result : Int} (h : pcbRemove s p = some (s', result)) : Steady s s' :=
  relinked_steady (pcbRemove_relinked h).1

/-! ### The devices -/

theorem advance_procs {d : Fin 4} (h : advance k d = some k') : k'.procs = k.procs := by
  by_cases last : (k.iocbs (k.dcb d).iocbQueueHead).pNext = 0
  · obtain rfl := Option.some.inj ((advance_last last).symm.trans h)
    rfl
  · obtain ⟨k₁, taken, starts⟩ := advance_next (k := k) (d := d) rfl last
    obtain ⟨k₂, started, ways⟩ := startIo_starts k₁ d (k.iocbs (k.iocbs (k.dcb d).iocbQueueHead).pNext).request
    obtain rfl := Option.some.inj ((starts.symm.trans h).symm.trans started)
    rw [ways.only.procs]
    rcases taken with rfl | rfl <;> rfl

theorem wake_steady {count : UInt32} (h : wake s p count = some s') : Steady s s' := by
  obtain ⟨⟨s₁, result⟩, removed, h⟩ := Option.bind_eq_some_iff.mp h
  obtain ⟨ctxt, _, inserted⟩ := Option.bind_eq_some_iff.mp h
  have ready : Steady s ((s₁.setExec p .ready).setEax ctxt count) :=
    steady_trans (pcbRemove_steady removed) (setExec_steady s₁ p .ready)
  exact steady_trans ready (pcbInsert_steady inserted)

theorem serialCheckIo_steady {dev : UInt32} {result : Int} (h : serialCheckIo k dev = some (k', result)) :
    Steady k.procs k'.procs := by
  rcases checkIo_ways h with ⟨rfl, -⟩ | ⟨d, procs, -, -, -, woken, advanced, -⟩
  · exact steady_refl _
  · rw [advance_procs advanced]
    exact wake_steady woken

theorem checkDevices_steady {devs : List UInt32} {before ready : Bool}
    (h : checkDevices devs k before = some (k', ready)) : Steady k.procs k'.procs := by
  induction devs generalizing k before with
  | nil =>
    cases h
    exact steady_refl _
  | cons dev devs ih =>
    obtain ⟨⟨k₁, result⟩, checked, rest⟩ := Option.bind_eq_some_iff.mp h
    exact steady_trans (serialCheckIo_steady checked) (ih rest)

/-! ### System requests -/

theorem dispatch_steady (h : dispatch k = some (k', outcome)) : Steady k.procs k'.procs := by
  obtain ⟨⟨procs, result⟩, removed, ran⟩ := Option.bind_eq_some_iff.mp h
  obtain rfl := congrArg Prod.fst (Option.some.inj ran)
  exact steady_trans (pcbRemove_steady removed) (setExec_steady procs _ .running)

theorem requestIo_steady {op : IoOp} (h : requestIo k contextIn op alloc = some (k', outcome)) :
    Steady k.procs k'.procs := by
  unfold requestIo at h
  by_cases busy : k.pcbRunning ≠ 0
  · rw [if_pos busy] at h
    obtain ⟨⟨k₁, error⟩, scheduled, h⟩ := Option.bind_eq_some_iff.mp h
    have same := schedule_procs scheduled
    dsimp only at h
    split at h
    · obtain rfl := congrArg Prod.fst (Option.some.inj h)
      rw [same]
      exact steady_refl _
    · obtain ⟨procs, inserted, h⟩ := Option.bind_eq_some_iff.mp h
      rw [same] at inserted
      have parked := steady_trans (setExec_steady k.procs k₁.pcbRunning .blocked)
        (setPctxt_steady _ k₁.pcbRunning (some contextIn))
      have blocked := steady_trans parked (pcbInsert_steady inserted)
      split at h
      · exact steady_trans blocked (dispatch_steady h)
      · obtain rfl := congrArg Prod.fst (Option.some.inj h)
        exact blocked
  · rw [if_neg busy] at h
    obtain rfl := congrArg Prod.fst (Option.some.inj h)
    exact steady_refl _

theorem yieldPcb_steady (h : yieldPcb k contextIn = some (k', outcome)) : Steady k.procs k'.procs := by
  unfold yieldPcb at h
  dsimp only at h
  generalize original :
    (if k.contextOriginal = none then { k with contextOriginal := some contextIn } else k) = k₁ at h
  have same : k₁.procs = k.procs := by
    rw [← original]
    split <;> rfl
  rw [← same]
  split at h
  · obtain ⟨⟨procs, result⟩, removed, h⟩ := Option.bind_eq_some_iff.mp h
    have taken := pcbRemove_steady removed
    dsimp only at h
    split at h
    · obtain ⟨procs', inserted, h⟩ := Option.bind_eq_some_iff.mp h
      obtain rfl := congrArg Prod.fst (Option.some.inj h)
      have parked : Steady procs ((procs.setPctxt k₁.pcbRunning (some contextIn)).setExec k₁.pcbRunning .ready) :=
        steady_trans (setPctxt_steady _ _ _) (setExec_steady _ _ _)
      have stopped := steady_trans parked (pcbInsert_steady inserted)
      exact steady_trans taken (steady_trans stopped (setExec_steady procs' _ .running))
    · obtain rfl := congrArg Prod.fst (Option.some.inj h)
      exact steady_trans taken (setExec_steady procs _ .running)
  · obtain rfl := congrArg Prod.fst (Option.some.inj h)
    exact steady_refl _

theorem pcbFree_fixed {result : Int} (h : pcbFree s p freedStack freedPcb = some (s', result)) (other : q ≠ p) :
    fixed (s'.pcbs q) = fixed (s.pcbs q) := by
  have cleared : fixed ((s.setPcb p clearedPcb).pcbs q) = fixed (s.pcbs q) := by rw [setPcb_pcb, if_neg other]
  unfold pcbFree at h
  split at h
  · cases h
  split at h
  · split at h
    · cases h
      exact cleared
    · cases h
      exact cleared
  · cases h
    rfl

theorem exitPcb_fixed (h : exitPcb k freedStack freedPcb = some (k', outcome)) (other : q ≠ k.pcbRunning) :
    fixed (k'.procs.pcbs q) = fixed (k.procs.pcbs q) := by
  obtain ⟨⟨procs, result⟩, freed, h⟩ := Option.bind_eq_some_iff.mp h
  rw [← pcbFree_fixed freed other]
  dsimp only at h
  split at h
  · exact dispatch_steady h q
  · split at h
    · obtain rfl := congrArg Prod.fst (Option.some.inj h)
      rfl
    · obtain rfl := congrArg Prod.fst (Option.some.inj h)
      rfl

theorem waitIo_steady (h : waitIo k = some (k', outcome)) : Steady k.procs k'.procs := by
  obtain ⟨⟨k₁, ready⟩, checked, h⟩ := Option.bind_eq_some_iff.mp h
  have steady := checkDevices_steady checked
  dsimp only at h
  split at h
  · exact steady_trans steady (dispatch_steady h)
  · obtain rfl := congrArg Prod.fst (Option.some.inj h)
    exact steady

/-- A system request rewrites no PCB but that of the process that it ends. -/
theorem sysCall_fixed (h : sysCall k contextIn alloc freedStack freedPcb = some (k', outcome))
    (other : (k.procs.contexts contextIn).eax = opExit → q ≠ k.pcbRunning) :
    fixed (k'.procs.pcbs q) = fixed (k.procs.pcbs q) := by
  obtain ⟨⟨k₁, ready⟩, checked, h⟩ := Option.bind_eq_some_iff.mp h
  have running := (checkDevices_named checked).running
  rw [← checkDevices_steady checked q]
  dsimp only at h
  split at h
  · exact requestIo_steady h q
  split at h
  · exact requestIo_steady h q
  split at h
  · exact yieldPcb_steady h q
  split at h
  · rename_i exits
    apply exitPcb_fixed h
    show q ≠ k₁.pcbRunning
    rw [running]
    exact other exits
  · obtain rfl := congrArg Prod.fst (Option.some.inj h)
    rfl

/-! ### Commands -/

theorem refile_fixed (change : Procs → PcbState) (h : (do
      let (s, _) ← pcbRemove s p
      pcbInsert (s.setState p (change s)) p) = some s') (other : q ≠ p) :
    fixed (s'.pcbs q) = fixed (s.pcbs q) := by
  obtain ⟨⟨s₁, result⟩, removed, inserted⟩ := Option.bind_eq_some_iff.mp h
  have changed : (s₁.setState p (change s₁)).pcbs q = s₁.pcbs q := (setPcb_pcb ..).trans (if_neg other)
  rw [pcbInsert_steady inserted q, changed]
  exact pcbRemove_steady removed q

/-- The process that is refiled gets its new state. -/
theorem refile_state (change : PcbState → PcbState) (h : (do
      let (s, _) ← pcbRemove s p
      pcbInsert (s.setState p (change (s.state p))) p) = some s') : s'.state p = change (s.state p) := by
  obtain ⟨⟨s₁, result⟩, removed, inserted⟩ := Option.bind_eq_some_iff.mp h
  rw [(pcbInsert_relinked inserted).1.state, setState_state, if_pos rfl, (pcbRemove_relinked removed).1.state]

theorem refile_pstackseg (change : Procs → PcbState) (h : (do
      let (s, _) ← pcbRemove s p
      pcbInsert (s.setState p (change s)) p) = some s') : (s'.pcbs q).pstackseg = (s.pcbs q).pstackseg := by
  obtain ⟨⟨s₁, result⟩, removed, inserted⟩ := Option.bind_eq_some_iff.mp h
  have changed : ((s₁.setState p (change s₁)).pcbs q).pstackseg = (s₁.pcbs q).pstackseg := by
    unfold Procs.setState
    rw [setPcb_pcb]
    split
    · rename_i here
      rw [here]
    · rfl
  rw [fixed_pstackseg (pcbInsert_steady inserted q), changed]
  exact fixed_pstackseg (pcbRemove_steady removed q)

theorem suspend_fixed (h : suspendPcbCommand s name = some s')
    (other : pcbFind s name = some q → (s.state q).cls = .system) : fixed (s'.pcbs q) = fixed (s.pcbs q) := by
  obtain ⟨found, searched, h⟩ := Option.bind_eq_some_iff.mp h
  split at h
  · cases h
    rfl
  split at h
  · cases h
    rfl
  rename_i user
  apply refile_fixed (fun s => { s.state found with dpatch := .suspended }) h
  intro same
  subst same
  exact user (other searched)

theorem suspend_pstackseg (h : suspendPcbCommand s name = some s') :
    (s'.pcbs q).pstackseg = (s.pcbs q).pstackseg := by
  obtain ⟨found, searched, h⟩ := Option.bind_eq_some_iff.mp h
  split at h
  · cases h
    rfl
  split at h
  · cases h
    rfl
  exact refile_pstackseg (fun s => { s.state found with dpatch := .suspended }) h

theorem resume_fixed (h : resumePcbCommand s name = some s') (other : pcbFind s name ≠ some q) :
    fixed (s'.pcbs q) = fixed (s.pcbs q) := by
  obtain ⟨found, searched, h⟩ := Option.bind_eq_some_iff.mp h
  split at h
  · cases h
    rfl
  apply refile_fixed (fun s => { s.state found with dpatch := .active }) h
  intro same
  exact other (same ▸ searched)

theorem resume_pstackseg (h : resumePcbCommand s name = some s') :
    (s'.pcbs q).pstackseg = (s.pcbs q).pstackseg := by
  obtain ⟨found, searched, h⟩ := Option.bind_eq_some_iff.mp h
  split at h
  · cases h
    rfl
  exact refile_pstackseg (fun s => { s.state found with dpatch := .active }) h

theorem setPriority_fixed {pri : Nat} (h : setPcbPriority s p pri = some s') (other : q ≠ p) :
    fixed (s'.pcbs q) = fixed (s.pcbs q) := by
  unfold setPcbPriority at h
  split at h
  · exact refile_fixed (fun s => { s.state p with pri := pri }) h other
  · cases h
    rfl

theorem setPriority_pstackseg {pri : Nat} (h : setPcbPriority s p pri = some s') :
    (s'.pcbs q).pstackseg = (s.pcbs q).pstackseg := by
  unfold setPcbPriority at h
  split at h
  · exact refile_pstackseg (fun s => { s.state p with pri := pri }) h
  · cases h
    rfl

theorem delete_fixed (h : deletePcbCommand s name freedStack freedPcb = some s') (other : deleted s name ≠ some q) :
    fixed (s'.pcbs q) = fixed (s.pcbs q) := by
  obtain ⟨found, searched, h⟩ := Option.bind_eq_some_iff.mp h
  rw [deleted_eq searched] at other
  by_cases missed : found = 0
  · rw [if_pos missed] at h
    cases h
    rfl
  rw [if_neg missed] at h
  by_cases system : (s.state found).cls = .system
  · rw [if_pos system] at h
    cases h
    rfl
  rw [if_neg system] at h
  rw [if_pos ⟨missed, system⟩] at other
  obtain ⟨⟨s₁, _⟩, removed, h⟩ := Option.bind_eq_some_iff.mp h
  obtain ⟨⟨s₂, _⟩, freed, h⟩ := Option.bind_eq_some_iff.mp h
  obtain rfl := Option.some.inj h
  rw [pcbFree_fixed freed fun same => other (congrArg some same.symm)]
  exact pcbRemove_steady removed q

theorem pcbContextInit_steady {func fargs fargc : UInt32} (h : pcbContextInit s p func fargs fargc = some s') :
    Steady s s' := by
  unfold pcbContextInit at h
  split at h
  · cases h
    exact steady_refl _
  split at h
  · cases h
  obtain ⟨c, _, h⟩ := Option.bind_eq_some_iff.mp h
  obtain rfl := Option.some.inj h
  exact setPctxt_steady s p _

/-- A new process is active, and the PCBs of the others stay. -/
theorem createPcb_fixed {cls : ProcClassState} {pri : Nat} {entry : Option Entry} {pcb stack : Ptr}
    (h : createPcb s name cls pri entry pcb stack = some s') :
    (pcb ≠ 0 ∧ stack ≠ 0) ∧ fixed (s'.pcbs pcb) = fixed ⟨0, ⟨.ready, .active, cls, pri⟩, stack, none, name⟩ ∧
      ∀ q, q ≠ pcb → fixed (s'.pcbs q) = fixed (s.pcbs q) := by
  unfold createPcb at h
  obtain ⟨⟨s₁, new⟩, setup, h⟩ := Option.bind_eq_some_iff.mp h
  obtain ⟨s₂, init, inserted⟩ : ∃ s₂,
      (entry.elim (some s₁) fun e => pcbContextInit s₁ new e.func e.fargs e.fargc) = some s₂ ∧
        pcbInsert s₂ new = some s' := by
    cases entry with
    | none => exact ⟨s₁, rfl, h⟩
    | some e => exact Option.bind_eq_some_iff.mp h
  have real : new ≠ 0 := by
    intro null
    rw [null] at inserted
    unfold pcbInsert at inserted
    rw [if_pos rfl] at inserted
    cases inserted
  have same : Steady s₁ s' := by
    refine steady_trans ?_ (pcbInsert_steady inserted)
    cases entry with
    | none =>
      cases init
      exact steady_refl _
    | some e => exact pcbContextInit_steady init
  obtain ⟨rfl, pcbReal, spawned⟩ := (pcbSetup_spawned setup).resolve_left real
  have content : stack ≠ 0 ∧ fixed (s₁.pcbs new) = fixed ⟨0, ⟨.ready, .active, cls, pri⟩, stack, none, name⟩ := by
    unfold pcbSetup at setup
    split at setup
    swap
    · cases setup
      exact (real rfl).elim
    obtain ⟨found, searched, setup⟩ := Option.bind_eq_some_iff.mp setup
    split at setup
    swap
    · cases setup
      exact (real rfl).elim
    split at setup
    swap
    · cases setup
      exact (real rfl).elim
    have allocated := pcbAllocate_cases s new stack
    dsimp only at setup
    split at setup
    swap
    · cases setup
      exact (real rfl).elim
    rename_i taken
    obtain ⟨same, at_new⟩ := Prod.mk.inj (Option.some.inj setup)
    have grounded : stack ≠ 0 := by
      intro null
      apply taken
      rw [null]
      unfold pcbAllocate
      split <;> rfl
    refine ⟨grounded, ?_⟩
    rw [← same, at_new, setPcb_pcb, if_pos rfl]
    obtain ⟨rest, refused⟩ | ⟨granted, _⟩ := allocated
    · rw [refused] at taken
      exact (taken rfl).elim
    · rw [granted, setPcb_pcb, if_pos rfl]
      rfl
  refine ⟨⟨pcbReal, content.1⟩, (same new).trans content.2, ?_⟩
  intro q other
  rw [same q, spawned.others q other]

/-! ### Steps -/

/-- A step leaves the PCBs alone that it is not there to change. -/
theorem step_fixed (stands : Standing m) (moved : m.step a = some m') (spared : ¬a.Touches m q) :
    fixed (m'.kernel.procs.pcbs q) = fixed (m.kernel.procs.pcbs q) := by
  cases step_moves moved with
  | @trap context offset alloc freedStack freedPcb _ ran =>
    obtain ⟨⟨k', outcome⟩, called, same⟩ := Option.bind_eq_some_iff.mp ran
    have code : ((saveContext m.kernel context offset).procs.contexts (savedAt m.kernel offset)).eax = context.eax :=
      congrArg Context.eax (update_self ..)
    have kept := sysCall_fixed (q := q) called fun exits running =>
      spared ⟨code.symm.trans exits, running.symm⟩
    rw [← Option.some.inj same, settle_kernel]
    exact kept
  | poll _ ran same =>
    subst same
    rw [settle_kernel]
    exact waitIo_steady ran q
  | interrupt ran same =>
    subst same
    obtain ⟨qs, S, _⟩ := standing_sound stands
    rw [(interrupt_sound S ran).2.procs]
  | compute _ same =>
    subst same
    rfl
  | @create _ _ _ _ pcb _ procs _ ran same =>
    have other : q ≠ pcb := fun equal => spared equal.symm
    subst same
    show fixed (procs.pcbs q) = fixed (m.kernel.procs.pcbs q)
    exact (createPcb_fixed ran).2.2 q other
  | delete _ ran same =>
    subst same
    exact delete_fixed ran spared
  | suspend _ ran same =>
    subst same
    apply suspend_fixed ran
    intro found
    by_contra user
    exact spared ⟨found, user⟩
  | resume _ ran same =>
    subst same
    exact resume_fixed ran spared
  | setPriority _ ran same =>
    subst same
    exact setPriority_fixed ran fun equal => spared equal.symm

/-- The two processes of `kmain`. -/
theorem boot_fixed {k : Kernel} {b : BootInput} (idle : b.context.eax = opIdle) (apart : b.comhandPcb ≠ b.idlePcb)
    (booted : boot k b = some m) : m.live = [b.idlePcb, b.comhandPcb] ∧
      fixed (m.kernel.procs.pcbs b.comhandPcb) =
        fixed ⟨0, ⟨.ready, .active, .system, 0⟩, b.comhandStack, none, comhandName⟩ ∧
      fixed (m.kernel.procs.pcbs b.idlePcb) =
        fixed ⟨0, ⟨.ready, .active, .system, 9⟩, b.idleStack, none, idleName⟩ := by
  obtain ⟨procs₁, made, booted⟩ := Option.bind_eq_some_iff.mp booted
  obtain ⟨procs₂, made', booted⟩ := Option.bind_eq_some_iff.mp booted
  obtain ⟨⟨k', outcome⟩, called, same⟩ := Option.bind_eq_some_iff.mp booted
  obtain ⟨_, content, _⟩ := createPcb_fixed made
  obtain ⟨_, content', others⟩ := createPcb_fixed made'
  have steady : ∀ q, fixed (k'.procs.pcbs q) = fixed (procs₂.pcbs q) := by
    intro q
    refine sysCall_fixed called fun exits => ?_
    have code : (procs₂.setContext ⟨0, b.offset⟩ b.context).contexts ⟨0, b.offset⟩ = b.context := update_self ..
    change ((procs₂.setContext ⟨0, b.offset⟩ b.context).contexts ⟨0, b.offset⟩).eax = opExit at exits
    rw [code, idle] at exits
    exact absurd exits (by decide)
  rw [← Option.some.inj same, settle_kernel, settle_live]
  exact ⟨rfl, (steady b.comhandPcb).trans ((others b.comhandPcb apart).trans content), (steady b.idlePcb).trans content'⟩

end Mpx.System

import Mpx.System.Reachable

/-! # Names

A process has the name that it was created with. `pcb_setup` looks for that name in the queues. -/

namespace Mpx.System
open Function Library.Links Library.Transition Mpx.Process Mpx.Device

def SameNames (s s' : Procs) : Prop := ∀ q, (s'.pcbs q).name = (s.pcbs q).name

/-- The process runs, or it is in one of the queues. -/
def Present (k : Kernel) (qs : Fin 4 → List Ptr) (p : Ptr) : Prop := p ≠ 0 ∧ p = k.pcbRunning ∨ ∃ i, p ∈ qs i

/-- No two processes have the same name, and `pcb_find` finds the one in the queues that has it. -/
structure UniqueNames (k : Kernel) (qs : Fin 4 → List Ptr) : Prop where
  queues : ∀ i, queueList k.procs i = some (qs i)
  distinct : ∀ p q, Present k qs p → Present k qs q → (k.procs.pcbs p).name = (k.procs.pcbs q).name → p = q
  find : ∀ name, ∃ found, pcbFind k.procs name = some found ∧
    (found = 0 ∧ (∀ i, ∀ p ∈ qs i, (k.procs.pcbs p).name ≠ name) ∨
      (∃ i, found ∈ qs i) ∧ (k.procs.pcbs found).name = name ∧
        ∀ i, ∀ p ∈ qs i, (k.procs.pcbs p).name = name → p = found)

/-- A process does not give its own name to the one that it creates. -/
def Action.Distinguishes (m : Machine) : Action → Prop
  | .create name _ _ _ _ _ => name ≠ (m.kernel.procs.pcbs m.kernel.pcbRunning).name
  | _ => True

instance (m : Machine) : (a : Action) → Decidable (a.Distinguishes m)
  | .create name _ _ _ _ _ => inferInstanceAs (Decidable (name ≠ (m.kernel.procs.pcbs m.kernel.pcbRunning).name))
  | .trap .. | .poll | .interrupt .. | .compute .. | .delete .. | .suspend _ | .resume _ | .setPriority .. =>
    .isTrue trivial

/-- The invariant: the live processes have different names. -/
def Named (s : Procs) (live : List Ptr) : Prop :=
  ∀ p ∈ live, ∀ q ∈ live, (s.pcbs p).name = (s.pcbs q).name → p = q

variable {s s' t : Procs} {k k' : Kernel} {m m' : Machine} {p q : Ptr} {d : Fin 4} {a : Action}
  {qs : Fin 4 → List Ptr} {name : List UInt8} {alloc : Ptr} {contextIn : CtxPtr} {outcome : Outcome}

theorem sameNames_refl (s : Procs) : SameNames s s := fun _ => rfl

theorem sameNames_trans (first : SameNames s s') (second : SameNames s' t) : SameNames s t :=
  fun q => (second q).trans (first q)

/-! ### The queues -/

theorem relinked_names (relinked : Relinked s s') : SameNames s s' := by
  intro q
  rw [← relinked.pcbs q]

theorem setPcb_names {pcb : Pcb} (same : pcb.name = (s.pcbs p).name) : SameNames s (s.setPcb p pcb) := by
  intro q
  rw [setPcb_pcb]
  split
  · rename_i here
    rw [here]
    exact same
  · rfl

theorem setExec_names (s : Procs) (p : Ptr) (exec : ProcExecState) : SameNames s (s.setExec p exec) :=
  setPcb_names rfl

theorem setState_names (s : Procs) (p : Ptr) (state : PcbState) : SameNames s (s.setState p state) :=
  setPcb_names rfl

theorem setPctxt_names (s : Procs) (p : Ptr) (ctxt : Option CtxPtr) : SameNames s (s.setPctxt p ctxt) :=
  setPcb_names rfl

theorem pcbInsert_names (h : pcbInsert s p = some s') : SameNames s s' := relinked_names (pcbInsert_relinked h).1

theorem pcbRemove_names {result : Int} (h : pcbRemove s p = some (s', result)) : SameNames s s' :=
  relinked_names (pcbRemove_relinked h).1

theorem refile_names (change : Procs → PcbState)
    (h : (do
      let (s, _) ← pcbRemove s p
      pcbInsert (s.setState p (change s)) p) = some s') : SameNames s s' := by
  obtain ⟨⟨s₁, result⟩, removed, inserted⟩ := Option.bind_eq_some_iff.mp h
  exact sameNames_trans (sameNames_trans (pcbRemove_names removed) (setState_names _ _ _)) (pcbInsert_names inserted)

/-! ### The devices -/

/-- The names stay, and so does the process that runs. -/
structure SameNamed (k k' : Kernel) : Prop where
  names : SameNames k.procs k'.procs
  running : k'.pcbRunning = k.pcbRunning

theorem sameNamed_refl (k : Kernel) : SameNamed k k := ⟨sameNames_refl _, rfl⟩

theorem sameNamed_trans {k₁ : Kernel} (first : SameNamed k k₁) (second : SameNamed k₁ k') : SameNamed k k' :=
  ⟨sameNames_trans first.names second.names, second.running.trans first.running⟩

theorem sameNamed_only (only : OnlyPort k k' d) : SameNamed k k' := by
  refine ⟨?_, only.pcbRunning⟩
  rw [only.procs]
  exact sameNames_refl _

theorem advance_named (h : advance k d = some k') : SameNamed k k' := by
  have off : SameNamed k (dequeue k d) := ⟨sameNames_refl _, rfl⟩
  by_cases last : (k.iocbs (k.dcb d).iocbQueueHead).pNext = 0
  · obtain rfl := Option.some.inj ((advance_last last).symm.trans h)
    exact off
  · obtain ⟨k₁, taken, starts⟩ := advance_next (k := k) (d := d) rfl last
    have quieted : SameNamed k k₁ := by
      rcases taken with rfl | rfl
      · exact off
      · exact sameNamed_trans off ⟨sameNames_refl _, rfl⟩
    obtain ⟨k₂, started, ways⟩ := startIo_starts k₁ d (k.iocbs (k.iocbs (k.dcb d).iocbQueueHead).pNext).request
    obtain rfl := Option.some.inj ((starts.symm.trans h).symm.trans started)
    exact sameNamed_trans quieted (sameNamed_only ways.only)

theorem wake_names {count : UInt32} (h : wake s p count = some s') : SameNames s s' := by
  obtain ⟨⟨s₁, result⟩, removed, h⟩ := Option.bind_eq_some_iff.mp h
  obtain ⟨ctxt, _, inserted⟩ := Option.bind_eq_some_iff.mp h
  have ready : SameNames s ((s₁.setExec p .ready).setEax ctxt count) :=
    sameNames_trans (pcbRemove_names removed) (setExec_names s₁ p .ready)
  exact sameNames_trans ready (pcbInsert_names inserted)

theorem serialCheckIo_named {dev : UInt32} {result : Int} (h : serialCheckIo k dev = some (k', result)) :
    SameNamed k k' := by
  rcases checkIo_ways h with ⟨rfl, -⟩ | ⟨d, procs, -, -, -, woken, advanced, -⟩
  · exact sameNamed_refl _
  · have woken : SameNamed k { k with procs := procs } := ⟨wake_names woken, rfl⟩
    exact sameNamed_trans woken (advance_named advanced)

theorem checkDevices_named {devs : List UInt32} {before ready : Bool}
    (h : checkDevices devs k before = some (k', ready)) : SameNamed k k' := by
  induction devs generalizing k before with
  | nil =>
    cases h
    exact sameNamed_refl _
  | cons dev devs ih =>
    obtain ⟨⟨k₁, result⟩, checked, rest⟩ := Option.bind_eq_some_iff.mp h
    exact sameNamed_trans (serialCheckIo_named checked) (ih rest)

theorem schedule_procs {dev buffer bufferSz : UInt32} {ioOp : IoOp} {result : Option SerialError}
    (h : serialScheduleIo k dev buffer bufferSz ioOp alloc = some (k', result)) : k'.procs = k.procs := by
  have ways := schedule_schedules k dev buffer bufferSz ioOp alloc
  rw [h] at ways
  generalize outcome : some (k', result) = ran at ways
  cases ways with
  | refused e _ =>
    cases outcome
    rfl
  | started d _ _ =>
    obtain ⟨k₁, started, starts⟩ :=
      startIo_starts (queueFirst k d alloc buffer bufferSz ioOp) d ⟨k.pcbRunning, ioOp, buffer, bufferSz⟩
    rw [started] at outcome
    cases outcome
    exact starts.only.procs
  | queued d _ _ =>
    split at outcome
    · cases outcome
    · cases outcome
      rfl

/-! ### System requests -/

theorem dispatch_names {outcome : Outcome} (h : dispatch k = some (k', outcome)) : SameNames k.procs k'.procs := by
  obtain ⟨⟨procs, result⟩, removed, ran⟩ := Option.bind_eq_some_iff.mp h
  obtain rfl := congrArg Prod.fst (Option.some.inj ran)
  exact sameNames_trans (pcbRemove_names removed) (setExec_names procs _ .running)

theorem requestIo_names {op : IoOp} (h : requestIo k contextIn op alloc = some (k', outcome)) :
    SameNames k.procs k'.procs := by
  unfold requestIo at h
  by_cases busy : k.pcbRunning ≠ 0
  · rw [if_pos busy] at h
    obtain ⟨⟨k₁, error⟩, scheduled, h⟩ := Option.bind_eq_some_iff.mp h
    have same := schedule_procs scheduled
    dsimp only at h
    split at h
    · obtain rfl := congrArg Prod.fst (Option.some.inj h)
      rw [same]
      exact sameNames_refl _
    · obtain ⟨procs, inserted, h⟩ := Option.bind_eq_some_iff.mp h
      rw [same] at inserted
      have blocked : SameNames k.procs procs := sameNames_trans
        (sameNames_trans (setExec_names k.procs k₁.pcbRunning .blocked) (setPctxt_names _ _ _)) (pcbInsert_names inserted)
      split at h
      · exact sameNames_trans blocked (dispatch_names h)
      · obtain rfl := congrArg Prod.fst (Option.some.inj h)
        exact blocked
  · rw [if_neg busy] at h
    obtain rfl := congrArg Prod.fst (Option.some.inj h)
    exact sameNames_refl _

theorem yieldPcb_names (h : yieldPcb k contextIn = some (k', outcome)) : SameNames k.procs k'.procs := by
  unfold yieldPcb at h
  dsimp only at h
  generalize original : (if k.contextOriginal = none then { k with contextOriginal := some contextIn } else k) = k₁ at h
  have same : k₁.procs = k.procs := by
    rw [← original]
    split <;> rfl
  rw [← same]
  split at h
  · obtain ⟨⟨procs, result⟩, removed, h⟩ := Option.bind_eq_some_iff.mp h
    have taken := pcbRemove_names removed
    dsimp only at h
    split at h
    · obtain ⟨procs', inserted, h⟩ := Option.bind_eq_some_iff.mp h
      obtain rfl := congrArg Prod.fst (Option.some.inj h)
      have stopped : SameNames procs procs' := sameNames_trans
        (sameNames_trans (setPctxt_names procs k₁.pcbRunning (some contextIn)) (setExec_names _ _ .ready))
        (pcbInsert_names inserted)
      exact sameNames_trans taken (sameNames_trans stopped (setExec_names procs' _ .running))
    · obtain rfl := congrArg Prod.fst (Option.some.inj h)
      exact sameNames_trans taken (setExec_names procs _ .running)
  · obtain rfl := congrArg Prod.fst (Option.some.inj h)
    exact sameNames_refl _

theorem pcbFree_names {freedStack freedPcb result : Int} (h : pcbFree s p freedStack freedPcb = some (s', result))
    (other : q ≠ p) :
    (s'.pcbs q).name = (s.pcbs q).name := by
  have cleared : ((s.setPcb p clearedPcb).pcbs q).name = (s.pcbs q).name := by
    rw [setPcb_pcb, if_neg other]
  unfold pcbFree at h
  split at h
  · cases h
  split at h
  · split at h
    · cases h
      exact cleared
    · cases h
      exact cleared
  · cases h
    rfl

theorem exitPcb_names {freedStack freedPcb : Int} (h : exitPcb k freedStack freedPcb = some (k', outcome))
    (other : q ≠ k.pcbRunning) : (k'.procs.pcbs q).name = (k.procs.pcbs q).name := by
  obtain ⟨⟨procs, result⟩, freed, h⟩ := Option.bind_eq_some_iff.mp h
  rw [← pcbFree_names freed other]
  dsimp only at h
  split at h
  · exact dispatch_names h q
  · split at h
    · obtain rfl := congrArg Prod.fst (Option.some.inj h)
      rfl
    · obtain rfl := congrArg Prod.fst (Option.some.inj h)
      rfl

theorem waitIo_names (h : waitIo k = some (k', outcome)) : SameNames k.procs k'.procs := by
  obtain ⟨⟨k₁, ready⟩, checked, h⟩ := Option.bind_eq_some_iff.mp h
  have names := (checkDevices_named checked).names
  dsimp only at h
  split at h
  · exact sameNames_trans names (dispatch_names h)
  · obtain rfl := congrArg Prod.fst (Option.some.inj h)
    exact names

/-- A system request leaves the names alone, but for that of the process that it ends. -/
theorem sysCall_names {freedStack freedPcb : Int}
    (h : sysCall k contextIn alloc freedStack freedPcb = some (k', outcome))
    (other : (k.procs.contexts contextIn).eax = opExit → q ≠ k.pcbRunning) :
    (k'.procs.pcbs q).name = (k.procs.pcbs q).name := by
  obtain ⟨⟨k₁, ready⟩, checked, h⟩ := Option.bind_eq_some_iff.mp h
  obtain ⟨names, running⟩ := checkDevices_named checked
  rw [← names q]
  dsimp only at h
  split at h
  · exact requestIo_names h q
  split at h
  · exact requestIo_names h q
  split at h
  · exact yieldPcb_names h q
  split at h
  · rename_i exits
    apply exitPcb_names h
    show q ≠ k₁.pcbRunning
    rw [running]
    exact other exits
  · obtain rfl := congrArg Prod.fst (Option.some.inj h)
    rfl

/-! ### Creation -/

theorem pcbSetup_named {cls : ProcClassState} {pri : Nat} {pcb stack new : Ptr}
    (h : pcbSetup s name cls pri pcb stack = some (s', new)) (real : new ≠ 0) :
    pcbFind s name = some 0 ∧ (s'.pcbs new).name = name := by
  unfold pcbSetup at h
  split at h
  swap
  · cases h
    exact (real rfl).elim
  obtain ⟨found, searched, h⟩ := Option.bind_eq_some_iff.mp h
  split at h
  swap
  · cases h
    exact (real rfl).elim
  rename_i unused
  split at h
  swap
  · cases h
    exact (real rfl).elim
  dsimp only at h
  split at h
  swap
  · cases h
    exact (real rfl).elim
  obtain ⟨rfl, rfl⟩ := Prod.mk.inj (Option.some.inj h)
  refine ⟨unused ▸ searched, ?_⟩
  rw [setPcb_pcb, if_pos rfl]

theorem pcbContextInit_names {func fargs fargc : UInt32} (h : pcbContextInit s p func fargs fargc = some s') :
    SameNames s s' := by
  unfold pcbContextInit at h
  split at h
  · cases h
    exact sameNames_refl _
  split at h
  · cases h
  obtain ⟨c, _, h⟩ := Option.bind_eq_some_iff.mp h
  obtain rfl := Option.some.inj h
  exact setPctxt_names s p _

/-- The name of a new process was not found in the queues, and the other processes keep theirs. -/
theorem createPcb_named {cls : ProcClassState} {pri : Nat} {entry : Option Entry} {pcb stack : Ptr}
    (h : createPcb s name cls pri entry pcb stack = some s') :
    pcbFind s name = some 0 ∧ (s'.pcbs pcb).name = name ∧ ∀ q, q ≠ pcb → (s'.pcbs q).name = (s.pcbs q).name := by
  unfold createPcb at h
  obtain ⟨⟨s₁, new⟩, setup, h⟩ := Option.bind_eq_some_iff.mp h
  obtain ⟨s₂, init, inserted⟩ : ∃ s₂, (entry.elim (some s₁) fun e => pcbContextInit s₁ new e.func e.fargs e.fargc) =
      some s₂ ∧ pcbInsert s₂ new = some s' := by
    cases entry with
    | none => exact ⟨s₁, rfl, h⟩
    | some e => exact Option.bind_eq_some_iff.mp h
  have real : new ≠ 0 := by
    intro null
    rw [null] at inserted
    unfold pcbInsert at inserted
    rw [if_pos rfl] at inserted
    cases inserted
  obtain ⟨unused, called⟩ := pcbSetup_named setup real
  obtain ⟨rfl, _, spawned⟩ := (pcbSetup_spawned setup).resolve_left real
  have same : SameNames s₁ s' := by
    refine sameNames_trans ?_ (pcbInsert_names inserted)
    cases entry with
    | none =>
      cases init
      exact sameNames_refl _
    | some e => exact pcbContextInit_names init
  refine ⟨unused, (same new).trans called, ?_⟩
  intro q other
  rw [same q, spawned.others q other]

/-! ### Steps -/

theorem named_kept {live live' : List Ptr} (N : Named s live) (fewer : ∀ q ∈ live', q ∈ live)
    (same : ∀ q ∈ live', (s'.pcbs q).name = (s.pcbs q).name) : Named s' live' := by
  intro p left q right equal
  rw [same p left, same q right] at equal
  exact N p (fewer p left) q (fewer q right) equal

theorem named_new {live : List Ptr} {pcb : Ptr} (N : Named s live)
    (others : ∀ q, q ≠ pcb → (s'.pcbs q).name = (s.pcbs q).name)
    (unused : ∀ q ∈ live, (s.pcbs q).name ≠ (s'.pcbs pcb).name) : Named s' (pcb :: live) := by
  have fresh : ∀ q ∈ pcb :: live, q ≠ pcb → q ∈ live ∧ (s'.pcbs q).name = (s.pcbs q).name := by
    intro q member other
    exact ⟨(List.mem_cons.mp member).resolve_left other, others q other⟩
  intro p left q right equal
  by_cases new : p = pcb
  · by_cases new' : q = pcb
    · exact new.trans new'.symm
    · obtain ⟨old, kept⟩ := fresh q right new'
      rw [new, kept] at equal
      exact (unused q old equal.symm).elim
  · obtain ⟨old, kept⟩ := fresh p left new
    by_cases new' : q = pcb
    · rw [new', kept] at equal
      exact (unused p old equal).elim
    · obtain ⟨old', kept'⟩ := fresh q right new'
      rw [kept, kept'] at equal
      exact N p old q old' equal

theorem trap_named {context : Context} {offset : UInt32} {freedStack freedPcb : Int} (N : Named m.kernel.procs m.live)
    (ran : m.trap context offset alloc freedStack freedPcb = some m') : Named m'.kernel.procs m'.live := by
  have live := trap_live ran
  obtain ⟨⟨k', outcome⟩, called, same⟩ := Option.bind_eq_some_iff.mp ran
  have code : ((saveContext m.kernel context offset).procs.contexts (savedAt m.kernel offset)).eax = context.eax :=
    congrArg Context.eax (update_self ..)
  have kept : ∀ q, (context.eax = opExit → q ≠ m.kernel.pcbRunning) →
      (k'.procs.pcbs q).name = (m.kernel.procs.pcbs q).name := by
    intro q other
    have same := sysCall_names (q := q) called fun exits => other (code.symm.trans exits)
    exact same
  rw [live, ← Option.some.inj same, settle_kernel]
  unfold remaining
  split
  · apply named_kept N
    · intro q member
      exact (List.mem_filter.mp member).1
    · intro q member
      exact kept q fun _ => of_decide_eq_true (List.mem_filter.mp member).2
  · rename_i stays
    apply named_kept N (fun _ member => member)
    intro q _
    exact kept q fun exits => (stays exits).elim

theorem delete_names {freedStack freedPcb : Int} (h : deletePcbCommand s name freedStack freedPcb = some s')
    (other : some q ≠ deleted s name) : (s'.pcbs q).name = (s.pcbs q).name := by
  obtain ⟨found, searched, h⟩ := Option.bind_eq_some_iff.mp h
  rw [deleted_eq searched] at other
  by_cases missed : found = 0
  · rw [if_pos missed] at h
    cases h
    rfl
  rw [if_neg missed] at h
  by_cases system : (s.state found).cls = .system
  · rw [if_pos system] at h
    cases h
    rfl
  rw [if_neg system] at h
  rw [if_pos ⟨missed, system⟩] at other
  obtain ⟨⟨s₁, _⟩, removed, h⟩ := Option.bind_eq_some_iff.mp h
  obtain ⟨⟨s₂, _⟩, freed, h⟩ := Option.bind_eq_some_iff.mp h
  obtain rfl := Option.some.inj h
  rw [pcbFree_names freed fun same => other (congrArg some same)]
  exact pcbRemove_names removed q

theorem suspend_names (h : suspendPcbCommand s name = some s') : SameNames s s' := by
  obtain ⟨found, _, h⟩ := Option.bind_eq_some_iff.mp h
  split at h
  · cases h
    exact sameNames_refl _
  split at h
  · cases h
    exact sameNames_refl _
  exact refile_names (fun s => { s.state found with dpatch := .suspended }) h

theorem resume_names (h : resumePcbCommand s name = some s') : SameNames s s' := by
  obtain ⟨found, _, h⟩ := Option.bind_eq_some_iff.mp h
  split at h
  · cases h
    exact sameNames_refl _
  exact refile_names (fun s => { s.state found with dpatch := .active }) h

theorem setPriority_names {pri : Nat} (h : setPcbPriority s p pri = some s') : SameNames s s' := by
  unfold setPcbPriority at h
  split at h
  · exact refile_names (fun s => { s.state p with pri := pri }) h
  · cases h
    exact sameNames_refl _

theorem standing_present (stands : Standing m) :
    ∃ qs, Queued m.kernel.procs qs ∧ ∀ p, p ∈ m.live ↔ Present m.kernel qs p := by
  obtain ⟨qs, S, _⟩ := standing_sound stands
  refine ⟨qs, S.placed.queued, ?_⟩
  intro p
  rw [S.placed.members p]
  apply or_congr_left
  split
  · rename_i idle
    rw [idle]
    constructor
    · intro member
      cases member
    · rintro ⟨real, null⟩
      exact (real null).elim
  · rename_i busy
    rw [List.mem_singleton]
    exact ⟨fun same => ⟨same ▸ busy, same⟩, And.right⟩

/-- A name that is in no queue and not that of the running process is new. -/
theorem create_named {cls : ProcClassState} {pri : Nat} {entry : Option Entry} {pcb stack : Ptr} (stands : Standing m)
    (N : Named m.kernel.procs m.live) (distinguishes : name ≠ (m.kernel.procs.pcbs m.kernel.pcbRunning).name)
    (ran : createPcb m.kernel.procs name cls pri entry pcb stack = some s) : Named s (pcb :: m.live) := by
  obtain ⟨qs, Q, present⟩ := standing_present stands
  obtain ⟨unused, called, others⟩ := createPcb_named ran
  obtain ⟨found, searched, which⟩ := pcbFind_named Q name
  obtain rfl : 0 = found := Option.some.inj (unused.symm.trans searched)
  apply named_new N others
  rw [called]
  intro q member
  rcases (present q).mp member with ⟨_, rfl⟩ | ⟨i, queued⟩
  · exact distinguishes.symm
  · rcases which with ⟨_, none⟩ | ⟨⟨j, null⟩, _⟩
    · exact none i q queued
    · exact (Q.nonnull null rfl).elim

theorem step_named (stands : Standing m) (N : Named m.kernel.procs m.live) (distinguishes : a.Distinguishes m)
    (moved : m.step a = some m') : Named m'.kernel.procs m'.live := by
  have unchanged : ∀ {procs}, SameNames m.kernel.procs procs → Named procs m.live := fun same =>
    named_kept N (fun _ member => member) fun q _ => same q
  cases step_moves moved with
  | trap _ ran => exact trap_named N ran
  | poll _ ran same =>
    subst same
    rw [settle_live, settle_kernel]
    exact unchanged (waitIo_names ran)
  | interrupt ran same =>
    subst same
    obtain ⟨qs, S, _⟩ := standing_sound stands
    apply unchanged
    rw [(interrupt_sound S ran).2.procs]
    exact sameNames_refl _
  | compute _ same =>
    subst same
    exact unchanged (sameNames_refl _)
  | create _ ran same =>
    subst same
    exact create_named stands N distinguishes ran
  | delete _ ran same =>
    subst same
    apply named_kept N
    · intro q member
      exact (List.mem_filter.mp member).1
    · intro q member
      exact delete_names ran (of_decide_eq_true (List.mem_filter.mp member).2)
  | suspend _ ran same =>
    subst same
    exact unchanged (suspend_names ran)
  | resume _ ran same =>
    subst same
    exact unchanged (resume_names ran)
  | setPriority _ ran same =>
    subst same
    exact unchanged (setPriority_names ran)

/-- The two processes of `kmain` have different names. -/
theorem booted_named (booted : Booted m) : Named m.kernel.procs m.live := by
  obtain ⟨k, b, _, fresh, booted⟩ := booted
  obtain ⟨procs₁, made, booted⟩ := Option.bind_eq_some_iff.mp booted
  obtain ⟨procs₂, made', booted⟩ := Option.bind_eq_some_iff.mp booted
  obtain ⟨⟨k', outcome⟩, called, same⟩ := Option.bind_eq_some_iff.mp booted
  obtain ⟨_, comhand, _⟩ := createPcb_named made
  obtain ⟨_, idle, others⟩ := createPcb_named made'
  have start : Named procs₂ [b.idlePcb, b.comhandPcb] := by
    apply named_new (s := procs₁) _ others
    · intro q member
      obtain rfl := List.mem_singleton.mp member
      rw [comhand, idle]
      decide
    · intro p left q right _
      exact (List.mem_singleton.mp left).trans (List.mem_singleton.mp right).symm
  have kept : ∀ q, (k'.procs.pcbs q).name = (procs₂.pcbs q).name := by
    intro q
    have same := sysCall_names (q := q) called fun exits => ?_
    · exact same
    · have code : (update procs₂.contexts ⟨0, b.offset⟩ b.context ⟨0, b.offset⟩).eax = opExit := exits
      rw [update_self, fresh.idle] at code
      exact absurd code (by decide)
  rw [← Option.some.inj same, settle_kernel, settle_live]
  exact named_kept start (fun _ member => member) fun q _ => kept q

/-- The names are unique in every run in which no process gives its own name to another one. -/
theorem names_unique (h : Reaches Booted (fun m a => Lawful m a ∧ a.Distinguishes m) Machine.step m) :
    ∃ qs, UniqueNames m.kernel qs := by
  have invariant : Standing m ∧ Named m.kernel.procs m.live := by
    refine reaches_invariant (P := fun m => Standing m ∧ Named m.kernel.procs m.live) ?_ ?_ h
    · intro m booted
      exact ⟨booted_standing booted, booted_named booted⟩
    · intro m a m' both ok moved
      exact ⟨standing_step both.1 ok.1.1 ok.1.2 moved, step_named both.1 both.2 ok.2 moved⟩
  obtain ⟨stands, N⟩ := invariant
  obtain ⟨qs, Q, present⟩ := standing_present stands
  have distinct : ∀ p q, Present m.kernel qs p → Present m.kernel qs q →
      (m.kernel.procs.pcbs p).name = (m.kernel.procs.pcbs q).name → p = q := fun p q left right =>
    N p ((present p).mpr left) q ((present q).mpr right)
  refine ⟨qs, queueList_eq Q, distinct, ?_⟩
  intro name
  obtain ⟨found, ran, which⟩ := pcbFind_named Q name
  refine ⟨found, ran, which.imp_right fun both => ⟨both.1, both.2, ?_⟩⟩
  intro i p member named
  exact distinct p found (.inr ⟨i, member⟩) (.inr both.1) (named.trans both.2.symm)

/-- `comhand` creates a process and waits for a line; both are in a queue while `idle` runs. -/
theorem names_unique_example : ∃ (m : Machine) (qs : Fin 4 → List Ptr), m.live = [500, 300, 100] ∧
    m.kernel.pcbRunning = 300 ∧ UniqueNames m.kernel qs := by
  have ran : (oneport (fun m a => Lawful m a ∧ a.Distinguishes m) [.create [112] .user 9 (some ⟨3, 0, 0⟩) 500 600,
      .trap (request opRead com1 1000 5) 20 700 0 0]).map (fun m => (m.live, m.kernel.pcbRunning)) =
        some ([500, 300, 100], 300) := by
    decide +kernel
  obtain ⟨m, ran, seen⟩ := Option.map_eq_some_iff.mp ran
  obtain ⟨qs, unique⟩ := names_unique (oneport_reaches ran)
  exact ⟨m, qs, congrArg Prod.fst seen, congrArg Prod.snd seen, unique⟩

/-- `comhand` runs and creates another `comhand`. -/
theorem names_not_unique : ¬∀ m, Reached m → ∃ qs, UniqueNames m.kernel qs := by
  intro always
  have ran : (oneport Lawful [.create comhandName .user 5 none 500 600]).map (fun m => (m.kernel.pcbRunning,
      (m.kernel.procs.pcbs 100).name, (m.kernel.procs.pcbs 500).name, queueList m.kernel.procs 0)) =
        some (100, comhandName, comhandName, some [500, 300]) := by
    decide +kernel
  obtain ⟨m, ran, seen⟩ := Option.map_eq_some_iff.mp ran
  obtain ⟨runs, seen⟩ := Prod.mk.inj seen
  obtain ⟨old, seen⟩ := Prod.mk.inj seen
  obtain ⟨new, ready⟩ := Prod.mk.inj seen
  obtain ⟨qs, unique⟩ := always m (oneport_reaches ran)
  have queued : (500 : Ptr) ∈ qs 0 := by
    rw [← Option.some.inj (ready.symm.trans (unique.queues 0))]
    decide
  have same := unique.distinct 100 500 (.inl ⟨by decide, runs.symm⟩) (.inr ⟨0, queued⟩) (old.trans new.symm)
  exact absurd same (by decide)

end Mpx.System

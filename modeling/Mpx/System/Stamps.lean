import Mpx.System.Dispatch
import Mpx.System.Suspension

/-! # When a process has joined the ready queue

A process gets a new stamp whenever it becomes ready, and keeps its stamp for as long as it is ready. -/

namespace Mpx.System
open Function Library.Links Library.Transition Mpx.Process Mpx.Device

/-- `s` and `s'` agree on `q`, links and contexts apart. -/
structure Same (s s' : Procs) (q : Ptr) : Prop where
  enqueued : s'.enqueued q = s.enqueued q
  state : s'.state q = s.state q

/-- The check of the devices has only woken blocked processes, and has given a new stamp to the active ones. -/
structure Woke (s s' : Procs) : Prop where
  clock : s.clock ≤ s'.clock
  each : ∀ q, Same s s' q ∨ (s.state q).exec = .blocked ∧
    ((s'.state q).exec ≠ .blocked → (s'.state q).dpatch = .active → s.clock ≤ s'.enqueued q)

/-- `h` has been taken off the ready queue, to run. -/
structure Taken (s s' : Procs) (h : Ptr) : Prop where
  enqueued : s'.enqueued h = s.enqueued h
  filed : (s.state h).queueSelector = 0
  state : s'.state h = { s.state h with exec := .running }

/-- Apart from `r`, only the process `h` that is taken to run has changed. -/
structure Served (s s' : Procs) (r h : Ptr) : Prop where
  clock : s.clock ≤ s'.clock
  chosen : h = 0 ∨ h = r ∨ Taken s s' h
  others : ∀ q, q ≠ r → q ≠ h → Same s s' q
  own : r ≠ 0 → (s'.state r).queueSelector = 0 → s.clock ≤ s'.enqueued r

/-- Only `x` has changed, and it has a new stamp if it is in the ready queue. -/
structure Refiled (s s' : Procs) (x : Ptr) : Prop where
  clock : s.clock ≤ s'.clock
  others : ∀ q, q ≠ x → Same s s' q
  own : (s'.state x).queueSelector = 0 → s.clock ≤ s'.enqueued x

variable {m m' : Machine} {k k' : Kernel} {s s' t : Procs} {loose live : List Ptr} {qs : Fin 4 → List Ptr}
  {trapped : Ptr → Option Trap} {d : Fin 4} {p q r h x : Ptr} {contextIn : CtxPtr} {outcome : Outcome}
  {name : List UInt8} {a : Action}

theorem same_refl (s : Procs) (q : Ptr) : Same s s q := ⟨rfl, rfl⟩

theorem same_trans (first : Same s t q) (second : Same t s' q) : Same s s' q :=
  ⟨second.enqueued.trans first.enqueued, second.state.trans first.state⟩

theorem relinked_same (relinked : Relinked s s') (enqueued : s'.enqueued = s.enqueued) (q : Ptr) : Same s s' q :=
  ⟨congrFun enqueued q, relinked.state q⟩

/-! ### The queues -/

theorem remove_same {result : Int} (ran : pcbRemove s x = some (s', result)) :
    s'.clock = s.clock ∧ ∀ q, Same s s' q := by
  obtain ⟨relinked, clock, enqueued⟩ := pcbRemove_relinked ran
  exact ⟨clock, relinked_same relinked enqueued⟩

/-- An insertion stamps one process, if it joins the ready queue. -/
theorem insert_refiled (ran : pcbInsert s x = some s') : Refiled s s' x ∧ s'.state x = s.state x := by
  obtain ⟨relinked, clock, enqueued⟩ := pcbInsert_relinked ran
  refine ⟨⟨?_, ?_, ?_⟩, relinked.state x⟩
  · rw [clock, stamp_clock]
    split
    · exact Nat.le_succ _
    · exact Nat.le_refl _
  · intro q other
    refine ⟨?_, relinked.state q⟩
    rw [enqueued, stamp_enqueued, if_neg fun both => other both.2]
  · intro ready
    rw [relinked.state] at ready
    have stamped : s'.enqueued x = s.clock := by
      rw [enqueued, stamp_enqueued, if_pos ⟨ready, rfl⟩]
    exact Nat.le_of_eq stamped.symm

theorem refiled_after (clock : t.clock = s.clock) (others : ∀ q, q ≠ x → Same s t q) (refiled : Refiled t s' x) :
    Refiled s s' x := by
  obtain ⟨le, kept, own⟩ := refiled
  rw [clock] at le own
  exact ⟨le, fun q other => same_trans (others q other) (kept q other), own⟩

theorem setState_same (s : Procs) (x : Ptr) (state : PcbState) (other : q ≠ x) : Same s (s.setState x state) q := by
  refine ⟨rfl, ?_⟩
  rw [setState_state, if_neg other]

theorem refile_refiled (change : Procs → PcbState) (ran : (do
      let (s, _) ← pcbRemove s x
      pcbInsert (s.setState x (change s)) x) = some s') : Refiled s s' x := by
  obtain ⟨⟨s₁, _⟩, removed, inserted⟩ := Option.bind_eq_some_iff.mp ran
  obtain ⟨clock, same⟩ := remove_same removed
  refine refiled_after (t := s₁.setState x (change s₁)) clock ?_ (insert_refiled inserted).1
  intro q other
  exact same_trans (same q) (setState_same s₁ x _ other)

/-! ### The devices -/

theorem selector_active {state : PcbState} : state.queueSelector = 0 ↔ state.exec = .ready ∧ state.dpatch = .active := by
  obtain ⟨exec, dpatch, cls, pri⟩ := state
  cases exec <;> cases dpatch <;> simp [PcbState.queueSelector]

theorem woke_refl (s : Procs) : Woke s s := ⟨Nat.le_refl _, fun q => .inl (same_refl s q)⟩

theorem woke_trans (first : Woke s t) (second : Woke t s') : Woke s s' := by
  refine ⟨Nat.le_trans first.clock second.clock, ?_⟩
  intro q
  rcases second.each q with same | ⟨asleep, stamped⟩
  · rcases first.each q with before | ⟨asleep, stamped⟩
    · exact .inl (same_trans before same)
    · rw [← same.state, ← same.enqueued] at stamped
      exact .inr ⟨asleep, stamped⟩
  · have later : (s'.state q).exec ≠ .blocked → (s'.state q).dpatch = .active → s.clock ≤ s'.enqueued q :=
      fun awake active => Nat.le_trans first.clock (stamped awake active)
    rcases first.each q with before | ⟨asleep, _⟩
    · exact .inr ⟨before.state ▸ asleep, later⟩
    · exact .inr ⟨asleep, later⟩

theorem wake_woke {count : UInt32} (ran : wake s p count = some s') (asleep : (s.state p).exec = .blocked) :
    Woke s s' := by
  have woken := wake_woken ran
  obtain ⟨⟨s₁, _⟩, removed, ran⟩ := Option.bind_eq_some_iff.mp ran
  obtain ⟨c, _, inserted⟩ := Option.bind_eq_some_iff.mp ran
  obtain ⟨clock, same⟩ := remove_same removed
  have readied : Refiled s s' p := by
    refine refiled_after (t := (s₁.setExec p .ready).setEax c count) clock ?_ (insert_refiled inserted).1
    intro q other
    have changed : Same s₁ (s₁.setExec p .ready) q := setState_same s₁ p _ other
    exact same_trans (same q) ⟨changed.enqueued, changed.state⟩
  refine ⟨readied.clock, ?_⟩
  intro q
  by_cases here : q = p
  · subst here
    refine .inr ⟨asleep, fun _ active => readied.own (selector_active.mpr ⟨?_, active⟩)⟩
    rw [woken.state, if_pos rfl]
  · exact .inl (readied.others q here)

/-- The request at the head of a device's queue is that of a blocked process. -/
theorem requester_blocked (S : Sound k loose live qs trapped) (event : (k.dcb d).event = true) :
    (k.procs.state (requester k d)).exec = .blocked := by
  obtain ⟨pend, ok⟩ := S.devices
  have own := ok.port d
  cases queue : pend d with
  | nil =>
    have quiet : (k.dcb d).event = false := (own.idle queue).1
    rw [quiet] at event
    cases event
  | cons a rest =>
    have chain := own.queue.chain.head
    rw [queue] at chain
    have head : (k.dcb d).iocbQueueHead = a := chain
    have wants : requester k d ∈ wanting k d := by
      rw [wanting_pend ok, queue]
      unfold requester
      rw [head]
      exact List.mem_cons_self
    exact blocked_exec S.placed (S.requested.blocked d _ wants)

theorem check_woke (S : Sound k loose live qs trapped) {dev : UInt32} {result : Int}
    (ran : serialCheckIo k dev = some (k', result)) : Woke k.procs k'.procs := by
  rcases checkIo_ways ran with ⟨rfl, -⟩ | ⟨d, procs, -, event, -, woken, advanced, -⟩
  · exact woke_refl _
  · rw [advance_procs advanced]
    exact wake_woke woken (requester_blocked S event)

theorem checkDevices_woke (ds : List (Fin 4)) (S : Sound k loose live qs trapped) {before ready : Bool}
    (ran : checkDevices (ds.map serialDev) k before = some (k', ready)) : Woke k.procs k'.procs := by
  induction ds generalizing k qs before with
  | nil =>
    cases ran
    exact woke_refl _
  | cons d ds ih =>
    obtain ⟨⟨k₁, result⟩, checked, rest⟩ := Option.bind_eq_some_iff.mp ran
    obtain ⟨k₂, qs₂, result₂, checked₂, S₂, _⟩ := check_sound S d
    obtain ⟨rfl, rfl⟩ := Prod.mk.inj (Option.some.inj (checked.symm.trans checked₂))
    exact woke_trans (check_woke S checked) (ih S₂ rest)

theorem sysCheckIo_woke (S : Sound k loose live qs trapped) {ready : Bool} (ran : sysCheckIo k = some (k', ready)) :
    Woke k.procs k'.procs := checkDevices_woke [0, 1, 2, 3] S ran

/-! ### System requests -/

theorem remove_head (Q : Queued k.procs qs) {result : Int}
    (ran : pcbRemove k.procs (readyHead k) = some (s', result)) :
    readyHead k ∈ qs 0 ∧ (k.procs.state (readyHead k)).queueSelector = 0 := by
  have head : readyHead k = (qs 0).headD 0 := (Q.queue 0).chain.head
  cases row : qs 0 with
  | nil =>
    rw [head, row, List.headD_nil] at ran
    unfold pcbRemove at ran
    rw [if_pos rfl] at ran
    cases ran
  | cons p rest =>
    have member : p ∈ qs 0 := row ▸ List.mem_cons_self
    rw [head, row]
    exact ⟨List.mem_cons_self, Q.filed 0 p member⟩

theorem setExec_state (s : Procs) (h q : Ptr) (exec : ProcExecState) :
    (s.setExec h exec).state q = if q = h then { s.state h with exec := exec } else s.state q := setState_state ..

theorem setExec_taken (filed : (s.state h).queueSelector = 0) (same : ∀ q, Same s t q) :
    Taken s (t.setExec h .running) h := by
  refine ⟨(same h).enqueued, filed, ?_⟩
  rw [setExec_state, if_pos rfl, (same h).state]

theorem dispatch_served (Q : Queued k.procs qs) (ran : dispatch k = some (k', outcome)) :
    k'.procs.clock = k.procs.clock ∧ k'.pcbRunning = readyHead k ∧ Taken k.procs k'.procs (readyHead k) ∧
      ∀ q, q ≠ readyHead k → Same k.procs k'.procs q := by
  obtain ⟨⟨procs, result⟩, removed, ran⟩ := Option.bind_eq_some_iff.mp ran
  obtain rfl := congrArg Prod.fst (Option.some.inj ran)
  obtain ⟨clock, same⟩ := remove_same removed
  refine ⟨clock, rfl, setExec_taken (remove_head Q removed).2 same, ?_⟩
  intro q other
  exact same_trans (same q) (setState_same procs _ _ other)

/-- A process that stops running, and the one that is dispatched then. -/
theorem stopped_served (clock : s.clock ≤ k.procs.clock) (others : ∀ q, q ≠ r → Same s k.procs q)
    (stopped : (k.procs.state r).exec ≠ .ready) (Q : Queued k.procs qs) (ran : dispatch k = some (k', outcome)) :
    Served s k'.procs r k'.pcbRunning := by
  obtain ⟨later, running, taken, same⟩ := dispatch_served Q ran
  have apart : readyHead k ≠ r := fun here => stopped (here ▸ (selector_active.mp taken.filed).1)
  have kept := others _ apart
  rw [running]
  refine ⟨later ▸ clock, .inr (.inr ⟨?_, ?_, ?_⟩), ?_, ?_⟩
  · exact taken.enqueued.trans kept.enqueued
  · exact kept.state ▸ taken.filed
  · exact kept.state ▸ taken.state
  · intro q other waiting
    exact same_trans (others q other) (same q waiting)
  · intro _ filed
    rw [(same r apart.symm).state] at filed
    exact (stopped (selector_active.mp filed).1).elim

theorem parked_same (exec : ProcExecState) (other : q ≠ r) : Same s (parked s r contextIn exec) q := by
  refine ⟨rfl, ?_⟩
  unfold Procs.state
  rw [parked_other other]

/-- The process `r` is filed again while `h` begins to run. -/
theorem run_served (refiled : Refiled s t r) (filed : (s.state h).queueSelector = 0) (apart : h ≠ r) :
    Served s (t.setExec h .running) r h := by
  have kept := refiled.others h apart
  refine ⟨refiled.clock, .inr (.inr ⟨kept.enqueued, filed, ?_⟩), ?_, ?_⟩
  · rw [setExec_state, if_pos rfl, kept.state]
  · intro q other waiting
    exact same_trans (refiled.others q other) (setState_same t h _ waiting)
  · intro _ filed
    rw [setExec_state, if_neg apart.symm] at filed
    exact refiled.own filed

theorem served_rests (clock : s.clock ≤ s'.clock) (others : ∀ q, q ≠ r → Same s s' q)
    (stopped : (s'.state r).exec ≠ .ready) (idle : h = 0 ∨ h = r) : Served s s' r h :=
  ⟨clock, idle.imp_right .inl, fun q other _ => others q other,
    fun _ filed => (stopped (selector_active.mp filed).1).elim⟩

theorem served_stays (running : (s.state r).exec = .running) (same : ∀ q, Same s s' q) (clock : s'.clock = s.clock) :
    Served s s' r r := by
  refine served_rests (Nat.le_of_eq clock.symm) (fun q _ => same q) ?_ (.inr rfl)
  rw [(same r).state, running]
  exact fun ready => nomatch ready

theorem schedule_running {dev buffer bufferSz : UInt32} {ioOp : IoOp} {alloc : Ptr} {result : Option SerialError}
    (ran : serialScheduleIo k dev buffer bufferSz ioOp alloc = some (k', result)) : k'.pcbRunning = k.pcbRunning := by
  have ways := schedule_schedules k dev buffer bufferSz ioOp alloc
  rw [ran] at ways
  generalize outcome : some (k', result) = scheduled at ways
  cases ways with
  | refused e _ =>
    cases outcome
    rfl
  | started d _ _ =>
    obtain ⟨k₁, started, starts⟩ :=
      startIo_starts (queueFirst k d alloc buffer bufferSz ioOp) d ⟨k.pcbRunning, ioOp, buffer, bufferSz⟩
    rw [started] at outcome
    cases outcome
    exact starts.only.pcbRunning
  | queued d _ _ =>
    split at outcome
    · cases outcome
    · cases outcome
      rfl

theorem requestIo_served {op : IoOp} {alloc : Ptr} (P : Placed k.procs [k.pcbRunning] live qs)
    (running : (k.procs.state k.pcbRunning).exec = .running)
    (ran : requestIo k contextIn op alloc = some (k', outcome)) :
    Served k.procs k'.procs k.pcbRunning k'.pcbRunning := by
  obtain ⟨real, detached, outside⟩ := P.loose k.pcbRunning List.mem_cons_self
  unfold requestIo at ran
  rw [if_pos real] at ran
  obtain ⟨⟨k₁, error⟩, scheduled, ran⟩ := Option.bind_eq_some_iff.mp ran
  have same := schedule_procs scheduled
  have runner := schedule_running scheduled
  dsimp only at ran
  split at ran
  · obtain rfl := congrArg Prod.fst (Option.some.inj ran)
    rw [same, runner]
    exact served_stays running (same_refl _) rfl
  · rw [setExec_setPctxt, same, runner] at ran
    obtain ⟨procs, inserted, ran⟩ := Option.bind_eq_some_iff.mp ran
    have Q : Queued (parked k.procs k.pcbRunning contextIn .blocked) qs := by
      refine P.queued.congr rfl ?_
      intro i q member
      exact parked_other fun here => outside i (here ▸ member)
    have next : (parked k.procs k.pcbRunning contextIn .blocked).pNext k.pcbRunning = 0 := by
      unfold Procs.pNext
      rw [parked_pcb]
      exact detached
    obtain ⟨procs', inserted', Q', _⟩ := pcbInsert_queued Q real outside next
    obtain rfl := Option.some.inj (inserted.symm.trans inserted')
    obtain ⟨refiled, state⟩ := insert_refiled inserted
    have others : ∀ q, q ≠ k.pcbRunning → Same k.procs procs q := by
      intro q other
      exact same_trans (parked_same .blocked other) (refiled.others q other)
    have stopped : (procs.state k.pcbRunning).exec ≠ .ready := by
      rw [state, parked_state]
      exact fun ready => nomatch ready
    split at ran
    · exact stopped_served (k := { k₁ with procs := procs }) refiled.clock others stopped Q' ran
    · obtain rfl := congrArg Prod.fst (Option.some.inj ran)
      exact served_rests refiled.clock others stopped (.inl rfl)

theorem yieldPcb_served (P : Placed k.procs [k.pcbRunning] live qs)
    (running : (k.procs.state k.pcbRunning).exec = .running)
    (ran : yieldPcb k contextIn = some (k', outcome)) : Served k.procs k'.procs k.pcbRunning k'.pcbRunning := by
  have real := (P.loose k.pcbRunning List.mem_cons_self).1
  unfold yieldPcb at ran
  dsimp only at ran
  generalize original :
    (if k.contextOriginal = none then { k with contextOriginal := some contextIn } else k) = k₁ at ran
  have same : k₁.procs = k.procs ∧ k₁.pcbRunning = k.pcbRunning := by
    rw [← original]
    split <;> exact ⟨rfl, rfl⟩
  rw [← same.1] at P running
  rw [← same.2] at P running real
  rw [← same.1, ← same.2]
  split at ran
  · obtain ⟨⟨procs, result⟩, removed, ran⟩ := Option.bind_eq_some_iff.mp ran
    obtain ⟨member, filed⟩ := remove_head P.queued removed
    obtain ⟨clock, taken⟩ := remove_same removed
    rw [setPctxt_setExec] at ran
    obtain ⟨procs', inserted, ran⟩ := Option.bind_eq_some_iff.mp ran
    obtain rfl := congrArg Prod.fst (Option.some.inj ran)
    have refiled : Refiled k₁.procs procs' k₁.pcbRunning := by
      refine refiled_after (t := parked procs k₁.pcbRunning contextIn .ready) clock ?_ (insert_refiled inserted).1
      intro q other
      exact same_trans (taken q) (parked_same .ready other)
    exact run_served refiled filed fun here => P.apart member (here ▸ List.mem_cons_self)
  · obtain rfl := congrArg Prod.fst (Option.some.inj ran)
    exact served_stays running (same_refl _) rfl

theorem free_same {freedStack freedPcb result : Int} (ran : pcbFree s x freedStack freedPcb = some (s', result)) :
    s'.queues = s.queues ∧ s'.clock = s.clock ∧ (∀ q, q ≠ x → s'.pcbs q = s.pcbs q) ∧ (∀ q, q ≠ x → Same s s' q) ∧
      (Same s s' x ∨ (s'.state x).exec = .blocked) := by
  have cleared : (s.setPcb x clearedPcb).queues = s.queues ∧ (s.setPcb x clearedPcb).clock = s.clock ∧
      (∀ q, q ≠ x → (s.setPcb x clearedPcb).pcbs q = s.pcbs q) ∧
      (∀ q, q ≠ x → Same s (s.setPcb x clearedPcb) q) ∧
      (Same s (s.setPcb x clearedPcb) x ∨ ((s.setPcb x clearedPcb).state x).exec = .blocked) := by
    have others : ∀ q, q ≠ x → (s.setPcb x clearedPcb).pcbs q = s.pcbs q := by
      intro q other
      rw [setPcb_pcb, if_neg other]
    refine ⟨rfl, rfl, others, fun q other => ⟨rfl, congrArg Pcb.state (others q other)⟩, .inr ?_⟩
    unfold Procs.state
    rw [setPcb_pcb, if_pos rfl]
    rfl
  unfold pcbFree at ran
  split at ran
  · cases ran
  split at ran
  · split at ran
    · cases ran
      exact cleared
    · cases ran
      exact cleared
  · cases ran
    exact ⟨rfl, rfl, fun _ _ => rfl, fun q _ => same_refl _ q, .inl (same_refl _ _)⟩

theorem exitPcb_served {freedStack freedPcb : Int} (P : Placed k.procs [k.pcbRunning] live qs)
    (running : (k.procs.state k.pcbRunning).exec = .running)
    (ran : exitPcb k freedStack freedPcb = some (k', outcome)) :
    Served k.procs k'.procs k.pcbRunning k'.pcbRunning := by
  have outside := (P.loose k.pcbRunning List.mem_cons_self).2.2
  obtain ⟨⟨procs, result⟩, freed, ran⟩ := Option.bind_eq_some_iff.mp ran
  obtain ⟨queues, clock, pcbs, others, own⟩ := free_same freed
  have stopped : (procs.state k.pcbRunning).exec ≠ .ready := by
    rcases own with same | blocked
    · rw [same.state, running]
      exact fun ready => nomatch ready
    · rw [blocked]
      exact fun ready => nomatch ready
  have Q : Queued procs qs := P.queued.congr queues fun i q member => pcbs q fun here => outside i (here ▸ member)
  dsimp only at ran
  split at ran
  · exact stopped_served (k := { k with procs := procs }) (Nat.le_of_eq clock.symm) others stopped Q ran
  · split at ran
    · obtain rfl := congrArg Prod.fst (Option.some.inj ran)
      exact served_rests (Nat.le_of_eq clock.symm) others stopped (.inl rfl)
    · obtain rfl := congrArg Prod.fst (Option.some.inj ran)
      exact served_rests (Nat.le_of_eq clock.symm) others stopped (.inr rfl)

/-- What a trap makes of the process `r` that was running, and of the others. -/
theorem sysCall_served {alloc : Ptr} {freedStack freedPcb : Int} (S : Sound k [r] live qs trapped)
    (running : k.pcbRunning = r) (busy : (k.procs.state r).exec = .running)
    (ran : sysCall k contextIn alloc freedStack freedPcb = some (k', outcome)) :
    ∃ s₁, Woke k.procs s₁ ∧ Served s₁ k'.procs r k'.pcbRunning := by
  obtain ⟨⟨k₁, ready⟩, checked, ran⟩ := Option.bind_eq_some_iff.mp ran
  obtain ⟨k₂, qs₁, ready₂, checked₂, S₁, checkup, _⟩ := sysCheckIo_sound S
  obtain ⟨rfl, rfl⟩ := Prod.mk.inj (Option.some.inj (checked.symm.trans checked₂))
  have woke := sysCheckIo_woke S checked
  have runner : k₁.pcbRunning = r := checkup.pcbRunning.trans running
  have kept : (k₁.procs.state r).exec = .running := by rw [checkup.kept r List.mem_cons_self, busy]
  have P : Placed (k₁.procs.setEax contextIn 0) [k₁.pcbRunning] live qs₁ := by
    rw [runner]
    exact S₁.placed.congr rfl rfl rfl (fun _ _ => rfl) (fun _ _ => rfl) fun _ _ => rfl
  rw [← runner] at kept
  refine ⟨k₁.procs.setEax contextIn 0, ⟨woke.clock, fun q => ?_⟩, ?_⟩
  · rcases woke.each q with same | asleep
    · exact .inl ⟨same.enqueued, same.state⟩
    · exact .inr asleep
  rw [← runner]
  dsimp only at ran
  split at ran
  · exact requestIo_served (k := { k₁ with procs := k₁.procs.setEax contextIn 0 }) P kept ran
  split at ran
  · exact requestIo_served (k := { k₁ with procs := k₁.procs.setEax contextIn 0 }) P kept ran
  split at ran
  · exact yieldPcb_served (k := { k₁ with procs := k₁.procs.setEax contextIn 0 }) P kept ran
  split at ran
  · exact exitPcb_served (k := { k₁ with procs := k₁.procs.setEax contextIn 0 }) P kept ran
  · obtain rfl := congrArg Prod.fst (Option.some.inj ran)
    exact served_stays kept (same_refl _) rfl

theorem waitIo_served (S : Sound k [] live qs trapped) (running : k.pcbRunning = 0) (ran : waitIo k = some (k', outcome)) :
    ∃ s₁, Woke k.procs s₁ ∧ Served s₁ k'.procs 0 k'.pcbRunning := by
  obtain ⟨⟨k₁, ready⟩, checked, ran⟩ := Option.bind_eq_some_iff.mp ran
  obtain ⟨k₂, qs₁, ready₂, checked₂, S₁, checkup, _⟩ := sysCheckIo_sound S
  obtain ⟨rfl, rfl⟩ := Prod.mk.inj (Option.some.inj (checked.symm.trans checked₂))
  refine ⟨k₁.procs, sysCheckIo_woke S checked, ?_⟩
  dsimp only at ran
  split at ran
  · obtain ⟨clock, running, taken, same⟩ := dispatch_served S₁.placed.queued ran
    rw [running]
    exact ⟨Nat.le_of_eq clock.symm, .inr (.inr taken), fun q _ waiting => same q waiting, fun real => (real rfl).elim⟩
  · obtain rfl := congrArg Prod.fst (Option.some.inj ran)
    have idle : k₁.pcbRunning = 0 := checkup.pcbRunning.trans running
    exact ⟨Nat.le_refl _, .inl idle, fun q _ _ => same_refl _ q, fun real => (real rfl).elim⟩

/-! ### Commands -/

theorem suspend_refiled (ran : suspendPcbCommand s name = some s') :
    s' = s ∨ ∃ x, pcbFind s name = some x ∧ (s.state x).cls ≠ .system ∧ Refiled s s' x := by
  obtain ⟨found, searched, ran⟩ := Option.bind_eq_some_iff.mp ran
  split at ran
  · cases ran
    exact .inl rfl
  split at ran
  · cases ran
    exact .inl rfl
  rename_i user
  exact .inr ⟨found, searched, user, refile_refiled (fun s => { s.state found with dpatch := .suspended }) ran⟩

theorem resume_refiled (ran : resumePcbCommand s name = some s') :
    s' = s ∨ ∃ x, pcbFind s name = some x ∧ Refiled s s' x := by
  obtain ⟨found, searched, ran⟩ := Option.bind_eq_some_iff.mp ran
  split at ran
  · cases ran
    exact .inl rfl
  exact .inr ⟨found, searched, refile_refiled (fun s => { s.state found with dpatch := .active }) ran⟩

theorem setPriority_refiled {pri : Nat} (ran : setPcbPriority s x pri = some s') : s' = s ∨ Refiled s s' x := by
  unfold setPcbPriority at ran
  split at ran
  · exact .inr (refile_refiled (fun s => { s.state x with pri := pri }) ran)
  · cases ran
    exact .inl rfl

/-- A process that is deleted is left as it was, or is no more. -/
theorem delete_same {freedStack freedPcb : Int} (ran : deletePcbCommand s name freedStack freedPcb = some s') :
    s'.clock = s.clock ∧ ∀ q, Same s s' q ∨ deleted s name = some q ∧ (s'.state q).exec = .blocked := by
  obtain ⟨found, searched, ran⟩ := Option.bind_eq_some_iff.mp ran
  rw [deleted_eq searched]
  by_cases missed : found = 0
  · rw [if_pos missed] at ran
    cases ran
    exact ⟨rfl, fun q => .inl (same_refl _ q)⟩
  rw [if_neg missed] at ran
  by_cases system : (s.state found).cls = .system
  · rw [if_pos system] at ran
    cases ran
    exact ⟨rfl, fun q => .inl (same_refl _ q)⟩
  rw [if_neg system] at ran
  rw [if_pos ⟨missed, system⟩]
  obtain ⟨⟨s₁, _⟩, removed, ran⟩ := Option.bind_eq_some_iff.mp ran
  obtain ⟨⟨s₂, _⟩, freed, ran⟩ := Option.bind_eq_some_iff.mp ran
  obtain rfl := Option.some.inj ran
  obtain ⟨clock, same⟩ := remove_same removed
  obtain ⟨-, clock', -, others, own⟩ := free_same freed
  refine ⟨clock'.trans clock, ?_⟩
  intro q
  by_cases here : q = found
  · subst here
    rcases own with kept | blocked
    · exact .inl (same_trans (same q) kept)
    · exact .inr ⟨rfl, blocked⟩
  · exact .inl (same_trans (same q) (others q here))

theorem create_refiled {cls : ProcClassState} {pri : Nat} {entry : Option Entry} {pcb stack : Ptr}
    (ran : createPcb s name cls pri entry pcb stack = some s') : Refiled s s' pcb := by
  unfold createPcb at ran
  obtain ⟨⟨s₁, new⟩, setup, ran⟩ := Option.bind_eq_some_iff.mp ran
  obtain ⟨s₂, init, inserted⟩ : ∃ s₂,
      (entry.elim (some s₁) fun e => pcbContextInit s₁ new e.func e.fargs e.fargc) = some s₂ ∧
        pcbInsert s₂ new = some s' := by
    cases entry with
    | none => exact ⟨s₁, rfl, ran⟩
    | some e => exact Option.bind_eq_some_iff.mp ran
  have real : new ≠ 0 := by
    intro null
    rw [null] at inserted
    unfold pcbInsert at inserted
    rw [if_pos rfl] at inserted
    cases inserted
  obtain ⟨rfl, -, spawned⟩ := (pcbSetup_spawned setup).resolve_left real
  have spawned : Spawned s s₂ new stack := by
    cases entry with
    | none =>
      cases init
      exact spawned
    | some e => exact pcbContextInit_spawned spawned init
  refine refiled_after spawned.clock ?_ (insert_refiled inserted).1
  intro q other
  exact ⟨congrFun spawned.enqueued q, congrArg Pcb.state (spawned.others q other)⟩

/-! ### From the check of the devices to the end of a request -/

theorem woke_filed (woke : Woke s s') (filed : (s'.state q).queueSelector = 0) :
    s.clock ≤ s'.enqueued q ∨ Same s s' q := by
  obtain ⟨ready, active⟩ := selector_active.mp filed
  rcases woke.each q with same | ⟨_, stamped⟩
  · exact .inr same
  · refine .inl (stamped ?_ active)
    rw [ready]
    exact fun blocked => nomatch blocked

/-- Who is in the ready queue afterwards, or has been taken from it, was there before or has a new stamp. -/
theorem served_enters (woke : Woke s t) (served : Served t s' r h) (real : q ≠ 0)
    (enters : (s'.state q).queueSelector = 0 ∨ q = h ∧ q ≠ r) :
    s.clock ≤ s'.enqueued q ∨ (s.state q).queueSelector = 0 ∧ s'.enqueued q = s.enqueued q ∧
      (s'.state q).pri = (s.state q).pri := by
  have before : ∀ state : PcbState, (t.state q).queueSelector = 0 → s'.enqueued q = t.enqueued q →
      s'.state q = state → state.pri = (t.state q).pri → s.clock ≤ s'.enqueued q ∨
        (s.state q).queueSelector = 0 ∧ s'.enqueued q = s.enqueued q ∧ (s'.state q).pri = (s.state q).pri := by
    intro state filed enqueued now pri
    rw [enqueued, now, pri]
    rcases woke_filed woke filed with stamped | same
    · exact .inl stamped
    · rw [same.state] at filed ⊢
      exact .inr ⟨filed, same.enqueued, rfl⟩
  by_cases taken : q = h ∧ q ≠ r
  · obtain ⟨rfl, other⟩ := taken
    rcases served.chosen with null | own | taken
    · exact (real null).elim
    · exact (other own).elim
    · exact before _ taken.filed taken.enqueued taken.state rfl
  · have filed := enters.resolve_right taken
    by_cases own : q = r
    · subst own
      exact .inl (Nat.le_trans woke.clock (served.own real filed))
    · have same := served.others q own fun chosen => taken ⟨chosen, own⟩
      exact before _ (same.state ▸ filed) same.enqueued rfl (by rw [same.state])

theorem served_waits (woke : Woke s t) (served : Served t s' r h) (filed : (s.state p).queueSelector = 0)
    (other : p ≠ r) (waits : p ≠ h) : Same s s' p := by
  refine same_trans ?_ (served.others p other waits)
  rcases woke.each p with same | ⟨blocked, _⟩
  · exact same
  · rw [(selector_active.mp filed).1] at blocked
    cases blocked

end Mpx.System

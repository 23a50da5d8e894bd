import Mpx.System.Completion

/-! # Switching processes

What the parts of `sys_call` do to the invariant: a process blocks, yields or exits, and the head of
the active ready queue runs. -/

namespace Mpx.System
open Function Library.Links Mpx.Process Mpx.Device

variable {k k' : Kernel} {loose loose' live : List Ptr} {qs qs' : Fin 4 → List Ptr}
  {trapped trapped' : Ptr → Option Trap} {d : Fin 4} {p q r : Ptr} {s s' : Procs} {c : CtxPtr} {rest : List Ptr}

theorem devicesOk_congr {pend : Fin 4 → List Ptr} (ok : DevicesOk k pend) (ports : k'.ports = k.ports)
    (iocbs : k'.iocbs = k.iocbs) : DevicesOk k' pend := by
  refine ⟨fun d => ?_, ok.apart⟩
  rw [ports, iocbs]
  exact ok.port d

theorem same_ports (ports : k'.ports = k.ports) : SameRequests k k' := by
  have history : ∀ d, k'.history d = k.history d := fun d => by
    unfold Kernel.history
    rw [ports]
  exact ⟨fun d => by rw [history], fun d => by rw [history], fun d n _ => by rw [history]⟩

/-- A step that leaves the devices alone and moves processes between queues of the same kind. -/
theorem sound_congr (S : Sound k loose live qs trapped) (ports : k'.ports = k.ports)
    (iocbs : k'.iocbs = k.iocbs) (placed : Placed k'.procs loose' live qs')
    (blocked : ∀ q, Blocked qs' q ↔ Blocked qs q) (members : ∀ q i, q ∈ qs' i → ∃ j, q ∈ qs j)
    (saved : ∀ i, ∀ q ∈ qs i, ∀ c, (k'.procs.pcbs q).pctxt = some c →
      (k.procs.pcbs q).pctxt = some c ∧ k'.procs.contexts c = k.procs.contexts c) :
    Sound k' loose' live qs' trapped := by
  obtain ⟨pend, ok⟩ := S.devices
  have same := same_ports ports
  exact ⟨⟨pend, devicesOk_congr ok ports iocbs⟩, placed, requested_congr S.requested (wanting_same same) blocked,
    delivered_congr S.delivered same blocked members saved⟩

/-! ### Running the next process -/

theorem mem_update_erase_old {i j : Fin 4} (member : q ∈ update qs i ((qs i).erase p) j) : q ∈ qs j := by
  by_cases same : j = i
  · subst same
    rw [update_self] at member
    exact List.mem_of_mem_erase member
  · rwa [update_of_ne same] at member

/-- A ready process is taken out of its queue. -/
theorem take_sound (S : Sound k loose live qs trapped) {i : Fin 4} (member : p ∈ qs i) (calm : i = 0 ∨ i = 2) :
    ∃ procs, pcbRemove k.procs p = some (procs, 0) ∧ Relinked k.procs procs ∧
      procs.enqueued = k.procs.enqueued ∧
      Sound { k with procs := procs } (p :: loose) live (update qs i ((qs i).erase p)) trapped := by
  obtain ⟨procs, removed, relinked, _, enqueued, placed⟩ := take_placed S.placed member
  refine ⟨procs, removed, relinked, enqueued, ?_⟩
  refine sound_congr S rfl rfl placed ?_ (fun q j inside => ⟨j, mem_update_erase_old inside⟩) ?_
  · intro q
    unfold Blocked
    cases calm with
    | inl zero => rw [zero, update_of_ne (by decide), update_of_ne (by decide)]
    | inr two => rw [two, update_of_ne (by decide), update_of_ne (by decide)]
  · intro i q _ c at_c
    rw [relinked.pctxt] at at_c
    exact ⟨at_c, congrFun relinked.contexts c⟩

theorem readyHead_eq (S : Sound k loose live qs trapped) : readyHead k = (qs 0).headD 0 :=
  (S.placed.queued.queue 0).chain.head

theorem readyHead_null (S : Sound k loose live qs trapped) : readyHead k = 0 ↔ qs 0 = [] :=
  queue_head_null_iff (S.placed.queued.queue 0)

theorem ready_state (P : Placed s loose live qs) (member : p ∈ qs 0) :
    (s.state p).exec = .ready ∧ (s.state p).dpatch = .active := by
  have filed := P.queued.filed 0 p member
  unfold PcbState.queueSelector at filed
  cases exec : (s.state p).exec <;> cases dpatch : (s.state p).dpatch <;> simp [exec, dpatch] at filed
  exact ⟨rfl, rfl⟩

/-- `p` runs in its saved context `c`. -/
structure Runs (k k' : Kernel) (p : Ptr) (c : CtxPtr) : Prop where
  pcbRunning : k'.pcbRunning = p
  contextOriginal : k'.contextOriginal = k.contextOriginal
  ports : k'.ports = k.ports
  state : (k'.procs.state p).exec = .running ∧ (k'.procs.state p).dpatch = .active
  pctxt : (k.procs.pcbs p).pctxt = some c
  contexts : k'.procs.contexts = k.procs.contexts

/-- A loose process gets any state and any context. -/
theorem loose_sound (S : Sound k loose live qs trapped) (member : p ∈ loose) (pcb : Pcb)
    (next : pcb.pNext = k.procs.pNext p) (stack : pcb.pstackseg = (k.procs.pcbs p).pstackseg)
    (ports : k'.ports = k.ports) (iocbs : k'.iocbs = k.iocbs) (procs : k'.procs = k.procs.setPcb p pcb) :
    Sound k' loose live qs trapped := by
  have others : ∀ q, q ∉ loose → k'.procs.pcbs q = k.procs.pcbs q := by
    intro q outside
    have other : q ≠ p := fun same => outside (same ▸ member)
    rw [procs]
    exact update_of_ne other ..
  refine sound_congr S ports iocbs ?_ (fun _ => Iff.rfl) (fun _ i inside => ⟨i, inside⟩) ?_
  · refine S.placed.congr ?_ ?_ ?_ others ?_ ?_
    all_goals rw [procs]
    · rfl
    · rfl
    · rfl
    · intro q _
      show (update k.procs.pcbs p pcb q).pNext = _
      by_cases same : q = p
      · subst same
        rw [update_self]
        exact next
      · rw [update_of_ne same]
        rfl
    · intro q _
      show (update k.procs.pcbs p pcb q).pstackseg = _
      by_cases same : q = p
      · subst same
        rw [update_self]
        exact stack
      · rw [update_of_ne same]
  · intro i q inside c at_c
    rw [others q (S.placed.apart inside)] at at_c
    refine ⟨at_c, ?_⟩
    rw [procs]
    rfl

theorem runPcb_sound (S : Sound k loose live qs trapped) (member : p ∈ loose)
    (active : (k.procs.state p).dpatch = .active) (saved : (k.procs.pcbs p).pctxt = some c) :
    ∃ k', runPcb k p = (k', .returned (some c)) ∧ Sound k' loose live qs trapped ∧ Runs k k' p c := by
  have pctxt : ((k.procs.setExec p .running).pcbs p).pctxt = some c :=
    ((setState_restated k.procs p _).pcb p).2.2.trans saved
  have state : (k.procs.setExec p .running).state p = { k.procs.state p with exec := .running } := by
    show (k.procs.setState p _).state p = _
    rw [setState_state, if_pos rfl]
  refine ⟨{ k with procs := k.procs.setExec p .running, pcbRunning := p }, ?_, ?_, ?_⟩
  · unfold runPcb
    dsimp only
    rw [pctxt]
  · exact loose_sound S member { k.procs.pcbs p with state := { k.procs.state p with exec := .running } }
      rfl rfl rfl rfl rfl
  · refine ⟨rfl, rfl, rfl, ?_, saved, rfl⟩
    show ((k.procs.setExec p .running).state p).exec = _ ∧ ((k.procs.setExec p .running).state p).dpatch = _
    rw [state]
    exact ⟨rfl, active⟩

theorem setExec_before {exec : ProcExecState} {a b x : Ptr} :
    Before (s.setExec x exec) a b ↔ Before s a b := by
  have pri : ∀ q, ((s.setExec x exec).state q).pri = (s.state q).pri := by
    intro q
    show ((s.setState x _).state q).pri = _
    rw [setState_state]
    split
    · rename_i same
      rw [same]
    · rfl
  unfold Before
  rw [pri, pri]
  exact Iff.rfl

theorem dispatch_sound (S : Sound k loose live qs trapped) (ready : qs 0 ≠ []) :
    ∃ k' p c rest, qs 0 = p :: rest ∧ dispatch k = some (k', .returned (some c)) ∧
      Sound k' (p :: loose) live (update qs 0 rest) trapped ∧ Runs k k' p c ∧
      ∀ q ∈ rest, Before k'.procs p q := by
  obtain ⟨p, rest, row⟩ := List.exists_cons_of_ne_nil ready
  have member : p ∈ qs 0 := row ▸ List.mem_cons_self
  have head : readyHead k = p := by rw [readyHead_eq S, row, List.headD_cons]
  obtain ⟨procs, removed, relinked, enqueued, S₁⟩ := take_sound S member (.inl rfl)
  obtain ⟨c, saved, _⟩ := S.placed.saved 0 p member
  have active := (ready_state S.placed member).2
  rw [row, List.erase_cons_head] at S₁
  rw [← relinked.state] at active
  rw [← relinked.pctxt] at saved
  obtain ⟨k', ran, S', runs⟩ := runPcb_sound S₁ List.mem_cons_self active saved
  refine ⟨k', p, c, rest, row, ?_, S', ?_, ?_⟩
  · unfold dispatch
    rw [head, removed]
    exact congrArg some ran
  · obtain ⟨running, original, ports, state, saved, contexts⟩ := runs
    refine ⟨running, original, ports, state, ?_, contexts.trans relinked.contexts⟩
    rw [← relinked.pctxt]
    exact saved
  · intro q later
    have before := (List.pairwise_cons.mp (row ▸ S.placed.sorted)).1 q later
    obtain rfl := (Prod.mk.inj ran).1
    exact setExec_before.mpr (relinked_before relinked enqueued before)

/-! ### Filing a process as ready -/

theorem loose_awake (S : Sound k loose live qs trapped) (member : p ∈ loose) : ¬Blocked qs p := by
  intro asleep
  obtain ⟨i, inside, _⟩ := blocked_filed asleep
  exact S.placed.apart inside member

theorem wanting_blocked (R : Requested k qs) {j : Nat} (found : (wanting k d)[j]? = some p) : Blocked qs p :=
  R.blocked d p (List.mem_of_getElem? found)

/-- A trap without a request is recorded for a process that is in no queue. -/
theorem record_sound (S : Sound k loose live qs trapped) (outside : ∀ i, p ∉ qs i) (record : Option Trap)
    (plain : ∀ t, record = some t → t.request = none) :
    Sound k loose live qs (update trapped p record) := by
  obtain ⟨devices, placed, requested, D⟩ := S
  have other : ∀ i, ∀ q ∈ qs i, q ≠ p := fun i q inside same => outside i (same ▸ inside)
  have own : ∀ q t, update trapped p record q = some t →
      trapped q = some t ∧ q ≠ p ∨ q = p ∧ t.request = none := by
    intro q t found
    by_cases same : q = p
    · subst same
      rw [update_self] at found
      exact .inr ⟨rfl, plain t found⟩
    · rw [update_of_ne same] at found
      exact .inl ⟨found, same⟩
  refine ⟨devices, placed, requested, ?_, ?_, ?_, ?_⟩
  · intro q there t found d n asks
    cases own q t found with
    | inl old => exact D.accepted q there t old.1 d n asks
    | inr new =>
      rw [new.2] at asks
      cases asks
  · intro d j q found
    obtain ⟨i, inside, _⟩ := blocked_filed (wanting_blocked requested found)
    rw [update_of_ne (other i q inside)]
    exact D.pending d j q found
  · intro q there awake t found d n asks
    cases own q t found with
    | inl old => exact D.done q there awake t old.1 d n asks
    | inr new =>
      rw [new.2] at asks
      cases asks
  · intro i q inside t found c at_c
    rw [update_of_ne (other i q inside)] at found
    exact D.saved i q inside t found c at_c

/-- A loose process is filed as ready, with the result of its last trap in its context. -/
theorem insert_sound (S : Sound k loose live qs trapped) (member : p ∈ loose)
    (exec : (k.procs.state p).exec = .ready) (at_c : (k.procs.pcbs p).pctxt = some c)
    (own : c.segment = (k.procs.pcbs p).pstackseg)
    (fits : ∀ t, trapped p = some t → k.procs.contexts c = { t.context with eax := result k t }) :
    ∃ procs i, pcbInsert k.procs p = some procs ∧ Relinked k.procs procs ∧
      (k.procs.state p).queueSelector = i ∧
      Sound { k with procs := procs } (loose.erase p) live
        (update qs i (joined k.procs i p (qs i))) trapped := by
  have resting : (k.procs.state p).exec ≠ .running := by
    rw [exec]
    exact fun same => nomatch same
  obtain ⟨procs, inserted, relinked, placed⟩ := put_placed S.placed member resting ⟨c, at_c, own⟩
  refine ⟨procs, _, inserted, relinked, rfl, ?_⟩
  generalize selected : (k.procs.state p).queueSelector = i at placed ⊢
  have ready : i = 0 ∨ i = 2 := by
    rw [← selected]
    unfold PcbState.queueSelector
    cases dpatch : (k.procs.state p).dpatch <;> simp [exec]
  have blocked : ∀ q, Blocked (update qs i (joined k.procs i p (qs i))) q ↔ Blocked qs q := by
    intro q
    unfold Blocked
    cases ready with
    | inl zero => rw [zero, update_of_ne (by decide), update_of_ne (by decide)]
    | inr two => rw [two, update_of_ne (by decide), update_of_ne (by decide)]
  obtain ⟨⟨pend, ok⟩, _, requested, D⟩ := S
  have same : SameRequests k { k with procs := procs } := same_ports rfl
  refine ⟨⟨pend, devicesOk_congr ok rfl rfl⟩, placed, requested_congr requested (wanting_same same) blocked,
    D.accepted, D.pending, ?_, ?_⟩
  · intro q there awake
    rw [blocked] at awake
    exact D.done q there awake
  · intro j q inside t found c' at_c'
    rw [show ({ k with procs := procs } : Kernel).procs = procs from rfl] at at_c' ⊢
    rw [relinked.pctxt] at at_c'
    rw [relinked.contexts, result_same same]
    cases mem_update_joined.mp inside with
    | inl new =>
      obtain ⟨rfl, _⟩ := new
      obtain rfl : c = c' := Option.some.inj (at_c.symm.trans at_c')
      exact fits t found
    | inr old => exact D.saved j q old t found c' at_c'

/-- A process that stops running: its context is where the trap left it. -/
def parked (s : Procs) (x : Ptr) (contextIn : CtxPtr) (exec : ProcExecState) : Procs :=
  s.setPcb x { s.pcbs x with pctxt := some contextIn, state := { s.state x with exec := exec } }

theorem setPctxt_setExec (s : Procs) (x : Ptr) (contextIn : CtxPtr) (exec : ProcExecState) :
    (s.setPctxt x (some contextIn)).setExec x exec = parked s x contextIn exec := by
  unfold parked Procs.setExec Procs.setState Procs.setPctxt Procs.setPcb Procs.state
  simp only [update_self, update_idem]

theorem setExec_setPctxt (s : Procs) (x : Ptr) (contextIn : CtxPtr) (exec : ProcExecState) :
    (s.setExec x exec).setPctxt x (some contextIn) = parked s x contextIn exec := by
  unfold parked Procs.setExec Procs.setState Procs.setPctxt Procs.setPcb Procs.state
  simp only [update_self, update_idem]

theorem parked_pcb (s : Procs) (x : Ptr) (contextIn : CtxPtr) (exec : ProcExecState) :
    (parked s x contextIn exec).pcbs x =
      { s.pcbs x with pctxt := some contextIn, state := { s.state x with exec := exec } } :=
  update_self ..

theorem parked_other {contextIn : CtxPtr} {exec : ProcExecState} {x : Ptr} (other : q ≠ x) :
    (parked s x contextIn exec).pcbs q = s.pcbs q :=
  update_of_ne other ..

theorem parked_state (s : Procs) (x : Ptr) (contextIn : CtxPtr) (exec : ProcExecState) :
    (parked s x contextIn exec).state x = { s.state x with exec := exec } := by
  show ((parked s x contextIn exec).pcbs x).state = _
  rw [parked_pcb]

theorem parked_sound (S : Sound k loose live qs trapped) (member : r ∈ loose) (contextIn : CtxPtr)
    (exec : ProcExecState) :
    Sound { k with procs := parked k.procs r contextIn exec } loose live qs trapped :=
  loose_sound S member
    { k.procs.pcbs r with pctxt := some contextIn, state := { k.procs.state r with exec := exec } }
    rfl rfl rfl rfl rfl

/-- IDLE: the head of the active ready queue runs, and the yielding process joins the queue. -/
theorem yield_sound {contextIn : CtxPtr} {t : Trap} (S : Sound k [r] live qs trapped) (running : k.pcbRunning = r)
    (active : (k.procs.state r).dpatch = .active) (original : k.contextOriginal ≠ none) (ready : qs 0 ≠ [])
    (own : contextIn.segment = (k.procs.pcbs r).pstackseg) (plain : t.request = none)
    (context : k.procs.contexts contextIn = { t.context with eax := 0 }) :
    ∃ k' p c qs', p ∈ qs 0 ∧ yieldPcb k contextIn = some (k', .returned (some c)) ∧
      Sound k' [p] live qs' (update trapped r (some t)) ∧ Runs k k' p c ∧
      ∀ q ∈ qs' 0, q ≠ r → Before k'.procs p q := by
  subst running
  obtain ⟨p, rest, row⟩ := List.exists_cons_of_ne_nil ready
  have member : p ∈ qs 0 := row ▸ List.mem_cons_self
  have head : readyHead k = p := by rw [readyHead_eq S, row, List.headD_cons]
  have real : k.pcbRunning ≠ 0 := (S.placed.loose k.pcbRunning List.mem_cons_self).1
  have apart : p ≠ k.pcbRunning := fun same => S.placed.apart member (same ▸ List.mem_cons_self)
  have outside := (S.placed.loose k.pcbRunning List.mem_cons_self).2.2
  obtain ⟨procs, removed, relinked, enqueued, S₁⟩ := take_sound S member (.inl rfl)
  obtain ⟨c, saved, _⟩ := S.placed.saved 0 p member
  have chosen := (ready_state S.placed member).2
  rw [row, List.erase_cons_head] at S₁
  have outside₁ : ∀ i, k.pcbRunning ∉ update qs 0 rest i := by
    intro i inside
    by_cases zero : i = 0
    · subst zero
      rw [update_self] at inside
      exact outside 0 (row ▸ List.mem_cons_of_mem p inside)
    · rw [update_of_ne zero] at inside
      exact outside i inside
  have S₂ : Sound { k with procs := procs } [p, k.pcbRunning] live (update qs 0 rest) (update trapped k.pcbRunning (some t)) :=
    record_sound S₁ outside₁ (some t) fun u same => Option.some.inj same ▸ plain
  -- The yielding process is ready again, with its context where the trap left it.
  have there : k.pcbRunning ∈ [p, k.pcbRunning] := List.mem_cons_of_mem p List.mem_cons_self
  have S₃ := parked_sound S₂ there contextIn .ready
  have exec : ((parked procs k.pcbRunning contextIn .ready).state k.pcbRunning).exec = .ready := by rw [parked_state]
  have at_r : ((parked procs k.pcbRunning contextIn .ready).pcbs k.pcbRunning).pctxt = some contextIn := by rw [parked_pcb]
  have own_r : contextIn.segment = ((parked procs k.pcbRunning contextIn .ready).pcbs k.pcbRunning).pstackseg := by
    rw [parked_pcb, own]
    exact (relinked.pstackseg k.pcbRunning).symm
  have fits : ∀ u, update trapped k.pcbRunning (some t) k.pcbRunning = some u →
      procs.contexts contextIn = { u.context with eax := result k u } := by
    intro u found
    obtain rfl : t = u := by simpa using found
    rw [relinked.contexts, context]
    unfold result
    rw [plain]
  obtain ⟨procs', i, inserted, relinked', selected, S₄⟩ := insert_sound S₃ there exec at_r own_r fits
  have front : i = 0 := by
    rw [← selected]
    show ((parked procs k.pcbRunning contextIn .ready).state k.pcbRunning).queueSelector = 0
    rw [parked_state, selector_ready, relinked.state, if_pos active]
  subst front
  have single : [p, k.pcbRunning].erase k.pcbRunning = [p] := by
    rw [List.erase_cons_tail (by simpa using apart), List.erase_cons_head]
  rw [single] at S₄
  -- The chosen process has stayed as it was.
  have kept : ∀ q, q ≠ k.pcbRunning → procs'.state q = k.procs.state q ∧ (procs'.pcbs q).pctxt = (k.procs.pcbs q).pctxt := by
    intro q other
    rw [relinked'.state, relinked'.pctxt]
    show ((parked procs k.pcbRunning contextIn .ready).pcbs q).state = _ ∧
      ((parked procs k.pcbRunning contextIn .ready).pcbs q).pctxt = _
    rw [parked_other other]
    exact ⟨relinked.state q, relinked.pctxt q⟩
  have chosen' : (procs'.state p).dpatch = .active := by rw [(kept p apart).1, chosen]
  have saved' : (procs'.pcbs p).pctxt = some c := (kept p apart).2.trans saved
  obtain ⟨k', ran, S', runs⟩ := runPcb_sound S₄ List.mem_cons_self chosen' saved'
  refine ⟨k', p, c, _, member, ?_, S', ?_, ?_⟩
  · unfold yieldPcb
    rw [if_neg original]
    dsimp only
    rw [head, if_pos (S.placed.queued.nonnull member), removed]
    show (if k.pcbRunning ≠ 0 then _ else _) = _
    rw [if_pos real, setPctxt_setExec]
    show (pcbInsert (parked procs k.pcbRunning contextIn .ready) k.pcbRunning).bind _ = _
    rw [inserted]
    exact congrArg some ran
  · obtain ⟨running', original', ports, state, _, contexts⟩ := runs
    exact ⟨running', original', ports, state, saved, contexts.trans (relinked'.contexts.trans relinked.contexts)⟩
  · intro q inside other
    have later : q ∈ rest := by
      rw [update_self, mem_joined, update_self] at inside
      exact inside.resolve_left other
    have before := (List.pairwise_cons.mp (row ▸ S.placed.sorted)).1 q later
    have stamps : ∀ a, a ≠ k.pcbRunning → procs'.enqueued a = k.procs.enqueued a := by
      intro a apart
      rw [(pcbInsert_relinked inserted).2.2, stamp_enqueued, if_neg fun both => apart both.2]
      exact congrFun enqueued a
    obtain rfl := (Prod.mk.inj ran).1
    apply setExec_before.mpr
    unfold Before
    rw [(kept p apart).1, (kept q other).1, stamps p apart, stamps q other]
    exact before

/-! ### Blocking -/

/-- The log after a request was accepted at `d`. -/
structure Accepts (k k' : Kernel) (d : Fin 4) (a : Request) : Prop where
  accepted : (k'.history d).accepted = (k.history d).accepted ++ [a]
  retired : ∀ e, (k'.history e).retired = (k.history e).retired
  ports : ∀ e, e ≠ d → k'.ports e = k.ports e
  count : ∀ e, ∀ n < (k.history e).retired.length, (k'.history e).count n = (k.history e).count n
  order : (k.history d).retired.length ≤ (k.history d).accepted.length

theorem accepts_step {pend : Fin 4 → List Ptr} {a : Request} (ok : DevicesOk k pend)
    (step : PortStep k k' d [a] []) : Accepts k k' d a := by
  have retired : (k'.history d).retired = (k.history d).retired := step.retired.trans (List.append_nil _)
  refine ⟨step.accepted, ?_, step.ports, ?_, ?_⟩
  · intro e
    by_cases same : e = d
    · subst same
      exact retired
    · exact congrArg (fun port : Port => port.history.retired) (step.ports e same)
  · intro e n before
    by_cases same : e = d
    · subst same
      obtain ⟨bytes, moved⟩ := step.moved
      refine count_frozen (Nat.ne_of_lt ?_) moved
      rw [show (k'.ports e).history.retired = (k.history e).retired from retired]
      exact before
    · unfold Kernel.history
      rw [step.ports e same]
  · have fifo : (k.history d).accepted = (k.history d).retired ++ _ := (ok.port d).accepted
    rw [fifo, List.length_append]
    exact Nat.le_add_right _ _

theorem wanting_accepts {a : Request} (A : Accepts k k' d a) (e : Fin 4) :
    wanting k' e = if e = d then wanting k d ++ [a.pcb] else wanting k e := by
  by_cases same : e = d
  · subst same
    rw [if_pos rfl]
    unfold wanting
    rw [A.accepted, A.retired, List.drop_append_of_le_length A.order, List.map_append]
    rfl
  · rw [if_neg same]
    unfold wanting Kernel.history
    rw [A.ports e same]

theorem blocked_joined {i : Fin 4} (selected : i = 1) :
    Blocked (update qs i (joined s i p (qs i))) q ↔ q = p ∨ Blocked qs q := by
  subst selected
  unfold Blocked
  rw [update_self, update_of_ne (by decide), mem_joined, or_assoc]

theorem accepts_requested {a : Request} {i : Fin 4} (R : Requested k qs) (A : Accepts k k' d a)
    (awake : ¬Blocked qs a.pcb) (selected : i = 1) :
    Requested k' (update qs i (joined s i a.pcb (qs i))) := by
  have absent : ∀ e, a.pcb ∉ wanting k e := fun e member => awake (R.blocked e a.pcb member)
  have cases_want : ∀ e q, q ∈ wanting k' e ↔ (e = d ∧ q = a.pcb) ∨ q ∈ wanting k e := by
    intro e q
    rw [wanting_accepts A]
    by_cases same : e = d
    · subst same
      rw [if_pos rfl, List.mem_append, List.mem_singleton]
      simp [or_comm]
    · rw [if_neg same]
      simp [same]
  refine ⟨?_, ?_, ?_, ?_⟩
  · intro e q member
    rw [blocked_joined selected]
    cases (cases_want e q).mp member with
    | inl new => exact .inl new.2
    | inr old => exact .inr (R.blocked e q old)
  · intro q asleep
    cases (blocked_joined selected).mp asleep with
    | inl new => exact ⟨d, (cases_want d q).mpr (.inl ⟨rfl, new⟩)⟩
    | inr old =>
      obtain ⟨e, member⟩ := R.served q old
      exact ⟨e, (cases_want e q).mpr (.inr member)⟩
  · intro e
    rw [wanting_accepts A]
    by_cases same : e = d
    · rw [if_pos same]
      refine List.nodup_append.mpr ⟨R.once d, List.nodup_singleton _, ?_⟩
      intro q left q' right equal
      obtain rfl := List.mem_singleton.mp right
      exact absent d (equal ▸ left)
    · rw [if_neg same]
      exact R.once e
  · intro e f q left right
    cases (cases_want e q).mp left with
    | inl new =>
      cases (cases_want f q).mp right with
      | inl new' => exact new.1.trans new'.1.symm
      | inr old => exact (absent f (new.2 ▸ old)).elim
    | inr old =>
      cases (cases_want f q).mp right with
      | inl new => exact (absent e (new.2 ▸ old)).elim
      | inr old' => exact R.apart e f q old old'

/-- Who waits at a place: somebody who did before, or the process of the accepted request, which is last. -/
theorem wanting_position {a : Request} {j : Nat} (A : Accepts k k' d a) (found : (wanting k' e)[j]? = some q) :
    (wanting k e)[j]? = some q ∨
      e = d ∧ q = a.pcb ∧ (k.history e).accepted.length = (k.history e).retired.length + j := by
  rw [wanting_accepts A] at found
  by_cases same : e = d
  · subst same
    rw [if_pos rfl] at found
    by_cases before : j < (wanting k e).length
    · rw [List.getElem?_append_left before] at found
      exact .inl found
    · rw [List.getElem?_append_right (by omega)] at found
      have last : j = (wanting k e).length ∧ a.pcb = q := by
        rw [List.getElem?_singleton] at found
        split at found
        · exact ⟨by omega, Option.some.inj found⟩
        · cases found
      have count : (wanting k e).length = (k.history e).accepted.length - (k.history e).retired.length := by
        unfold wanting
        rw [List.length_map, List.length_drop]
      have order := A.order
      exact .inr ⟨rfl, last.2.symm, by omega⟩
  · rw [if_neg same] at found
    exact .inl found

theorem accepts_delivered {a : Request} {t : Trap} {i : Fin 4} {contextIn : CtxPtr}
    (S : Sound k loose live qs trapped) (A : Accepts k k' d a) (awake : ¬Blocked qs a.pcb) (selected : i = 1)
    (asks : t.Asks a.pcb d a) (number : t.request = some (d, (k.history d).accepted.length))
    (at_c : (k'.procs.pcbs a.pcb).pctxt = some contextIn)
    (context : k'.procs.contexts contextIn = { t.context with eax := 0 })
    (others : ∀ q, q ≠ a.pcb → (k'.procs.pcbs q).pctxt = (k.procs.pcbs q).pctxt)
    (contexts : k'.procs.contexts = k.procs.contexts) :
    Delivered k' live (update qs i (joined s i a.pcb (qs i))) (update trapped a.pcb (some t)) := by
  have D := S.delivered
  have own : ∀ q u, update trapped a.pcb (some t) q = some u → q = a.pcb ∧ t = u ∨ q ≠ a.pcb ∧ trapped q = some u := by
    intro q u found
    by_cases same : q = a.pcb
    · subst same
      rw [update_self] at found
      exact .inl ⟨rfl, Option.some.inj found⟩
    · rw [update_of_ne same] at found
      exact .inr ⟨same, found⟩
  refine ⟨?_, ?_, ?_, ?_⟩
  · intro q there u found e n request
    cases own q u found with
    | inl new =>
      obtain ⟨rfl, rfl⟩ := new
      obtain ⟨rfl, rfl⟩ : d = e ∧ (k.history d).accepted.length = n := by simpa using number.symm.trans request
      refine ⟨a, ?_, asks⟩
      rw [A.accepted]
      simp
    | inr old =>
      obtain ⟨b, known, asked⟩ := D.accepted q there u old.2 e n request
      refine ⟨b, ?_, asked⟩
      by_cases same : e = d
      · subst same
        rw [A.accepted, List.getElem?_append_left (List.getElem?_eq_some_iff.mp known).1]
        exact known
      · unfold Kernel.history
        rw [A.ports e same]
        exact known
  · intro e j q found
    rw [A.retired]
    cases wanting_position A found with
    | inl old =>
      have other : q ≠ a.pcb := fun same => awake (same ▸ wanting_blocked S.requested old)
      rw [update_of_ne other]
      exact D.pending e j q old
    | inr last =>
      obtain ⟨rfl, rfl, number'⟩ := last
      refine ⟨t, update_self .., ?_⟩
      rw [number, number']
  · intro q there awake' u found e n request
    rw [A.retired]
    rw [blocked_joined selected] at awake'
    cases own q u found with
    | inl new => exact (awake' (.inl new.1)).elim
    | inr old => exact D.done q there (fun asleep => awake' (.inr asleep)) u old.2 e n request
  · intro j q inside u found c at_c'
    cases own q u found with
    | inl new =>
      obtain ⟨rfl, rfl⟩ := new
      obtain rfl : contextIn = c := Option.some.inj (at_c.symm.trans at_c')
      rw [context]
      unfold result
      rw [number]
      dsimp only
      rw [A.retired, if_neg (Nat.not_lt.mpr A.order)]
    | inr old =>
      have there : q ∈ qs j := (mem_update_joined.mp inside).resolve_left fun new => old.1 new.1
      rw [others q old.1] at at_c'
      rw [contexts, result_congr A.retired A.count]
      exact D.saved j q there u old.2 c at_c'

/-- A process whose request was accepted is filed as blocked, with its context where the trap left it. -/
theorem block_sound {a : Request} {t : Trap} {contextIn : CtxPtr} {pend : Fin 4 → List Ptr}
    (S : Sound k [a.pcb] live qs trapped) (ok : DevicesOk k' pend) (A : Accepts k k' d a)
    (procs : k'.procs = k.procs) (active : (k.procs.state a.pcb).dpatch = .active)
    (own : contextIn.segment = (k.procs.pcbs a.pcb).pstackseg)
    (asks : t.Asks a.pcb d a) (number : t.request = some (d, (k.history d).accepted.length))
    (context : k.procs.contexts contextIn = { t.context with eax := 0 }) :
    ∃ procs' qs', pcbInsert (parked k'.procs a.pcb contextIn .blocked) a.pcb = some procs' ∧
      Sound { k' with procs := procs' } [] live qs' (update trapped a.pcb (some t)) ∧ qs' 0 = qs 0 ∧
      procs'.contexts = k.procs.contexts := by
  have awake := loose_awake S List.mem_cons_self
  have P := (parked_sound S List.mem_cons_self contextIn .blocked).placed
  have state : (parked k.procs a.pcb contextIn .blocked).state a.pcb =
      { k.procs.state a.pcb with exec := .blocked } := parked_state ..
  have resting : ((parked k.procs a.pcb contextIn .blocked).state a.pcb).exec ≠ .running := by
    rw [state]
    exact fun same => nomatch same
  have saved : ∃ c, ((parked k.procs a.pcb contextIn .blocked).pcbs a.pcb).pctxt = some c ∧
      c.segment = ((parked k.procs a.pcb contextIn .blocked).pcbs a.pcb).pstackseg := by
    rw [parked_pcb]
    exact ⟨contextIn, rfl, own⟩
  have selected : ((parked k.procs a.pcb contextIn .blocked).state a.pcb).queueSelector = 1 := by
    rw [state]
    unfold PcbState.queueSelector
    rw [active]
    rfl
  obtain ⟨procs', inserted, relinked, P'⟩ := put_placed P List.mem_cons_self resting saved
  rw [List.erase_cons_head] at P'
  have contexts : procs'.contexts = k.procs.contexts := relinked.contexts
  refine ⟨procs', _, procs ▸ inserted, ⟨⟨pend, devicesOk_congr ok rfl rfl⟩, P', ?_, ?_⟩, ?_, contexts⟩
  · exact accepts_requested S.requested ⟨A.accepted, A.retired, A.ports, A.count, A.order⟩ awake selected
  · refine accepts_delivered S ⟨A.accepted, A.retired, A.ports, A.count, A.order⟩ awake selected asks number
      ?_ (by rw [← context]; exact congrFun contexts contextIn) ?_ contexts
    · show (procs'.pcbs a.pcb).pctxt = _
      rw [relinked.pctxt, parked_pcb]
    · intro q other
      show (procs'.pcbs q).pctxt = _
      rw [relinked.pctxt, parked_other other]
  · rw [selected, update_of_ne (by decide)]

end Mpx.System

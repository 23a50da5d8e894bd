import Mpx.System.Invariant

/-! # Completions

`sys_check_io` keeps the invariant. It retires the head request of every open device with an event
and makes the process behind it ready; nothing else becomes ready. -/

namespace Mpx.System
open Function Library.Links Mpx.Process Mpx.Device

/-- An open device whose head request is complete. -/
def Completes (k : Kernel) (d : Fin 4) : Prop := (k.dcb d).isOpen = true ∧ (k.dcb d).event = true

instance (k : Kernel) (d : Fin 4) : Decidable (Completes k d) := inferInstanceAs (Decidable (_ ∧ _))

/-- The head request of `d` is complete, and it is the one of `p`. -/
def Wakes (k : Kernel) (d : Fin 4) (p : Ptr) : Prop := Completes k d ∧ (wanting k d).head? = some p

def serialDev : Fin 4 → UInt32
  | 0 => com1
  | 1 => com2
  | 2 => com3
  | 3 => com4

theorem serialDevno_dev (d : Fin 4) : serialDevno (serialDev d) = some d := by
  revert d
  decide

/-- What `sys_check_io` over the devices `ds` does to the processes. -/
structure Checkup (k k' : Kernel) (loose : List Ptr) (qs qs' : Fin 4 → List Ptr) (ds : List (Fin 4)) : Prop where
  pcbRunning : k'.pcbRunning = k.pcbRunning
  contextOriginal : k'.contextOriginal = k.contextOriginal
  accepted : ∀ d, (k'.history d).accepted = (k.history d).accepted
  ports : ∀ d, d ∉ ds → k'.ports d = k.ports d
  dpatch : ∀ q, (k'.procs.state q).dpatch = (k.procs.state q).dpatch
  kept : ∀ q ∈ loose, k'.procs.state q = k.procs.state q
  segments : ∀ q, (k'.procs.pcbs q).pstackseg = (k.procs.pcbs q).pstackseg
  contexts : ∀ q ∈ loose, ∀ c, c.segment = (k.procs.pcbs q).pstackseg →
    k'.procs.contexts c = k.procs.contexts c
  members : ∀ q, (∃ i, q ∈ qs' i) ↔ ∃ i, q ∈ qs i
  ready : ∀ q, q ∈ qs' 0 ↔
    q ∈ qs 0 ∨ ∃ d ∈ ds, Wakes k d q ∧ (k.procs.state q).dpatch = .active

variable {k k' k₁ : Kernel} {loose live : List Ptr} {qs qs' qs₁ : Fin 4 → List Ptr}
  {trapped : Ptr → Option Trap} {d : Fin 4} {ds : List (Fin 4)} {p q : Ptr} {s s' : Procs} {count : UInt32}

theorem checkup_refl (k : Kernel) (loose : List Ptr) (qs : Fin 4 → List Ptr)
    (quiet : ∀ d ∈ ds, ¬Completes k d) : Checkup k k loose qs qs ds := by
  refine ⟨rfl, rfl, fun _ => rfl, fun _ _ => rfl, fun _ => rfl, fun _ _ => rfl, fun _ => rfl,
    fun _ _ _ _ => rfl, fun _ => Iff.rfl, ?_⟩
  intro q
  constructor
  · exact .inl
  · intro there
    cases there with
    | inl old => exact old
    | inr new =>
      obtain ⟨d, member, wakes, _⟩ := new
      exact (quiet d member wakes.1).elim

theorem wakes_congr (ports : k'.ports d = k.ports d) : Wakes k' d q ↔ Wakes k d q := by
  unfold Wakes Completes wanting Kernel.dcb Kernel.history
  rw [ports]

theorem checkup_trans (first : Checkup k k₁ loose qs qs₁ [d]) (rest : Checkup k₁ k' loose qs₁ qs' ds)
    (apart : d ∉ ds) : Checkup k k' loose qs qs' (d :: ds) := by
  refine ⟨rest.pcbRunning.trans first.pcbRunning, rest.contextOriginal.trans first.contextOriginal,
    fun e => (rest.accepted e).trans (first.accepted e), ?_, fun q => (rest.dpatch q).trans (first.dpatch q),
    fun q free => (rest.kept q free).trans (first.kept q free),
    fun q => (rest.segments q).trans (first.segments q), ?_, fun q => (rest.members q).trans (first.members q), ?_⟩
  · intro e absent
    have outside : e ≠ d ∧ e ∉ ds := by simpa using absent
    exact (rest.ports e outside.2).trans (first.ports e (by simpa using outside.1))
  · intro q free c own
    rw [rest.contexts q free c (own.trans (first.segments q).symm)]
    exact first.contexts q free c own
  · intro q
    have later : ∀ e ∈ ds, (Wakes k₁ e q ↔ Wakes k e q) := by
      intro e member
      refine wakes_congr (first.ports e ?_)
      have other : e ≠ d := fun same => apart (same ▸ member)
      simpa using other
    rw [rest.ready, first.ready, first.dpatch]
    constructor
    · intro there
      rcases there with (old | ⟨e, member, wakes⟩) | ⟨e, member, wakes, active⟩
      · exact .inl old
      · exact .inr ⟨e, List.mem_cons.mpr (.inl (List.mem_singleton.mp member)), wakes⟩
      · exact .inr ⟨e, List.mem_cons_of_mem d member, (later e member).mp wakes, active⟩
    · intro there
      rcases there with old | ⟨e, member, wakes, active⟩
      · exact .inl (.inl old)
      · cases List.mem_cons.mp member with
        | inl same => exact .inl (.inr ⟨e, List.mem_singleton.mpr same, wakes, active⟩)
        | inr inside => exact .inr ⟨e, inside, (later e inside).mpr wakes, active⟩

/-! ### Waking a process -/

theorem selector_ready (state : PcbState) :
    { state with exec := .ready }.queueSelector = if state.dpatch = .active then 0 else 2 := by
  obtain ⟨exec, dpatch, cls, pri⟩ := state
  cases dpatch <;> rfl

theorem blocked_exec (P : Placed s loose live qs) (asleep : Blocked qs p) : (s.state p).exec = .blocked := by
  have filed : (s.state p).queueSelector = 1 ∨ (s.state p).queueSelector = 3 :=
    asleep.imp (P.queued.filed 1 p) (P.queued.filed 3 p)
  have rests : (s.state p).exec ≠ .running := by
    cases asleep with
    | inl active => exact P.rests 1 p active
    | inr suspended => exact P.rests 3 p suspended
  cases exec : (s.state p).exec with
  | blocked => rfl
  | running => exact (rests exec).elim
  | ready =>
    unfold PcbState.queueSelector at filed
    rw [exec] at filed
    cases dpatch : (s.state p).dpatch <;> simp [dpatch] at filed

theorem wake_placed (P : Placed s loose live qs) (asleep : Blocked qs p) (count : UInt32) :
    ∃ s' qs', wake s p count = some s' ∧ Placed s' loose live qs' ∧ Woken s s' p count ∧
      ∀ q j, q ∈ qs' j ↔
        (q = p ∧ j = if (s.state p).dpatch = .active then 0 else 2) ∨ (q ∈ qs j ∧ q ≠ p) := by
  obtain ⟨i, member⟩ : ∃ i, p ∈ qs i := by
    cases asleep with
    | inl active => exact ⟨1, active⟩
    | inr suspended => exact ⟨3, suspended⟩
  obtain ⟨c, at_c, _⟩ := P.saved i p member
  obtain ⟨s₁, removed, off, refile⟩ := refile_placed P member
  have restated := (setState_restated s₁ p { s₁.state p with exec := .ready }).trans_contexts
    (update s₁.contexts c { s₁.contexts c with eax := count })
  have state : ((s₁.setExec p .ready).setEax c count).state p = { s.state p with exec := .ready } := by
    show (s₁.setState p _).state p = _
    rw [setState_state, if_pos rfl, off.state]
  obtain ⟨s', qs', inserted, _, P', moved⟩ := refile ((s₁.setExec p .ready).setEax c count) restated
    (by rw [state]; exact fun same => nomatch same)
  have woken : wake s p count = some s' := by
    unfold wake
    rw [removed]
    have found : ((s₁.setExec p .ready).pcbs p).pctxt = some c :=
      ((setState_restated s₁ p _).pcb p).2.2.trans ((off.pctxt p).trans at_c)
    show ((s₁.setExec p .ready).pcbs p).pctxt.bind _ = _
    rw [found]
    exact inserted
  rw [state, selector_ready] at moved
  exact ⟨s', qs', woken, P', wake_woken woken, moved⟩

/-! ### Retiring a request -/

theorem wanting_pend {pend : Fin 4 → List Ptr} (ok : DevicesOk k pend) (d : Fin 4) :
    wanting k d = (pend d).map fun a => (k.iocbs a).pcbRq := by
  have fifo : (k.history d).accepted = (k.history d).retired ++ (pend d).map fun a => (k.iocbs a).request :=
    (ok.port d).accepted
  unfold wanting
  rw [fifo, List.drop_left, List.map_map]
  rfl

/-- The progress index of a complete request is the number of bytes carried for it. -/
theorem count_delivered {port : Port} {iocbs : Ptr → Iocb} {a : Ptr} {rest : List Ptr}
    (ok : PortOk port iocbs (a :: rest)) (event : port.dcb.event = true) :
    port.dcb.bufferIdx = UInt32.ofNat port.history.serviced := by
  cases ok.serving a rfl with
  | reading _ progress => exact progress
  | writing _ pending => exact absurd (pending.symm.trans event) (by decide)
  | written _ _ _ _ progress =>
    rw [progress]
    exact UInt32.ofNat_toNat.symm

/-- The head request of `d`, made by `p`, is retired. -/
structure Retires (k k' : Kernel) (d : Fin 4) (p : Ptr) : Prop where
  head : (wanting k d).head? = some p
  accepted : ∀ e, (k'.history e).accepted = (k.history e).accepted
  retired : (k'.history d).retired.length = (k.history d).retired.length + 1
  ports : ∀ e, e ≠ d → k'.ports e = k.ports e
  count : ∀ n ≤ (k.history d).retired.length, (k'.history d).count n = (k.history d).count n

theorem retires_step {procs : Procs} {r : Request} (head : (wanting k d).head? = some r.pcb)
    (step : PortStep { k with procs := procs } k' d [] [r]) : Retires k k' d r.pcb := by
  have retired : (k'.history d).retired = (k.history d).retired ++ [r] := step.retired
  have length : (k'.history d).retired.length = (k.history d).retired.length + 1 := by
    rw [retired, List.length_append, List.length_singleton]
  refine ⟨head, ?_, length, step.ports, ?_⟩
  · intro e
    by_cases same : e = d
    · subst same
      exact step.accepted.trans (List.append_nil _)
    · exact congrArg (fun port : Port => port.history.accepted) (step.ports e same)
  · intro n upto
    obtain ⟨bytes, moved⟩ := step.moved
    have other : n ≠ (k'.history d).retired.length := by omega
    exact count_frozen other moved

theorem wanting_own (R : Retires k k' d p) : wanting k d = p :: wanting k' d := by
  have head := R.head
  unfold wanting at head ⊢
  rw [R.accepted d, R.retired]
  rw [List.head?_map, List.head?_drop] at head
  obtain ⟨r, found, rfl⟩ := Option.map_eq_some_iff.mp head
  obtain ⟨inside, rfl⟩ := List.getElem?_eq_some_iff.mp found
  rw [List.drop_eq_getElem_cons inside]
  rfl

theorem wanting_other (R : Retires k k' d p) {e : Fin 4} (other : e ≠ d) : wanting k' e = wanting k e := by
  unfold wanting Kernel.history
  rw [R.ports e other]

/-- The queues after `p` has gone from a blocked queue to a ready one. -/
structure Awakes (qs qs' : Fin 4 → List Ptr) (p : Ptr) (active : Prop) [Decidable active] : Prop where
  moved : ∀ q j, q ∈ qs' j ↔ (q = p ∧ j = if active then 0 else 2) ∨ (q ∈ qs j ∧ q ≠ p)

theorem awakes_blocked {active : Prop} [Decidable active] (A : Awakes qs qs' p active) :
    Blocked qs' q ↔ Blocked qs q ∧ q ≠ p := by
  have apart : (1 : Fin 4) ≠ (if active then 0 else 2) ∧ (3 : Fin 4) ≠ (if active then 0 else 2) := by
    split <;> decide
  unfold Blocked
  rw [A.moved, A.moved]
  constructor
  · intro there
    rcases there with (new | old) | (new | old)
    · exact (apart.1 new.2).elim
    · exact ⟨.inl old.1, old.2⟩
    · exact (apart.2 new.2).elim
    · exact ⟨.inr old.1, old.2⟩
  · intro there
    exact there.1.imp (fun inside => .inr ⟨inside, there.2⟩) fun inside => .inr ⟨inside, there.2⟩

theorem retire_requested {active : Prop} [Decidable active] (Q : Requested k qs) (R : Retires k k' d p)
    (A : Awakes qs qs' p active) : Requested k' qs' := by
  have own := wanting_own R
  have unique : p ∉ wanting k' d ∧ (wanting k' d).Nodup := List.nodup_cons.mp (own ▸ Q.once d)
  have here : p ∈ wanting k d := own ▸ List.mem_cons_self
  have old : ∀ e q, q ∈ wanting k' e → q ∈ wanting k e ∧ q ≠ p := by
    intro e q member
    by_cases same : e = d
    · subst same
      refine ⟨own ▸ List.mem_cons_of_mem p member, ?_⟩
      intro equal
      exact unique.1 (equal ▸ member)
    · rw [wanting_other R same] at member
      refine ⟨member, ?_⟩
      intro equal
      exact same (Q.apart e d p (equal ▸ member) here)
  refine ⟨?_, ?_, ?_, ?_⟩
  · intro e q member
    obtain ⟨inside, other⟩ := old e q member
    exact (awakes_blocked A).mpr ⟨Q.blocked e q inside, other⟩
  · intro q sleeping
    obtain ⟨sleeping, other⟩ := (awakes_blocked A).mp sleeping
    obtain ⟨e, member⟩ := Q.served q sleeping
    refine ⟨e, ?_⟩
    by_cases same : e = d
    · subst same
      rw [own] at member
      exact (List.mem_cons.mp member).resolve_left other
    · rwa [wanting_other R same]
  · intro e
    by_cases same : e = d
    · subst same
      exact unique.2
    · rw [wanting_other R same]
      exact Q.once e
  · intro e f q left right
    exact Q.apart e f q (old e q left).1 (old f q right).1

theorem retired_le (R : Retires k k' d p) (e : Fin 4) :
    (k.history e).retired.length ≤ (k'.history e).retired.length := by
  by_cases same : e = d
  · subst same
    have := R.retired
    omega
  · unfold Kernel.history
    exact Nat.le_of_eq (by rw [R.ports e same])

/-- The request that is retired is the one of the last trap of `p`, and of no other process. -/
theorem head_request (D : Delivered k live qs trapped) (R : Retires k k' d p) :
    ∃ t, trapped p = some t ∧ t.request = some (d, (k.history d).retired.length) := by
  have first : (wanting k d)[0]? = some p := by
    rw [← List.head?_eq_getElem?]
    exact R.head
  exact D.pending d 0 p first

theorem request_owner (D : Delivered k live qs trapped) (left : p ∈ live) (right : q ∈ live) {t u : Trap} {n : Nat}
    (at_p : trapped p = some t) (at_q : trapped q = some u) (asks_p : t.request = some (d, n))
    (asks_q : u.request = some (d, n)) : p = q := by
  obtain ⟨r, found, asks⟩ := D.accepted p left t at_p d n asks_p
  obtain ⟨r', found', asks'⟩ := D.accepted q right u at_q d n asks_q
  obtain rfl : r = r' := Option.some.inj (found.symm.trans found')
  exact asks.pcb.symm.trans asks'.pcb

theorem result_other (R : Retires k k' d p) {t : Trap}
    (other : t.request ≠ some (d, (k.history d).retired.length)) : result k' t = result k t := by
  unfold result
  cases request : t.request with
  | none => rfl
  | some pair =>
    obtain ⟨e, n⟩ := pair
    rw [request] at other
    dsimp only
    by_cases same : e = d
    · subst same
      have apart : n ≠ (k.history e).retired.length := fun equal => other (by rw [equal])
      rw [R.retired]
      by_cases done : n < (k.history e).retired.length
      · rw [if_pos done, if_pos (by omega), R.count n (Nat.le_of_lt done)]
      · rw [if_neg done, if_neg (by omega)]
    · unfold Kernel.history
      rw [R.ports e same]

theorem result_own (R : Retires k k' d p) {t : Trap}
    (asks : t.request = some (d, (k.history d).retired.length)) :
    result k' t = UInt32.ofNat ((k.history d).count (k.history d).retired.length) := by
  unfold result
  rw [asks]
  dsimp only
  rw [R.retired, if_pos (Nat.lt_succ_self _), R.count _ (Nat.le_refl _)]

theorem retire_delivered {active : Prop} [Decidable active] (D : Delivered k live qs trapped)
    (P : Placed k.procs loose live qs) (asleep : Blocked qs p) (R : Retires k k' d p)
    (A : Awakes qs qs' p active) (W : Woken k.procs k'.procs p count)
    (counted : count = UInt32.ofNat ((k.history d).count (k.history d).retired.length)) :
    Delivered k' live qs' trapped := by
  obtain ⟨tp, at_p, asks_p⟩ := head_request D R
  have alive : ∀ q, Blocked qs q → q ∈ live := by
    intro q sleeping
    cases sleeping with
    | inl active => exact P.live_queued active
    | inr suspended => exact P.live_queued suspended
  refine ⟨?_, ?_, ?_, ?_⟩
  · intro q there t at_q e n asks
    rw [R.accepted]
    exact D.accepted q there t at_q e n asks
  · intro e j q found
    by_cases same : e = d
    · subst same
      have later : (wanting k e)[j + 1]? = some q := by
        rw [wanting_own R, List.getElem?_cons_succ]
        exact found
      obtain ⟨t, at_q, asks⟩ := D.pending e (j + 1) q later
      refine ⟨t, at_q, ?_⟩
      rw [asks, R.retired]
      congr 2
      omega
    · rw [wanting_other R same] at found
      unfold Kernel.history
      rw [R.ports e same]
      exact D.pending e j q found
  · intro q there awake t at_q e n asks
    have more := retired_le R e
    by_cases sleeping : Blocked qs q
    · have same : q = p := by
        by_contra other
        exact awake ((awakes_blocked A).mpr ⟨sleeping, other⟩)
      subst same
      obtain rfl : tp = t := Option.some.inj (at_p.symm.trans at_q)
      obtain ⟨rfl, rfl⟩ : d = e ∧ (k.history d).retired.length = n := by
        simpa using asks_p.symm.trans asks
      have := R.retired
      omega
    · have := D.done q there sleeping t at_q e n asks
      omega
  · intro i q member t at_q c at_c
    rw [W.pctxt] at at_c
    obtain ⟨ctxt, found, contexts⟩ := W.contexts
    by_cases same : q = p
    · subst same
      obtain rfl : tp = t := Option.some.inj (at_p.symm.trans at_q)
      obtain rfl : ctxt = c := Option.some.inj (found.symm.trans at_c)
      obtain ⟨j, inside⟩ : ∃ j, q ∈ qs j := by
        cases asleep with
        | inl active => exact ⟨1, active⟩
        | inr suspended => exact ⟨3, suspended⟩
      rw [contexts, update_self, D.saved j q inside tp at_q ctxt at_c, result_own R asks_p, counted]
    · have inside : q ∈ qs i := (((A.moved q i).mp member).resolve_left fun new => same new.1).1
      have there := P.live_queued inside
      have apart : c ≠ ctxt := by
        intro equal
        obtain ⟨c', at_c', own⟩ := P.saved i q inside
        obtain rfl : c = c' := Option.some.inj (at_c.symm.trans at_c')
        obtain ⟨j, inside'⟩ : ∃ j, p ∈ qs j := by
          cases asleep with
          | inl active => exact ⟨1, active⟩
          | inr suspended => exact ⟨3, suspended⟩
        obtain ⟨c', at_c', own'⟩ := P.saved j p inside'
        obtain rfl : ctxt = c' := Option.some.inj (found.symm.trans at_c')
        refine same (P.segments q there p (P.live_queued inside') ?_)
        rw [← own, ← own', equal]
      have other : t.request ≠ some (d, (k.history d).retired.length) := by
        intro asks
        exact same (request_owner D there (alive p asleep) at_q at_p asks asks_p)
      rw [contexts, update_of_ne apart, result_other R other]
      exact D.saved i q inside t at_q c at_c

theorem blocked_filed (asleep : Blocked qs p) : ∃ i, p ∈ qs i ∧ i ≠ 0 := by
  cases asleep with
  | inl active => exact ⟨1, active, by decide⟩
  | inr suspended => exact ⟨3, suspended, by decide⟩

theorem retire_checkup (P : Placed k.procs loose live qs) (asleep : Blocked qs p) (R : Retires k k' d p)
    (A : Awakes qs qs' p ((k.procs.state p).dpatch = .active)) (W : Woken k.procs k'.procs p count)
    (completes : Completes k d) (pcbRunning : k'.pcbRunning = k.pcbRunning)
    (contextOriginal : k'.contextOriginal = k.contextOriginal) : Checkup k k' loose qs qs' [d] := by
  obtain ⟨i, member, notReady⟩ := blocked_filed asleep
  refine ⟨pcbRunning, contextOriginal, R.accepted, ?_, ?_, ?_, W.pstackseg, ?_, ?_, ?_⟩
  · intro e absent
    exact R.ports e (by simpa using absent)
  · intro q
    rw [W.state]
    split
    · rename_i same
      rw [same]
    · rfl
  · intro q free
    have other : q ≠ p := fun same => P.apart member (same ▸ free)
    rw [W.state, if_neg other]
  · intro q free c own
    obtain ⟨ctxt, found, contexts⟩ := W.contexts
    obtain ⟨c', at_c', own'⟩ := P.saved i p member
    obtain rfl : ctxt = c' := Option.some.inj (found.symm.trans at_c')
    have apart : c ≠ ctxt := by
      intro equal
      have same := P.segments q (P.live_loose free) p (P.live_queued member) (by rw [← own, ← own', equal])
      exact P.apart member (same ▸ free)
    rw [contexts, update_of_ne apart]
  · intro q
    constructor
    · intro there
      obtain ⟨j, inside⟩ := there
      cases (A.moved q j).mp inside with
      | inl new => exact ⟨i, new.1 ▸ member⟩
      | inr old => exact ⟨j, old.1⟩
    · intro there
      obtain ⟨j, inside⟩ := there
      by_cases same : q = p
      · exact ⟨_, (A.moved q _).mpr (.inl ⟨same, rfl⟩)⟩
      · exact ⟨j, (A.moved q j).mpr (.inr ⟨inside, same⟩)⟩
  · intro q
    rw [A.moved]
    constructor
    · intro there
      cases there with
      | inr old => exact .inl old.1
      | inl new =>
        obtain ⟨rfl, ready⟩ := new
        have active : (k.procs.state q).dpatch = .active := by
          by_contra suspended
          rw [if_neg suspended] at ready
          exact absurd ready (by decide)
        exact .inr ⟨d, List.mem_singleton_self d, ⟨completes, R.head⟩, active⟩
    · intro there
      cases there with
      | inl old =>
        refine .inr ⟨old, ?_⟩
        intro same
        exact notReady (P.queued.apart member (same ▸ old))
      | inr new =>
        obtain ⟨e, single, wakes, active⟩ := new
        obtain rfl := List.mem_singleton.mp single
        obtain rfl : p = q := Option.some.inj (R.head.symm.trans wakes.2)
        exact .inl ⟨rfl, by rw [if_pos active]⟩

theorem check_sound (S : Sound k loose live qs trapped) (d : Fin 4) :
    ∃ k' qs' r, serialCheckIo k (serialDev d) = some (k', r) ∧ Sound k' loose live qs' trapped ∧
      Checkup k k' loose qs qs' [d] ∧ (r ≠ 0 ↔ Completes k d) := by
  obtain ⟨pend, ok⟩ := S.devices
  have checked := check_ok ok (serialDev d)
  have named := serialDevno_dev d
  have front : ∀ a rest, pend d = a :: rest →
      (wanting k d).head? = some (k.iocbs a).pcbRq ∧ Blocked qs (k.iocbs a).pcbRq := by
    intro a rest queue
    have row : wanting k d = (k.iocbs a).pcbRq :: rest.map fun a => (k.iocbs a).pcbRq := by
      rw [wanting_pend ok, queue]
      rfl
    exact ⟨by rw [row]; rfl, S.requested.blocked d _ (row ▸ List.mem_cons_self)⟩
  generalize serialCheckIo k (serialDev d) = checkedIo at checked
  cases checked with
  | quiet r none =>
    obtain ⟨idle, zero⟩ := none d named
    refine ⟨k, qs, r, rfl, S, checkup_refl k loose qs ?_, ?_⟩
    · intro e single
      obtain rfl := List.mem_singleton.mp single
      exact idle
    · exact ⟨fun nonzero => (nonzero zero).elim, fun completes => (idle completes).elim⟩
  | asleep e a rest devno isOpen event queue stuck =>
    obtain rfl : d = e := Option.some.inj (named.symm.trans devno)
    obtain ⟨_, asleep⟩ := front a rest queue
    obtain ⟨s', qs', woken, _⟩ := wake_placed S.placed asleep (k.dcb d).bufferIdx
    rw [stuck] at woken
    cases woken
  | retired e a rest procs k' devno isOpen event queue woken step ok' =>
    obtain rfl : d = e := Option.some.inj (named.symm.trans devno)
    obtain ⟨head, asleep⟩ := front a rest queue
    obtain ⟨s', qs', woken', P', W, moved⟩ := wake_placed S.placed asleep (k.dcb d).bufferIdx
    obtain rfl : procs = s' := Option.some.inj (woken.symm.trans woken')
    have own : k'.procs = procs := step.procs
    rw [← own] at P' W
    have R : Retires k k' d (k.iocbs a).pcbRq := retires_step head step
    have A : Awakes qs qs' (k.iocbs a).pcbRq ((k.procs.state (k.iocbs a).pcbRq).dpatch = .active) := ⟨moved⟩
    have port := ok.port d
    rw [queue] at port
    have D := retire_delivered S.delivered S.placed asleep R A W (count_delivered port event)
    refine ⟨k', qs', 1, rfl, ⟨⟨_, ok'⟩, P', retire_requested S.requested R A, D⟩, ?_, ?_⟩
    · exact retire_checkup S.placed asleep R A W ⟨isOpen, event⟩ step.pcbRunning step.contextOriginal
    · exact ⟨fun _ => ⟨isOpen, event⟩, fun _ => by decide⟩

theorem checkDevices_sound (ds : List (Fin 4)) (S : Sound k loose live qs trapped) (unique : ds.Nodup) (before : Bool) :
    ∃ k' qs' ready, checkDevices (ds.map serialDev) k before = some (k', ready) ∧
      Sound k' loose live qs' trapped ∧ Checkup k k' loose qs qs' ds ∧
      (ready = true ↔ before = true ∨ ∃ d ∈ ds, Completes k d) := by
  induction ds generalizing k qs before with
  | nil =>
    refine ⟨k, qs, before, rfl, S, checkup_refl k loose qs (fun _ none => nomatch none), ?_⟩
    simp
  | cons d ds ih =>
    obtain ⟨apart, unique⟩ := List.nodup_cons.mp unique
    obtain ⟨k₁, qs₁, r, ran, S₁, first, done⟩ := check_sound S d
    obtain ⟨k', qs', ready, rans, S', rest, dones⟩ := ih S₁ unique (before || decide (r ≠ 0))
    refine ⟨k', qs', ready, ?_, S', checkup_trans first rest apart, ?_⟩
    · show (serialCheckIo k (serialDev d)).bind _ = _
      rw [ran]
      exact rans
    · have later : ∀ e ∈ ds, (Completes k₁ e ↔ Completes k e) := by
        intro e member
        have other : e ≠ d := fun same => apart (same ▸ member)
        unfold Completes Kernel.dcb
        rw [first.ports e (by simpa using other)]
      rw [dones, Bool.or_eq_true, decide_eq_true_iff, done]
      simp only [List.mem_cons, exists_eq_or_imp, or_assoc]
      have same : (∃ e ∈ ds, Completes k₁ e) ↔ ∃ e ∈ ds, Completes k e :=
        exists_congr fun e => and_congr_right (later e)
      rw [same]

/-- `sys_check_io` looks at all four devices, and none of its steps follows NULL. -/
theorem sysCheckIo_sound (S : Sound k loose live qs trapped) :
    ∃ k' qs' ready, sysCheckIo k = some (k', ready) ∧ Sound k' loose live qs' trapped ∧
      Checkup k k' loose qs qs' [0, 1, 2, 3] ∧ (ready = true ↔ ∃ d, Completes k d) := by
  obtain ⟨k', qs', ready, ran, S', checkup, done⟩ :=
    checkDevices_sound [0, 1, 2, 3] S (by decide) false
  refine ⟨k', qs', ready, ran, S', checkup, ?_⟩
  rw [done]
  constructor
  · intro some
    obtain ⟨d, _, completes⟩ := some.resolve_left (by decide)
    exact ⟨d, completes⟩
  · intro some
    obtain ⟨d, completes⟩ := some
    have all : ∀ e : Fin 4, e ∈ [0, 1, 2, 3] := by decide
    exact .inr ⟨d, all d, completes⟩

end Mpx.System

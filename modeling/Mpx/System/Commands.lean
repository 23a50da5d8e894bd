import Mpx.System.Switching

/-! # Commands

Processes end, are created, suspended, resumed and given another priority: the invariant is kept. -/

namespace Mpx.System
open Function Library.Links Mpx.Process Mpx.Device

variable {k : Kernel} {loose live : List Ptr} {qs : Fin 4 → List Ptr} {trapped : Ptr → Option Trap}
  {p q : Ptr} {s s' s₁ s₂ : Procs} {name : List UInt8} {l : List Ptr}

/-! ### Ending a process -/

theorem mem_live_filter (P : Placed s (p :: loose) live qs) :
    q ∈ live.filter (· ≠ p) ↔ q ∈ loose ∨ ∃ i, q ∈ qs i := by
  rw [List.mem_filter, decide_eq_true_iff, P.members, List.mem_cons]
  constructor
  · intro both
    obtain ⟨there, other⟩ := both
    rcases there with (same | free) | filed
    · exact (other same).elim
    · exact .inl free
    · exact .inr filed
  · intro there
    cases there with
    | inl free =>
      refine ⟨.inl (.inr free), ?_⟩
      intro same
      exact (List.nodup_cons.mp P.distinct).1 (same ▸ free)
    | inr filed =>
      obtain ⟨i, inside⟩ := filed
      refine ⟨.inr ⟨i, inside⟩, ?_⟩
      intro same
      exact P.apart inside (same ▸ List.mem_cons_self)

/-- A loose process ends, and its PCB may hold anything from then on. -/
theorem end_sound (S : Sound k (p :: loose) live qs trapped) (pcb : Pcb) :
    Sound { k with procs := k.procs.setPcb p pcb } loose (live.filter (· ≠ p)) qs trapped := by
  obtain ⟨⟨pend, ok⟩, P, R, D⟩ := S
  have same : SameRequests k { k with procs := k.procs.setPcb p pcb } := same_ports rfl
  have kept : ∀ q, q ≠ p → (k.procs.setPcb p pcb).pcbs q = k.procs.pcbs q := fun q other => update_of_ne other ..
  have filed : ∀ i, ∀ q ∈ qs i, q ≠ p := fun i q inside equal => P.apart inside (equal ▸ List.mem_cons_self)
  have free : ∀ q ∈ loose, q ≠ p := fun q inside equal => (List.nodup_cons.mp P.distinct).1 (equal ▸ inside)
  have alive : ∀ q ∈ live.filter (· ≠ p), q ∈ live ∧ q ≠ p := by
    intro q member
    rw [List.mem_filter, decide_eq_true_iff] at member
    exact member
  have state : ∀ i, ∀ q ∈ qs i, (k.procs.setPcb p pcb).state q = k.procs.state q := by
    intro i q inside
    unfold Procs.state
    rw [kept q (filed i q inside)]
  refine ⟨⟨pend, devicesOk_congr ok rfl rfl⟩, ?_, requested_congr R (wanting_same same) fun _ => Iff.rfl, ?_⟩
  · refine ⟨P.queued.congr rfl fun i q inside => kept q (filed i q inside), fun q => mem_live_filter P,
      (List.nodup_cons.mp P.distinct).2, ?_, ?_, ?_, P.stamped, ?_, ?_⟩
    · intro q inside
      unfold Procs.pNext
      rw [kept q (free q inside)]
      exact P.loose q (List.mem_cons_of_mem p inside)
    · intro i q inside
      rw [state i q inside]
      exact P.rests i q inside
    · refine P.sorted.imp_of_mem fun {a b} left right before => ?_
      unfold Before
      rw [state 0 a left, state 0 b right]
      exact before
    · intro a left b right
      rw [kept a (alive a left).2, kept b (alive b right).2]
      exact P.segments a (alive a left).1 b (alive b right).1
    · intro i q inside
      rw [kept q (filed i q inside)]
      exact P.saved i q inside
  · refine ⟨?_, ?_, ?_, ?_⟩
    · intro q there
      exact D.accepted q (alive q there).1
    · exact D.pending
    · intro q there
      exact D.done q (alive q there).1
    · intro i q inside t found c at_c
      rw [show ({ k with procs := k.procs.setPcb p pcb } : Kernel).procs.pcbs q = k.procs.pcbs q from
        kept q (filed i q inside)] at at_c
      rw [result_same same]
      exact D.saved i q inside t found c at_c

theorem free_sound (S : Sound k (p :: loose) live qs trapped) (freedStack freedPcb : Int) :
    ∃ procs r, pcbFree k.procs p freedStack freedPcb = some (procs, r) ∧
      Sound { k with procs := procs } loose (live.filter (· ≠ p)) qs trapped ∧
      ∀ q, q ≠ p → procs.state q = k.procs.state q := by
  have real := (S.placed.loose p List.mem_cons_self).1
  have whole := end_sound S (k.procs.pcbs p)
  have cleared := end_sound S clearedPcb
  have same : k.procs.setPcb p (k.procs.pcbs p) = k.procs := by
    unfold Procs.setPcb
    rw [update_eq_self]
  have others : ∀ q, q ≠ p → (k.procs.setPcb p clearedPcb).state q = k.procs.state q := by
    intro q other
    exact congrArg Pcb.state (update_of_ne other ..)
  rw [same] at whole
  unfold pcbFree
  rw [if_neg real]
  by_cases stack : freedStack = 0
  · rw [if_pos stack]
    by_cases freed : freedPcb = 0
    · exact ⟨_, 0, if_pos freed, cleared, others⟩
    · exact ⟨_, -1, if_neg freed, cleared, others⟩
  · rw [if_neg stack]
    exact ⟨k.procs, -1, rfl, whole, fun _ _ => rfl⟩

/-! ### Filing anew -/

theorem selector_blocked (state : PcbState) :
    state.queueSelector = 1 ∨ state.queueSelector = 3 ↔ state.exec ≠ .ready := by
  obtain ⟨exec, dpatch, cls, pri⟩ := state
  cases exec <;> cases dpatch <;> simp [PcbState.queueSelector]

theorem blocked_iff (P : Placed s loose live qs) {i : Fin 4} (member : p ∈ qs i) :
    Blocked qs p ↔ (s.state p).exec ≠ .ready := by
  rw [← selector_blocked, P.queued.filed i p member]
  constructor
  · intro asleep
    exact asleep.imp (P.queued.apart member) (P.queued.apart member)
  · intro which
    cases which with
    | inl one => exact .inl (one ▸ member)
    | inr three => exact .inr (three ▸ member)

/-- A queued process changes its dispatch state or its priority and is filed anew. -/
theorem refile_sound (S : Sound k loose live qs trapped) {i : Fin 4} (member : p ∈ qs i)
    (change : PcbState → PcbState) (exec : ∀ state, (change state).exec = state.exec) :
    ∃ procs procs' qs', pcbRemove k.procs p = some (procs, 0) ∧
      pcbInsert (procs.setState p (change (procs.state p))) p = some procs' ∧
      Sound { k with procs := procs' } loose live qs' trapped ∧
      ∀ q, q ≠ p → procs'.state q = k.procs.state q := by
  obtain ⟨procs, removed, off, refile⟩ := refile_placed S.placed member
  have state : (procs.setState p (change (procs.state p))).state p = change (k.procs.state p) := by
    rw [setState_state, if_pos rfl, off.state]
  have resting : ((procs.setState p (change (procs.state p))).state p).exec ≠ .running := by
    rw [state, exec]
    exact S.placed.rests i p member
  have restated := setState_restated procs p (change (procs.state p))
  obtain ⟨procs', qs', inserted, on', P', moved⟩ := refile _ restated resting
  rw [state] at moved
  refine ⟨procs, procs', qs', removed, inserted, sound_congr S rfl rfl P' ?_ ?_ ?_, ?_⟩
  · intro q
    by_cases same : q = p
    · subst same
      rw [blocked_iff S.placed member, ← exec (k.procs.state q), ← selector_blocked]
      unfold Blocked
      rw [moved, moved]
      simp [eq_comm]
    · unfold Blocked
      rw [moved, moved]
      simp [same]
  · intro q j inside
    cases (moved q j).mp inside with
    | inl new => exact ⟨i, new.1 ▸ member⟩
    | inr old => exact ⟨j, old.1⟩
  · intro j q inside c at_c
    show (k.procs.pcbs q).pctxt = some c ∧ procs'.contexts c = k.procs.contexts c
    rw [show ({ k with procs := procs' } : Kernel).procs = procs' from rfl, on'.pctxt, (restated.pcb q).2.2,
      off.pctxt] at at_c
    refine ⟨at_c, ?_⟩
    rw [on'.contexts]
    exact congrFun off.contexts c
  · intro q other
    rw [on'.state, setState_state, if_neg other, off.state]

/-! ### Finding a process -/

theorem findIn_named (name : List UInt8) {fuel : Nat} {iter : Ptr} (chain : Chain s.pNext 0 iter l) (occupied : l ≠ [])
    (enough : l.length ≤ fuel) :
    ∃ found, findIn s name fuel iter = some found ∧
      (found = 0 ∧ (∀ p ∈ l, (s.pcbs p).name ≠ name) ∨ found ∈ l ∧ (s.pcbs found).name = name) := by
  induction fuel generalizing iter l with
  | zero =>
    have empty : l = [] := List.length_eq_zero_iff.mp (Nat.le_zero.mp enough)
    exact (occupied empty).elim
  | succ fuel ih =>
    obtain ⟨a, rest, rfl⟩ := List.exists_cons_of_ne_nil occupied
    obtain ⟨rfl, _, chain⟩ := chain_cons_iff.mp chain
    unfold findIn
    by_cases same : name = (s.pcbs iter).name
    · rw [if_pos same]
      exact ⟨iter, rfl, .inr ⟨List.mem_cons_self, same.symm⟩⟩
    · rw [if_neg same]
      by_cases last : s.pNext iter = 0
      · rw [if_pos last]
        rw [last] at chain
        obtain rfl := chain_null chain
        refine ⟨0, rfl, .inl ⟨rfl, ?_⟩⟩
        intro p member
        obtain rfl := List.mem_singleton.mp member
        exact fun equal => same equal.symm
      · rw [if_neg last]
        have more : rest ≠ [] := by
          intro empty
          subst empty
          exact last (chain_nil_iff.mp chain)
        obtain ⟨found, ran, which⟩ := ih chain more (by simpa using enough)
        refine ⟨found, ran, ?_⟩
        rcases which with ⟨null, others⟩ | ⟨member, named⟩
        · exact .inl ⟨null, List.forall_mem_cons.mpr ⟨fun equal => same equal.symm, others⟩⟩
        · exact .inr ⟨List.mem_cons_of_mem iter member, named⟩

theorem findFrom_named (Q : Queued s qs) (name : List UInt8) (order : List (Fin 4)) :
    ∃ found, findFrom s name order = some found ∧
      (found = 0 ∧ (∀ i ∈ order, ∀ p ∈ qs i, (s.pcbs p).name ≠ name) ∨
        (∃ i, found ∈ qs i) ∧ (s.pcbs found).name = name) := by
  induction order with
  | nil => exact ⟨0, rfl, .inl ⟨rfl, fun _ member => nomatch member⟩⟩
  | cons i order ih =>
    obtain ⟨later, ranLater, whichLater⟩ := ih
    unfold findFrom
    by_cases empty : (s.queues i).pcbHead = 0
    · rw [if_neg (not_not.mpr empty)]
      have vacant : qs i = [] := (queue_head_null_iff (Q.queue i)).mp empty
      refine ⟨later, ranLater, whichLater.imp_left fun both => ⟨both.1, ?_⟩⟩
      exact List.forall_mem_cons.mpr ⟨fun p member => (List.not_mem_nil (vacant ▸ member)).elim, both.2⟩
    · rw [if_pos empty]
      have occupied : qs i ≠ [] := fun none => empty ((queue_head_null_iff (Q.queue i)).mpr none)
      obtain ⟨found, ran, which⟩ :=
        findIn_named name (Q.queue i).chain occupied (Nat.le_of_lt (Q.short i))
      rw [ran]
      show ∃ result, (if found ≠ 0 then some found else findFrom s name order) = some result ∧ _
      rcases which with ⟨missed, others⟩ | ⟨member, named⟩
      · rw [if_neg (not_not.mpr missed)]
        refine ⟨later, ranLater, whichLater.imp_left fun both => ⟨both.1, ?_⟩⟩
        exact List.forall_mem_cons.mpr ⟨others, both.2⟩
      · rw [if_pos (Q.nonnull member)]
        exact ⟨found, rfl, .inr ⟨⟨i, member⟩, named⟩⟩

/-- `pcb_find` ends, with a queued PCB of the name or, if there is none, with NULL. -/
theorem pcbFind_named (Q : Queued s qs) (name : List UInt8) :
    ∃ found, pcbFind s name = some found ∧
      (found = 0 ∧ (∀ i, ∀ p ∈ qs i, (s.pcbs p).name ≠ name) ∨
        (∃ i, found ∈ qs i) ∧ (s.pcbs found).name = name) := by
  have every : ∀ i : Fin 4, i ∈ ([0, 1, 2, 3] : List (Fin 4)) := by decide
  obtain ⟨found, ran, which⟩ := findFrom_named Q name [0, 1, 2, 3]
  exact ⟨found, ran, which.imp_left fun both => ⟨both.1, fun i => both.2 i (every i)⟩⟩

theorem pcbFind_queued (Q : Queued s qs) (name : List UInt8) :
    ∃ found, pcbFind s name = some found ∧ (found = 0 ∨ ∃ i, found ∈ qs i) := by
  obtain ⟨found, ran, which⟩ := pcbFind_named Q name
  exact ⟨found, ran, which.imp And.left And.left⟩

/-! ### The commands -/

/-- The queues after a command, with the processes in hand as they were. -/
def Kept (k : Kernel) (procs : Procs) (loose live : List Ptr) (trapped : Ptr → Option Trap) : Prop :=
  (∃ qs, Sound { k with procs := procs } loose live qs trapped) ∧
    ∀ q ∈ loose, procs.state q = k.procs.state q

theorem kept_refl (S : Sound k loose live qs trapped) : Kept k k.procs loose live trapped :=
  ⟨⟨qs, S⟩, fun _ _ => rfl⟩

theorem refile_kept (S : Sound k loose live qs trapped) {i : Fin 4} (member : p ∈ qs i)
    (change : PcbState → PcbState) (exec : ∀ state, (change state).exec = state.exec) {procs : Procs}
    (h : (do
      let (s, _) ← pcbRemove k.procs p
      pcbInsert (s.setState p (change (s.state p))) p) = some procs) : Kept k procs loose live trapped := by
  obtain ⟨procs₁, procs', qs', removed, inserted, S', others⟩ := refile_sound S member change exec
  rw [removed] at h
  obtain rfl : procs' = procs := Option.some.inj (inserted.symm.trans h)
  refine ⟨⟨qs', S'⟩, fun q free => others q ?_⟩
  intro same
  exact S.placed.apart member (same ▸ free)

theorem suspend_kept (S : Sound k loose live qs trapped) {procs : Procs}
    (h : suspendPcbCommand k.procs name = some procs) : Kept k procs loose live trapped := by
  obtain ⟨found, ran, which⟩ := pcbFind_queued S.placed.queued name
  unfold suspendPcbCommand at h
  rw [ran] at h
  change (if found = 0 then some k.procs else if _ then some k.procs else _) = some procs at h
  by_cases missed : found = 0
  · rw [if_pos missed] at h
    cases h
    exact kept_refl S
  rw [if_neg missed] at h
  by_cases system : (k.procs.state found).cls = .system
  · rw [if_pos system] at h
    cases h
    exact kept_refl S
  rw [if_neg system] at h
  obtain ⟨i, member⟩ := which.resolve_left missed
  exact refile_kept S member (fun state => { state with dpatch := .suspended }) (fun _ => rfl) h

theorem resume_kept (S : Sound k loose live qs trapped) {procs : Procs}
    (h : resumePcbCommand k.procs name = some procs) : Kept k procs loose live trapped := by
  obtain ⟨found, ran, which⟩ := pcbFind_queued S.placed.queued name
  unfold resumePcbCommand at h
  rw [ran] at h
  change (if found = 0 then some k.procs else _) = some procs at h
  by_cases missed : found = 0
  · rw [if_pos missed] at h
    cases h
    exact kept_refl S
  rw [if_neg missed] at h
  obtain ⟨i, member⟩ := which.resolve_left missed
  exact refile_kept S member (fun state => { state with dpatch := .active }) (fun _ => rfl) h

theorem queueList_eq (Q : Queued s qs) (i : Fin 4) : queueList s i = some (qs i) :=
  walk_iff.mpr ⟨(Q.queue i).chain, Q.short i⟩

theorem setPriority_kept (S : Sound k loose live qs trapped) {pri : Nat} {procs : Procs}
    (queued : ∃ i, ∃ l ∈ queueList k.procs i, p ∈ l)
    (h : setPcbPriority k.procs p pri = some procs) : Kept k procs loose live trapped := by
  obtain ⟨i, l, row, member⟩ := queued
  rw [queueList_eq S.placed.queued] at row
  obtain rfl := Option.some.inj row
  unfold setPcbPriority at h
  by_cases allowed : pri ≤ pcbProcpriMax
  · rw [if_pos allowed] at h
    exact refile_kept S member (fun state => { state with pri := pri }) (fun _ => rfl) h
  · rw [if_neg allowed] at h
    cases h
    exact kept_refl S

theorem deleted_eq {found : Ptr} (ran : pcbFind s name = some found) :
    deleted s name = if found ≠ 0 ∧ (s.state found).cls ≠ .system then some found else none := by
  unfold deleted
  rw [ran]
  by_cases which : found ≠ 0 ∧ (s.state found).cls ≠ .system
  · rw [if_pos which]
    exact Option.filter_some_pos (by simpa using which)
  · rw [if_neg which]
    exact Option.filter_some_neg (by simpa using which)

theorem delete_kept (S : Sound k loose live qs trapped) {freedStack freedPcb : Int} {procs : Procs}
    (spares : ∀ p ∈ deleted k.procs name, (k.procs.state p).exec ≠ .blocked)
    (h : deletePcbCommand k.procs name freedStack freedPcb = some procs) :
    Kept k procs loose (live.filter (some · ≠ deleted k.procs name)) trapped := by
  obtain ⟨found, ran, which⟩ := pcbFind_queued S.placed.queued name
  have target := deleted_eq ran
  have whole : live.filter (fun q => some q ≠ none) = live := List.filter_eq_self.mpr fun _ _ => by simp
  unfold deletePcbCommand at h
  rw [ran] at h
  change (if found = 0 then some k.procs else if _ then some k.procs else _) = some procs at h
  by_cases missed : found = 0
  · rw [if_neg fun both => both.1 missed] at target
    rw [if_pos missed] at h
    cases h
    rw [target, whole]
    exact kept_refl S
  rw [if_neg missed] at h
  by_cases system : (k.procs.state found).cls = .system
  · rw [if_neg fun both => both.2 system] at target
    rw [if_pos system] at h
    cases h
    rw [target, whole]
    exact kept_refl S
  rw [if_neg system] at h
  rw [if_pos ⟨missed, system⟩] at target
  obtain ⟨i, member⟩ := which.resolve_left missed
  have awake : ¬Blocked qs found := by
    intro asleep
    exact spares found (target ▸ rfl) (blocked_exec S.placed asleep)
  have calm : i = 0 ∨ i = 2 := by
    have apart : i ≠ 1 ∧ i ≠ 3 := ⟨fun one => awake (.inl (one ▸ member)), fun three => awake (.inr (three ▸ member))⟩
    omega
  obtain ⟨procs₁, removed, relinked, _, S₁⟩ := take_sound S member calm
  obtain ⟨procs₂, r, freed, S₂, others⟩ := free_sound S₁ freedStack freedPcb
  rw [removed] at h
  change (pcbFree procs₁ found freedStack freedPcb).bind (fun x => some x.1) = some procs at h
  rw [show pcbFree procs₁ found freedStack freedPcb = some (procs₂, r) from freed] at h
  obtain rfl : procs₂ = procs := Option.some.inj h
  have ended : live.filter (fun q => some q ≠ deleted k.procs name) = live.filter (· ≠ found) := by
    rw [target]
    simp
  refine ⟨⟨_, ended ▸ S₂⟩, ?_⟩
  intro q free
  have other : q ≠ found := fun same => S.placed.apart member (same ▸ free)
  exact (others q other).trans (relinked.state q)

/-! ### Creation -/

/-- `p` is a PCB for the new stack and nothing else has changed. -/
structure Spawned (s s' : Procs) (p stack : Ptr) : Prop where
  queues : s'.queues = s.queues
  clock : s'.clock = s.clock
  enqueued : s'.enqueued = s.enqueued
  others : ∀ q, q ≠ p → s'.pcbs q = s.pcbs q
  contexts : ∀ c : CtxPtr, c.segment ≠ stack → s'.contexts c = s.contexts c
  next : s'.pNext p = 0
  exec : (s'.state p).exec = .ready
  segment : (s'.pcbs p).pstackseg = stack
  saved : ∃ c, (s'.pcbs p).pctxt = some c ∧ c.segment = stack

variable {stack pcb : Ptr} {cls : ProcClassState} {pri : Nat}

theorem pcbAllocate_cases (s : Procs) (pcb stack : Ptr) : (∃ t, pcbAllocate s pcb stack = (t, 0)) ∨
    pcbAllocate s pcb stack = (s.setPcb pcb { s.pcbs pcb with pstackseg := stack }, pcb) ∧ pcb ≠ 0 := by
  unfold pcbAllocate
  by_cases real : pcb = 0
  · exact .inl ⟨s, if_neg (not_not.mpr real)⟩
  · rw [if_pos real]
    by_cases grounded : stack = 0
    · exact .inl ⟨_, if_neg (not_not.mpr grounded)⟩
    · exact .inr ⟨if_pos grounded, real⟩

theorem pcbSetup_spawned {new : Ptr} (h : pcbSetup s name cls pri pcb stack = some (s', new)) :
    new = 0 ∨ new = pcb ∧ pcb ≠ 0 ∧ Spawned s s' pcb stack := by
  unfold pcbSetup at h
  by_cases fits : name.length + 1 ≤ pcbProcnameBufferSz
  swap
  · rw [if_neg fits] at h
    cases h
    exact .inl rfl
  rw [if_pos fits] at h
  obtain ⟨found, _, h⟩ := Option.bind_eq_some_iff.mp h
  by_cases unnamed : found = 0
  swap
  · rw [if_neg unnamed] at h
    cases h
    exact .inl rfl
  rw [if_pos unnamed] at h
  by_cases allowed : pri ≤ pcbProcpriMax
  swap
  · rw [if_neg allowed] at h
    cases h
    exact .inl rfl
  rw [if_pos allowed] at h
  rcases pcbAllocate_cases s pcb stack with ⟨t, refused⟩ | ⟨allocated, real⟩
  · rw [refused] at h
    cases h
    exact .inl rfl
  · rw [allocated] at h
    dsimp only at h
    rw [if_pos real] at h
    obtain ⟨rfl, rfl⟩ := Prod.mk.inj (Option.some.inj h)
    have segment : ((s.setPcb pcb { s.pcbs pcb with pstackseg := stack }).pcbs pcb).pstackseg = stack := by
      rw [setPcb_pcb, if_pos rfl]
    rw [segment]
    refine .inr ⟨rfl, real, rfl, rfl, rfl, ?_, fun _ _ => rfl, ?_, ?_, ?_, ?_⟩
    · intro q other
      rw [setPcb_pcb, if_neg other, setPcb_pcb, if_neg other]
    · unfold Procs.pNext
      rw [setPcb_pcb, if_pos rfl]
    · unfold Procs.state
      rw [setPcb_pcb, if_pos rfl]
    · rw [setPcb_pcb, if_pos rfl]
    · rw [setPcb_pcb, if_pos rfl]
      exact ⟨_, rfl, rfl⟩

theorem spawned_context (spawned : Spawned s s₁ p stack) {c : CtxPtr} (own : c.segment = stack)
    (context : Context) : Spawned s ((s₁.setPctxt p (some c)).setContext c context) p stack := by
  have pcb : ∀ q, ((s₁.setPctxt p (some c)).setContext c context).pcbs q =
      if q = p then { s₁.pcbs p with pctxt := some c } else s₁.pcbs q := fun q => setPcb_pcb s₁ p q _
  obtain ⟨queues, clock, enqueued, others, contexts, next, exec, segment, _⟩ := spawned
  refine ⟨queues, clock, enqueued, ?_, ?_, ?_, ?_, ?_, ?_⟩
  · intro q other
    rw [pcb, if_neg other, others q other]
  · intro c' outside
    have apart : c' ≠ c := fun same => outside (same ▸ own)
    exact (update_of_ne apart ..).trans (contexts c' outside)
  · unfold Procs.pNext
    rw [pcb, if_pos rfl]
    exact next
  · unfold Procs.state
    rw [pcb, if_pos rfl]
    exact exec
  · rw [pcb, if_pos rfl]
    exact segment
  · rw [pcb, if_pos rfl]
    exact ⟨c, rfl, own⟩

theorem pcbContextInit_spawned {func fargs fargc : UInt32} (spawned : Spawned s s₁ p stack)
    (h : pcbContextInit s₁ p func fargs fargc = some s₂) : Spawned s s₂ p stack := by
  unfold pcbContextInit at h
  by_cases large : fargc > pcbMaxArgSz
  · rw [if_pos large] at h
    cases h
    exact spawned
  rw [if_neg large] at h
  by_cases null : p = 0
  · rw [if_pos null] at h
    cases h
  rw [if_neg null] at h
  obtain ⟨c, at_c, own⟩ := spawned.saved
  rw [at_c] at h
  obtain rfl := Option.some.inj h
  refine spawned_context spawned ?_ _
  dsimp only
  split <;> exact own

/-- A new process is loose at first. -/
theorem spawned_sound (S : Sound k loose live qs trapped) (spawned : Spawned k.procs s p stack) (real : p ≠ 0)
    (absent : p ∉ live) (fresh : ∀ q ∈ live, (k.procs.pcbs q).pstackseg ≠ stack) :
    Sound { k with procs := s } (p :: loose) (p :: live) qs (update trapped p none) := by
  have filed : ∀ i, ∀ q ∈ qs i, q ≠ p := fun i q inside same => absent (same ▸ S.placed.live_queued inside)
  have free : ∀ q ∈ loose, q ≠ p := fun q inside same => absent (same ▸ S.placed.live_loose inside)
  obtain ⟨⟨pend, ok⟩, P, R, D⟩ :=
    record_sound S (fun i inside => filed i p inside rfl) none fun _ none => nomatch none
  have same : SameRequests k { k with procs := s } := same_ports rfl
  have kept : ∀ i, ∀ q ∈ qs i, s.pcbs q = k.procs.pcbs q := fun i q inside => spawned.others q (filed i q inside)
  have state : ∀ i, ∀ q ∈ qs i, s.state q = k.procs.state q := by
    intro i q inside
    unfold Procs.state
    rw [kept i q inside]
  have alive : ∀ q ∈ p :: live, q = p ∨ q ∈ live ∧ s.pcbs q = k.procs.pcbs q := by
    intro q there
    by_cases new : q = p
    · exact .inl new
    · exact .inr ⟨(List.mem_cons.mp there).resolve_left new, spawned.others q new⟩
  refine ⟨⟨pend, devicesOk_congr ok rfl rfl⟩, ?_, requested_congr R (wanting_same same) fun _ => Iff.rfl, ?_⟩
  · refine ⟨P.queued.congr spawned.queues kept, ?_, ?_, ?_, ?_, ?_, ?_, ?_, ?_⟩
    · intro q
      rw [List.mem_cons, List.mem_cons, P.members, or_assoc]
    · exact List.nodup_cons.mpr ⟨fun inside => free p inside rfl, P.distinct⟩
    · intro q inside
      cases List.mem_cons.mp inside with
      | inl new =>
        subst new
        exact ⟨real, spawned.next, fun i filed' => filed i q filed' rfl⟩
      | inr old =>
        unfold Procs.pNext
        rw [spawned.others q (free q old)]
        exact P.loose q old
    · intro i q inside
      rw [state i q inside]
      exact P.rests i q inside
    · refine P.sorted.imp_of_mem fun {a b} left right before => ?_
      unfold Before
      rw [state 0 a left, state 0 b right, spawned.enqueued]
      exact before
    · rw [spawned.enqueued, spawned.clock]
      exact P.stamped
    · intro a left b right equal
      rcases alive a left with new | ⟨old, kept_a⟩
      · rcases alive b right with new' | ⟨old', kept_b⟩
        · exact new.trans new'.symm
        · rw [new, kept_b, spawned.segment] at equal
          exact (fresh b old' equal.symm).elim
      · rcases alive b right with new' | ⟨old', kept_b⟩
        · rw [new', kept_a, spawned.segment] at equal
          exact (fresh a old equal).elim
        · rw [kept_a, kept_b] at equal
          exact P.segments a old b old' equal
    · intro i q inside
      rw [kept i q inside]
      exact P.saved i q inside
  · have old : ∀ q ∈ p :: live, ∀ t, update trapped p none q = some t → q ∈ live := by
      intro q there t found
      rcases alive q there with rfl | ⟨inside, _⟩
      · rw [update_self] at found
        cases found
      · exact inside
    refine ⟨?_, D.pending, ?_, ?_⟩
    · intro q there t found
      exact D.accepted q (old q there t found) t found
    · intro q there awake t found
      exact D.done q (old q there t found) awake t found
    · intro i q inside t found c at_c
      change (s.pcbs q).pctxt = some c at at_c
      show s.contexts c = _
      rw [kept i q inside] at at_c
      have apart : c.segment ≠ stack := by
        obtain ⟨c', at_c', own⟩ := P.saved i q inside
        obtain rfl : c = c' := Option.some.inj (at_c.symm.trans at_c')
        rw [own]
        exact fresh q (P.live_queued inside)
      rw [spawned.contexts c apart, result_same same]
      exact D.saved i q inside t found c at_c

theorem create_kept (S : Sound k loose live qs trapped) {entry : Option Entry} {procs : Procs}
    (absent : pcb ∉ live) (fresh : ∀ q ∈ live, (k.procs.pcbs q).pstackseg ≠ stack)
    (h : createPcb k.procs name cls pri entry pcb stack = some procs) :
    Kept k procs loose (pcb :: live) (update trapped pcb none) ∧ (procs.pcbs pcb).pstackseg = stack := by
  unfold createPcb at h
  obtain ⟨⟨s₁, new⟩, setup, h⟩ := Option.bind_eq_some_iff.mp h
  obtain ⟨s₂, init, inserted⟩ : ∃ s₂, (entry.elim (some s₁) fun e => pcbContextInit s₁ new e.func e.fargs e.fargc) =
      some s₂ ∧ pcbInsert s₂ new = some procs := by
    cases entry with
    | none => exact ⟨s₁, rfl, h⟩
    | some e => exact Option.bind_eq_some_iff.mp h
  have real : new ≠ 0 := by
    intro null
    rw [null] at inserted
    unfold pcbInsert at inserted
    rw [if_pos rfl] at inserted
    cases inserted
  obtain ⟨rfl, real, spawned⟩ := (pcbSetup_spawned setup).resolve_left real
  have spawned : Spawned k.procs s₂ new stack := by
    cases entry with
    | none =>
      cases init
      exact spawned
    | some e => exact pcbContextInit_spawned spawned init
  have S' := spawned_sound S spawned real absent fresh
  obtain ⟨c, at_c, own⟩ := spawned.saved
  have fits : ∀ t, update trapped new none new = some t → s₂.contexts c = { t.context with eax := result k t } := by
    intro t found
    rw [update_self] at found
    cases found
  obtain ⟨procs', i, inserted', relinked, _, S''⟩ := insert_sound (k := { k with procs := s₂ }) S'
    List.mem_cons_self spawned.exec at_c (own.trans spawned.segment.symm) fits
  obtain rfl : procs' = procs := Option.some.inj (inserted'.symm.trans inserted)
  rw [List.erase_cons_head] at S''
  refine ⟨⟨⟨_, S''⟩, ?_⟩, (relinked.pstackseg new).trans spawned.segment⟩
  intro q inside
  have other : q ≠ new := fun same => absent (same ▸ S.placed.live_loose inside)
  have kept : s₂.state q = k.procs.state q := by
    unfold Procs.state
    rw [spawned.others q other]
  exact (relinked.state q).trans kept

end Mpx.System

import Mpx.Process.Queues

/-! # Where the processes are

Every live PCB is in one queue or loose, that is in hand between a removal and an insertion or
running. The active ready queue is in the order of priority and then of insertion. -/

namespace Mpx.Process
open Function Library.Links

/-- `a` is to run earlier than `b`. -/
def Before (s : Procs) (a b : Ptr) : Prop :=
  (s.state a).pri < (s.state b).pri ∨ (s.state a).pri = (s.state b).pri ∧ s.enqueued a < s.enqueued b

structure Placed (s : Procs) (loose live : List Ptr) (qs : Fin 4 → List Ptr) : Prop where
  queued : Queued s qs
  members : ∀ p, p ∈ live ↔ p ∈ loose ∨ ∃ i, p ∈ qs i
  distinct : loose.Nodup
  loose : ∀ p ∈ loose, p ≠ 0 ∧ s.pNext p = 0 ∧ ∀ i, p ∉ qs i
  rests : ∀ i, ∀ p ∈ qs i, (s.state p).exec ≠ .running
  sorted : (qs 0).Pairwise (Before s)
  stamped : ∀ p ∈ qs 0, s.enqueued p < s.clock
  segments : ∀ p ∈ live, ∀ q ∈ live, (s.pcbs p).pstackseg = (s.pcbs q).pstackseg → p = q
  saved : ∀ i, ∀ p ∈ qs i, ∃ c, (s.pcbs p).pctxt = some c ∧ c.segment = (s.pcbs p).pstackseg

variable {s s' : Procs} {loose live : List Ptr} {qs : Fin 4 → List Ptr} {p x : Ptr} {i : Fin 4} {l : List Ptr}

/-- The queue that a process is in, and its place there, do not depend on the loose ones. -/
theorem Queued.congr (Q : Queued s qs) (queues : s'.queues = s.queues)
    (others : ∀ i, ∀ q ∈ qs i, s'.pcbs q = s.pcbs q) : Queued s' qs := by
  refine ⟨?_, ?_, Q.unique, ?_⟩
  · intro i
    rw [queues]
    apply queue_congr (Q.queue i)
    intro q member
    unfold Procs.pNext
    rw [others i q member]
  · rw [queues]
    exact Q.ispriority
  · intro i q member
    unfold Procs.state
    rw [others i q member]
    exact Q.filed i q member

namespace Placed

theorem live_loose (P : Placed s loose live qs) (member : p ∈ loose) : p ∈ live :=
  (P.members p).mpr (.inl member)

theorem live_queued (P : Placed s loose live qs) (member : p ∈ qs i) : p ∈ live :=
  (P.members p).mpr (.inr ⟨i, member⟩)

theorem apart (P : Placed s loose live qs) (member : p ∈ qs i) : p ∉ loose :=
  fun other => (P.loose p other).2.2 i member

/-- Loose PCBs may change in all but their link and their stack. -/
theorem congr (P : Placed s loose live qs) (queues : s'.queues = s.queues) (clock : s'.clock = s.clock)
    (enqueued : s'.enqueued = s.enqueued) (others : ∀ q, q ∉ loose → s'.pcbs q = s.pcbs q)
    (next : ∀ q ∈ loose, s'.pNext q = s.pNext q)
    (segment : ∀ q ∈ loose, (s'.pcbs q).pstackseg = (s.pcbs q).pstackseg) : Placed s' loose live qs := by
  have inside : ∀ i, ∀ q ∈ qs i, s'.pcbs q = s.pcbs q := fun i q member => others q (P.apart member)
  have segments : ∀ q, (s'.pcbs q).pstackseg = (s.pcbs q).pstackseg := by
    intro q
    by_cases member : q ∈ loose
    · exact segment q member
    · rw [others q member]
  have state : ∀ i, ∀ q ∈ qs i, s'.state q = s.state q := by
    intro i q member
    unfold Procs.state
    rw [inside i q member]
  refine ⟨P.queued.congr queues inside, P.members, P.distinct, ?_, ?_, ?_, ?_, ?_, ?_⟩
  · intro q member
    rw [next q member]
    exact P.loose q member
  · intro i q member
    rw [state i q member]
    exact P.rests i q member
  · refine P.sorted.imp_of_mem fun {a b} left right before => ?_
    unfold Before
    rw [state 0 a left, state 0 b right, enqueued]
    exact before
  · rw [enqueued, clock]
    exact P.stamped
  · intro q member r member'
    rw [segments q, segments r]
    exact P.segments q member r member'
  · intro i q member
    rw [inside i q member]
    exact P.saved i q member

end Placed

/-! ### Removal and insertion -/

theorem update_erase_mem (Q : Queued s qs) {j : Fin 4} (member : p ∈ update qs i ((qs i).erase x) j) :
    p ∈ qs j ∧ (x ∈ qs i → p ≠ x) := by
  by_cases same : j = i
  · subst same
    rw [update_self] at member
    refine ⟨List.mem_of_mem_erase member, ?_⟩
    intro _ equal
    exact (Q.unique j).not_mem_erase (equal ▸ member)
  · rw [update_of_ne same] at member
    refine ⟨member, ?_⟩
    intro there equal
    subst equal
    exact same (Q.apart member there)

theorem mem_update_erase {j : Fin 4} (member : p ∈ qs j) (other : p ≠ x) :
    p ∈ update qs i ((qs i).erase x) j := by
  by_cases same : j = i
  · subst same
    rw [update_self]
    exact (List.mem_erase_of_ne other).mpr member
  · rwa [update_of_ne same]

theorem relinked_before (R : Relinked s s') (enqueued : s'.enqueued = s.enqueued) {a b : Ptr}
    (before : Before s a b) : Before s' a b := by
  unfold Before
  rw [R.state, R.state, enqueued]
  exact before

/-- `pcb_remove` takes a PCB out of its queue and leaves it loose. -/
theorem take_placed (P : Placed s loose live qs) (member : x ∈ qs i) :
    ∃ s', pcbRemove s x = some (s', 0) ∧ Relinked s s' ∧ s'.clock = s.clock ∧ s'.enqueued = s.enqueued ∧
      Placed s' (x :: loose) live (update qs i ((qs i).erase x)) := by
  obtain ⟨s', removed, queued, next, links⟩ := pcbRemove_queued P.queued member
  obtain ⟨relinked, clock, enqueued⟩ := pcbRemove_relinked removed
  have gone : ∀ j, x ∉ update qs i ((qs i).erase x) j :=
    fun j inside => (update_erase_mem P.queued inside).2 member rfl
  refine ⟨s', removed, relinked, clock, enqueued, queued, ?_, ?_, ?_, ?_, ?_, ?_, ?_, ?_⟩
  · intro p
    rw [P.members]
    constructor
    · intro there
      by_cases same : p = x
      · exact .inl (same ▸ List.mem_cons_self)
      · cases there with
        | inl free => exact .inl (List.mem_cons_of_mem x free)
        | inr filed =>
          obtain ⟨j, inside⟩ := filed
          exact .inr ⟨j, mem_update_erase inside same⟩
    · intro there
      cases there with
      | inl free =>
        cases List.mem_cons.mp free with
        | inl same => exact .inr ⟨i, same ▸ member⟩
        | inr free => exact .inl free
      | inr filed =>
        obtain ⟨j, inside⟩ := filed
        exact .inr ⟨j, (update_erase_mem P.queued inside).1⟩
  · exact List.nodup_cons.mpr ⟨P.apart member, P.distinct⟩
  · intro p free
    cases List.mem_cons.mp free with
    | inl same =>
      subst same
      exact ⟨P.queued.nonnull member, next, gone⟩
    | inr free =>
      obtain ⟨real, detached, outside⟩ := P.loose p free
      refine ⟨real, (links p real outside).trans detached, ?_⟩
      intro j inside
      exact outside j (update_erase_mem P.queued inside).1
  · intro j p inside
    rw [relinked.state]
    exact P.rests j p (update_erase_mem P.queued inside).1
  · have kept : (update qs i ((qs i).erase x) 0).Sublist (qs 0) := by
      by_cases same : (0 : Fin 4) = i
      · subst same
        rw [update_self]
        exact List.erase_sublist
      · rw [update_of_ne same]
    exact (P.sorted.sublist kept).imp (relinked_before relinked enqueued)
  · intro p inside
    rw [enqueued, clock]
    exact P.stamped p (update_erase_mem P.queued inside).1
  · intro p left q right
    rw [relinked.pstackseg, relinked.pstackseg]
    exact P.segments p left q right
  · intro j p inside
    rw [relinked.pctxt, relinked.pstackseg]
    exact P.saved j p (update_erase_mem P.queued inside).1

/-- The list of queue `i` after `x` was inserted. -/
def joined (s : Procs) (i : Fin 4) (x : Ptr) (l : List Ptr) : List Ptr :=
  enqueue (fun p => (s.state p).pri) (decide (i = 0 ∨ i = 2)) x l

theorem mem_joined : p ∈ joined s i x l ↔ p = x ∨ p ∈ l := by
  unfold joined
  rw [(enqueue_perm _ _ x l).mem_iff, List.mem_cons]

theorem mem_update_joined {j : Fin 4} :
    p ∈ update qs i (joined s i x (qs i)) j ↔ (p = x ∧ j = i) ∨ p ∈ qs j := by
  by_cases same : j = i
  · subst same
    rw [update_self, mem_joined]
    simp
  · rw [update_of_ne same]
    simp [same]

theorem stamp_enqueued (s : Procs) (i : Fin 4) (x q : Ptr) :
    (s.stamp i x).enqueued q = if i = 0 ∧ q = x then s.clock else s.enqueued q := by
  unfold Procs.stamp
  by_cases ready : i = 0
  · rw [if_pos ready]
    by_cases same : q = x
    · subst same
      rw [if_pos ⟨ready, rfl⟩]
      exact update_self ..
    · rw [if_neg fun both => same both.2]
      exact update_of_ne same ..
  · rw [if_neg ready, if_neg fun both => ready both.1]

theorem stamp_clock (s : Procs) (i : Fin 4) (x : Ptr) :
    (s.stamp i x).clock = if i = 0 then s.clock + 1 else s.clock := by
  unfold Procs.stamp
  split <;> rfl

/-- Behind its equals and in front of all of lower priority, the new one is in order. -/
theorem joined_sorted (sorted : l.Pairwise (Before s)) (pri : ∀ q, (s'.state q).pri = (s.state q).pri)
    (old : ∀ q ∈ l, s'.enqueued q = s.enqueued q) (new : ∀ q ∈ l, s.enqueued q < s'.enqueued x) :
    (joined s 0 x l).Pairwise (Before s') := by
  have keeps : l.Pairwise (Before s') := by
    refine sorted.imp_of_mem fun {a b} left right before => ?_
    unfold Before
    rw [pri, pri, old a left, old b right]
    exact before
  have rising : l.Pairwise fun a b => (s.state a).pri ≤ (s.state b).pri := by
    apply sorted.imp
    intro a b before
    unfold Before at before
    omega
  have back := fun b => @dropWhile_lower l (fun a => (s.state a).pri) rising (s.state x).pri b
  have upto := fun a => @takeWhile_low l (fun a => (s.state a).pri) (s.state x).pri a
  have whole : l = l.takeWhile (fun a => (s.state a).pri ≤ (s.state x).pri) ++
      l.dropWhile (fun a => (s.state a).pri ≤ (s.state x).pri) := List.takeWhile_append_dropWhile.symm
  unfold joined enqueue
  rw [if_pos (by decide)]
  generalize l.takeWhile (fun a => (s.state a).pri ≤ (s.state x).pri) = A at *
  generalize l.dropWhile (fun a => (s.state a).pri ≤ (s.state x).pri) = B at *
  subst whole
  obtain ⟨keepsA, keepsB, across⟩ := List.pairwise_append.mp keeps
  refine List.pairwise_append.mpr ⟨keepsA, List.pairwise_cons.mpr ⟨?_, keepsB⟩, ?_⟩
  · intro b member
    unfold Before
    rw [pri, pri]
    exact .inl (back b member)
  · intro a left b right
    cases List.mem_cons.mp right with
    | inr later => exact across a left b later
    | inl same =>
      subst same
      have inside := List.mem_append_left B left
      have upto : (s.state a).pri ≤ (s.state b).pri := upto a left
      have later := new a inside
      unfold Before
      rw [pri, pri, old a inside]
      omega

/-- `pcb_insert` files a loose PCB that does not run. -/
theorem put_placed (P : Placed s loose live qs) (member : x ∈ loose) (resting : (s.state x).exec ≠ .running)
    (saved : ∃ c, (s.pcbs x).pctxt = some c ∧ c.segment = (s.pcbs x).pstackseg) :
    ∃ s', pcbInsert s x = some s' ∧ Relinked s s' ∧
      Placed s' (loose.erase x) live (update qs (s.state x).queueSelector
        (joined s (s.state x).queueSelector x (qs (s.state x).queueSelector))) := by
  obtain ⟨real, detached, outside⟩ := P.loose x member
  obtain ⟨s', inserted, queued, links⟩ := pcbInsert_queued P.queued real outside detached
  obtain ⟨relinked, clock, enqueued⟩ := pcbInsert_relinked inserted
  refine ⟨s', inserted, relinked, queued, ?_, P.distinct.erase x, ?_, ?_, ?_, ?_, ?_, ?_⟩
  · intro p
    simp only [mem_update_joined, P.members, P.distinct.mem_erase_iff]
    constructor
    · intro there
      by_cases same : p = x
      · exact .inr ⟨_, .inl ⟨same, rfl⟩⟩
      · cases there with
        | inl free => exact .inl ⟨same, free⟩
        | inr filed =>
          obtain ⟨j, inside⟩ := filed
          exact .inr ⟨j, .inr inside⟩
    · intro there
      cases there with
      | inl free => exact .inl free.2
      | inr filed =>
        obtain ⟨j, inside⟩ := filed
        cases inside with
        | inl new => exact .inl (new.1 ▸ member)
        | inr old => exact .inr ⟨j, old⟩
  · intro p free
    obtain ⟨other, free⟩ := P.distinct.mem_erase_iff.mp free
    obtain ⟨real', detached', outside'⟩ := P.loose p free
    refine ⟨real', (links p other outside').trans detached', ?_⟩
    intro j inside
    cases mem_update_joined.mp inside with
    | inl new => exact other new.1
    | inr old => exact outside' j old
  · intro j p inside
    rw [relinked.state]
    cases mem_update_joined.mp inside with
    | inl new => exact new.1 ▸ resting
    | inr old => exact P.rests j p old
  · generalize (s.state x).queueSelector = i at *
    by_cases ready : i = 0
    · subst ready
      rw [update_self]
      refine joined_sorted P.sorted (fun q => by rw [relinked.state]) ?_ ?_
      · intro q inside
        rw [enqueued, stamp_enqueued, if_neg]
        intro both
        exact outside 0 (both.2 ▸ inside)
      · intro q inside
        rw [enqueued, stamp_enqueued, if_pos ⟨rfl, rfl⟩]
        exact P.stamped q inside
    · have same : s'.enqueued = s.enqueued := by
        rw [enqueued]
        unfold Procs.stamp
        rw [if_neg ready]
      rw [update_of_ne fun same => ready same.symm]
      exact P.sorted.imp (relinked_before relinked same)
  · intro p inside
    rw [enqueued, clock, stamp_enqueued, stamp_clock]
    cases mem_update_joined.mp inside with
    | inl new =>
      obtain ⟨rfl, ready⟩ := new
      rw [if_pos ⟨ready.symm, rfl⟩, if_pos ready.symm]
      exact Nat.lt_succ_self _
    | inr old =>
      have other : p ≠ x := fun same => outside 0 (same ▸ old)
      rw [if_neg fun both => other both.2]
      have before := P.stamped p old
      split <;> omega
  · intro p left q right
    rw [relinked.pstackseg, relinked.pstackseg]
    exact P.segments p left q right
  · intro j p inside
    rw [relinked.pctxt, relinked.pstackseg]
    cases mem_update_joined.mp inside with
    | inl new => exact new.1 ▸ saved
    | inr old => exact P.saved j p old

/-! ### Refiling -/

/-- `s'` is `s` but for the state of `x` and for saved contexts. -/
structure Restated (s s' : Procs) (x : Ptr) : Prop where
  queues : s'.queues = s.queues
  clock : s'.clock = s.clock
  enqueued : s'.enqueued = s.enqueued
  others : ∀ q, q ≠ x → s'.pcbs q = s.pcbs q
  own : { s'.pcbs x with state := s.state x } = s.pcbs x

theorem Restated.pcb (R : Restated s s' x) (q : Ptr) :
    s'.pNext q = s.pNext q ∧ (s'.pcbs q).pstackseg = (s.pcbs q).pstackseg ∧
      (s'.pcbs q).pctxt = (s.pcbs q).pctxt := by
  unfold Procs.pNext
  by_cases same : q = x
  · rw [same, ← R.own]
    exact ⟨rfl, rfl, rfl⟩
  · rw [R.others q same]
    exact ⟨rfl, rfl, rfl⟩

theorem setPcb_pcb (s : Procs) (x q : Ptr) (pcb : Pcb) :
    (s.setPcb x pcb).pcbs q = if q = x then pcb else s.pcbs q := by
  unfold Procs.setPcb
  by_cases same : q = x
  · subst same
    rw [if_pos rfl]
    exact update_self ..
  · rw [if_neg same]
    exact update_of_ne same ..

theorem setState_state (s : Procs) (x q : Ptr) (state : PcbState) :
    (s.setState x state).state q = if q = x then state else s.state q := by
  unfold Procs.setState
  show ((s.setPcb x _).pcbs q).state = _
  rw [setPcb_pcb]
  split <;> rfl

theorem setState_restated (s : Procs) (x : Ptr) (state : PcbState) : Restated s (s.setState x state) x := by
  unfold Procs.setState
  refine ⟨rfl, rfl, rfl, ?_, ?_⟩
  · intro q other
    rw [setPcb_pcb, if_neg other]
  · rw [setPcb_pcb, if_pos rfl]
    rfl

theorem Restated.trans_contexts (R : Restated s s' x) (contexts : CtxPtr → Context) :
    Restated s { s' with contexts := contexts } x :=
  ⟨R.queues, R.clock, R.enqueued, R.others, R.own⟩

/-- A PCB is removed, its state changes, and it is inserted again: it moves to the queue of its new
state, and nothing else moves. -/
theorem refile_placed (P : Placed s loose live qs) (member : x ∈ qs i) :
    ∃ s₁, pcbRemove s x = some (s₁, 0) ∧ Relinked s s₁ ∧
      ∀ s₂, Restated s₁ s₂ x → (s₂.state x).exec ≠ .running →
        ∃ s' qs', pcbInsert s₂ x = some s' ∧ Relinked s₂ s' ∧ Placed s' loose live qs' ∧
          ∀ q j, q ∈ qs' j ↔ (q = x ∧ j = (s₂.state x).queueSelector) ∨ (q ∈ qs j ∧ q ≠ x) := by
  obtain ⟨s₁, removed, off, clock, enqueued, P₁⟩ := take_placed P member
  refine ⟨s₁, removed, off, fun s₂ R resting => ?_⟩
  have P₂ : Placed s₂ (x :: loose) live (update qs i ((qs i).erase x)) := by
    refine P₁.congr R.queues R.clock R.enqueued ?_ (fun q _ => (R.pcb q).1) fun q _ => (R.pcb q).2.1
    intro q outside
    exact R.others q fun same => outside (same ▸ List.mem_cons_self)
  have saved : ∃ c, (s₂.pcbs x).pctxt = some c ∧ c.segment = (s₂.pcbs x).pstackseg := by
    rw [(R.pcb x).2.2, (R.pcb x).2.1, off.pctxt, off.pstackseg]
    exact P.saved i x member
  obtain ⟨s', inserted, on', P'⟩ := put_placed P₂ List.mem_cons_self resting saved
  rw [List.erase_cons_head] at P'
  refine ⟨s', _, inserted, on', P', fun q j => ?_⟩
  rw [mem_update_joined]
  constructor
  · intro there
    cases there with
    | inl new => exact .inl new
    | inr old =>
      obtain ⟨inside, other⟩ := update_erase_mem P.queued old
      exact .inr ⟨inside, other member⟩
  · intro there
    cases there with
    | inl new => exact .inl new
    | inr old => exact .inr (mem_update_erase old.1 old.2)

end Mpx.Process

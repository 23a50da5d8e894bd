import Mpx.Library.Transition
import Mpx.Process.Scheduling

/-! # Sequences of insertions and removals

The queues are used in any order and with any PCBs, as long as a PCB that is in a queue is left alone. -/

namespace Mpx.Process
open Function Library.Links Library.Transition

/-- The PCBs that are linked to from `pcb_head`. -/
def Procs.entries (s : Procs) (i : Fin 4) : List Ptr :=
  (walk s.pNext 0 addressSpace (s.queues i).pcbHead).getD []

/-- `edit` is what is done to a PCB outside the queues. -/
inductive QueueCall where
  | insert (x : Ptr)
  | remove (x : Ptr)
  | edit (x : Ptr) (pcb : Pcb)

def QueueCall.Allowed (s : Procs) : QueueCall → Prop
  | .insert x => x ≠ 0 ∧ s.pNext x = 0 ∧ ∀ i, x ∉ s.entries i
  | .remove x => x ≠ 0
  | .edit x _ => ∀ i, x ∉ s.entries i

def Procs.call (s : Procs) : QueueCall → Option Procs
  | .insert x => pcbInsert s x
  | .remove x => (pcbRemove s x).map (·.1)
  | .edit x pcb => some (s.setPcb x pcb)

def QueuesEmpty (s : Procs) : Prop :=
  ∀ i, s.queues i = { pcbHead := 0, pcbTail := 0, ispriority := decide (i = 0 ∨ i = 2) }

/-- `x` has come into the queue that its state selects. -/
structure Inserted (s s' : Procs) (x : Ptr) (i : Fin 4) : Prop where
  priority : i = 0 ∨ i = 2 → ∃ A B, s.entries i = A ++ B ∧ s'.entries i = A ++ x :: B ∧
    (∀ a ∈ A, (s.state a).pri ≤ (s.state x).pri) ∧ ∀ b ∈ B, (s.state x).pri < (s.state b).pri
  blocked : ¬(i = 0 ∨ i = 2) → s'.entries i = s.entries i ++ [x]
  others : ∀ j, j ≠ i → s'.entries j = s.entries j ∧ s'.queues j = s.queues j

/-- `x` has left the queue that its state selects, or was not there. -/
structure Removed (s s' : Procs) (x : Ptr) (i : Fin 4) (result : Int) : Prop where
  listed : x ∈ s.entries i → result = 0 ∧ s'.pNext x = 0 ∧ s'.entries i = (s.entries i).erase x ∧
    ∀ j, j ≠ i → s'.entries j = s.entries j ∧ s'.queues j = s.queues j
  unlisted : x ∉ s.entries i → result = -1 ∧ s' = s

structure Ordered (s : Procs) (qs : Fin 4 → List Ptr) : Prop where
  queued : Queued s qs
  rising : ∀ i, i = 0 ∨ i = 2 → (qs i).Pairwise fun a b => (s.state a).pri ≤ (s.state b).pri

variable {s s' t : Procs} {qs qs' : Fin 4 → List Ptr} {x : Ptr} {i j : Fin 4} {A : List Ptr}

theorem Queued.walk (Q : Queued s qs) (i : Fin 4) :
    walk s.pNext 0 addressSpace (s.queues i).pcbHead = some (qs i) :=
  walk_iff.mpr ⟨(Q.queue i).chain, Q.short i⟩

theorem Queued.entries (Q : Queued s qs) (i : Fin 4) : s.entries i = qs i := by
  unfold Procs.entries
  rw [Q.walk i]
  rfl

/-- The list determines the ends of the queue. -/
theorem Queued.ends (Q : Queued s qs) (i : Fin 4) :
    s.queues i = ⟨(qs i).headD 0, (qs i).getLastD 0, decide (i = 0 ∨ i = 2)⟩ := by
  rw [← (Q.queue i).chain.head, ← (Q.queue i).tail, ← Q.ispriority i]

theorem Queued.others (Q : Queued s qs) (Q' : Queued s' qs') (same : qs' j = qs j) :
    s'.entries j = s.entries j ∧ s'.queues j = s.queues j := by
  rw [Q.entries, Q'.entries, Q.ends, Q'.ends, same]
  exact ⟨rfl, rfl⟩

/-! ### Removal of a PCB that is not there -/

theorem removeScan_absent {fuel : Nat} {iter : Ptr} (chain : Chain s.pNext 0 iter (x :: A)) {y : Ptr}
    (absent : y ∉ A) (enough : A.length < fuel) : removeScan s y fuel iter = some 0 := by
  induction A generalizing x iter fuel with
  | nil =>
    cases fuel with
    | zero => cases enough
    | succ fuel =>
      obtain ⟨rfl, _, rest⟩ := chain_cons_iff.mp chain
      rw [removeScan, if_pos (chain_nil_iff.mp rest)]
  | cons a A ih =>
    cases fuel with
    | zero => cases enough
    | succ fuel =>
      obtain ⟨rfl, _, rest⟩ := chain_cons_iff.mp chain
      obtain ⟨next, real, _⟩ := chain_cons_iff.mp rest
      have other : s.pNext iter ≠ y := fun same => absent (same ▸ next ▸ List.mem_cons_self)
      rw [removeScan, if_neg (next ▸ real), if_neg other,
        ih rest (List.not_mem_of_not_mem_cons absent) (by simpa using enough)]

theorem pcbRemove_absent (Q : Queued s qs) (real : x ≠ 0) (absent : x ∉ qs (s.state x).queueSelector) :
    pcbRemove s x = some (s, -1) := by
  unfold pcbRemove
  simp only [if_neg real]
  generalize (s.state x).queueSelector = i at absent
  have chain := (Q.queue i).chain
  have short := Q.short i
  cases row : qs i with
  | nil =>
    rw [row] at chain
    rw [if_pos (chain_nil_iff.mp chain)]
  | cons a A =>
    rw [row] at chain absent short
    obtain ⟨head, real_a, rest⟩ := chain_cons_iff.mp chain
    have other : (s.queues i).pcbHead ≠ x := by
      rw [head]
      exact fun same => absent (same ▸ List.mem_cons_self)
    rw [if_neg (head ▸ real_a), if_neg other]
    by_cases single : s.pNext (s.queues i).pcbHead = 0
    · rw [if_pos single]
    · rw [if_neg single, removeScan_absent chain (List.not_mem_of_not_mem_cons absent) (by simp at short; omega)]
      rfl

/-! ### Steps -/

theorem empty_ordered (empty : QueuesEmpty s) : Ordered s fun _ => [] := by
  refine ⟨⟨?_, ?_, fun _ => List.nodup_nil, fun _ _ member => by cases member⟩, fun _ _ => List.Pairwise.nil⟩
  · intro i
    rw [empty i]
    exact queue_nil_iff.mpr ⟨rfl, rfl⟩
  · intro i
    rw [empty i]

theorem insert_ordered (O : Ordered s qs) (real : x ≠ 0) (fresh : ∀ j, x ∉ qs j) (detached : s.pNext x = 0)
    (filed : (s.state x).queueSelector = i) :
    ∃ s', pcbInsert s x = some s' ∧ Ordered s' (update qs i (joined s i x (qs i))) := by
  subst filed
  obtain ⟨s', inserted, queued, _⟩ := pcbInsert_queued O.queued real fresh detached
  refine ⟨s', inserted, queued, ?_⟩
  have relinked := (pcbInsert_relinked inserted).1
  have pris : ∀ p, (s'.state p).pri = (s.state p).pri := fun p => by rw [relinked.state p]
  intro j isPriority
  simp only [pris]
  by_cases same : j = (s.state x).queueSelector
  · subst same
    have rising := O.rising _ isPriority
    have back := dropWhile_lower rising (s.state x).pri
    have upto := fun a => @takeWhile_low (qs (s.state x).queueSelector) (fun a => (s.state a).pri) (s.state x).pri a
    rw [← List.takeWhile_append_dropWhile (p := fun a => decide ((s.state a).pri ≤ (s.state x).pri))
      (l := qs (s.state x).queueSelector)] at rising
    obtain ⟨front, rest, across⟩ := List.pairwise_append.mp rising
    rw [update_self]
    unfold joined enqueue
    rw [if_pos (decide_eq_true isPriority)]
    refine List.pairwise_append.mpr ⟨front, List.pairwise_cons.mpr ⟨fun b hb => Nat.le_of_lt (back b hb), rest⟩, ?_⟩
    intro a ha b hb
    rcases List.mem_cons.mp hb with rfl | later
    · exact upto a ha
    · exact across a ha b later
  · rw [update_of_ne same]
    exact O.rising j isPriority

theorem remove_ordered (O : Ordered s qs) (member : x ∈ qs i) :
    ∃ s', pcbRemove s x = some (s', 0) ∧ s'.pNext x = 0 ∧ Ordered s' (update qs i ((qs i).erase x)) := by
  obtain ⟨s', removed, queued, unlinked, _⟩ := pcbRemove_queued O.queued member
  refine ⟨s', removed, unlinked, queued, ?_⟩
  have relinked := (pcbRemove_relinked removed).1
  have pris : ∀ p, (s'.state p).pri = (s.state p).pri := fun p => by rw [relinked.state p]
  intro j isPriority
  simp only [pris]
  by_cases same : j = i
  · subst same
    rw [update_self]
    exact (O.rising j isPriority).sublist List.erase_sublist
  · rw [update_of_ne same]
    exact O.rising j isPriority

theorem edit_ordered (O : Ordered s qs) (fresh : ∀ j, x ∉ qs j) (pcb : Pcb) : Ordered (s.setPcb x pcb) qs := by
  have others : ∀ i, ∀ q ∈ qs i, (s.setPcb x pcb).pcbs q = s.pcbs q := by
    intro i q member
    have apart : q ≠ x := fun same => fresh i (same ▸ member)
    rw [setPcb_pcb, if_neg apart]
  refine ⟨O.queued.congr rfl others, ?_⟩
  intro i isPriority
  apply (O.rising i isPriority).imp_of_mem
  intro a b left right before
  unfold Procs.state at before ⊢
  rw [others i a left, others i b right]
  exact before

theorem call_ordered {c : QueueCall} (O : Ordered s qs) (allowed : c.Allowed s) (called : s.call c = some t) :
    ∃ qs', Ordered t qs' := by
  have entries := O.queued.entries
  cases c with
  | insert x =>
    obtain ⟨real, detached, fresh⟩ := allowed
    obtain ⟨s', inserted, O'⟩ := insert_ordered O real (fun j => entries j ▸ fresh j) detached rfl
    obtain rfl : s' = t := Option.some.inj (inserted.symm.trans called)
    exact ⟨_, O'⟩
  | remove x =>
    obtain ⟨⟨s', result⟩, removed, rfl⟩ := Option.map_eq_some_iff.mp called
    by_cases member : x ∈ qs (s.state x).queueSelector
    · obtain ⟨s'', left, _, O'⟩ := remove_ordered O member
      cases removed.symm.trans left
      exact ⟨_, O'⟩
    · cases removed.symm.trans (pcbRemove_absent O.queued allowed member)
      exact ⟨qs, O⟩
  | edit x pcb =>
    cases called
    exact ⟨qs, edit_ordered O (fun j => entries j ▸ allowed j) pcb⟩

theorem reached_ordered (reached : Reaches QueuesEmpty (fun s c => c.Allowed s) Procs.call s) : ∃ qs, Ordered s qs :=
  reaches_invariant (P := fun s => ∃ qs, Ordered s qs) (fun _ empty => ⟨_, empty_ordered empty⟩)
    (fun _ _ _ ordered allowed called => ordered.elim fun _ O => call_ordered O allowed called) reached

/-! ### The calls on lists -/

theorem insert_inserted (O : Ordered s qs) (real : x ≠ 0) (fresh : ∀ j, x ∉ qs j) (detached : s.pNext x = 0) :
    ∃ s', pcbInsert s x = some s' ∧ Inserted s s' x (s.state x).queueSelector := by
  obtain ⟨s', inserted, O'⟩ := insert_ordered O real fresh detached rfl
  generalize (s.state x).queueSelector = i at O'
  have entries := O.queued.entries i
  have entries' := O'.queued.entries i
  rw [update_self] at entries'
  unfold joined enqueue at entries'
  refine ⟨s', inserted, ?_, ?_, fun j other => O.queued.others O'.queued (update_of_ne other ..)⟩
  · intro isPriority
    rw [if_pos (decide_eq_true isPriority)] at entries'
    refine ⟨_, _, ?_, entries', fun a => takeWhile_low, dropWhile_lower (O.rising i isPriority) _⟩
    rw [entries, List.takeWhile_append_dropWhile]
  · intro notPriority
    rw [entries', entries, if_neg (by simpa using notPriority)]

theorem remove_removed (O : Ordered s qs) (real : x ≠ 0) :
    ∃ s' result, pcbRemove s x = some (s', result) ∧ Removed s s' x (s.state x).queueSelector result := by
  have entries := O.queued.entries (s.state x).queueSelector
  by_cases member : x ∈ qs (s.state x).queueSelector
  · obtain ⟨s', removed, unlinked, O'⟩ := remove_ordered O member
    refine ⟨s', 0, removed, fun _ => ⟨rfl, unlinked, ?_, ?_⟩, fun absent => (absent (entries ▸ member)).elim⟩
    · rw [O'.queued.entries, update_self, entries]
    · exact fun j other => O.queued.others O'.queued (update_of_ne other ..)
  · exact ⟨s, -1, pcbRemove_absent O.queued real member, fun listed => (member (entries ▸ listed)).elim,
      fun _ => ⟨rfl, rfl⟩⟩

/-- After any sequence of calls each queue is the list of its PCBs, on which `pcb_insert` and `pcb_remove` are
insertion and erasure. -/
theorem queue_calls (reached : Reaches QueuesEmpty (fun s c => c.Allowed s) Procs.call s) :
    (∀ i, walk s.pNext 0 addressSpace (s.queues i).pcbHead = some (s.entries i) ∧
      (s.queues i).pcbTail = (s.entries i).getLastD 0) ∧
    (∀ x, (QueueCall.insert x).Allowed s →
      ∃ s', pcbInsert s x = some s' ∧ Inserted s s' x (s.state x).queueSelector) ∧
    ∀ x, x ≠ 0 →
      ∃ s' result, pcbRemove s x = some (s', result) ∧ Removed s s' x (s.state x).queueSelector result := by
  obtain ⟨qs, O⟩ := reached_ordered reached
  have entries := O.queued.entries
  refine ⟨fun i => ⟨?_, ?_⟩, ?_, fun x real => remove_removed O real⟩
  · rw [entries i]
    exact O.queued.walk i
  · rw [entries i]
    exact (O.queued.queue i).tail
  · rintro x ⟨real, detached, fresh⟩
    exact insert_inserted O real (fun j => entries j ▸ fresh j) detached

/-- No queue has a PCB, and the priority of a PCB is the last digit of its address. -/
def vacant : Procs := {
  pcbs := fun p => { clearedPcb with state := ⟨.ready, .active, .user, p.toNat % 10⟩ }
  queues := fun i => { pcbHead := 0, pcbTail := 0, ispriority := decide (i = 0 ∨ i = 2) }
  contexts := fun _ => default
  clock := 0
  enqueued := fun _ => 0 }

instance allowedDecidable (s : Procs) : (c : QueueCall) → Decidable (c.Allowed s)
  | .insert _ => inferInstanceAs (Decidable (_ ∧ _))
  | .remove x => inferInstanceAs (Decidable (x ≠ 0))
  | .edit x _ => inferInstanceAs (Decidable (∀ i, x ∉ s.entries i))

/-- PCBs of one priority come in one behind the other, one is taken out from between them, and is filed as blocked. -/
theorem queue_calls_example : ∃ s : Procs, s.entries 0 = [13, 53, 25, 35] ∧ s.entries 1 = [43] ∧
    (∀ i, walk s.pNext 0 addressSpace (s.queues i).pcbHead = some (s.entries i) ∧
      (s.queues i).pcbTail = (s.entries i).getLastD 0) ∧
    (∀ x, (QueueCall.insert x).Allowed s →
      ∃ s', pcbInsert s x = some s' ∧ Inserted s s' x (s.state x).queueSelector) ∧
    ∀ x, x ≠ 0 →
      ∃ s' result, pcbRemove s x = some (s', result) ∧ Removed s s' x (s.state x).queueSelector result := by
  have ran : (run (fun s c => c.Allowed s) Procs.call vacant
      [.insert 25, .insert 13, .insert 35, .insert 43, .insert 53, .remove 43,
        .edit 43 { clearedPcb with state := ⟨.blocked, .active, .user, 3⟩ }, .insert 43]).map
      (fun s => (s.entries 0, s.entries 1)) = some ([13, 53, 25, 35], [43]) := by
    decide +kernel
  obtain ⟨s, ran, seen⟩ := Option.map_eq_some_iff.mp ran
  obtain ⟨ready, blocked⟩ := Prod.mk.inj seen
  exact ⟨s, ready, blocked, queue_calls (run_reaches (.start fun _ => rfl) ran)⟩

end Mpx.Process

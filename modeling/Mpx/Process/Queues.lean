import Mathlib.Data.List.Nodup
import Mathlib.Data.List.Perm.Subperm
import Mpx.Library.Links
import Mpx.Process.Pcb

/-! # The queues as lists

On well-formed queues `pcb_insert` and `pcb_remove` are operations on lists of PCBs, and whatever
the queues look like, they change nothing of a PCB but its link. -/

namespace Mpx.Process
open Function Library.Links

/-! ### Links -/

@[simp] theorem setNext_pNext (s : Procs) (p v a : Ptr) :
    (s.setNext p v).pNext a = if a = p then v else s.pNext a := by
  unfold Procs.setNext Procs.setPcb Procs.pNext
  by_cases same : a = p
  · subst same
    simp
  · simp [same]

@[simp] theorem setNext_queues (s : Procs) (p v : Ptr) : (s.setNext p v).queues = s.queues := rfl

@[simp] theorem setHead_pNext (s : Procs) (i : Fin 4) (p a : Ptr) : (s.setHead i p).pNext a = s.pNext a := rfl

@[simp] theorem setTail_pNext (s : Procs) (i : Fin 4) (p a : Ptr) : (s.setTail i p).pNext a = s.pNext a := rfl

@[simp] theorem stamp_pNext (s : Procs) (i : Fin 4) (p a : Ptr) : (s.stamp i p).pNext a = s.pNext a := by
  unfold Procs.stamp
  split <;> rfl

@[simp] theorem stamp_state (s : Procs) (i : Fin 4) (p a : Ptr) : (s.stamp i p).state a = s.state a := by
  unfold Procs.stamp
  split <;> rfl

@[simp] theorem stamp_queues (s : Procs) (i : Fin 4) (p : Ptr) : (s.stamp i p).queues = s.queues := by
  unfold Procs.stamp
  split <;> rfl

/-- `s'` is `s` but for links, queue ends and the insertion record. -/
structure Relinked (s s' : Procs) : Prop where
  contexts : s'.contexts = s.contexts
  pcbs : ∀ p, { s'.pcbs p with pNext := s.pNext p } = s.pcbs p

namespace Relinked

theorem refl (s : Procs) : Relinked s s := ⟨rfl, fun _ => rfl⟩

theorem trans {s t u : Procs} (h : Relinked s t) (h' : Relinked t u) : Relinked s u := by
  refine ⟨h'.contexts.trans h.contexts, fun p => ?_⟩
  have outer := h'.pcbs p
  have inner := h.pcbs p
  rw [← outer] at inner
  exact inner

theorem setNext (s : Procs) (p v : Ptr) : Relinked s (s.setNext p v) := by
  refine ⟨rfl, fun a => ?_⟩
  unfold Procs.setNext Procs.setPcb Procs.pNext
  by_cases same : a = p
  · subst same
    simp
  · simp [same]

theorem setHead (s : Procs) (i : Fin 4) (p : Ptr) : Relinked s (s.setHead i p) := ⟨rfl, fun _ => rfl⟩

theorem setTail (s : Procs) (i : Fin 4) (p : Ptr) : Relinked s (s.setTail i p) := ⟨rfl, fun _ => rfl⟩

theorem stamp (s : Procs) (i : Fin 4) (p : Ptr) : Relinked s (s.stamp i p) := by
  unfold Procs.stamp
  split
  · exact ⟨rfl, fun _ => rfl⟩
  · exact refl s

variable {s s' : Procs}

theorem state (h : Relinked s s') (p : Ptr) : s'.state p = s.state p := by
  have same := h.pcbs p
  unfold Procs.state
  rw [← same]

theorem pctxt (h : Relinked s s') (p : Ptr) : (s'.pcbs p).pctxt = (s.pcbs p).pctxt := by
  rw [← h.pcbs p]

theorem pstackseg (h : Relinked s s') (p : Ptr) : (s'.pcbs p).pstackseg = (s.pcbs p).pstackseg := by
  rw [← h.pcbs p]

end Relinked

theorem insertTail_relinked {s s' : Procs} {i : Fin 4} {tail x : Ptr}
    (h : insertTail s i tail x = some s') : Relinked s s' := by
  unfold insertTail at h
  split at h
  · cases h
  · cases h
    exact (Relinked.setNext s tail x).trans (Relinked.setTail _ i x)

theorem insertHead_relinked (s : Procs) (i : Fin 4) (x : Ptr) : Relinked s (insertHead s i x) :=
  (Relinked.setNext s x _).trans (Relinked.setHead _ i x)

theorem insertTail_record {s s' : Procs} {i : Fin 4} {tail x : Ptr}
    (h : insertTail s i tail x = some s') : s'.clock = s.clock ∧ s'.enqueued = s.enqueued := by
  unfold insertTail at h
  split at h
  · cases h
  · cases h
    exact ⟨rfl, rfl⟩

/-- Every way through `pcb_insert` records the insertion and then only relinks. -/
theorem pcbInsert_relinked {s s' : Procs} {x : Ptr} (h : pcbInsert s x = some s') :
    Relinked s s' ∧ s'.clock = (s.stamp (s.state x).queueSelector x).clock ∧
      s'.enqueued = (s.stamp (s.state x).queueSelector x).enqueued := by
  unfold pcbInsert at h
  split at h
  · cases h
  simp only at h
  generalize (s.state x).queueSelector = i at h ⊢
  have stamped := Relinked.stamp s i x
  generalize s.stamp i x = t at h stamped ⊢
  have tail : ∀ tail, insertTail t i tail x = some s' →
      Relinked s s' ∧ s'.clock = t.clock ∧ s'.enqueued = t.enqueued :=
    fun _ done => ⟨stamped.trans (insertTail_relinked done), insertTail_record done⟩
  have front : some (insertHead t i x) = some s' →
      Relinked s s' ∧ s'.clock = t.clock ∧ s'.enqueued = t.enqueued := by
    rintro ⟨⟩
    exact ⟨stamped.trans (insertHead_relinked t i x), rfl, rfl⟩
  split at h
  · split at h
    · split at h
      · split at h
        · exact front h
        · exact tail _ h
      · exact tail _ h
    · split at h
      · obtain ⟨⟨prevcmpnode, cmpnode⟩, _, h⟩ := Option.bind_eq_some_iff.mp h
        simp only at h
        split at h
        · exact tail _ h
        · split at h
          · exact front h
          · cases h
            exact ⟨stamped.trans ((Relinked.setNext _ _ _).trans (Relinked.setNext _ _ _)), rfl, rfl⟩
      · exact tail _ h
  · cases h
    exact ⟨stamped.trans ((Relinked.setHead _ _ _).trans (Relinked.setTail _ _ _)), rfl, rfl⟩

theorem pcbRemove_relinked {s s' : Procs} {x : Ptr} {r : Int} (h : pcbRemove s x = some (s', r)) :
    Relinked s s' ∧ s'.clock = s.clock ∧ s'.enqueued = s.enqueued := by
  unfold pcbRemove at h
  split at h
  · cases h
  simp only at h
  split at h
  · cases h
    exact ⟨Relinked.refl s, rfl, rfl⟩
  split at h
  · cases h
    split
    · exact ⟨((Relinked.setTail _ _ _).trans (Relinked.setHead _ _ _)).trans (Relinked.setNext _ _ _), rfl, rfl⟩
    · exact ⟨(Relinked.setHead _ _ _).trans (Relinked.setNext _ _ _), rfl, rfl⟩
  split at h
  · cases h
    exact ⟨Relinked.refl s, rfl, rfl⟩
  obtain ⟨iter, _, h⟩ := Option.bind_eq_some_iff.mp h
  split at h
  · cases h
    exact ⟨Relinked.refl s, rfl, rfl⟩
  · cases h
    split
    · exact ⟨((Relinked.setTail _ _ _).trans (Relinked.setNext _ _ _)).trans (Relinked.setNext _ _ _), rfl, rfl⟩
    · exact ⟨(Relinked.setNext _ _ _).trans (Relinked.setNext _ _ _), rfl, rfl⟩

/-! ### Well-formed queues -/

/-- `qs i` is the content of queue `i`, and every PCB is in the queue that its state selects. -/
structure Queued (s : Procs) (qs : Fin 4 → List Ptr) : Prop where
  queue : ∀ i, Queue s.pNext 0 (s.queues i).pcbHead (s.queues i).pcbTail (qs i)
  ispriority : ∀ i, (s.queues i).ispriority = decide (i = 0 ∨ i = 2)
  unique : ∀ i, (qs i).Nodup
  filed : ∀ i, ∀ p ∈ qs i, (s.state p).queueSelector = i

/-- The list after an insertion: behind the nodes of no lower priority, or at the end. -/
def enqueue (pri : Ptr → Nat) (ispriority : Bool) (x : Ptr) (l : List Ptr) : List Ptr :=
  if ispriority then
    l.takeWhile (fun a => pri a ≤ pri x) ++ x :: l.dropWhile (fun a => pri a ≤ pri x)
  else l ++ [x]

variable {s s' : Procs} {qs : Fin 4 → List Ptr} {x p : Ptr} {i j : Fin 4} {l A B : List Ptr}

theorem enqueue_perm (pri : Ptr → Nat) (isPri : Bool) (x : Ptr) (l : List Ptr) :
    (enqueue pri isPri x l).Perm (x :: l) := by
  unfold enqueue
  split
  · refine List.perm_middle.trans ?_
    rw [List.takeWhile_append_dropWhile]
  · exact List.perm_append_singleton x l

theorem nodup_length {l : List Ptr} (unique : l.Nodup) (nonnull : 0 ∉ l) : l.length < addressSpace := by
  have whole : ((0 :: l).map UInt32.toNat).Nodup :=
    (List.nodup_cons.mpr ⟨nonnull, unique⟩).map fun _ _ same => UInt32.toNat_inj.mp same
  have bounded : (0 :: l).map UInt32.toNat ⊆ List.range (2 ^ 32) := by
    intro n member
    obtain ⟨p, _, rfl⟩ := List.mem_map.mp member
    exact List.mem_range.mpr p.toNat_lt
  have length := (List.subperm_of_subset whole bounded).length_le
  simp only [List.length_map, List.length_cons, List.length_range] at length
  exact length

namespace Queued

theorem nonnull (Q : Queued s qs) (member : p ∈ qs i) : p ≠ 0 :=
  fun null => (Q.queue i).chain.nonnull (null ▸ member)

theorem short (Q : Queued s qs) (i : Fin 4) : (qs i).length < addressSpace :=
  nodup_length (Q.unique i) (Q.queue i).chain.nonnull

theorem apart (Q : Queued s qs) (hi : p ∈ qs i) (hj : p ∈ qs j) : i = j :=
  (Q.filed i p hi).symm.trans (Q.filed j p hj)

/-- One queue changes and the links of the others stay. -/
theorem replace (Q : Queued s qs)
    (queue : Queue s'.pNext 0 (s'.queues i).pcbHead (s'.queues i).pcbTail l) (unique : l.Nodup)
    (relinked : Relinked s s') (filed : ∀ p ∈ l, (s.state p).queueSelector = i)
    (others : ∀ j, j ≠ i → s'.queues j = s.queues j)
    (ispriority : (s'.queues i).ispriority = (s.queues i).ispriority)
    (links : ∀ j, j ≠ i → ∀ p ∈ qs j, s'.pNext p = s.pNext p) : Queued s' (update qs i l) := by
  refine ⟨?_, ?_, ?_, ?_⟩
  · intro j
    by_cases same : j = i
    · subst same
      rw [update_self]
      exact queue
    · rw [update_of_ne same, others j same]
      exact queue_congr (Q.queue j) (links j same)
  · intro j
    by_cases same : j = i
    · subst same
      rw [ispriority]
      exact Q.ispriority j
    · rw [others j same]
      exact Q.ispriority j
  · intro j
    by_cases same : j = i
    · subst same
      rw [update_self]
      exact unique
    · rw [update_of_ne same]
      exact Q.unique j
  · intro j p member
    rw [relinked.state]
    by_cases same : j = i
    · subst same
      rw [update_self] at member
      exact filed p member
    · rw [update_of_ne same] at member
      exact Q.filed j p member

theorem stamp (Q : Queued s qs) (i : Fin 4) (x : Ptr) : Queued (s.stamp i x) qs := by
  have next : (s.stamp i x).pNext = s.pNext := funext (stamp_pNext s i x)
  obtain ⟨queue, ispriority, unique, filed⟩ := Q
  refine ⟨?_, ?_, unique, ?_⟩
  · rw [next, stamp_queues]
    exact queue
  · rw [stamp_queues]
    exact ispriority
  · intro j p member
    rw [stamp_state]
    exact filed j p member

end Queued

/-! ### Insertion -/

theorem priorityScan_chain {pri fuel : Nat} (prev : Ptr) {cmp : Ptr} (chain : Chain s.pNext 0 cmp (A ++ B))
    (occupied : A ++ B ≠ []) (low : ∀ a ∈ A, (s.state a).pri ≤ pri)
    (high : ∀ b ∈ B.head?, pri < (s.state b).pri) (enough : (A ++ B).length < fuel) :
    priorityScan s pri fuel prev cmp = some (A.getLastD prev, B.headD 0) := by
  induction A generalizing prev cmp fuel with
  | nil =>
    cases fuel with
    | zero => cases enough
    | succ fuel =>
      cases B with
      | nil => exact (occupied rfl).elim
      | cons b B =>
        obtain ⟨rfl, _, _⟩ := chain_cons_iff.mp chain
        have higher := high cmp rfl
        rw [priorityScan, if_neg (by omega)]
        rfl
  | cons a A ih =>
    cases fuel with
    | zero => cases enough
    | succ fuel =>
      obtain ⟨rfl, _, rest⟩ := chain_cons_iff.mp chain
      rw [priorityScan, if_pos (low cmp List.mem_cons_self)]
      by_cases last : A ++ B = []
      · obtain ⟨rfl, rfl⟩ := List.append_eq_nil_iff.mp last
        rw [if_pos (chain_nil_iff.mp rest)]
        rfl
      · have more : s.pNext cmp ≠ 0 := by
          intro null
          rw [null] at rest
          exact last (chain_null rest)
        rw [if_neg more, ih _ rest last (fun b hb => low b (List.mem_cons_of_mem _ hb))
          (by simpa using enough), List.getLastD_cons]

theorem insertHead_queued (Q : Queued s qs) (real : x ≠ 0) (fresh : ∀ j, x ∉ qs j) (occupied : qs i ≠ [])
    (filed : (s.state x).queueSelector = i) : Queued (insertHead s i x) (update qs i (x :: qs i)) := by
  have queue := Q.queue i
  have unique : (x :: qs i).Nodup := List.nodup_cons.mpr ⟨fresh i, Q.unique i⟩
  refine Q.replace ?_ unique (insertHead_relinked s i x) ?_ ?_ ?_ ?_
  · have head : ((insertHead s i x).queues i).pcbHead = x := by simp [insertHead, Procs.setHead]
    have tail : ((insertHead s i x).queues i).pcbTail = (s.queues i).pcbTail := by
      simp [insertHead, Procs.setHead]
    have links : ∀ a, (insertHead s i x).pNext a =
        if a = x then (s.queues i).pcbHead else s.pNext a := by
      intro a
      unfold insertHead
      rw [setHead_pNext, setNext_pNext]
    rw [head, tail]
    apply queue_put (A := []) queue unique real occupied rfl
    · intro a member
      have other : a ≠ x := fun same => fresh i (same ▸ member)
      rw [links a, if_neg other, List.getLastD_nil, if_neg (Q.nonnull member)]
    · rw [links x, if_pos rfl]
      exact queue.chain.head
  · intro p member
    rcases List.mem_cons.mp member with rfl | old
    · exact filed
    · exact Q.filed i p old
  · intro j other
    simp [insertHead, Procs.setHead, other]
  · simp [insertHead, Procs.setHead]
  · intro j _ p member
    have other : p ≠ x := fun same => fresh j (same ▸ member)
    unfold insertHead
    rw [setHead_pNext, setNext_pNext, if_neg other]

theorem insertTail_queued (Q : Queued s qs) (real : x ≠ 0) (fresh : ∀ j, x ∉ qs j) (occupied : qs i ≠ [])
    (detached : s.pNext x = 0) (filed : (s.state x).queueSelector = i) :
    ∃ s', insertTail s i (s.queues i).pcbTail x = some s' ∧
      Queued s' (update qs i (qs i ++ [x])) ∧
      ∀ p, (∀ j, p ∉ qs j) → s'.pNext p = s.pNext p := by
  have queue := Q.queue i
  have tail : (s.queues i).pcbTail = (qs i).getLastD 0 := queue.tail
  have last : (s.queues i).pcbTail ∈ qs i := tail ▸ getLastD_mem occupied
  have unique : (qs i ++ [x]).Nodup := by
    refine List.nodup_append.mpr ⟨Q.unique i, List.nodup_singleton x, ?_⟩
    intro a member b single
    obtain rfl : b = x := by simpa using single
    exact fun same => fresh i (same ▸ member)
  have inserted : insertTail s i (s.queues i).pcbTail x =
      some ((s.setNext (s.queues i).pcbTail x).setTail i x) := by
    unfold insertTail
    rw [if_neg (Q.nonnull last)]
  have links : ∀ a, ((s.setNext (s.queues i).pcbTail x).setTail i x).pNext a =
      if a = (s.queues i).pcbTail then x else s.pNext a := by
    intro a
    rw [setTail_pNext, setNext_pNext]
  refine ⟨_, inserted, Q.replace ?_ unique (insertTail_relinked inserted) ?_ ?_ ?_ ?_, ?_⟩
  · have head : (((s.setNext (s.queues i).pcbTail x).setTail i x).queues i).pcbHead =
        (s.queues i).pcbHead := by simp [Procs.setTail]
    have tail' : (((s.setNext (s.queues i).pcbTail x).setTail i x).queues i).pcbTail = x := by
      simp [Procs.setTail]
    rw [head, tail']
    apply queue_append queue unique real
    · rw [headD_front occupied]
      exact queue.chain.head
    · intro a _
      rw [links a, tail]
    · have other : x ≠ (s.queues i).pcbTail := by
        rintro rfl
        exact fresh i last
      rw [links x, if_neg other, detached]
  · intro p member
    rcases List.mem_append.mp member with old | single
    · exact Q.filed i p old
    · obtain rfl : p = x := by simpa using single
      exact filed
  · intro j other
    simp [Procs.setTail, other]
  · simp [Procs.setTail]
  · intro j other p member
    rw [links p, if_neg]
    rintro rfl
    exact other (Q.apart member last)
  · intro p away
    rw [links p, if_neg]
    rintro rfl
    exact away i last

theorem insertBetween_queued (Q : Queued s qs) (real : x ≠ 0) (fresh : ∀ j, x ∉ qs j)
    (row : qs i = A ++ B) (front : A ≠ []) (behind : B ≠ [])
    (filed : (s.state x).queueSelector = i) :
    Queued ((s.setNext (A.getLastD 0) x).setNext x (B.headD 0)) (update qs i (A ++ x :: B)) := by
  have queue := Q.queue i
  have listed := Q.unique i
  have absent := fresh i
  rw [row] at queue listed absent
  have last : A.getLastD 0 ∈ qs i := row ▸ List.mem_append_left _ (getLastD_mem front)
  have unique : (A ++ x :: B).Nodup := List.nodup_middle.mpr (List.nodup_cons.mpr ⟨absent, listed⟩)
  have links : ∀ a, ((s.setNext (A.getLastD 0) x).setNext x (B.headD 0)).pNext a =
      if a = x then B.headD 0 else if a = A.getLastD 0 then x else s.pNext a := by
    intro a
    rw [setNext_pNext, setNext_pNext]
  refine Q.replace ?_ unique ((Relinked.setNext _ _ _).trans (Relinked.setNext _ _ _)) ?_ ?_ rfl ?_
  · apply queue_put queue unique real behind
    · rw [setNext_queues, setNext_queues, queue.chain.head, headD_front front, headD_front front]
    · intro a member
      have other : a ≠ x := fun same => absent (same ▸ member)
      rw [links a, if_neg other]
    · rw [links x, if_pos rfl]
  · intro p member
    have cases : p = x ∨ p ∈ A ++ B := by
      simp only [List.mem_append, List.mem_cons] at member ⊢
      tauto
    rcases cases with rfl | old
    · exact filed
    · exact Q.filed i p (row ▸ old)
  · intro j _
    rfl
  · intro j other p member
    have apart : p ≠ x := fun same => fresh j (same ▸ member)
    rw [links p, if_neg apart, if_neg]
    rintro rfl
    exact other (Q.apart member last)

theorem insertEmpty_queued (Q : Queued s qs) (real : x ≠ 0) (detached : s.pNext x = 0)
    (filed : (s.state x).queueSelector = i) : Queued ((s.setHead i x).setTail i x) (update qs i [x]) := by
  have heads : (((s.setHead i x).setTail i x).queues i).pcbHead = x := by
    simp [Procs.setHead, Procs.setTail]
  have tails : (((s.setHead i x).setTail i x).queues i).pcbTail = x := by
    simp [Procs.setHead, Procs.setTail]
  refine Q.replace ?_ (List.nodup_singleton x)
    ((Relinked.setHead _ _ _).trans (Relinked.setTail _ _ _)) ?_ ?_ ?_ ?_
  · rw [heads, tails]
    exact ⟨chain_cons_iff.mpr ⟨rfl, real, chain_nil_iff.mpr detached⟩, rfl⟩
  · intro p member
    obtain rfl : p = x := by simpa using member
    exact filed
  · intro j other
    simp [Procs.setHead, Procs.setTail, other]
  · simp [Procs.setHead, Procs.setTail]
  · intro j _ p _
    rfl

/-- `x` has come into queue `i`, which is now `l`, and the links of the PCBs in no queue stay. -/
structure Joined (s s' : Procs) (qs : Fin 4 → List Ptr) (i : Fin 4) (x : Ptr) (l : List Ptr) : Prop where
  queued : Queued s' (update qs i l)
  loose : ∀ p, p ≠ x → (∀ j, p ∉ qs j) → s'.pNext p = s.pNext p

theorem insertHead_joined (Q : Queued s qs) (real : x ≠ 0) (fresh : ∀ j, x ∉ qs j) (occupied : qs i ≠ [])
    (filed : (s.state x).queueSelector = i) : Joined s (insertHead s i x) qs i x (x :: qs i) := by
  refine ⟨insertHead_queued Q real fresh occupied filed, ?_⟩
  intro p other _
  unfold insertHead
  rw [setHead_pNext, setNext_pNext, if_neg other]

theorem insertTail_joined (Q : Queued s qs) (real : x ≠ 0) (fresh : ∀ j, x ∉ qs j) (occupied : qs i ≠ [])
    (detached : s.pNext x = 0) (filed : (s.state x).queueSelector = i) :
    ∃ s', insertTail s i (s.queues i).pcbTail x = some s' ∧ Joined s s' qs i x (qs i ++ [x]) := by
  obtain ⟨s', inserted, queued, loose⟩ := insertTail_queued Q real fresh occupied detached filed
  exact ⟨s', inserted, queued, fun p _ away => loose p away⟩

/-- The three ways in which `pcb_insert` puts a PCB between what its scan has passed and the rest. -/
theorem insertBehind_joined (Q : Queued s qs) (real : x ≠ 0) (fresh : ∀ j, x ∉ qs j)
    (row : qs i = A ++ B) (occupied : qs i ≠ []) (detached : s.pNext x = 0)
    (filed : (s.state x).queueSelector = i) :
    ∃ s', (if B.headD 0 = 0 then insertTail s i (s.queues i).pcbTail x
        else if B.headD 0 = (s.queues i).pcbHead then some (insertHead s i x)
        else some ((s.setNext (A.getLastD 0) x).setNext x (B.headD 0))) = some s' ∧
      Joined s s' qs i x (A ++ x :: B) := by
  by_cases last : B = []
  · subst last
    rw [List.append_nil] at row
    obtain ⟨s', inserted, joined⟩ := insertTail_joined Q real fresh occupied detached filed
    refine ⟨s', ?_, ?_⟩
    · rw [List.headD_nil, if_pos rfl]
      exact inserted
    · rw [← row]
      exact joined
  have chain := (Q.queue i).chain
  have unique := Q.unique i
  rw [row] at chain unique
  have behind := headD_mem (t := 0) last
  have real_b : B.headD 0 ≠ 0 := fun null => chain.nonnull (null ▸ List.mem_append_right _ behind)
  rw [if_neg real_b]
  by_cases front : A = []
  · subst front
    rw [List.nil_append] at row chain
    refine ⟨_, if_pos chain.head.symm, ?_⟩
    rw [List.nil_append, ← row]
    exact insertHead_joined Q real fresh occupied filed
  · have other : B.headD 0 ≠ (s.queues i).pcbHead := fun same =>
      (List.nodup_append.mp unique).2.2 _ (chain_front chain front) _ behind same.symm
    refine ⟨_, if_neg other, insertBetween_queued Q real fresh row front last filed, ?_⟩
    intro p apart away
    rw [setNext_pNext, setNext_pNext, if_neg apart, if_neg]
    rintro rfl
    exact away i (row ▸ List.mem_append_left _ (getLastD_mem front))

theorem takeWhile_low {pri : Ptr → Nat} {n : Nat} {a : Ptr}
    (member : a ∈ l.takeWhile fun a => pri a ≤ n) : pri a ≤ n := by
  simpa using List.all_eq_true.mp List.all_takeWhile a member

theorem dropWhile_high {pri : Ptr → Nat} {n : Nat} {b : Ptr}
    (first : b ∈ (l.dropWhile fun a => pri a ≤ n).head?) : n < pri b := by
  have stops := List.head?_dropWhile_not (fun a => decide (pri a ≤ n)) l
  rw [first] at stops
  simpa using stops

/-- From the first node of lower priority on, all are of lower priority. -/
theorem dropWhile_lower {pri : Ptr → Nat} (rising : l.Pairwise fun a b => pri a ≤ pri b) (n : Nat) :
    ∀ b ∈ l.dropWhile (fun a => pri a ≤ n), n < pri b := by
  induction l with
  | nil =>
    intro b member
    cases member
  | cons a l ih =>
    obtain ⟨first, rest⟩ := List.pairwise_cons.mp rising
    intro b member
    by_cases upto : pri a ≤ n
    · rw [List.dropWhile_cons_of_pos (by simpa using upto)] at member
      exact ih rest b member
    · rw [List.dropWhile_cons_of_neg (by simpa using upto)] at member
      rcases List.mem_cons.mp member with rfl | later
      · omega
      · have := first b later
        omega

/-- `pcb_insert` into a priority queue of several PCBs. -/
theorem insertScan_joined (Q : Queued s qs) (real : x ≠ 0) (fresh : ∀ j, x ∉ qs j) (occupied : qs i ≠ [])
    (detached : s.pNext x = 0) (filed : (s.state x).queueSelector = i) :
    ∃ s', (do
        let (prevcmpnode, cmpnode) ← priorityScan s (s.state x).pri addressSpace 0 (s.queues i).pcbHead
        if cmpnode = 0 then insertTail s i (s.queues i).pcbTail x
        else if cmpnode = (s.queues i).pcbHead then some (insertHead s i x)
        else some ((s.setNext prevcmpnode x).setNext x cmpnode)) = some s' ∧
      Joined s s' qs i x (enqueue (fun p => (s.state p).pri) true x (qs i)) := by
  have chain := (Q.queue i).chain
  have short := Q.short i
  unfold enqueue
  rw [if_pos rfl]
  have low := fun a => @takeWhile_low (qs i) (fun a => (s.state a).pri) (s.state x).pri a
  have high := fun b => @dropWhile_high (qs i) (fun a => (s.state a).pri) (s.state x).pri b
  have row := (List.takeWhile_append_dropWhile
    (p := fun a => decide ((s.state a).pri ≤ (s.state x).pri)) (l := qs i)).symm
  generalize (qs i).takeWhile (fun a => decide ((s.state a).pri ≤ (s.state x).pri)) = A at low row ⊢
  generalize (qs i).dropWhile (fun a => decide ((s.state a).pri ≤ (s.state x).pri)) = B at high row ⊢
  have joined := insertBehind_joined Q real fresh row occupied detached filed
  rw [row] at chain short occupied
  rw [priorityScan_chain 0 chain occupied low high short]
  exact joined

/-- `pcb_insert` into a queue of one PCB. -/
theorem insertSingle_joined (Q : Queued s qs) (real : x ≠ 0) (fresh : ∀ j, x ∉ qs j) (single : qs i = [p])
    (detached : s.pNext x = 0) (filed : (s.state x).queueSelector = i) (ispriority : Bool) :
    ∃ s', (if ispriority then
          if (s.state x).pri < (s.state (s.queues i).pcbHead).pri then some (insertHead s i x)
          else insertTail s i (s.queues i).pcbHead x
        else insertTail s i (s.queues i).pcbHead x) = some s' ∧
      Joined s s' qs i x (enqueue (fun p => (s.state p).pri) ispriority x (qs i)) := by
  have occupied : qs i ≠ [] := single ▸ List.cons_ne_nil p []
  have head : (s.queues i).pcbHead = p := by
    rw [(Q.queue i).chain.head, single]
    rfl
  have tail : (s.queues i).pcbTail = p := by
    rw [(Q.queue i).tail, single]
    rfl
  have atHead := insertHead_joined Q real fresh occupied filed
  have atTail := insertTail_joined Q real fresh occupied detached filed
  rw [single] at atHead atTail ⊢
  rw [head]
  rw [tail] at atTail
  unfold enqueue
  cases ispriority with
  | false => exact atTail
  | true =>
    rw [if_pos rfl, if_pos rfl]
    by_cases higher : (s.state x).pri < (s.state p).pri
    · refine ⟨_, if_pos higher, ?_⟩
      rw [List.takeWhile_cons_of_neg (by simpa using higher),
        List.dropWhile_cons_of_neg (by simpa using higher)]
      exact atHead
    · rw [if_neg higher, List.takeWhile_cons_of_pos (by simpa using higher),
        List.dropWhile_cons_of_pos (by simpa using higher)]
      exact atTail

/-- `pcb_insert` of a PCB that is in no queue. -/
theorem pcbInsert_queued (Q : Queued s qs) (real : x ≠ 0) (fresh : ∀ j, x ∉ qs j)
    (detached : s.pNext x = 0) :
    ∃ s', pcbInsert s x = some s' ∧
      Queued s' (update qs (s.state x).queueSelector
        (enqueue (fun p => (s.state p).pri) (decide ((s.state x).queueSelector = 0 ∨ (s.state x).queueSelector = 2))
          x (qs (s.state x).queueSelector))) ∧
      ∀ p, p ≠ x → (∀ j, p ∉ qs j) → s'.pNext p = s.pNext p := by
  generalize hi : (s.state x).queueSelector = i
  have Q' := Q.stamp i x
  have filed : ((s.stamp i x).state x).queueSelector = i := by rw [stamp_state, hi]
  have detached' : (s.stamp i x).pNext x = 0 := by rw [stamp_pNext, detached]
  have keeps : ∀ p, (s.stamp i x).pNext p = s.pNext p := stamp_pNext s i x
  have pris : (fun p => (s.state p).pri) = fun p => ((s.stamp i x).state p).pri := by
    funext p
    rw [stamp_state]
  unfold pcbInsert
  simp only [if_neg real, hi]
  rw [pris, show (s.state x).pri = ((s.stamp i x).state x).pri by rw [stamp_state],
    ← stamp_queues s i x]
  generalize s.stamp i x = t at Q' filed detached' keeps ⊢
  have queue := Q'.queue i
  -- The stamp is no link, so it is enough to join the queue behind it.
  suffices joined : ∃ s', _ = some s' ∧
      Joined t s' qs i x (enqueue (fun p => (t.state p).pri) (decide (i = 0 ∨ i = 2)) x (qs i)) by
    obtain ⟨s', inserted, queued, loose⟩ := joined
    exact ⟨s', inserted, queued, fun p other away => (loose p other away).trans (keeps p)⟩
  by_cases occupied : qs i = []
  · have head : (t.queues i).pcbHead = 0 := (queue_head_null_iff queue).mpr occupied
    have first : enqueue (fun p => (t.state p).pri) (decide (i = 0 ∨ i = 2)) x [] = [x] := by
      unfold enqueue
      split <;> rfl
    rw [if_neg (by simpa using head), occupied, first]
    exact ⟨_, rfl, insertEmpty_queued Q' real detached' filed, fun p _ _ => rfl⟩
  have head : (t.queues i).pcbHead ≠ 0 := fun null => occupied ((queue_head_null_iff queue).mp null)
  have single := queue.chain
  rw [if_pos head, Q'.ispriority i]
  cases row : qs i with
  | nil => exact (occupied row).elim
  | cons h rest =>
    rw [row] at single
    have single_iff := chain_single_iff single
    rw [← (chain_cons_iff.mp single).1] at single_iff
    rw [← row]
    by_cases alone : rest = []
    · rw [if_pos (single_iff.mpr alone)]
      exact insertSingle_joined Q' real fresh (alone ▸ row) detached' filed _
    · rw [if_neg fun null => alone (single_iff.mp null)]
      cases decide (i = 0 ∨ i = 2) with
      | true => exact insertScan_joined Q' real fresh occupied detached' filed
      | false => exact insertTail_joined Q' real fresh occupied detached' filed

/-! ### Removal -/

theorem removeScan_chain {fuel : Nat} {iter : Ptr} (chain : Chain s.pNext 0 iter (A ++ x :: B))
    (front : A ≠ []) (absent : x ∉ A) (enough : A.length < fuel) :
    removeScan s x fuel iter = some (A.getLastD 0) := by
  induction A generalizing iter fuel with
  | nil => exact (front rfl).elim
  | cons a A ih =>
    cases fuel with
    | zero => cases enough
    | succ fuel =>
      obtain ⟨rfl, _, rest⟩ := chain_cons_iff.mp chain
      have apart := List.not_mem_of_not_mem_cons absent
      cases A with
      | nil =>
        obtain ⟨next, real, _⟩ := chain_cons_iff.mp rest
        rw [removeScan, if_neg (by rw [next]; exact real), if_pos next]
        rfl
      | cons b A =>
        obtain ⟨next, real, _⟩ := chain_cons_iff.mp rest
        have other : b ≠ x := fun same => apart (same ▸ List.mem_cons_self)
        rw [removeScan, if_neg (by rw [next]; exact real), if_neg (by rw [next]; exact other),
          ih rest (List.cons_ne_nil b A) apart (by simpa using enough)]
        rfl

/-- `t` is `s` after one of the two ways in which `pcb_remove` takes `x` from between `A` and `B`: it
hooks the predecessor, if any, to the successor and sets the ends of the queue. -/
theorem removed_queued {t : Procs} (Q : Queued s qs) (row : qs i = A ++ x :: B) (relinked : Relinked s t)
    (others : ∀ j, j ≠ i → t.queues j = s.queues j)
    (ispriority : (t.queues i).ispriority = (s.queues i).ispriority)
    (head : (t.queues i).pcbHead = (A ++ B).headD 0)
    (tail : (t.queues i).pcbTail = if B = [] then A.getLastD 0 else (s.queues i).pcbTail)
    (links : ∀ p, p ≠ 0 → t.pNext p = if p = x then 0 else if p = A.getLastD 0 then B.headD 0 else s.pNext p) :
    Queued t (update qs i (A ++ B)) ∧ t.pNext x = 0 ∧
      ∀ p, p ≠ 0 → (∀ j, p ∉ qs j) → t.pNext p = s.pNext p := by
  have queue := Q.queue i
  have unique := Q.unique i
  have member : x ∈ qs i := row ▸ List.mem_append_right A List.mem_cons_self
  have sub : ∀ p ∈ A ++ B, p ∈ qs i := by
    intro p listed
    rw [row]
    exact List.mem_append.mpr ((List.mem_append.mp listed).imp_right (List.mem_cons_of_mem x))
  rw [row] at queue unique
  have middle := List.nodup_cons.mp (List.nodup_middle.mp unique)
  have last : ∀ p, p ≠ 0 → p = A.getLastD 0 → p ∈ qs i := by
    intro p nonnull same
    rcases getLastD_or_mem A 0 with null | inside
    · exact (nonnull (same.trans null)).elim
    · exact sub p (List.mem_append_left _ (same ▸ inside))
  refine ⟨Q.replace ?_ middle.2 relinked (fun p listed => Q.filed i p (sub p listed)) others ispriority ?_,
    ?_, ?_⟩
  · rw [tail]
    apply queue_drop queue middle.2 head
    intro p listed
    have other : p ≠ x := fun same => middle.1 (same ▸ listed)
    rw [links p (Q.nonnull (sub p listed)), if_neg other]
  · intro j apart p listed
    have other : p ≠ x := by
      rintro rfl
      exact apart (Q.apart listed member)
    rw [links p (Q.nonnull listed), if_neg other, if_neg]
    intro same
    exact apart (Q.apart listed (last p (Q.nonnull listed) same))
  · rw [links x (Q.nonnull member), if_pos rfl]
  · intro p nonnull away
    have other : p ≠ x := by
      rintro rfl
      exact away i member
    rw [links p nonnull, if_neg other, if_neg]
    exact fun same => away i (last p nonnull same)

/-- The head leaves; `t` may differ from `s` in the tail of the queue. -/
theorem removeFirst_queued {t : Procs} (Q : Queued s qs) (row : qs i = x :: B) (relinked : Relinked s t)
    (links : t.pNext = s.pNext) (others : ∀ j, j ≠ i → t.queues j = s.queues j)
    (ispriority : (t.queues i).ispriority = (s.queues i).ispriority)
    (tail : (t.queues i).pcbTail = if B = [] then 0 else (s.queues i).pcbTail) :
    Queued ((t.setHead i (t.pNext x)).setNext x 0) (update qs i B) ∧
      ((t.setHead i (t.pNext x)).setNext x 0).pNext x = 0 ∧
      ∀ p, p ≠ 0 → (∀ j, p ∉ qs j) → ((t.setHead i (t.pNext x)).setNext x 0).pNext p = s.pNext p := by
  have chain := (Q.queue i).chain
  rw [row] at chain
  have behind := chain_next (A := []) chain
  apply removed_queued (A := []) Q row ((relinked.trans (Relinked.setHead _ _ _)).trans (Relinked.setNext _ _ _))
  · intro j other
    simp [Procs.setHead, other, others j other]
  · simp [Procs.setHead, ispriority]
  · simp [Procs.setHead, links, behind]
  · simp [Procs.setHead, tail]
  · intro p nonnull
    rw [setNext_pNext, setHead_pNext, links, List.getLastD_nil, if_neg (c := p = 0) nonnull]

/-- A PCB behind the head leaves; `t` may differ from `s` in the tail of the queue. -/
theorem removeLater_queued {t : Procs} (Q : Queued s qs) (row : qs i = A ++ x :: B) (front : A ≠ [])
    (relinked : Relinked s t) (links : t.pNext = s.pNext)
    (others : ∀ j, j ≠ i → t.queues j = s.queues j)
    (ispriority : (t.queues i).ispriority = (s.queues i).ispriority)
    (head : (t.queues i).pcbHead = (s.queues i).pcbHead)
    (tail : (t.queues i).pcbTail = if B = [] then A.getLastD 0 else (s.queues i).pcbTail) :
    Queued ((t.setNext (A.getLastD 0) (t.pNext x)).setNext x 0) (update qs i (A ++ B)) ∧
      ((t.setNext (A.getLastD 0) (t.pNext x)).setNext x 0).pNext x = 0 ∧
      ∀ p, p ≠ 0 → (∀ j, p ∉ qs j) →
        ((t.setNext (A.getLastD 0) (t.pNext x)).setNext x 0).pNext p = s.pNext p := by
  have chain := (Q.queue i).chain
  rw [row] at chain
  refine removed_queued Q row ((relinked.trans (Relinked.setNext _ _ _)).trans (Relinked.setNext _ _ _))
    others ispriority ?_ tail ?_
  · rw [setNext_queues, setNext_queues, head, chain.head, headD_front front, headD_front front]
  · intro p _
    rw [setNext_pNext, setNext_pNext, links, chain_next chain]

/-- `pcb_remove` of a PCB in its queue. -/
theorem pcbRemove_queued (Q : Queued s qs) (member : x ∈ qs i) :
    ∃ s', pcbRemove s x = some (s', 0) ∧ Queued s' (update qs i ((qs i).erase x)) ∧ s'.pNext x = 0 ∧
      ∀ p, p ≠ 0 → (∀ j, p ∉ qs j) → s'.pNext p = s.pNext p := by
  have queue := Q.queue i
  have unique := Q.unique i
  have short := Q.short i
  obtain ⟨A, B, row⟩ := List.append_of_mem member
  rw [row] at queue unique short
  have middle := List.nodup_cons.mp (List.nodup_middle.mp unique)
  have absent : x ∉ A := fun other => middle.1 (List.mem_append_left _ other)
  have last_iff := queue_last_iff queue fun other => middle.1 (List.mem_append_right _ other)
  have head_real : (s.queues i).pcbHead ≠ 0 := by
    intro null
    have empty := (queue_head_null_iff queue).mp null
    simp at empty
  have result : (qs i).erase x = A ++ B := by
    rw [row, List.erase_append_right _ absent, List.erase_cons_head]
  rw [result]
  unfold pcbRemove
  simp only [if_neg (Q.nonnull member)]
  rw [Q.filed i x member, if_neg head_real]
  by_cases front : A = []
  · subst front
    rw [List.nil_append] at row
    have head : (s.queues i).pcbHead = x := queue.chain.head
    rw [if_pos head, head, List.nil_append]
    refine ⟨_, rfl, ?_⟩
    split
    · rename_i single
      apply removeFirst_queued Q row (Relinked.setTail _ _ _) rfl
      · intro j other
        simp [Procs.setTail, other]
      · simp [Procs.setTail]
      · simp [Procs.setTail, last_iff.mp single]
    · rename_i several
      exact removeFirst_queued Q row (Relinked.refl s) rfl (fun _ _ => rfl) rfl
        (if_neg fun empty => several (last_iff.mpr empty)).symm
  · have inHead := chain_front queue.chain front
    have head : (s.queues i).pcbHead ≠ x := fun same => absent (same ▸ inHead)
    have more : s.pNext (s.queues i).pcbHead ≠ 0 := by
      have chain := queue.chain
      cases A with
      | nil => exact (front rfl).elim
      | cons a A =>
        rw [(chain_cons_iff.mp chain).1]
        intro null
        have empty := (chain_single_iff chain).mp null
        simp at empty
    have length : A.length < addressSpace := by
      simp only [List.length_append, List.length_cons] at short
      omega
    have inLast := getLastD_mem (s := 0) front
    have real_iter : A.getLastD 0 ≠ 0 :=
      fun null => queue.chain.nonnull (null ▸ List.mem_append_left _ inLast)
    rw [if_neg head, if_neg more, removeScan_chain queue.chain front absent length]
    simp only [Option.bind_eq_bind, Option.bind_some, if_neg real_iter]
    refine ⟨_, rfl, ?_⟩
    split
    · rename_i single
      apply removeLater_queued Q row front (Relinked.setTail _ _ _) rfl
      · intro j other
        simp [Procs.setTail, other]
      · simp [Procs.setTail]
      · simp [Procs.setTail]
      · simp [Procs.setTail, last_iff.mp single]
    · rename_i several
      exact removeLater_queued Q row front (Relinked.refl s) rfl (fun _ _ => rfl) rfl rfl
        (if_neg fun empty => several (last_iff.mpr empty)).symm

end Mpx.Process

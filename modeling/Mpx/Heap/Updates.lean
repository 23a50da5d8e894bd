import Mpx.Heap.Search

/-! # What each part of the allocator writes

The control blocks in `S` do not overlap, so every part of `allocate_memory` and `free_memory` is
an update of a few fields of a few records. -/

namespace Mpx.Heap
open Library.ByteMemory Library.Links

variable {S : List Nat} {h : HeapState} {m : Mem} {a : Nat} {g : Field}

theorem get_copyMcb (headers : Headers S) {source target : Nat} (ha : a ∈ S) (ht : target ∈ S)
    (different : source ≠ target) :
    get (copyMcb m source target) a g = if a = target then get m source g else get m a g := by
  unfold copyMcb
  rw [get_set headers ha ht (get_lt _ _ _), get_set headers ha ht (get_lt _ _ _),
    get_set headers ha ht (get_lt _ _ _)]
  by_cases same : a = target
  · subst same
    cases g <;> simp
  · simp [same]

/-- The memory after a split, with what the code reads in between. -/
theorem splitFree_mem (headers : Headers S) {select req new p q : Nat} (hn : new ∈ S)
    (at_new : new = select + req) (away : select ≠ new) (hp : p = 0 ∨ p ∈ S) (hq : q = 0 ∨ q ∈ S)
    (back : prev h.mem select = p) (ahead : Heap.next h.mem select = q) (p_ne : p ≠ new)
    (room : req ≤ get h.mem select .blkSize) :
    (splitFree h select req).mem =
      set (setSome (setSome (copyMcb h.mem select new) p .pNext new) q .pPrev new) new .blkSize
        (get h.mem select .blkSize - req) := by
  have new_lt := headers.lt new hn
  have new_word : word (select + req) = new := by rw [← at_new]; exact Nat.mod_eq_of_lt new_lt
  have copied : ∀ f, get (copyMcb h.mem select new) new f = get h.mem select f := by
    intro f
    rw [get_copyMcb headers hn hn away, if_pos rfl]
  have step₁ : ∀ f, get (setSome (copyMcb h.mem select new) p .pNext new) new f =
      get h.mem select f := by
    intro f
    rw [get_setSome headers hn hp new_lt, if_neg (fun both => p_ne both.1.symm), copied]
  have step₂ : get (setSome (setSome (copyMcb h.mem select new) p .pNext new) q .pPrev new) new
      .blkSize = get h.mem select .blkSize := by
    rw [get_setSome headers hn hq new_lt, if_neg (by simp), step₁]
  have size : word (get h.mem select .blkSize + 2 ^ 32 - req) = get h.mem select .blkSize - req := by
    have := get_lt h.mem select .blkSize
    unfold word
    omega
  unfold splitFree
  simp only [new_word, copied, step₁, step₂, back, ahead, size]

/-- A split copies the control block to `new`, shortens it, and hooks its neighbours to `new`. -/
theorem get_splitFree (headers : Headers S) {select req new p q : Nat} (ha : a ∈ S)
    (hn : new ∈ S) (at_new : new = select + req) (away : select ≠ new)
    (hp : p = 0 ∨ p ∈ S) (hq : q = 0 ∨ q ∈ S) (back : prev h.mem select = p)
    (ahead : Heap.next h.mem select = q) (p_ne : p ≠ new)
    (room : req ≤ get h.mem select .blkSize) :
    get (splitFree h select req).mem a g =
      if a = new ∧ g = .blkSize then get h.mem select .blkSize - req
      else if a = q ∧ g = .pPrev then new
      else if a = p ∧ g = .pNext then new
      else if a = new then get h.mem select g
      else get h.mem a g := by
  have new_lt := headers.lt new hn
  have size_lt : get h.mem select .blkSize - req < 2 ^ 32 := by
    have := get_lt h.mem select .blkSize
    omega
  rw [splitFree_mem headers hn at_new away hp hq back ahead p_ne room, get_set headers ha hn size_lt,
    get_setSome headers ha hq new_lt, get_setSome headers ha hp new_lt, get_copyMcb headers ha hn away]

/-- Insertion hooks the new block between `select` and `next` of the allocated list. -/
theorem get_insertAlloc (headers : Headers S) {new select next : Nat} (ha : a ∈ S) (hn : new ∈ S)
    (hs : select = 0 ∨ select ∈ S) (hx : next = 0 ∨ next ∈ S)
    (alone : h.allocHead = 0 → select = 0 ∧ next = 0) :
    get (insertAlloc h new select next).mem a g =
      if a = next ∧ g = .pPrev then new
      else if a = select ∧ g = .pNext then new
      else if a = new ∧ g = .pPrev then select
      else if a = new ∧ g = .pNext then next
      else get h.mem a g := by
  have new_lt := headers.lt new hn
  have bound : ∀ b, b = 0 ∨ b ∈ S → b < 2 ^ 32 := by
    rintro b (rfl | member)
    · decide
    · exact headers.lt b member
  have nonnull : a ≠ 0 := fun null => headers.nonnull (null ▸ ha)
  unfold insertAlloc
  split
  · rw [get_setSome headers ha hx new_lt, get_setSome headers ha hs new_lt,
      get_set headers ha hn (bound _ hs), get_set headers ha hn (bound _ hx)]
  · rename_i empty
    obtain ⟨rfl, rfl⟩ := alone (by simpa using empty)
    rw [get_set headers ha hn (by decide), get_set headers ha hn (by decide),
      if_neg (c := a = 0 ∧ g = .pPrev) (fun both => nonnull both.1),
      if_neg (c := a = 0 ∧ g = .pNext) (fun both => nonnull both.1)]

/-- Unlinking hooks the neighbours of a block of the allocated list to one another. -/
theorem get_unlinkAlloc (headers : Headers S) {tofree p q : Nat} (ha : a ∈ S) (ht : tofree ∈ S)
    (back : prev h.mem tofree = p) (ahead : Heap.next h.mem tofree = q) (hp : tofree ≠ h.allocHead → p ∈ S)
    (hq : q = 0 ∨ q ∈ S) (p_ne : tofree ≠ h.allocHead → p ≠ tofree) :
    get (unlinkAlloc h tofree).mem a g =
      if a = q ∧ g = .pPrev then p
      else if tofree ≠ h.allocHead ∧ a = p ∧ g = .pNext then q
      else get h.mem a g := by
  have p_lt : p < 2 ^ 32 := back ▸ get_lt _ _ _
  have q_lt : q < 2 ^ 32 := ahead ▸ get_lt _ _ _
  unfold unlinkAlloc
  by_cases first : tofree = h.allocHead
  · simp only [if_pos first, ahead, back, get_setSome headers ha hq p_lt]
    simp [first]
  · have kept : ∀ f, get (set h.mem p .pNext q) tofree f = get h.mem tofree f := by
      intro f
      rw [get_set headers ht (hp first) q_lt, if_neg (fun both => p_ne first both.1.symm)]
    simp only [if_neg first, ahead, back, kept, get_setSome headers ha hq p_lt,
      get_set headers ha (hp first) q_lt]
    simp [first]

/-- Absorbing takes the size and the successor of the block behind. -/
theorem get_absorbNext (headers : Headers S) {left right q : Nat} (ha : a ∈ S) (hl : left ∈ S)
    (hr : right ∈ S) (different : left ≠ right) (ahead : Heap.next m right = q)
    (hq : q = 0 ∨ q ∈ S)
    (room : get m left .blkSize + (get m right .blkSize + mcbSize) < 2 ^ 32) :
    get (absorbNext m left right) a g =
      if a = q ∧ g = .pPrev then left
      else if a = left ∧ g = .pNext then q
      else if a = left ∧ g = .blkSize then get m left .blkSize + (get m right .blkSize + mcbSize)
      else get m a g := by
  have left_lt := headers.lt left hl
  have q_lt : q < 2 ^ 32 := ahead ▸ get_lt _ _ _
  have size : word (get m left .blkSize + (get m right .blkSize + mcbSize)) =
      get m left .blkSize + (get m right .blkSize + mcbSize) := Nat.mod_eq_of_lt room
  have step₁ : get (set m left .blkSize (get m left .blkSize + (get m right .blkSize + mcbSize)))
      right .pNext = q := by
    rw [get_set headers hr hl room, if_neg (fun both => different both.1.symm)]
    exact ahead
  have step₂ : get (set (set m left .blkSize
      (get m left .blkSize + (get m right .blkSize + mcbSize))) left .pNext q) right .pNext = q := by
    rw [get_set headers hr hl q_lt, if_neg (fun both => different both.1.symm), step₁]
  unfold absorbNext
  simp only [size, step₁, step₂]
  rw [get_setSome headers ha hq left_lt, get_set headers ha hl q_lt, get_set headers ha hl room]

end Mpx.Heap

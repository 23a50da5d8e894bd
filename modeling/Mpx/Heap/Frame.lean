import Mpx.Heap.Updates

/-! # What the allocator leaves alone

Every write of `allocate_memory` and `free_memory` is to a field of a control block. Here each part of
them is confined to the control blocks it relinks. -/

namespace Mpx.Heap
open Library.ByteMemory Library.Links

/-- The bytes of the control blocks in `W`. -/
def headerBytes (W : Nat → Prop) (x : Nat) : Prop := ∃ a, W a ∧ a ≤ x ∧ x < a + mcbSize

variable {S : List Nat} {W : Nat → Prop} {h : HeapState} {m m' : Mem} {a b v : Nat} {f g : Field}

theorem field_inside (f : Field) : a ≤ a + f.offset ∧ a + f.offset + 4 ≤ a + mcbSize := by
  cases f <;> simp [Field.offset, mcbSize]

theorem set_confined (known : W b) : Confined (headerBytes W) m (set m b f v) := by
  apply store_confined
  intro x low high
  have inside := field_inside (a := b) f
  exact ⟨b, known, by omega, by omega⟩

theorem setSome_confined (known : b ≠ 0 → W b) : Confined (headerBytes W) m (setSome m b f v) := by
  unfold setSome
  split
  · rename_i real
    exact set_confined (known real)
  · exact confined_refl _ m

/-- A control block apart from those that are written keeps its fields. -/
theorem get_confined (h : Confined (headerBytes W) m m')
    (apart : ∀ b, W b → a + mcbSize ≤ b ∨ b + mcbSize ≤ a) : get m' a g = get m a g := by
  apply load_confined h
  intro x low high written
  obtain ⟨b, known, above, below⟩ := written
  have inside := field_inside (a := a) g
  have away := apart b known
  omega

theorem copyMcb_confined {source : Nat} (known : W b) : Confined (headerBytes W) m (copyMcb m source b) :=
  confined_trans (confined_trans (set_confined known) (set_confined known)) (set_confined known)

theorem splitFree_confined (headers : Headers S) {select req new p q : Nat} (hn : new ∈ S)
    (at_new : new = select + req) (away : select ≠ new) (hp : p = 0 ∨ p ∈ S) (hq : q = 0 ∨ q ∈ S)
    (back : prev h.mem select = p) (ahead : Heap.next h.mem select = q) (p_ne : p ≠ new)
    (room : req ≤ get h.mem select .blkSize) :
    Confined (headerBytes (· ∈ S)) h.mem (splitFree h select req).mem := by
  rw [splitFree_mem headers hn at_new away hp hq back ahead p_ne room]
  apply confined_trans _ (set_confined hn)
  apply confined_trans _ (setSome_confined hq.resolve_left)
  exact confined_trans (copyMcb_confined hn) (setSome_confined hp.resolve_left)

theorem insertAlloc_confined {new select next : Nat} (hn : W new) (hs : select ≠ 0 → W select)
    (hx : next ≠ 0 → W next) : Confined (headerBytes W) h.mem (insertAlloc h new select next).mem := by
  unfold insertAlloc
  split
  · apply confined_trans _ (setSome_confined hx)
    apply confined_trans _ (setSome_confined hs)
    exact confined_trans (set_confined hn) (set_confined hn)
  · exact confined_trans (set_confined hn) (set_confined hn)

theorem unlinkAlloc_confined (headers : Headers S) {tofree p q : Nat} (ht : tofree ∈ S)
    (back : prev h.mem tofree = p) (ahead : Heap.next h.mem tofree = q) (hp : tofree ≠ h.allocHead → p ∈ S)
    (hq : q = 0 ∨ q ∈ S) (p_ne : tofree ≠ h.allocHead → p ≠ tofree) :
    Confined (headerBytes (· ∈ S)) h.mem (unlinkAlloc h tofree).mem := by
  have q_lt : q < 2 ^ 32 := ahead ▸ get_lt _ _ _
  unfold unlinkAlloc
  by_cases first : tofree = h.allocHead
  · simp only [if_pos first, ahead]
    exact setSome_confined hq.resolve_left
  · have kept : ∀ f, get (set h.mem p .pNext q) tofree f = get h.mem tofree f := by
      intro f
      rw [get_set headers ht (hp first) q_lt, if_neg (fun both => p_ne first both.1.symm)]
    simp only [if_neg first, ahead, back, kept]
    exact confined_trans (set_confined (hp first)) (setSome_confined hq.resolve_left)

/-- The control blocks in `W`, all of them in `S`, take in a block, the one behind it and the one behind that. -/
theorem absorbNext_confined (headers : Headers S) {left right q : Nat} (hl : left ∈ S) (hr : right ∈ S)
    (different : left ≠ right) (ahead : Heap.next m right = q) (known : W left) (behind : q ≠ 0 → W q) :
    Confined (headerBytes W) m (absorbNext m left right) := by
  have q_lt : q < 2 ^ 32 := ahead ▸ get_lt _ _ _
  have size_lt : word (get m left .blkSize + (get m right .blkSize + mcbSize)) < 2 ^ 32 :=
    Nat.mod_lt _ (by decide)
  have step₁ : get (set m left .blkSize (word (get m left .blkSize + (get m right .blkSize + mcbSize))))
      right .pNext = q := by
    rw [get_set headers hr hl size_lt, if_neg (fun both => different both.1.symm)]
    exact ahead
  have step₂ : get (set (set m left .blkSize
      (word (get m left .blkSize + (get m right .blkSize + mcbSize)))) left .pNext q) right .pNext = q := by
    rw [get_set headers hr hl q_lt, if_neg (fun both => different both.1.symm), step₁]
  unfold absorbNext
  simp only [step₁, step₂]
  exact confined_trans (confined_trans (set_confined known) (set_confined known)) (setSome_confined behind)

theorem joinNext_confined (headers : Headers S) {tofree right q : Nat} (ht : tofree ∈ S) (hr : right ∈ S)
    (different : tofree ≠ right) (ahead : Heap.next m right = q) (known : W tofree) (beside : W right)
    (behind : q ≠ 0 → W q) : Confined (headerBytes W) m (joinNext m tofree right) := by
  unfold joinNext
  split
  · exact absorbNext_confined headers ht hr different ahead known behind
  · exact confined_trans (set_confined known) (set_confined beside)

/-- `free_memory` writes to the block, to the free blocks on either side and to the one behind those. -/
theorem insertFree_confined (headers : Headers S) {tofree select right q : Nat} (ht : tofree ∈ S)
    (hs : select = 0 ∨ select ∈ S) (hr : right = 0 ∨ right ∈ S) (apart : select ≠ 0 → select ≠ right)
    (different : tofree ≠ right) (ahead : right ≠ 0 → Heap.next h.mem right = q)
    (listed : h.freeHead ≠ 0 → select = 0 → right ≠ 0) (known : W tofree) (below : select ≠ 0 → W select)
    (beside : right ≠ 0 → W right) (behind : q ≠ 0 → W q) :
    Confined (headerBytes W) h.mem (insertFree h tofree select right).mem := by
  have ahead_set : ∀ a ∈ S, a ≠ right → right ≠ 0 → ∀ f v, v < 2 ^ 32 → Heap.next (set h.mem a f v) right = q := by
    intro a ha other real f v small
    rw [← ahead real]
    show get (set h.mem a f v) right .pNext = _
    rw [get_set headers (hr.resolve_left real) ha small, if_neg (fun both => other both.1.symm)]
  have joined : right ≠ 0 → ∀ v, v < 2 ^ 32 →
      Confined (headerBytes W) h.mem (joinNext (set h.mem tofree .pPrev v) tofree right) := by
    intro real v small
    exact confined_trans (set_confined known) (joinNext_confined headers ht (hr.resolve_left real) different
      (ahead_set tofree ht different real _ v small) known (beside real) behind)
  unfold insertFree
  by_cases empty : h.freeHead = 0
  · rw [if_pos empty]
    exact confined_trans (set_confined known) (set_confined known)
  rw [if_neg empty]
  by_cases first : select = 0
  · rw [if_neg (by simpa using first)]
    exact joined (listed empty first) 0 (by decide)
  rw [if_pos first]
  have member := hs.resolve_left first
  split
  · -- The block in front of the freed one grows.
    generalize hw : word (get h.mem select .blkSize + (get h.mem tofree .blkSize + mcbSize)) = size
    have size_lt : size < 2 ^ 32 := hw ▸ Nat.mod_lt _ (by decide)
    have grown : Confined (headerBytes W) h.mem (set h.mem select .blkSize size) := set_confined (below first)
    dsimp only
    split
    · rename_i real
      split
      · exact confined_trans grown (absorbNext_confined headers member (hr.resolve_left real) (apart first)
          (ahead_set select member (apart first) real _ size size_lt) (below first) behind)
      · exact grown
    · exact confined_trans grown (set_confined (below first))
  · have select_lt := headers.lt select member
    dsimp only
    split
    · rename_i real
      exact joined real select select_lt
    · exact set_confined known

end Mpx.Heap

import Mpx.Heap.Allocate
import Mpx.Heap.Release

/-! # The allocator refines operations on rows of blocks

`Granted` and `Released` are the abstract operations. A call with the free list in the state that
the code relies on is one of them. -/

namespace Mpx.Heap
open Library.ByteMemory Library.Links

/-- The blocks on the list that starts at `free_head`. -/
def freeList (h : HeapState) : List Nat := (walk (next h.mem) 0 addressSpace h.freeHead).getD []

/-- The blocks on the list that starts at `alloc_head`. -/
def allocList (h : HeapState) : List Nat := (walk (next h.mem) 0 addressSpace h.allocHead).getD []

/-- The first block of the free list that is large enough. -/
def firstFit (h : HeapState) (n : Nat) : Option Nat := (freeList h).find? fun a => n ≤ get h.mem a .blkSize

/-- The block in front of `a` on the free list. -/
def predecessor (h : HeapState) (a : Nat) : Nat := ((freeList h).takeWhile (· ≠ a)).getLastD 0

/-- The last block of the free list that lies below `a`. -/
def freeBelow (h : HeapState) (a : Nat) : Nat := ((freeList h).filter (· < a)).getLastD 0

/-- The first fit is handed out whole only from the head of the free list, and split only if its
back link is the block in front of it. -/
def FitLinked (h : HeapState) (n : Nat) : Prop :=
  ∀ a ∈ firstFit h n,
    if get h.mem a .blkSize ≤ n + mcbSize then a = h.freeHead else prev h.mem a = predecessor h a

instance (h : HeapState) (n : Nat) : Decidable (FitLinked h n) :=
  inferInstanceAs (Decidable (∀ a ∈ firstFit h n, _))

/-- A block for `n` bytes is taken from a row: the result is the row with the block at `x`. -/
inductive Granted (n : Nat) : List Block → Nat → List Block → Prop
  | split {pre post : List Block} {x s : Nat} : n + mcbSize < s →
      Granted n (pre ++ ⟨x, s, .free⟩ :: post) x
        (pre ++ ⟨x, n, claimed pre post⟩ :: ⟨x + mcbSize + n, s - n - mcbSize, .free⟩ :: post)
  | whole {pre post : List Block} {x s : Nat} : n ≤ s →
      Granted n (pre ++ ⟨x, s, .free⟩ :: post) x (pre ++ ⟨x, s, claimed pre post⟩ :: post)

/-- The block of `s` bytes at `x` is given back between the rows `pre` and `post`. -/
inductive Released (x s : Nat) : List Block → List Block → List Block → Prop
  | alone {pre post : List Block} : addrs .free pre = [] → (∀ b ∈ post.head?, b.kind ≠ .free) →
      Released x s pre post (pre ++ ⟨x, s, .free⟩ :: post)
  | forward {pre post : List Block} {y t : Nat} : addrs .free pre = [] →
      Released x s pre (⟨y, t, .free⟩ :: post) (pre ++ ⟨x, s + mcbSize + t, .free⟩ :: post)
  | backward {pre post : List Block} {y t : Nat} : (∀ b ∈ post.head?, b.kind ≠ .free) →
      Released x s (pre ++ [⟨y, t, .free⟩]) post (pre ++ ⟨y, t + mcbSize + s, .free⟩ :: post)
  | both {pre post : List Block} {y z t u : Nat} :
      Released x s (pre ++ [⟨y, t, .free⟩]) (⟨z, u, .free⟩ :: post)
        (pre ++ ⟨y, t + mcbSize + s + mcbSize + u, .free⟩ :: post)
  | lost {pre post : List Block} : addrs .free pre ≠ [] → (∀ b ∈ pre.getLast?, b.kind ≠ .free) →
      Released x s pre post (pre ++ ⟨x, s, .dead⟩ :: post)

variable {base limit x y n s : Nat} {h : HeapState} {bs pre post : List Block}

/-! ### The lists of a layout -/

theorem Layout.freeList_eq (L : Layout base limit h bs) : freeList h = addrs .free bs := by
  unfold freeList
  rw [walk_iff.mpr ⟨L.free, L.short .free⟩]
  rfl

theorem Layout.allocList_eq (L : Layout base limit h bs) : allocList h = addrs .used bs := by
  unfold allocList
  rw [walk_iff.mpr ⟨L.used, L.short .used⟩]
  rfl

theorem Layout.firstFit_none (L : Layout base limit h bs) (small : ∀ b ∈ bs, b.kind = .free → b.size < n) :
    firstFit h n = none := by
  unfold firstFit
  rw [L.freeList_eq, L.fit_none small]

theorem Layout.firstFit_first (L : Layout base limit h (pre ++ ⟨x, s, .free⟩ :: post)) (fits : n ≤ s)
    (before : ∀ b ∈ pre, b.kind = .free → b.size < n) : firstFit h n = some x := by
  unfold firstFit
  rw [L.freeList_eq, L.fit_first fits before]

theorem Layout.predecessor_eq (L : Layout base limit h (pre ++ ⟨x, s, .free⟩ :: post)) :
    predecessor h x = (addrs .free pre).getLastD 0 := by
  have below := (L.sides .free).1
  unfold predecessor
  rw [L.freeList_eq, addrs_here, List.takeWhile_append_of_pos]
  · simp
  · intro a ha
    have lower : a < x := below a ha
    simp only [decide_eq_true_eq, ne_eq]
    omega

theorem Layout.freeHead_iff (L : Layout base limit h (pre ++ ⟨x, s, .free⟩ :: post)) :
    x = h.freeHead ↔ addrs .free pre = [] := by
  have below := (L.sides .free).1
  have head := L.free.head
  simp only [addrs_append, addrs_cons, if_true] at head
  cases lowest : addrs .free pre with
  | nil =>
    rw [lowest] at head
    simpa using head.symm
  | cons a rest =>
    rw [lowest] at head
    have lower := below a (lowest ▸ List.mem_cons_self)
    have first : h.freeHead = a := head
    simp only at lower
    simp only [reduceCtorEq, iff_false]
    omega

theorem Layout.freeBelow_eq (L : Layout base limit h (pre ++ ⟨x, s, .used⟩ :: post)) :
    freeBelow h x = (addrs .free pre).getLastD 0 := by
  obtain ⟨below, above⟩ := L.sides .free
  have low : (addrs .free pre).filter (fun a => decide (a < x)) = addrs .free pre :=
    List.filter_eq_self.mpr fun a ha => decide_eq_true (below a ha)
  have high : (addrs .free post).filter (fun a => decide (a < x)) = [] := by
    apply List.filter_eq_nil_iff.mpr
    intro a ha
    have := above a ha
    simp only at this
    simp only [decide_eq_true_eq]
    omega
  unfold freeBelow
  rw [L.freeList_eq, addrs_other (by decide), List.filter_append, low, high,
    List.append_nil]

/-! ### Calls -/

theorem allocate_refines (L : Layout base limit h bs) (nowrap : n + mcbSize < 2 ^ 32)
    (linked : FitLinked h n) :
    (allocateMemory h n = some (h, 0) ∧ firstFit h n = none) ∨
      ∃ h' x bs', allocateMemory h n = some (h', x + mcbSize) ∧ firstFit h n = some x ∧
        Granted n bs x bs' ∧ Layout base limit h' bs' := by
  rcases firstFit_cases n bs with small | ⟨pre, x, s, post, rfl, fits, before⟩
  · exact Or.inl ⟨allocate_nofit L nowrap small, L.firstFit_none small⟩
  · right
    have first := L.firstFit_first fits before
    have condition := linked x first
    rw [L.sizes ⟨x, s, .free⟩ (by simp) (Or.inl rfl)] at condition
    by_cases tight : s ≤ n + mcbSize
    · rw [if_pos tight] at condition
      obtain ⟨h', granted, layout⟩ :=
        allocate_whole L nowrap before fits tight (L.freeHead_iff.mp condition)
      exact ⟨h', x, _, granted, first, .whole fits, layout⟩
    · rw [if_neg tight, L.predecessor_eq] at condition
      obtain ⟨h', granted, layout⟩ := allocate_split L nowrap before (by omega) condition
      exact ⟨h', x, _, granted, first, .split (by omega), layout⟩

/-- The two ends of a row face a free block or not. -/
theorem startsFree_cases (post : List Block) :
    (∀ b ∈ post.head?, b.kind ≠ .free) ∨ ∃ y t rest, post = ⟨y, t, .free⟩ :: rest := by
  rcases post with _ | ⟨⟨y, t, kind⟩, rest⟩
  · exact Or.inl (by simp)
  · by_cases free : kind = .free
    · exact Or.inr ⟨y, t, rest, by rw [free]⟩
    · exact Or.inl (by simpa using free)

theorem endsFree_cases (pre : List Block) :
    (∀ b ∈ pre.getLast?, b.kind ≠ .free) ∨ ∃ y t front, pre = front ++ [⟨y, t, .free⟩] := by
  rcases List.eq_nil_or_concat pre with rfl | ⟨front, ⟨y, t, kind⟩, rfl⟩
  · exact Or.inl (by simp)
  · by_cases free : kind = .free
    · exact Or.inr ⟨y, t, front, by rw [free, List.concat_eq_append]⟩
    · exact Or.inl (by simpa using free)

theorem insertFree_released (L : Layout base limit h (pre ++ ⟨x, s, .dead⟩ :: post))
    (size : get h.mem x .blkSize = s) :
    ∃ bs', Released x s pre post bs' ∧ Layout base limit
      (insertFree h x ((addrs .free pre).getLastD 0) ((addrs .free post).headD 0)) bs' := by
  rcases endsFree_cases pre with apart | ⟨y, t, front, rfl⟩
  · by_cases lowest : addrs .free pre = []
    · rw [lowest]
      rcases startsFree_cases post with gap | ⟨z, u, rest, rfl⟩
      · exact ⟨_, .alone lowest gap, insertFree_alone L size lowest gap⟩
      · rw [addrs_cons, if_pos rfl]
        exact ⟨_, .forward lowest, insertFree_forward L size lowest⟩
    · exact ⟨_, .lost lowest apart, insertFree_lost L size lowest apart⟩
  · rw [addrs_here, getLastD_append]
    rw [List.append_assoc] at L
    rcases startsFree_cases post with gap | ⟨z, u, rest, rfl⟩
    · exact ⟨_, .backward gap, insertFree_backward L size gap⟩
    · rw [addrs_cons, if_pos rfl]
      exact ⟨_, .both, insertFree_both L size⟩

theorem free_found (L : Layout base limit h (pre ++ ⟨x, s, .used⟩ :: post)) :
    freeMemory h (x + mcbSize) = some
      (insertFree (unlinkAlloc h x) x ((addrs .free pre).getLastD 0) ((addrs .free post).headD 0), 0) := by
  have listed : x ∈ addrs .used (pre ++ ⟨x, s, .used⟩ :: post) :=
    mem_addrs.mpr ⟨⟨x, s, .used⟩, by simp, rfl, rfl⟩
  have x_lt := L.headers.lt x (by simp)
  obtain ⟨real, _⟩ := L.payload_word (x := x) (by simp)
  have header : word (x + mcbSize + 2 ^ 32 - mcbSize) = x := by
    unfold word
    omega
  have found : findAlloc h.mem x addressSpace h.allocHead = some x := by
    rw [findAlloc_chain L.used (L.short .used), if_pos listed]
  obtain ⟨unlinked, size⟩ := unlinkAlloc_layout L
  have neighbours : findNeighbours (unlinkAlloc h x).mem x addressSpace 0 (unlinkAlloc h x).freeHead =
      some ((addrs .free pre).getLastD 0, (addrs .free post).headD 0) := by
    have free := unlinked.free
    have short := unlinked.short .free
    obtain ⟨below, above⟩ := unlinked.sides .free
    simp only [addrs_append, addrs_cons, reduceCtorEq, if_false] at free short
    exact findNeighbours_chain free (fun a ha => Nat.le_of_lt (below a ha)) above short
  simp only [freeMemory, L.isinit, header, found, neighbours, Bool.not_true, Bool.false_eq_true,
    if_false, Option.bind_eq_bind, Option.bind_some, if_neg real]
  rfl

/-- Freeing a block of the allocated list. -/
theorem free_refines (L : Layout base limit h (pre ++ ⟨x, s, .used⟩ :: post)) :
    ∃ h' bs', freeMemory h (x + mcbSize) = some (h', 0) ∧ Released x s pre post bs' ∧
      Layout base limit h' bs' := by
  obtain ⟨unlinked, size⟩ := unlinkAlloc_layout L
  obtain ⟨bs', released, layout⟩ := insertFree_released unlinked size
  exact ⟨_, bs', free_found L, released, layout⟩

/-- Freeing anything else changes nothing. -/
theorem free_unlisted (L : Layout base limit h bs) {p : Nat}
    (absent : word (p + 2 ^ 32 - mcbSize) ∉ addrs .used bs) : freeMemory h p = some (h, 1) := by
  have missing : findAlloc h.mem (word (p + 2 ^ 32 - mcbSize)) addressSpace h.allocHead = some 0 := by
    rw [findAlloc_chain L.used (L.short .used), if_neg absent]
  simp only [freeMemory, L.isinit, missing, Bool.not_true, Bool.false_eq_true, if_false,
    Option.bind_eq_bind, Option.bind_some, if_true]
  rfl

end Mpx.Heap

import Mathlib.Data.List.Nodup
import Mpx.Heap.Updates

/-! # Memory that holds a row of blocks

`Layout` connects the bytes of memory to the abstract heap. Each part of the allocator takes a
layout to a layout: between two lists a block is `dead`. -/

namespace Mpx.Heap
open Library.ByteMemory Library.Links

/-- The heap `[base, limit)` holds the blocks `bs`. The links of the free list are right in the
forward direction only, and so is the back link of the first allocated block. -/
structure Layout (base limit : Nat) (h : HeapState) (bs : List Block) : Prop where
  isinit : h.heapIsinit = true
  positive : 0 < base
  bound : limit ≤ 2 ^ 32
  tiles : Tiles limit base bs
  payload : ∀ a ∈ bs.map (·.addr), a + mcbSize < 2 ^ 32
  sizes : ∀ b ∈ bs, b.kind = .free ∨ b.kind = .used → get h.mem b.addr .blkSize = b.size
  free : Chain (next h.mem) 0 h.freeHead (addrs .free bs)
  used : Chain (next h.mem) 0 h.allocHead (addrs .used bs)
  usedBack : ∃ front, Back (prev h.mem) front (addrs .used bs)

variable {base limit x n : Nat} {h : HeapState} {pre post bs : List Block}

theorem addrs_disjoint {k k' : Kind} (unique : (bs.map (·.addr)).Nodup) (different : k ≠ k')
    {a : Nat} (member : a ∈ addrs k bs) : a ∉ addrs k' bs := by
  intro member'
  obtain ⟨b, hb, rfl, rfl⟩ := mem_addrs.mp member
  obtain ⟨c, hc, rfl, same⟩ := mem_addrs.mp member'
  have equal : c = b := List.inj_on_of_nodup_map unique hc hb same
  exact different (congrArg _ equal.symm)

theorem addrs_inside {k : Kind} {a : Nat} (ha : a ∈ addrs k bs) : a ∈ bs.map (·.addr) :=
  (addrs_sublist k bs).subset ha

theorem addrs_apart {k k' : Kind} (unique : (bs.map (·.addr)).Nodup) (different : k ≠ k')
    {a b : Nat} (ha : a ∈ addrs k bs) (hb : b ∈ addrs k' bs) : a ≠ b :=
  fun same => addrs_disjoint unique different ha (same ▸ hb)

theorem Layout.headers (L : Layout base limit h bs) : Headers (bs.map (·.addr)) :=
  tiles_headers L.tiles L.positive L.bound

theorem Layout.short (L : Layout base limit h bs) (k : Kind) :
    (addrs k bs).length < addressSpace := by
  have row := tiles_length L.tiles
  have part := (addrs_sublist k bs).length_le
  have positive := L.positive
  have bound := L.bound
  simp only [List.length_map, mcbSize, addressSpace] at row part ⊢
  omega

theorem Layout.payload_word (L : Layout base limit h bs) (hx : x ∈ bs.map (·.addr)) :
    x ≠ 0 ∧ word (x + mcbSize) = x + mcbSize := by
  have room := L.payload x hx
  have bound := L.bound
  exact ⟨L.headers.real hx, Nat.mod_eq_of_lt (by omega)⟩

/-- The linked blocks on either side of a block lie below and above it. -/
theorem Layout.sides {b : Block} (L : Layout base limit h (pre ++ b :: post)) (k : Kind) :
    (∀ a ∈ addrs k pre, a < b.addr) ∧ (∀ a ∈ addrs k post, b.addr < a) := by
  have ordered := tiles_ordered L.tiles
  obtain ⟨_, behind, front⟩ := List.pairwise_append.mp ordered
  constructor
  · intro a ha
    obtain ⟨c, hc, _, rfl⟩ := mem_addrs.mp ha
    have := front c hc b List.mem_cons_self
    simp only [mcbSize] at this
    omega
  · intro a ha
    obtain ⟨c, hc, _, rfl⟩ := mem_addrs.mp ha
    have := (List.pairwise_cons.mp behind).1 c hc
    simp only [mcbSize] at this
    omega

/-- A change to the free blocks that leaves the allocated list alone. -/
theorem Layout.changeFree {h' : HeapState} {bs' : List Block} (L : Layout base limit h bs)
    (isinit : h'.heapIsinit = h.heapIsinit) (allocHead : h'.allocHead = h.allocHead)
    (tiles : Tiles limit base bs') (inside : ∀ a ∈ bs'.map (·.addr), a ∈ bs.map (·.addr))
    (blocks : ∀ b ∈ bs', b.kind = .used → b ∈ bs) (used : addrs .used bs' = addrs .used bs)
    (same : ∀ a ∈ addrs .used bs, ∀ g, get h'.mem a g = get h.mem a g)
    (sizes : ∀ b ∈ bs', b.kind = .free → get h'.mem b.addr .blkSize = b.size)
    (free : Chain (next h'.mem) 0 h'.freeHead (addrs .free bs')) : Layout base limit h' bs' := by
  refine ⟨isinit.trans L.isinit, L.positive, L.bound, tiles, fun a ha => L.payload a (inside a ha),
    ?_, free, ?_, ?_⟩
  · intro b member kind
    rcases kind with kind | kind
    · exact sizes b member kind
    · have old := blocks b member kind
      rw [same _ (mem_addrs.mpr ⟨b, old, kind, rfl⟩)]
      exact L.sizes b old (Or.inr kind)
  · rw [used, allocHead]
    exact chain_congr L.used fun a ha => same a ha _
  · obtain ⟨front, back⟩ := L.usedBack
    rw [used]
    exact ⟨front, back_congr (fun a ha => same a ha _) back⟩

/-- The blocks `M`, none of them allocated, become one free block. -/
theorem Layout.merge {h' : HeapState} {b : Block} (M : List Block) (L : Layout base limit h bs)
    (row : pre ++ (M ++ post) = bs) (isinit : h'.heapIsinit = h.heapIsinit)
    (allocHead : h'.allocHead = h.allocHead) (tiles : Tiles limit base (pre ++ b :: post))
    (start : b.addr ∈ M.map (·.addr)) (isFree : b.kind = .free) (idle : addrs .used M = [])
    (same : ∀ a ∈ addrs .used bs, ∀ g, get h'.mem a g = get h.mem a g)
    (others : ∀ a ∈ bs.map (·.addr), a ≠ b.addr → get h'.mem a .blkSize = get h.mem a .blkSize)
    (size : get h'.mem b.addr .blkSize = b.size)
    (free : Chain (next h'.mem) 0 h'.freeHead (addrs .free (pre ++ b :: post))) :
    Layout base limit h' (pre ++ b :: post) := by
  have old : ∀ c ∈ pre ++ b :: post, c = b ∨ c ∈ bs := by
    intro c member
    rw [← row]
    rcases List.mem_append.mp member with before | behind
    · exact Or.inr (List.mem_append_left _ before)
    · rcases List.mem_cons.mp behind with merged | after
      · exact Or.inl merged
      · exact Or.inr (List.mem_append_right _ (List.mem_append_right _ after))
  refine L.changeFree isinit allocHead tiles ?_ ?_ ?_ same ?_ free
  · intro a ha
    obtain ⟨c, member, rfl⟩ := List.mem_map.mp ha
    rcases old c member with rfl | member
    · rw [← row, List.map_append, List.map_append]
      exact List.mem_append_right _ (List.mem_append_left _ start)
    · exact List.mem_map_of_mem member
  · intro c member isUsed
    rcases old c member with rfl | member
    · cases isFree.symm.trans isUsed
    · exact member
  · rw [← row, addrs_append, addrs_append, addrs_append, addrs_cons, idle, if_neg (by simp [isFree])]
    rfl
  · intro c member cFree
    by_cases merged : c.addr = b.addr
    · rw [List.inj_on_of_nodup_map (tiles_nodup tiles) member (by simp) merged]
      exact size
    · rcases old c member with rfl | member
      · exact (merged rfl).elim
      · rw [others _ (List.mem_map_of_mem member) merged]
        exact L.sizes c member (Or.inl cFree)

/-- A change to the allocated list around one block that leaves the free blocks alone. -/
theorem Layout.changeUsed {h' : HeapState} {k k' : Kind} (L : Layout base limit h (pre ++ ⟨x, n, k⟩ :: post))
    (idle : k ≠ .free) (idle' : k' ≠ .free) (isinit : h'.heapIsinit = h.heapIsinit)
    (freeHead : h'.freeHead = h.freeHead) (size : get h.mem x .blkSize = n)
    (sizes : ∀ a ∈ (pre ++ ⟨x, n, k⟩ :: post).map (·.addr), get h'.mem a .blkSize = get h.mem a .blkSize)
    (links : ∀ a ∈ addrs .free (pre ++ ⟨x, n, k⟩ :: post), next h'.mem a = next h.mem a)
    (used : Chain (next h'.mem) 0 h'.allocHead (addrs .used (pre ++ ⟨x, n, k'⟩ :: post)))
    (usedBack : ∃ front, Back (prev h'.mem) front (addrs .used (pre ++ ⟨x, n, k'⟩ :: post))) :
    Layout base limit h' (pre ++ ⟨x, n, k'⟩ :: post) := by
  have freeList : addrs .free (pre ++ ⟨x, n, k'⟩ :: post) = addrs .free (pre ++ ⟨x, n, k⟩ :: post) := by
    simp [addrs_append, addrs_cons, idle, idle']
  have addresses : (pre ++ ⟨x, n, k'⟩ :: post).map (·.addr) = (pre ++ ⟨x, n, k⟩ :: post).map (·.addr) := by
    simp
  refine ⟨isinit.trans L.isinit, L.positive, L.bound, tiles_kind k' L.tiles, addresses ▸ L.payload, ?_, ?_,
    used, usedBack⟩
  · intro b member kind
    rw [sizes b.addr (addresses ▸ List.mem_map_of_mem member)]
    rcases List.mem_append.mp member with before | behind
    · exact L.sizes b (List.mem_append_left _ before) kind
    · rcases List.mem_cons.mp behind with rfl | after
      · exact size
      · exact L.sizes b (List.mem_append_right _ (List.mem_cons_of_mem _ after)) kind
  · rw [freeList, freeHead]
    exact chain_congr L.free links

/-- Either no free block is large enough, or there is a first one that is. -/
theorem firstFit_cases (n : Nat) (bs : List Block) :
    (∀ b ∈ bs, b.kind = .free → b.size < n) ∨
    ∃ pre x s post, bs = pre ++ ⟨x, s, .free⟩ :: post ∧ n ≤ s ∧
      ∀ b ∈ pre, b.kind = .free → b.size < n := by
  induction bs with
  | nil => simp
  | cons b bs ih =>
    by_cases fits : b.kind = .free ∧ n ≤ b.size
    · obtain ⟨x, s, k⟩ := b
      obtain ⟨rfl, fits⟩ := fits
      exact Or.inr ⟨[], x, s, bs, rfl, fits, by simp⟩
    · have small : b.kind = .free → b.size < n := fun kind =>
        Nat.lt_of_not_le fun large => fits ⟨kind, large⟩
      rcases ih with none | ⟨pre, x, s, post, rfl, fits, before⟩
      · exact Or.inl (List.forall_mem_cons.mpr ⟨small, none⟩)
      · exact Or.inr ⟨b :: pre, x, s, post, rfl, fits, List.forall_mem_cons.mpr ⟨small, before⟩⟩

end Mpx.Heap

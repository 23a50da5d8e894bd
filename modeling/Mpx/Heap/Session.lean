import Mpx.Heap.Refinement
import Mpx.Library.Transition

/-! # Sessions with the heap

A session is the heap together with what its clients hold: the pointers that `allocate_memory`
returned and `free_memory` has not taken back, with the sizes that were asked for. -/

namespace Mpx.Heap
open Library.ByteMemory Library.Links Library.Transition

structure Session where
  heap : HeapState
  live : List (Nat × Nat)

inductive Call where
  | allocate (size : Nat)
  | free (ptr : Nat)

def step (s : Session) : Call → Option Session
  | .allocate n => do
    let (h, p) ← allocateMemory s.heap n
    return { heap := h, live := if p = 0 then s.live else (p, n) :: s.live }
  | .free p => do
    let (h, result) ← freeMemory s.heap p
    return { heap := h, live := if result = 0 then s.live.filter (·.1 ≠ p) else s.live }

/-- Sizes that do not wrap with their control block, and pointers of 32 bits. -/
def Call.Valid : Call → Prop
  | .allocate n => n + mcbSize < 2 ^ 32
  | .free p => p < 2 ^ 32

instance (c : Call) : Decidable c.Valid := by
  cases c <;> exact inferInstanceAs (Decidable (_ < _))

/-- The state after `initialize_heap(size)`, whatever memory holds. -/
structure Starts (base size : Nat) (s : Session) : Prop where
  positive : 0 < base
  bound : base + size ≤ 2 ^ 32
  room : mcbSize < size
  live : s.live = []
  heap : ∃ h, h.heapIsinit = false ∧ h.allocHead = 0 ∧ s.heap = initializeHeap h size base

def startSession (base size : Nat) : Session :=
  { heap := initializeHeap ⟨fun _ => 0, false, 0, 0⟩ size base, live := [] }

/-! ### What a session should guarantee -/

/-- Live payloads lie inside the heap and apart from one another. -/
def Exclusive (base size : Nat) (s : Session) : Prop :=
  (∀ e ∈ s.live, base ≤ e.1 ∧ e.1 + e.2 ≤ base + size) ∧
    s.live.Pairwise fun a b => a.1 ≠ b.1 ∧ (a.1 + a.2 ≤ b.1 ∨ b.1 + b.2 ≤ a.1)

/-- `free_memory` accepts the live pointers, and a refusal changes nothing. -/
def FreeExact (s : Session) : Prop :=
  ∀ p < 2 ^ 32,
    (p ∈ s.live.map (·.1) → ∃ h, freeMemory s.heap p = some (h, 0)) ∧
    (p ∉ s.live.map (·.1) → ∃ result, result ≠ 0 ∧ freeMemory s.heap p = some (s.heap, result))

/-- The control blocks in `row` follow one another without a gap up to `limit`. -/
def RowTiles (m : Mem) (limit : Nat) : Nat → List Nat → Prop
  | base, [] => base = limit
  | base, a :: row => a = base ∧ RowTiles m limit (base + mcbSize + get m a .blkSize) row

/-- Both lists end, together they tile the heap, and no two free blocks are neighbours. -/
def Conserved (base size : Nat) (h : HeapState) : Prop :=
  ∃ free used row, walk (next h.mem) 0 addressSpace h.freeHead = some free ∧
    walk (next h.mem) 0 addressSpace h.allocHead = some used ∧ row.Perm (free ++ used) ∧
    RowTiles h.mem (base + size) base row ∧ row.IsChain fun a b => ¬(a ∈ free ∧ b ∈ free)

/-- The heap is one free block. -/
def Whole (base size : Nat) (h : HeapState) : Prop :=
  freeList h = [base] ∧ allocList h = [] ∧ get h.mem base .blkSize = size - mcbSize

/-! ### When the code guarantees it -/

/-- The block to hand out is linked as `allocate_memory` assumes. -/
def Call.FitLinked (h : HeapState) : Call → Prop
  | .allocate n => Heap.FitLinked h n
  | .free _ => True

/-- The block to hand out does not lie in front of all allocated blocks. -/
def Call.Behind (h : HeapState) : Call → Prop
  | .allocate n => ∀ a ∈ firstFit h n, h.allocHead = 0 ∨ h.allocHead < a
  | .free _ => True

/-- No free block lies below the block to free, or the nearest one reaches up to it. -/
def Call.Reached (h : HeapState) : Call → Prop
  | .allocate _ => True
  | .free p => p - mcbSize ∈ allocList h →
      freeBelow h (p - mcbSize) = 0 ∨ blkEnd h.mem (freeBelow h (p - mcbSize)) = p - mcbSize

instance (h : HeapState) (c : Call) : Decidable (c.FitLinked h) := by
  cases c <;> unfold Call.FitLinked <;> infer_instance

instance (h : HeapState) (c : Call) : Decidable (c.Behind h) := by
  cases c <;> unfold Call.Behind <;> infer_instance

instance (h : HeapState) (c : Call) : Decidable (c.Reached h) := by
  cases c <;> unfold Call.Reached <;> infer_instance

/-! ### The invariant of a session -/

/-- The live entries are blocks that are handed out, and every allocated block is live. -/
structure Tracks (bs : List Block) (live : List (Nat × Nat)) : Prop where
  backed : ∀ e ∈ live, ∃ b ∈ bs, (b.kind = .used ∨ b.kind = .lost) ∧ e.1 = b.addr + mcbSize ∧ e.2 ≤ b.size
  distinct : (live.map (·.1)).Nodup
  known : ∀ b ∈ bs, b.kind = .used → b.addr + mcbSize ∈ live.map (·.1)

structure Held (base limit : Nat) (s : Session) (bs : List Block) : Prop where
  layout : Layout base limit s.heap bs
  tracks : Tracks bs s.live

/-- What a call does to the row. -/
inductive RowStep (h : HeapState) : Call → List Block → List Block → Prop
  | same {c : Call} {bs : List Block} : RowStep h c bs bs
  | granted {n x : Nat} {bs bs' : List Block} : firstFit h n = some x → Granted n bs x bs' →
      RowStep h (.allocate n) bs bs'
  | released {x n : Nat} {pre post bs' : List Block} : Released x n pre post bs' →
      RowStep h (.free (x + mcbSize)) (pre ++ ⟨x, n, .used⟩ :: post) bs'

variable {base limit size x n : Nat} {s t : Session} {c : Call} {bs bs' pre post : List Block}
  {live : List (Nat × Nat)}

theorem granted_used (granted : Granted n bs x bs') (unique : (bs.map (·.addr)).Nodup)
    (tracks : Tracks bs live) : Tracks bs' ((x + mcbSize, n) :: live) := by
  -- The row changes at one free block, which becomes a block in hand and perhaps a free rest.
  obtain ⟨pre, post, s, m, rest, kind, rfl, rfl, enough, shape, remainder⟩ :
      ∃ pre post s m rest kind, bs = pre ++ ⟨x, s, .free⟩ :: post ∧
        bs' = pre ++ ⟨x, m, kind⟩ :: (rest ++ post) ∧ n ≤ m ∧ (kind = .used ∨ kind = .lost) ∧
        ∀ b ∈ rest, b.kind = .free := by
    have shape : ∀ A B, claimed A B = .used ∨ claimed A B = .lost := by
      intro A B
      unfold claimed
      split <;> simp
    cases granted with
    | split room => exact ⟨_, _, _, n, [_], _, rfl, rfl, Nat.le_refl _, shape _ _, by simp⟩
    | whole fits => exact ⟨_, _, _, _, [], _, rfl, rfl, fits, shape _ _, by simp⟩
  have fresh : x + mcbSize ∉ live.map (·.1) := by
    intro member
    obtain ⟨e, he, same⟩ := List.mem_map.mp member
    obtain ⟨b, hb, held, at_b, _⟩ := tracks.backed e he
    have equal : b = ⟨x, s, .free⟩ := List.inj_on_of_nodup_map unique hb (by simp) (by
      show b.addr = x
      omega)
    rw [equal] at held
    simp at held
  refine ⟨?_, List.nodup_cons.mpr ⟨fresh, tracks.distinct⟩, ?_⟩
  · intro e he
    rcases List.mem_cons.mp he with rfl | old
    · exact ⟨⟨x, m, kind⟩, by simp, shape, rfl, enough⟩
    · obtain ⟨b, hb, held, at_b, fits⟩ := tracks.backed e old
      refine ⟨b, ?_, held, at_b, fits⟩
      simp only [List.mem_append, List.mem_cons] at hb ⊢
      rcases hb with before | rfl | after
      · exact Or.inl before
      · simp at held
      · exact Or.inr (Or.inr (Or.inr after))
  · intro b hb used
    simp only [List.mem_append, List.mem_cons] at hb
    have old : b ∈ pre ++ ⟨x, s, .free⟩ :: post → b.addr + mcbSize ∈ ((x + mcbSize, n) :: live).map (·.1) :=
      fun member => List.mem_cons_of_mem _ (tracks.known b member used)
    rcases hb with before | rfl | inside | after
    · exact old (by simp [before])
    · exact List.mem_cons_self
    · rw [remainder b inside] at used
      cases used
    · exact old (by simp [after])

/-- A release keeps the other blocks that are handed out and adds none. -/
theorem released_held (released : Released x n pre post bs') {b : Block}
    (held : b.kind = .used ∨ b.kind = .lost) : b ∈ bs' ↔ b ∈ pre ++ post := by
  have not_free : ∀ y t, b ≠ ⟨y, t, .free⟩ := by
    rintro y t rfl
    simp at held
  have not_dead : ∀ y t, b ≠ ⟨y, t, .dead⟩ := by
    rintro y t rfl
    simp at held
  cases released <;> simp [not_free, not_dead]

theorem released_used (released : Released x n pre post bs')
    (unique : ((pre ++ ⟨x, n, .used⟩ :: post).map (·.addr)).Nodup)
    (tracks : Tracks (pre ++ ⟨x, n, .used⟩ :: post) live) :
    Tracks bs' (live.filter (·.1 ≠ x + mcbSize)) := by
  refine ⟨?_, tracks.distinct.sublist (List.filter_sublist.map _), ?_⟩
  · intro e he
    obtain ⟨old, other⟩ := List.mem_filter.mp he
    obtain ⟨b, hb, held, at_b, fits⟩ := tracks.backed e old
    refine ⟨b, (released_held released held).mpr ?_, held, at_b, fits⟩
    simp only [List.mem_append, List.mem_cons] at hb ⊢
    rcases hb with before | rfl | after
    · exact Or.inl before
    · simp [at_b] at other
    · exact Or.inr after
  · intro b hb used
    have member := (released_held released (Or.inl used)).mp hb
    have old := tracks.known b (by
      simp only [List.mem_append, List.mem_cons] at member ⊢
      exact member.imp_right Or.inr) used
    obtain ⟨e, he, same⟩ := List.mem_map.mp old
    refine List.mem_map.mpr ⟨e, List.mem_filter.mpr ⟨he, ?_⟩, same⟩
    have apart : b.addr ≠ x := by
      rintro rfl
      rw [List.map_append, List.map_cons] at unique
      apply (List.nodup_cons.mp (List.nodup_middle.mp unique)).1
      rw [← List.map_append]
      exact List.mem_map.mpr ⟨b, member, rfl⟩
    simp only [decide_eq_true_eq, ne_eq]
    omega

/-- A call with a linked fit returns, and takes a session to a session. -/
theorem step_held (held : Held base limit s bs) (valid : c.Valid) (linked : c.FitLinked s.heap) :
    ∃ t bs', step s c = some t ∧ RowStep s.heap c bs bs' ∧ Held base limit t bs' := by
  obtain ⟨layout, tracks⟩ := held
  have unique := tiles_nodup layout.tiles
  cases c with
  | allocate n =>
    rcases allocate_refines layout valid linked with ⟨refused, _⟩ | ⟨h', x, bs', granted, first, row, layout'⟩
    · refine ⟨⟨s.heap, s.live⟩, bs, ?_, .same, layout, tracks⟩
      simp [step, refused]
    · refine ⟨⟨h', (x + mcbSize, n) :: s.live⟩, bs', ?_, .granted first row, layout', granted_used row unique tracks⟩
      have real : x + mcbSize ≠ 0 := Nat.ne_of_gt (Nat.add_pos_right x (by decide))
      simp only [step, granted, Option.bind_eq_bind, Option.bind_some, if_neg real]
      rfl
  | free p =>
    by_cases listed : word (p + 2 ^ 32 - mcbSize) ∈ addrs .used bs
    · obtain ⟨b, member, used, at_b⟩ := mem_addrs.mp listed
      obtain ⟨pre, post, rfl⟩ := List.append_of_mem member
      obtain ⟨x, n, kind⟩ := b
      obtain rfl : kind = .used := used
      have room := layout.payload x (by simp)
      have bound := layout.bound
      have ptr : p = x + mcbSize := by
        have small : p < 2 ^ 32 := valid
        simp only at at_b
        unfold word at at_b
        simp only [mcbSize] at at_b room ⊢
        omega
      subst ptr
      obtain ⟨h', bs', freed, row, layout'⟩ := free_refines layout
      refine ⟨⟨h', s.live.filter (·.1 ≠ x + mcbSize)⟩, bs', ?_, .released row, layout',
        released_used row unique tracks⟩
      simp [step, freed]
    · refine ⟨⟨s.heap, s.live⟩, bs, ?_, .same, layout, tracks⟩
      simp [step, free_unlisted layout listed]

theorem startSession_starts (base size : Nat) (positive : 0 < base) (bound : base + size ≤ 2 ^ 32)
    (room : mcbSize < size) : Starts base size (startSession base size) :=
  ⟨positive, bound, room, rfl, ⟨fun _ => 0, false, 0, 0⟩, rfl, rfl, rfl⟩

/-- `initialize_heap` makes one control block. -/
theorem starts_heap (starts : Starts base size s) :
    (s.heap.heapIsinit = true ∧ s.heap.freeHead = base ∧ s.heap.allocHead = 0) ∧
      Tiles (base + size) base [⟨base, size - mcbSize, .free⟩] ∧
      ∀ f, get s.heap.mem base f = if f = .blkSize then size - mcbSize else 0 := by
  obtain ⟨positive, bound, room, live, h, fresh, empty, heap⟩ := starts
  have tiles : Tiles (base + size) base [⟨base, size - mcbSize, .free⟩] := ⟨rfl, by
    show base + mcbSize + (size - mcbSize) = base + size
    omega⟩
  have headers := tiles_headers tiles positive bound
  have member : base ∈ List.map (·.addr) [(⟨base, size - mcbSize, .free⟩ : Block)] := by simp
  have size_word : word (size + 2 ^ 32 - mcbSize) = size - mcbSize := by
    unfold word
    omega
  have size_lt : size - mcbSize < 2 ^ 32 := by omega
  refine ⟨?_, tiles, ?_⟩
  · rw [heap]
    unfold initializeHeap
    rw [if_neg (by simp [fresh])]
    exact ⟨rfl, rfl, empty⟩
  · intro f
    rw [heap]
    unfold initializeHeap
    rw [if_neg (by simp [fresh])]
    simp only [size_word]
    rw [get_set headers member member size_lt, get_set headers member member (by decide),
      get_set headers member member (by decide)]
    cases f <;> simp

theorem starts_held (starts : Starts base size s) :
    Held base (base + size) s [⟨base, size - mcbSize, .free⟩] := by
  obtain ⟨heads, tiles, fields⟩ := starts_heap starts
  obtain ⟨positive, bound, room, live, _⟩ := starts
  refine ⟨⟨heads.1, positive, bound, tiles, ?_, ?_, ?_, ?_, 0, trivial⟩, ?_⟩
  · intro a ha
    obtain rfl : a = base := by simpa using ha
    omega
  · intro b hb _
    obtain rfl : b = ⟨base, size - mcbSize, .free⟩ := by simpa using hb
    rw [fields]
    rfl
  · refine chain_cons_iff.mpr ⟨heads.2.1, Nat.ne_of_gt positive, chain_nil_iff.mpr ?_⟩
    show get s.heap.mem base .pNext = 0
    rw [fields]
    rfl
  · exact chain_nil_iff.mpr heads.2.2
  · rw [live]
    refine ⟨by simp, by simp, ?_⟩
    intro b hb used
    obtain rfl : b = ⟨base, size - mcbSize, .free⟩ := by simpa using hb
    cases used

end Mpx.Heap

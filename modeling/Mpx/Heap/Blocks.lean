import Mpx.Heap.Allocator

/-! # The heap as a row of blocks

The abstract heap is the list of its blocks in address order. A block is a control block of
`mcbSize` bytes and the payload behind it, and the blocks tile the heap. -/

namespace Mpx.Heap
open Library.ByteMemory

/-- `free` and `used` blocks are linked into the free and the allocated list. A `lost` block is
handed out and a `dead` block is given back without being linked anywhere. -/
inductive Kind where
  | free | used | lost | dead
  deriving DecidableEq

structure Block where
  addr : Nat
  size : Nat
  kind : Kind
  deriving DecidableEq

/-- The blocks follow one another without a gap from the address on up to `limit`. -/
def Tiles (limit : Nat) : Nat → List Block → Prop
  | base, [] => base = limit
  | base, b :: bs => b.addr = base ∧ Tiles limit (base + mcbSize + b.size) bs

/-- The control blocks of one kind, in address order. -/
def addrs (kind : Kind) (bs : List Block) : List Nat :=
  (bs.filter (·.kind = kind)).map (·.addr)

theorem addrs_append (kind : Kind) (A B : List Block) :
    addrs kind (A ++ B) = addrs kind A ++ addrs kind B := by
  simp [addrs]

theorem addrs_cons (kind : Kind) (b : Block) (bs : List Block) :
    addrs kind (b :: bs) = if b.kind = kind then b.addr :: addrs kind bs else addrs kind bs := by
  by_cases h : b.kind = kind <;> simp [addrs, h]

@[simp] theorem addrs_nil (kind : Kind) : addrs kind [] = [] := rfl

section Split
variable {kind k : Kind} {pre post : List Block} {x s : Nat}

theorem addrs_here : addrs kind (pre ++ ⟨x, s, kind⟩ :: post) = addrs kind pre ++ x :: addrs kind post := by
  rw [addrs_append, addrs_cons, if_pos rfl]

theorem addrs_other (other : k ≠ kind) : addrs kind (pre ++ ⟨x, s, k⟩ :: post) = addrs kind pre ++ addrs kind post := by
  rw [addrs_append, addrs_cons, if_neg other]

end Split

theorem mem_addrs {kind : Kind} {bs : List Block} {a : Nat} :
    a ∈ addrs kind bs ↔ ∃ b ∈ bs, b.kind = kind ∧ b.addr = a := by
  simp [addrs, and_assoc]

theorem addrs_sublist (kind : Kind) (bs : List Block) : (addrs kind bs).Sublist (bs.map (·.addr)) :=
  List.filter_sublist.map _

theorem tiles_append {limit base : Nat} {A B : List Block} :
    Tiles limit base (A ++ B) ↔ ∃ middle, Tiles middle base A ∧ Tiles limit middle B := by
  induction A generalizing base with
  | nil => simp [Tiles]
  | cons a A ih => simp [Tiles, ih, and_assoc]

theorem tiles_le {limit base : Nat} {bs : List Block} (h : Tiles limit base bs) : base ≤ limit := by
  induction bs generalizing base with
  | nil => exact Nat.le_of_eq h
  | cons b bs ih =>
    have := ih h.2
    omega

theorem tiles_inside {limit base : Nat} {bs : List Block} (h : Tiles limit base bs) :
    ∀ b ∈ bs, base ≤ b.addr ∧ b.addr + mcbSize + b.size ≤ limit := by
  induction bs generalizing base with
  | nil => simp
  | cons b bs ih =>
    obtain ⟨rfl, rest⟩ := h
    intro c member
    rcases List.mem_cons.mp member with rfl | later
    · exact ⟨Nat.le_refl _, tiles_le rest⟩
    · have := ih rest c later
      omega

/-- Blocks lie one behind the other. -/
theorem tiles_ordered {limit base : Nat} {bs : List Block} (h : Tiles limit base bs) :
    bs.Pairwise (fun b c => b.addr + mcbSize + b.size ≤ c.addr) := by
  induction bs generalizing base with
  | nil => exact List.Pairwise.nil
  | cons b bs ih =>
    obtain ⟨rfl, rest⟩ := h
    exact List.Pairwise.cons (fun c member => (tiles_inside rest c member).1) (ih rest)

theorem tiles_apart {limit base : Nat} {bs : List Block} (h : Tiles limit base bs) {b c : Block}
    (hb : b ∈ bs) (hc : c ∈ bs) :
    b = c ∨ b.addr + mcbSize + b.size ≤ c.addr ∨ c.addr + mcbSize + c.size ≤ b.addr := by
  induction bs generalizing base with
  | nil => simp at hb
  | cons d bs ih =>
    rcases List.mem_cons.mp hb with rfl | hb'
    · rcases List.mem_cons.mp hc with rfl | hc'
      · exact Or.inl rfl
      · have := (tiles_inside h.2 c hc').1
        have := h.1
        omega
    · rcases List.mem_cons.mp hc with rfl | hc'
      · have := (tiles_inside h.2 b hb').1
        have := h.1
        omega
      · exact ih h.2 hb' hc'

/-- What a block is used for is not part of where it lies. -/
theorem tiles_kind {limit base x n : Nat} {pre post : List Block} {kind : Kind} (kind' : Kind)
    (h : Tiles limit base (pre ++ ⟨x, n, kind⟩ :: post)) :
    Tiles limit base (pre ++ ⟨x, n, kind'⟩ :: post) := by
  simpa only [tiles_append, Tiles] using h

/-- Two blocks and the control block between them are one block. -/
theorem tiles_merge {limit base x y s t : Nat} {pre post : List Block} {kind kind' : Kind} (kind'' : Kind)
    (h : Tiles limit base (pre ++ ⟨x, s, kind⟩ :: ⟨y, t, kind'⟩ :: post)) :
    Tiles limit base (pre ++ ⟨x, s + mcbSize + t, kind''⟩ :: post) := by
  simp only [tiles_append, Tiles] at h ⊢
  obtain ⟨middle, before, rfl, rfl, after⟩ := h
  refine ⟨x, before, rfl, ?_⟩
  rwa [← Nat.add_assoc, ← Nat.add_assoc]

theorem tiles_length {limit base : Nat} {bs : List Block} (h : Tiles limit base bs) :
    base + mcbSize * bs.length ≤ limit := by
  induction bs generalizing base with
  | nil => exact Nat.le_of_eq h
  | cons b bs ih =>
    have := ih h.2
    simp only [mcbSize, List.length_cons] at this ⊢
    omega

/-! ### Control blocks that do not overlap -/

/-- Addresses of control blocks: not NULL, inside the address space, and apart from one another. -/
structure Headers (S : List Nat) : Prop where
  nonnull : 0 ∉ S
  lt : ∀ a ∈ S, a < 2 ^ 32
  apart : ∀ a ∈ S, ∀ b ∈ S, a ≠ b → a + mcbSize ≤ b ∨ b + mcbSize ≤ a

theorem Headers.real {S : List Nat} {a : Nat} (headers : Headers S) (ha : a ∈ S) : a ≠ 0 :=
  fun null => headers.nonnull (null ▸ ha)

theorem tiles_headers {limit base : Nat} {bs : List Block} (h : Tiles limit base bs)
    (positive : 0 < base) (bound : limit ≤ 2 ^ 32) : Headers (bs.map (·.addr)) := by
  have inside := tiles_inside h
  refine ⟨?_, ?_, ?_⟩
  · simp only [List.mem_map, not_exists, not_and]
    intro b member
    have := (inside b member).1
    omega
  · simp only [List.mem_map, forall_exists_index, and_imp, forall_apply_eq_imp_iff₂]
    intro b member
    have := (inside b member).2
    simp only [mcbSize] at this
    omega
  · simp only [List.mem_map, forall_exists_index, and_imp, forall_apply_eq_imp_iff₂]
    intro b hb c hc different
    have apart := (tiles_apart h hb hc).resolve_left fun same => different (congrArg _ same)
    omega

theorem tiles_nodup {limit base : Nat} {bs : List Block} (h : Tiles limit base bs) :
    (bs.map (·.addr)).Nodup := by
  refine List.pairwise_map.mpr ((tiles_ordered h).imp ?_)
  intro b c ordered
  simp only [mcbSize] at ordered
  omega

theorem get_lt (m : Mem) (a : Nat) (f : Field) : get m a f < 2 ^ 32 := load_lt m _

/-- Control blocks behave as records: an assignment changes one field of one of them. -/
theorem get_set {S : List Nat} (headers : Headers S) {m : Mem} {a b v : Nat} {f g : Field}
    (ha : a ∈ S) (hb : b ∈ S) (hv : v < 2 ^ 32) :
    get (set m b f v) a g = if a = b ∧ g = f then v else get m a g := by
  split
  · rename_i same
    obtain ⟨rfl, rfl⟩ := same
    exact load_store_same hv
  · rename_i different
    apply load_store_other
    by_cases same : a = b
    · subst b
      cases f <;> cases g <;> simp [Field.offset] at different ⊢
    · have apart := headers.apart a ha b hb same
      cases f <;> cases g <;> simp only [Field.offset, mcbSize] at apart ⊢ <;> omega

theorem get_setSome {S : List Nat} (headers : Headers S) {m : Mem} {a b v : Nat} {f g : Field}
    (ha : a ∈ S) (hb : b = 0 ∨ b ∈ S) (hv : v < 2 ^ 32) :
    get (setSome m b f v) a g = if a = b ∧ g = f then v else get m a g := by
  unfold setSome
  split
  · rename_i nonnull
    exact get_set headers ha (hb.resolve_left nonnull) hv
  · rename_i null
    have null : b = 0 := by simpa using null
    rw [if_neg]
    rintro ⟨rfl, _⟩
    exact headers.nonnull (null ▸ ha)

end Mpx.Heap

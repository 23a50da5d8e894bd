import Mpx.Heap.Frame
import Mpx.Heap.Layout

/-! # `allocate_memory` on a row of blocks -/

namespace Mpx.Heap
open Library.ByteMemory Library.Links

variable {base limit x n s v : Nat} {h : HeapState} {bs pre post : List Block}

theorem setSize_layout (L : Layout base limit h (pre ++ ⟨x, n, .dead⟩ :: post))
    (small : v < 2 ^ 32) :
    Layout base limit { h with mem := set h.mem x .blkSize v } (pre ++ ⟨x, n, .dead⟩ :: post) := by
  have headers := L.headers
  have unique := tiles_nodup L.tiles
  have hx : x ∈ (pre ++ ⟨x, n, .dead⟩ :: post).map (·.addr) := by simp
  have dead : x ∈ addrs .dead (pre ++ ⟨x, n, .dead⟩ :: post) :=
    mem_addrs.mpr ⟨⟨x, n, .dead⟩, by simp, rfl, rfl⟩
  have link : ∀ k, ∀ a ∈ addrs k (pre ++ ⟨x, n, .dead⟩ :: post), ∀ f, f ≠ .blkSize →
      get (set h.mem x .blkSize v) a f = get h.mem a f := by
    intro k a ha f other
    rw [get_set headers (addrs_inside ha) hx small, if_neg (fun both => other both.2)]
  refine ⟨L.isinit, L.positive, L.bound, L.tiles, L.payload, ?_, ?_, ?_, ?_⟩
  · intro b member kind
    have apart : b.addr ≠ x := by
      rintro rfl
      refine addrs_disjoint unique ?_ dead (mem_addrs.mpr ⟨b, member, rfl, rfl⟩)
      rcases kind with kind | kind <;> simp [kind]
    show get (set h.mem x .blkSize v) b.addr .blkSize = b.size
    rw [get_set headers (List.mem_map_of_mem member) hx small, if_neg (fun both => apart both.1)]
    exact L.sizes b member kind
  · exact chain_congr L.free fun a ha => link _ a ha _ (by decide)
  · exact chain_congr L.used fun a ha => link _ a ha _ (by decide)
  · exact L.usedBack.imp fun _ back => back_congr (fun a ha => link _ a ha _ (by decide)) back

/-- Handing out the first free block whole. -/
theorem replaceFree_layout (L : Layout base limit h (pre ++ ⟨x, s, .free⟩ :: post))
    (first : addrs .free pre = []) :
    Layout base limit (replaceFree h x) (pre ++ ⟨x, s, .dead⟩ :: post) := by
  have free := L.free
  have used := L.used
  have usedBack := L.usedBack
  simp only [addrs_append, addrs_cons, if_true, reduceCtorEq, if_false, first, List.nil_append]
    at free used usedBack
  obtain ⟨head, nonnull, rest⟩ := chain_cons_iff.mp free
  refine ⟨L.isinit, L.positive, L.bound, ?_, by simpa using L.payload, ?_, ?_, ?_, ?_⟩
  · exact tiles_kind .dead L.tiles
  · intro b member kind
    refine L.sizes b ?_ kind
    simp only [List.mem_append, List.mem_cons] at member ⊢
    rcases member with before | rfl | after
    · exact Or.inl before
    · simp at kind
    · exact Or.inr (Or.inr after)
  · simp only [addrs_append, addrs_cons, reduceCtorEq, if_false, first, List.nil_append]
    simpa only [replaceFree, head, if_true] using rest
  · simpa only [replaceFree, addrs_append, addrs_cons, reduceCtorEq, if_false] using used
  · simpa only [replaceFree, addrs_append, addrs_cons, reduceCtorEq, if_false] using usedBack

/-- The free block at `x` between the free blocks `A` and `B`, and the place of its tail. -/
structure Split (S : List Nat) (h : HeapState) (x req : Nat) (A B : List Nat) : Prop where
  headers : Headers S
  here : x + req ∈ S
  inside : ∀ a ∈ A ++ B, a ∈ S
  different : x ≠ x + req
  unique : (A ++ (x + req) :: B).Nodup
  free : Chain (next h.mem) 0 h.freeHead (A ++ ([x] ++ B))
  back : prev h.mem x = A.getLastD 0
  room : req ≤ get h.mem x .blkSize

namespace Split

variable {S A B : List Nat} {req a : Nat} {g : Field}

theorem ahead (P : Split S h x req A B) : next h.mem x = B.headD 0 := chain_next P.free

theorem fresh (P : Split S h x req A B) : x + req ∉ A ++ B :=
  (List.nodup_cons.mp (List.nodup_middle.mp P.unique)).1

theorem last_ne (P : Split S h x req A B) : A.getLastD 0 ≠ x + req :=
  (ne_getLastD (fun other => P.fresh (List.mem_append_left _ other)) (P.headers.real P.here)).symm

theorem last_known (P : Split S h x req A B) : A.getLastD 0 = 0 ∨ A.getLastD 0 ∈ S :=
  (getLastD_or_mem A 0).imp_right fun member => P.inside _ (List.mem_append_left _ member)

theorem next_known (P : Split S h x req A B) : B.headD 0 = 0 ∨ B.headD 0 ∈ S :=
  (headD_or_mem B 0).imp_right fun member => P.inside _ (List.mem_append_right _ member)

theorem get_split (P : Split S h x req A B) (ha : a ∈ S) :
    get (splitFree h x req).mem a g =
      if a = x + req ∧ g = .blkSize then get h.mem x .blkSize - req
      else if a = B.headD 0 ∧ g = .pPrev then x + req
      else if a = A.getLastD 0 ∧ g = .pNext then x + req
      else if a = x + req then get h.mem x g
      else get h.mem a g :=
  get_splitFree P.headers ha P.here rfl P.different P.last_known P.next_known P.back P.ahead P.last_ne P.room

theorem split_confined (P : Split S h x req A B) :
    Confined (headerBytes (· ∈ S)) h.mem (splitFree h x req).mem :=
  splitFree_confined P.headers P.here rfl P.different P.last_known P.next_known P.back P.ahead P.last_ne P.room

theorem split_chain (P : Split S h x req A B) (lower : x ∉ A) :
    Chain (next (splitFree h x req).mem) 0 (splitFree h x req).freeHead (A ++ (x + req) :: B) := by
  have last := P.last_ne
  apply chain_put P.free P.unique (P.headers.real P.here)
  · have new_word : word (x + req) = x + req := Nat.mod_eq_of_lt (P.headers.lt _ P.here)
    have head := P.free.head
    cases A with
    | nil =>
      have head : h.freeHead = x := head
      simp only [splitFree, head, if_true, new_word]
      rfl
    | cons a A =>
      have head : h.freeHead = a := head
      have other : x ≠ a := fun same => lower (same ▸ List.mem_cons_self)
      simp only [splitFree, head, if_neg other]
      rfl
  · intro a ha
    have other : a ≠ x + req := fun same => P.fresh (same ▸ ha)
    refine (P.get_split (g := .pNext) (P.inside a ha)).trans ?_
    simp only [reduceCtorEq, and_false, and_true, if_false, if_neg other]
  · refine (P.get_split (g := .pNext) P.here).trans ?_
    simp only [reduceCtorEq, and_false, and_true, if_false, if_neg last.symm, if_true]
    exact P.ahead

theorem split_back (P : Split S h x req A B) (back : Back (prev h.mem) 0 (A ++ ([x] ++ B))) :
    Back (prev (splitFree h x req).mem) 0 (A ++ (x + req) :: B) := by
  apply back_put back P.unique (fun null => P.headers.nonnull (P.inside 0 null)) fun _ => rfl
  · intro a ha
    have other : a ≠ x + req := fun same => P.fresh (same ▸ ha)
    refine (P.get_split (g := .pPrev) (P.inside a ha)).trans ?_
    simp only [reduceCtorEq, and_false, and_true, if_false, if_neg other]
  · have first := ne_headD (fun other => P.fresh (List.mem_append_right _ other)) (P.headers.real P.here)
    refine (P.get_split (g := .pPrev) P.here).trans ?_
    simp only [reduceCtorEq, and_false, and_true, if_false, if_neg first, if_true]
    exact P.back

end Split

/-- The row with a free block split. -/
theorem split_tiles (L : Layout base limit h (pre ++ ⟨x, s, .free⟩ :: post)) (room : n + mcbSize < s) :
    Tiles limit base (pre ++ ⟨x, n, .dead⟩ :: ⟨x + mcbSize + n, s - n - mcbSize, .free⟩ :: post) := by
  have tiles := L.tiles
  simp only [tiles_append, Tiles] at tiles ⊢
  obtain ⟨middle, before, rfl, after⟩ := tiles
  refine ⟨x, before, rfl, rfl, ?_⟩
  rwa [show x + mcbSize + n + mcbSize + (s - n - mcbSize) = x + mcbSize + s by omega]

theorem Layout.split (L : Layout base limit h (pre ++ ⟨x, s, .free⟩ :: post)) (room : n + mcbSize < s)
    (back : prev h.mem x = (addrs .free pre).getLastD 0) :
    Split ((pre ++ ⟨x, n, .dead⟩ :: ⟨x + mcbSize + n, s - n - mcbSize, .free⟩ :: post).map (·.addr)) h x
      (n + mcbSize) (addrs .free pre) (addrs .free post) := by
  have tiles := split_tiles L room
  have size : get h.mem x .blkSize = s := L.sizes ⟨x, s, .free⟩ (by simp) (Or.inl rfl)
  have free := L.free
  have here : x + (n + mcbSize) = x + mcbSize + n := by omega
  have row : addrs .free (pre ++ ⟨x, n, .dead⟩ :: ⟨x + mcbSize + n, s - n - mcbSize, .free⟩ :: post) =
      addrs .free pre ++ (x + (n + mcbSize)) :: addrs .free post := by
    simp [addrs_append, addrs_cons, here]
  have unique := (tiles_nodup tiles).sublist (addrs_sublist .free _)
  rw [addrs_here] at free
  rw [row] at unique
  refine ⟨tiles_headers tiles L.positive L.bound, by simp [here], ?_, by simp [mcbSize], unique, free, back,
    by omega⟩
  intro a ha
  apply addrs_inside (k := .free)
  rw [row]
  rcases List.mem_append.mp ha with before | behind
  · exact List.mem_append_left _ before
  · exact List.mem_append_right _ (List.mem_cons_of_mem _ behind)

/-- The allocated blocks keep their control blocks. -/
theorem split_used {a : Nat} (L : Layout base limit h (pre ++ ⟨x, s, .free⟩ :: post)) (room : n + mcbSize < s)
    (back : prev h.mem x = (addrs .free pre).getLastD 0) (g : Field)
    (ha : a ∈ addrs .used (pre ++ ⟨x, n, .dead⟩ :: ⟨x + mcbSize + n, s - n - mcbSize, .free⟩ :: post)) :
    get (splitFree h x (n + mcbSize)).mem a g = get h.mem a g := by
  have P := L.split room back
  have here : x + (n + mcbSize) = x + mcbSize + n := by omega
  have freeList : addrs .free (pre ++ ⟨x, n, .dead⟩ :: ⟨x + mcbSize + n, s - n - mcbSize, .free⟩ :: post) =
      addrs .free pre ++ (x + (n + mcbSize)) :: addrs .free post := by
    simp [addrs_append, addrs_cons, here]
  have apart := addrs_disjoint (tiles_nodup (split_tiles L room)) (by decide : Kind.used ≠ .free) ha
  rw [freeList] at apart
  simp only [List.mem_append, List.mem_cons, not_or] at apart
  have nonnull := P.headers.real (addrs_inside ha)
  rw [P.get_split (addrs_inside ha), if_neg (fun both => apart.2.1 both.1),
    if_neg (fun both => ne_headD apart.2.2 nonnull both.1),
    if_neg (fun both => ne_getLastD apart.1 nonnull both.1), if_neg apart.2.1]

/-- Splitting a free block whose back link is right leaves its tail in its place. -/
theorem splitFree_layout (L : Layout base limit h (pre ++ ⟨x, s, .free⟩ :: post))
    (room : n + mcbSize < s) (back : prev h.mem x = (addrs .free pre).getLastD 0) :
    Layout base limit (splitFree h x (n + mcbSize))
      (pre ++ ⟨x, n, .dead⟩ :: ⟨x + mcbSize + n, s - n - mcbSize, .free⟩ :: post) := by
  have P := L.split room back
  have tiles := split_tiles L room
  have size : get h.mem x .blkSize = s := L.sizes ⟨x, s, .free⟩ (by simp) (Or.inl rfl)
  have here : x + (n + mcbSize) = x + mcbSize + n := by omega
  have freeList : addrs .free (pre ++ ⟨x, n, .dead⟩ :: ⟨x + mcbSize + n, s - n - mcbSize, .free⟩ :: post) =
      addrs .free pre ++ (x + (n + mcbSize)) :: addrs .free post := by
    simp [addrs_append, addrs_cons, here]
  have usedList : addrs .used (pre ++ ⟨x, n, .dead⟩ :: ⟨x + mcbSize + n, s - n - mcbSize, .free⟩ :: post) =
      addrs .used (pre ++ ⟨x, s, .free⟩ :: post) := by
    simp [addrs_append, addrs_cons]
  have lower : x ∉ addrs .free pre := fun other => Nat.lt_irrefl x ((L.sides .free).1 x other)
  have used_same := fun a ha g => split_used (a := a) L room back g ha
  generalize hblocks : pre ++ (⟨x, n, .dead⟩ :: ⟨x + mcbSize + n, s - n - mcbSize, .free⟩ :: post) = bs
    at P tiles freeList usedList used_same
  have unique := tiles_nodup tiles
  refine ⟨L.isinit, L.positive, L.bound, tiles, ?_, ?_, freeList ▸ P.split_chain lower, ?_, ?_⟩
  · intro a ha
    subst hblocks
    have bound := L.bound
    have old := L.payload a
    simp only [List.map_append, List.map_cons, List.mem_append, List.mem_cons] at ha old
    rcases ha with before | same | tail | after
    · exact old (Or.inl before)
    · exact old (Or.inr (Or.inl same))
    · have := (tiles_inside tiles ⟨x + mcbSize + n, s - n - mcbSize, .free⟩ (by simp)).2
      simp only at this
      omega
    · exact old (Or.inr (Or.inr after))
  · intro b member kind
    have blk := P.get_split (g := .blkSize) (List.mem_map_of_mem member)
    simp only [reduceCtorEq, and_false, and_true, if_false, size] at blk
    rw [blk]
    split
    · rename_i same
      have tail : ⟨x + mcbSize + n, s - n - mcbSize, .free⟩ ∈ bs := by
        subst hblocks
        simp
      rw [List.inj_on_of_nodup_map unique member tail (same.trans here)]
      show s - (n + mcbSize) = s - n - mcbSize
      omega
    · rename_i other
      refine L.sizes b ?_ kind
      subst hblocks
      simp only [List.mem_append, List.mem_cons] at member ⊢
      rcases member with before | rfl | rfl | after
      · exact Or.inl before
      · simp at kind
      · exact (other here.symm).elim
      · exact Or.inr (Or.inr after)
  · rw [usedList]
    exact chain_congr L.used fun a ha => used_same a (usedList ▸ ha) _
  · rw [usedList]
    exact L.usedBack.imp fun _ back => back_congr (fun a ha => used_same a (usedList ▸ ha) _) back

/-- What becomes of a block that is handed out: it is linked between its neighbours in the
allocated list, but not in front of all of them. -/
def claimed (pre post : List Block) : Kind :=
  if addrs .used pre = [] ∧ addrs .used post ≠ [] then .lost else .used

/-- Linking a block in by its neighbours in the allocated list, of which there may be none. -/
theorem insertAlloc_get {S U V : List Nat} {a : Nat} {g : Field} (headers : Headers S) (ha : a ∈ S) (hx : x ∈ S)
    (inside : ∀ b ∈ U ++ V, b ∈ S)
    (used : Chain (next h.mem) 0 h.allocHead (U ++ V)) :
    get (insertAlloc h x (U.getLastD 0) (V.headD 0)).mem a g =
      if a = V.headD 0 ∧ g = .pPrev then x
      else if a = U.getLastD 0 ∧ g = .pNext then x
      else if a = x ∧ g = .pPrev then U.getLastD 0
      else if a = x ∧ g = .pNext then V.headD 0
      else get h.mem a g := by
  apply get_insertAlloc headers ha hx
  · exact (getLastD_or_mem U 0).imp_right fun member => inside _ (List.mem_append_left _ member)
  · exact (headD_or_mem V 0).imp_right fun member => inside _ (List.mem_append_right _ member)
  · intro empty
    rw [empty] at used
    obtain ⟨rfl, rfl⟩ := List.append_eq_nil_iff.mp (chain_null used)
    exact ⟨rfl, rfl⟩

theorem insertAlloc_allocHead {U V : List Nat} (used : Chain (next h.mem) 0 h.allocHead (U ++ V)) :
    (insertAlloc h x (U.getLastD 0) (V.headD 0)).allocHead = if U = [] ∧ V = [] then x else h.allocHead := by
  unfold insertAlloc
  by_cases empty : h.allocHead = 0
  · rw [if_neg (by simpa using empty), if_pos]
    rw [empty] at used
    exact List.append_eq_nil_iff.mp (chain_null used)
  · rw [if_pos empty, if_neg]
    rintro ⟨rfl, rfl⟩
    exact empty used.head

theorem insertAlloc_freeHead (h : HeapState) (x select next : Nat) :
    (insertAlloc h x select next).freeHead = h.freeHead := by
  unfold insertAlloc
  split <;> rfl

/-- `x` stands between the blocks `U` and `V` of the allocated list, and the heap is what linking it in there
makes of `h`. -/
structure Linking (S : List Nat) (h h' : HeapState) (x : Nat) (U V : List Nat) : Prop where
  headers : Headers S
  here : x ∈ S
  others : ∀ a ∈ U ++ V, a ∈ S ∧ a ≠ x
  unique : (U ++ V).Nodup
  used : Chain (next h.mem) 0 h.allocHead (U ++ V)
  back : ∃ front, Back (prev h.mem) front (U ++ V)
  head : h'.allocHead = if U = [] ∧ V = [] then x else h.allocHead
  nexts : ∀ a ∈ S, next h'.mem a = if a = U.getLastD 0 then x else if a = x then V.headD 0 else next h.mem a
  prevs : ∀ a ∈ S, prev h'.mem a = if a = V.headD 0 then x else if a = x then U.getLastD 0 else prev h.mem a

namespace Linking

variable {S U V : List Nat} {h' : HeapState}

/-- In front of all allocated blocks the head keeps its place, and points back at `x`. -/
theorem lost (C : Linking S h h' x [] V) (nonempty : V ≠ []) :
    Chain (next h'.mem) 0 h'.allocHead V ∧ ∃ front, Back (prev h'.mem) front V := by
  obtain ⟨front, back⟩ := C.back
  constructor
  · rw [C.head, if_neg fun both => nonempty both.2]
    apply chain_congr C.used
    intro a ha
    obtain ⟨member, other⟩ := C.others a ha
    rw [C.nexts a member, if_neg (c := a = x) other, if_neg]
    exact C.headers.real member
  · refine ⟨x, back_resource C.unique back (t := 0) ?_ ?_⟩
    · intro _
      have first : V.headD 0 ∈ V := headD_mem nonempty
      rw [C.prevs _ (C.others _ first).1, if_pos rfl]
    · intro a ha front
      obtain ⟨member, other⟩ := C.others a ha
      rw [C.prevs a member, if_neg front, if_neg other]

theorem listed (C : Linking S h h' x U V) : (U ++ x :: V).Nodup :=
  List.nodup_middle.mpr (List.nodup_cons.mpr ⟨fun other => (C.others x other).2 rfl, C.unique⟩)

theorem linked_back (C : Linking S h h' x U V) {front : Nat} (back : Back (prev h.mem) front (U ++ V)) :
    Back (prev h'.mem) (if U = [] then 0 else front) (U ++ x :: V) := by
  have fresh : x ∉ U ++ V := fun other => (C.others x other).2 rfl
  have real := C.headers.real C.here
  have nonnull : 0 ∉ U ++ V := fun null => C.headers.nonnull (C.others 0 null).1
  simp only [List.mem_append, not_or] at fresh
  apply back_put (M := []) back C.listed nonnull fun nonempty => if_neg nonempty
  · intro a ha
    obtain ⟨member, other⟩ := C.others a ha
    rw [C.prevs a member, if_neg (c := a = x) other]
  · rw [C.prevs x C.here, if_neg (ne_headD fresh.2 real), if_pos rfl]
    cases U with
    | nil => rfl
    | cons u U => exact getLastD_default (List.cons_ne_nil u U) _ _

theorem linked (C : Linking S h h' x U V) (reached : ¬(U = [] ∧ V ≠ [])) :
    Chain (next h'.mem) 0 h'.allocHead (U ++ x :: V) ∧ ∃ front, Back (prev h'.mem) front (U ++ x :: V) := by
  obtain ⟨front, back⟩ := C.back
  have fresh : x ∉ U ++ V := fun other => (C.others x other).2 rfl
  have real := C.headers.real C.here
  simp only [List.mem_append, not_or] at fresh
  refine ⟨?_, _, C.linked_back back⟩
  apply chain_put (M := []) C.used C.listed real
  · rw [C.head]
    cases U with
    | nil =>
      have empty : V = [] := by simpa using reached
      rw [if_pos ⟨rfl, empty⟩]
      rfl
    | cons u U =>
      rw [if_neg (by simp)]
      exact C.used.head
  · intro a ha
    obtain ⟨member, other⟩ := C.others a ha
    rw [C.nexts a member, if_neg (c := a = x) other]
  · rw [C.nexts x C.here, if_neg (ne_getLastD fresh.1 real), if_pos rfl]

/-- The links of the nodes that are not on the allocated list stay. -/
theorem aside (C : Linking S h h' x U V) {a : Nat} (ha : a ∈ S) (apart : a ∉ U ++ V) (other : a ≠ x) :
    next h'.mem a = next h.mem a ∧ prev h'.mem a = prev h.mem a := by
  have real := C.headers.real ha
  rw [List.mem_append, not_or] at apart
  rw [C.nexts a ha, C.prevs a ha, if_neg (ne_getLastD apart.1 real), if_neg (ne_headD apart.2 real), if_neg other,
    if_neg other]
  exact ⟨rfl, rfl⟩

end Linking

theorem linking_of {S U V : List Nat} (headers : Headers S) (here : x ∈ S) (others : ∀ a ∈ U ++ V, a ∈ S ∧ a ≠ x)
    (unique : (U ++ V).Nodup) (used : Chain (next h.mem) 0 h.allocHead (U ++ V))
    (back : ∃ front, Back (prev h.mem) front (U ++ V)) :
    Linking S h (insertAlloc h x (U.getLastD 0) (V.headD 0)) x U V := by
  refine ⟨headers, here, others, unique, used, back, insertAlloc_allocHead used, ?_, ?_⟩
  · intro a ha
    refine (insertAlloc_get (g := .pNext) headers ha here (fun b hb => (others b hb).1) used).trans ?_
    simp only [reduceCtorEq, and_false, and_true, if_false]
  · intro a ha
    refine (insertAlloc_get (g := .pPrev) headers ha here (fun b hb => (others b hb).1) used).trans ?_
    simp only [reduceCtorEq, and_false, and_true, if_false]

theorem insertAlloc_linking (L : Layout base limit h (pre ++ ⟨x, n, .dead⟩ :: post)) :
    Linking ((pre ++ ⟨x, n, .dead⟩ :: post).map (·.addr)) h
      (insertAlloc h x ((addrs .used pre).getLastD 0) ((addrs .used post).headD 0)) x
      (addrs .used pre) (addrs .used post) := by
  have unique := tiles_nodup L.tiles
  have x_dead : x ∈ addrs .dead (pre ++ ⟨x, n, .dead⟩ :: post) :=
    mem_addrs.mpr ⟨⟨x, n, .dead⟩, by simp, rfl, rfl⟩
  have usedOld : addrs .used (pre ++ ⟨x, n, .dead⟩ :: post) = addrs .used pre ++ addrs .used post :=
    addrs_other (by decide)
  have used := L.used
  rw [usedOld] at used
  apply linking_of L.headers (addrs_inside x_dead) _ (usedOld ▸ unique.sublist (addrs_sublist .used _)) used
    (usedOld ▸ L.usedBack)
  intro a ha
  rw [← usedOld] at ha
  exact ⟨addrs_inside ha, addrs_apart unique (by decide) ha x_dead⟩

theorem insertAlloc_layout (L : Layout base limit h (pre ++ ⟨x, n, .dead⟩ :: post))
    (size : get h.mem x .blkSize = n) :
    Layout base limit (insertAlloc h x ((addrs .used pre).getLastD 0) ((addrs .used post).headD 0))
      (pre ++ ⟨x, n, claimed pre post⟩ :: post) := by
  have C := insertAlloc_linking L
  have unique := tiles_nodup L.tiles
  have x_dead : x ∈ addrs .dead (pre ++ ⟨x, n, .dead⟩ :: post) :=
    mem_addrs.mpr ⟨⟨x, n, .dead⟩, by simp, rfl, rfl⟩
  have sizes : ∀ a ∈ (pre ++ ⟨x, n, .dead⟩ :: post).map (·.addr),
      get (insertAlloc h x ((addrs .used pre).getLastD 0) ((addrs .used post).headD 0)).mem a .blkSize =
        get h.mem a .blkSize := by
    intro a ha
    rw [insertAlloc_get C.headers ha C.here (fun b hb => (C.others b hb).1) C.used]
    simp only [reduceCtorEq, and_false, if_false]
  have isinit : (insertAlloc h x ((addrs .used pre).getLastD 0) ((addrs .used post).headD 0)).heapIsinit =
      h.heapIsinit := by
    unfold insertAlloc
    split <;> rfl
  have freeHead := insertAlloc_freeHead h x ((addrs .used pre).getLastD 0) ((addrs .used post).headD 0)
  generalize insertAlloc h x ((addrs .used pre).getLastD 0) ((addrs .used post).headD 0) = h'
    at C sizes isinit freeHead ⊢
  have links : ∀ a ∈ addrs .free (pre ++ ⟨x, n, .dead⟩ :: post), next h'.mem a = next h.mem a := by
    intro a ha
    have usedOld : addrs .used (pre ++ ⟨x, n, .dead⟩ :: post) = addrs .used pre ++ addrs .used post :=
      addrs_other (by decide)
    have apart := addrs_disjoint unique (by decide : Kind.free ≠ .used) ha
    exact (C.aside (addrs_inside ha) (usedOld ▸ apart) (addrs_apart unique (by decide) ha x_dead)).1
  have change := fun (k' : Kind) (idle' : k' ≠ .free) =>
    L.changeUsed (by decide) idle' isinit freeHead size sizes links
  unfold claimed
  by_cases front : addrs .used pre = [] ∧ addrs .used post ≠ []
  · rw [if_pos front]
    have used_lost : addrs .used (pre ++ ⟨x, n, .lost⟩ :: post) = addrs .used post := by
      simp [addrs_append, addrs_cons, front.1]
    obtain ⟨used, back⟩ := (front.1 ▸ C).lost front.2
    exact change .lost (by decide) (used_lost ▸ used) (used_lost ▸ back)
  · rw [if_neg front]
    have used_used : addrs .used (pre ++ ⟨x, n, .used⟩ :: post) = addrs .used pre ++ x :: addrs .used post :=
      addrs_here
    obtain ⟨used, back⟩ := C.linked front
    exact change .used (by decide) (used_used ▸ used) (used_used ▸ back)

/-! ### The whole call -/

theorem Layout.fit_none (L : Layout base limit h bs) (small : ∀ b ∈ bs, b.kind = .free → b.size < n) :
    (addrs .free bs).find? (fun a => n ≤ get h.mem a .blkSize) = none := by
  apply List.find?_eq_none.mpr
  intro a ha
  obtain ⟨b, member, kind, rfl⟩ := mem_addrs.mp ha
  rw [L.sizes b member (Or.inl kind)]
  simpa using small b member kind

theorem Layout.fit_first (L : Layout base limit h (pre ++ ⟨x, s, .free⟩ :: post)) (fits : n ≤ s)
    (before : ∀ b ∈ pre, b.kind = .free → b.size < n) :
    (addrs .free (pre ++ ⟨x, s, .free⟩ :: post)).find? (fun a => n ≤ get h.mem a .blkSize) = some x := by
  have size : get h.mem x .blkSize = s := L.sizes ⟨x, s, .free⟩ (by simp) (Or.inl rfl)
  have none : (addrs .free pre).find? (fun a => n ≤ get h.mem a .blkSize) = none := by
    apply List.find?_eq_none.mpr
    intro a ha
    obtain ⟨b, member, kind, rfl⟩ := mem_addrs.mp ha
    rw [L.sizes b (List.mem_append_left _ member) (Or.inl kind)]
    simpa using before b member kind
  rw [addrs_here, List.find?_append, none, List.find?_cons_of_pos (by simpa [size] using fits), Option.none_or]

theorem findFit_none (L : Layout base limit h bs) (nowrap : n + mcbSize < 2 ^ 32)
    (small : ∀ b ∈ bs, b.kind = .free → b.size < n) :
    findFit h.mem n addressSpace h.freeHead = some (0, false) := by
  rw [findFit_chain L.free (L.short _) nowrap, L.fit_none small]

theorem findFit_first (L : Layout base limit h (pre ++ ⟨x, s, .free⟩ :: post))
    (nowrap : n + mcbSize < 2 ^ 32) (fits : n ≤ s) (before : ∀ b ∈ pre, b.kind = .free → b.size < n) :
    findFit h.mem n addressSpace h.freeHead = some (x, decide (s ≤ n + mcbSize)) := by
  have size : get h.mem x .blkSize = s := L.sizes ⟨x, s, .free⟩ (by simp) (Or.inl rfl)
  rw [findFit_chain L.free (L.short _) nowrap, L.fit_first fits before]
  simp only [size]

theorem allocate_nofit (L : Layout base limit h bs) (nowrap : n + mcbSize < 2 ^ 32)
    (small : ∀ b ∈ bs, b.kind = .free → b.size < n) : allocateMemory h n = some (h, 0) := by
  simp [allocateMemory, L.isinit, findFit_none L nowrap small]

theorem findNeighbours_used (L : Layout base limit h (pre ++ ⟨x, s, .free⟩ :: post)) :
    findNeighbours h.mem x addressSpace 0 h.allocHead =
      some ((addrs .used pre).getLastD 0, (addrs .used post).headD 0) := by
  have used := L.used
  have short := L.short .used
  have sides := L.sides .used
  simp only [addrs_append, addrs_cons, reduceCtorEq, if_false] at used short
  exact findNeighbours_chain used (fun a ha => Nat.le_of_lt (sides.1 a ha)) sides.2 short

/-- The free block at `x` when it has been taken, whole or in part, and has its size, but no links yet. -/
def takeBlock (h : HeapState) (n x : Nat) (whole : Bool) : HeapState :=
  let g := if whole then replaceFree h x else splitFree h x (word (n + mcbSize))
  { g with mem := set g.mem x .blkSize (if whole then get h.mem x .blkSize else n) }

/-- What follows the first loop, once it has found a block. -/
theorem allocate_found (L : Layout base limit h (pre ++ ⟨x, s, .free⟩ :: post)) {whole : Bool}
    (found : findFit h.mem n addressSpace h.freeHead = some (x, whole)) :
    allocateMemory h n = some
      (insertAlloc (takeBlock h n x whole) x ((addrs .used pre).getLastD 0) ((addrs .used post).headD 0),
        x + mcbSize) := by
  obtain ⟨nonnull, payload⟩ := L.payload_word (x := x) (by simp)
  simp only [allocateMemory, L.isinit, found, Bool.not_true, Bool.false_eq_true, if_false,
    Option.bind_eq_bind, Option.bind_some, if_neg nonnull, findNeighbours_used L, payload]
  rfl

theorem takeBlock_size (small : s < 2 ^ 32) (size : get h.mem x .blkSize = s) (fits : n ≤ s) (whole : Bool) :
    get (takeBlock h n x whole).mem x .blkSize = if whole then s else n := by
  unfold takeBlock
  cases whole with
  | true => exact (load_store_same (size ▸ small)).trans size
  | false => exact load_store_same (Nat.lt_of_le_of_lt fits small)

theorem takeBlock_split (L : Layout base limit h (pre ++ ⟨x, s, .free⟩ :: post)) (nowrap : n + mcbSize < 2 ^ 32)
    (room : n + mcbSize < s) (back : prev h.mem x = (addrs .free pre).getLastD 0) :
    Layout base limit (takeBlock h n x false)
      (pre ++ ⟨x, n, .dead⟩ :: ⟨x + mcbSize + n, s - n - mcbSize, .free⟩ :: post) := by
  have full : word (n + mcbSize) = n + mcbSize := Nat.mod_eq_of_lt nowrap
  have small : n < 2 ^ 32 := by omega
  have taken := setSize_layout (splitFree_layout L room back) small
  rw [← full] at taken
  exact taken

theorem takeBlock_link {S : List Nat} {a : Nat} {g : Field} (headers : Headers S) (ha : a ∈ S) (hx : x ∈ S)
    (small : n < 2 ^ 32) (other : g ≠ .blkSize) :
    get (takeBlock h n x false).mem a g = get (splitFree h x (word (n + mcbSize))).mem a g := by
  show get (set (splitFree h x (word (n + mcbSize))).mem x .blkSize n) a g = _
  rw [get_set headers ha hx small, if_neg fun both => other both.2]

/-- The free list is walked backwards over the new block in the place of the old one. -/
theorem takeBlock_back (L : Layout base limit h (pre ++ ⟨x, s, .free⟩ :: post)) (nowrap : n + mcbSize < 2 ^ 32)
    (room : n + mcbSize < s) (back : Back (prev h.mem) 0 (addrs .free (pre ++ ⟨x, s, .free⟩ :: post))) :
    Back (prev (takeBlock h n x false).mem) 0 (addrs .free pre ++ (x + mcbSize + n) :: addrs .free post) := by
  rw [addrs_here] at back
  have P := L.split room (back_append.mp back).2.1
  have full : word (n + mcbSize) = n + mcbSize := Nat.mod_eq_of_lt nowrap
  have hx : x ∈ (pre ++ ⟨x, n, .dead⟩ :: ⟨x + mcbSize + n, s - n - mcbSize, .free⟩ :: post).map (·.addr) := by
    simp
  have here : x + (n + mcbSize) = x + mcbSize + n := by omega
  have freeList : addrs .free (pre ++ ⟨x, n, .dead⟩ :: ⟨x + mcbSize + n, s - n - mcbSize, .free⟩ :: post) =
      addrs .free pre ++ (x + mcbSize + n) :: addrs .free post := by
    simp [addrs_append, addrs_cons]
  have split := P.split_back back
  rw [here] at split
  refine back_congr ?_ split
  intro a ha
  rw [← freeList] at ha
  have link := takeBlock_link (n := n) (h := h) (g := .pPrev) P.headers (addrs_inside ha) hx (by omega) (by decide)
  rw [full] at link
  exact link

/-- A request that leaves room for another block is carved from the front of the first fit. -/
theorem allocate_split (L : Layout base limit h (pre ++ ⟨x, s, .free⟩ :: post))
    (nowrap : n + mcbSize < 2 ^ 32) (before : ∀ b ∈ pre, b.kind = .free → b.size < n)
    (room : n + mcbSize < s) (back : prev h.mem x = (addrs .free pre).getLastD 0) :
    ∃ h', allocateMemory h n = some (h', x + mcbSize) ∧
      Layout base limit h'
        (pre ++ ⟨x, n, claimed pre post⟩ :: ⟨x + mcbSize + n, s - n - mcbSize, .free⟩ :: post) := by
  have found := findFit_first L nowrap (by omega) before
  rw [show decide (s ≤ n + mcbSize) = false by simpa using room] at found
  have small : n < 2 ^ 32 := by omega
  have inserted := insertAlloc_layout (takeBlock_split L nowrap room back) (load_store_same small)
  simp only [claimed, addrs_cons, reduceCtorEq, if_false] at inserted
  exact ⟨_, allocate_found L found, inserted⟩

/-- A request for a whole block takes the first free block. -/
theorem allocate_whole (L : Layout base limit h (pre ++ ⟨x, s, .free⟩ :: post))
    (nowrap : n + mcbSize < 2 ^ 32) (before : ∀ b ∈ pre, b.kind = .free → b.size < n) (fits : n ≤ s)
    (tight : s ≤ n + mcbSize) (first : addrs .free pre = []) :
    ∃ h', allocateMemory h n = some (h', x + mcbSize) ∧
      Layout base limit h' (pre ++ ⟨x, s, claimed pre post⟩ :: post) := by
  have size : get h.mem x .blkSize = s := L.sizes ⟨x, s, .free⟩ (by simp) (Or.inl rfl)
  have small : s < 2 ^ 32 := size ▸ get_lt _ _ _
  have found := findFit_first L nowrap fits before
  rw [show decide (s ≤ n + mcbSize) = true by simpa using tight] at found
  have taken := setSize_layout (replaceFree_layout L first) small
  have same : takeBlock h n x true = { replaceFree h x with mem := set (replaceFree h x).mem x .blkSize s } := by
    unfold takeBlock
    simp only [if_true, size]
  refine ⟨_, allocate_found L found, ?_⟩
  rw [same]
  exact insertAlloc_layout taken (load_store_same small)

end Mpx.Heap

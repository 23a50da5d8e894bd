import Mpx.Heap.Frame
import Mpx.Heap.Layout

/-! # `free_memory` on a row of blocks

A block that is given back is `dead` once it is out of the allocated list. The second half of
`free_memory` merges it with its neighbours, links it, or loses it. -/

namespace Mpx.Heap
open Library.ByteMemory Library.Links

variable {base limit x y z s t u : Nat} {h : HeapState} {bs pre post : List Block} {kind kind' : Kind}

/-! ### Out of the allocated list -/

/-- A block of the allocated list between the blocks `U` and `V`. -/
structure Between (S : List Nat) (h : HeapState) (x front : Nat) (U V : List Nat) : Prop where
  headers : Headers S
  here : x ∈ S
  inside : ∀ a ∈ U ++ V, a ∈ S
  fresh : x ∉ U ++ V
  unique : (U ++ V).Nodup
  used : Chain (next h.mem) 0 h.allocHead (U ++ ([x] ++ V))
  back : Back (prev h.mem) front (U ++ ([x] ++ V))

theorem Layout.between {front : Nat} (L : Layout base limit h (pre ++ ⟨x, s, .used⟩ :: post))
    (back : Back (prev h.mem) front (addrs .used (pre ++ ⟨x, s, .used⟩ :: post))) :
    Between ((pre ++ ⟨x, s, .used⟩ :: post).map (·.addr)) h x front (addrs .used pre) (addrs .used post) := by
  have row : addrs .used (pre ++ ⟨x, s, .used⟩ :: post) = addrs .used pre ++ ([x] ++ addrs .used post) := by
    simp [addrs_append, addrs_cons]
  have unique := (tiles_nodup L.tiles).sublist (addrs_sublist .used _)
  have used := L.used
  rw [row] at unique used back
  obtain ⟨fresh, unique⟩ := List.nodup_cons.mp (List.nodup_middle.mp unique)
  refine ⟨L.headers, by simp, ?_, fresh, unique, used, back⟩
  intro a ha
  apply addrs_inside (k := .used)
  rw [row]
  rcases List.mem_append.mp ha with before | behind
  · exact List.mem_append_left _ before
  · exact List.mem_append_right _ (List.mem_append_right _ behind)

namespace Between

variable {S U V : List Nat} {front a : Nat} {g : Field}

theorem ahead (B : Between S h x front U V) : next h.mem x = V.headD 0 := chain_next B.used

theorem behind (B : Between S h x front U V) : prev h.mem x = U.getLastD front := (back_append.mp B.back).2.1

theorem first (B : Between S h x front U V) : x = h.allocHead ↔ U = [] := by
  have head := B.used.head
  constructor
  · intro same
    cases U with
    | nil => rfl
    | cons a U =>
      have same : x = a := same.trans head
      exact (B.fresh (List.mem_append_left _ (same ▸ List.mem_cons_self))).elim
  · rintro rfl
    exact head.symm

theorem last (B : Between S h x front U V) (later : x ≠ h.allocHead) : U.getLastD front ∈ U :=
  getLastD_mem fun empty => later (B.first.mpr empty)

theorem get_unlink (B : Between S h x front U V) (ha : a ∈ S) :
    get (unlinkAlloc h x).mem a g =
      if a = V.headD 0 ∧ g = .pPrev then U.getLastD front
      else if x ≠ h.allocHead ∧ a = U.getLastD front ∧ g = .pNext then V.headD 0
      else get h.mem a g := by
  apply get_unlinkAlloc B.headers ha B.here B.behind B.ahead
  · exact fun later => B.inside _ (List.mem_append_left _ (B.last later))
  · exact (headD_or_mem V 0).imp_right fun member => B.inside _ (List.mem_append_right _ member)
  · exact fun later same => B.fresh (same ▸ List.mem_append_left _ (B.last later))

theorem unlink_confined (B : Between S h x front U V) :
    Confined (headerBytes (· ∈ S)) h.mem (unlinkAlloc h x).mem := by
  apply unlinkAlloc_confined B.headers B.here B.behind B.ahead
  · exact fun later => B.inside _ (List.mem_append_left _ (B.last later))
  · exact (headD_or_mem V 0).imp_right fun member => B.inside _ (List.mem_append_right _ member)
  · exact fun later same => B.fresh (same ▸ List.mem_append_left _ (B.last later))

theorem unlink_chain (B : Between S h x front U V) :
    Chain (next (unlinkAlloc h x).mem) 0 (unlinkAlloc h x).allocHead (U ++ V) := by
  apply chain_drop B.used B.unique
  · unfold unlinkAlloc
    by_cases lowest : x = h.allocHead
    · simp only [if_pos lowest]
      rw [B.first.mp lowest]
      exact B.ahead
    · simp only [if_neg lowest]
      have occupied : U ≠ [] := fun empty => lowest (B.first.mpr empty)
      rw [B.used.head, headD_front occupied, headD_front occupied]
  · intro a ha
    have nonnull : a ≠ 0 := B.headers.real (B.inside a ha)
    refine (B.get_unlink (g := .pNext) (B.inside a ha)).trans ?_
    simp only [reduceCtorEq, and_false, and_true, if_false]
    by_cases empty : U = []
    · rw [if_neg (fun both => both.1 (B.first.mpr empty)), empty, if_neg]
      exact nonnull
    · rw [getLastD_default empty 0 front]
      have later : x ≠ h.allocHead := fun same => empty (B.first.mp same)
      simp only [later, ne_eq, not_false_eq_true, true_and]

theorem unlink_back (B : Between S h x front U V) : Back (prev (unlinkAlloc h x).mem) front (U ++ V) := by
  apply back_drop B.back B.unique fun null => B.headers.nonnull (B.inside 0 null)
  intro a ha
  refine (B.get_unlink (g := .pPrev) (B.inside a ha)).trans ?_
  simp only [reduceCtorEq, and_false, and_true, if_false]

end Between

theorem unlinkAlloc_layout (L : Layout base limit h (pre ++ ⟨x, s, .used⟩ :: post)) :
    Layout base limit (unlinkAlloc h x) (pre ++ ⟨x, s, .dead⟩ :: post) ∧
      get (unlinkAlloc h x).mem x .blkSize = s := by
  have unique := tiles_nodup L.tiles
  have size : get h.mem x .blkSize = s := L.sizes ⟨x, s, .used⟩ (by simp) (Or.inr rfl)
  obtain ⟨front, usedBack⟩ := L.usedBack
  have B := L.between usedBack
  have usedList : addrs .used (pre ++ ⟨x, s, .dead⟩ :: post) = addrs .used pre ++ addrs .used post :=
    addrs_other (by decide)
  have sizes : ∀ a ∈ (pre ++ ⟨x, s, .used⟩ :: post).map (·.addr),
      get (unlinkAlloc h x).mem a .blkSize = get h.mem a .blkSize := by
    intro a ha
    refine (B.get_unlink (g := .blkSize) ha).trans ?_
    simp only [reduceCtorEq, and_false, if_false]
  have isinit : (unlinkAlloc h x).heapIsinit = h.heapIsinit := by
    unfold unlinkAlloc
    split <;> rfl
  have freeHead : (unlinkAlloc h x).freeHead = h.freeHead := by
    unfold unlinkAlloc
    split <;> rfl
  refine ⟨L.changeUsed (by decide) (by decide) isinit freeHead size sizes ?_ (usedList ▸ B.unlink_chain)
    ⟨front, usedList ▸ B.unlink_back⟩, (sizes x B.here).trans size⟩
  intro a ha
  refine (B.get_unlink (g := .pNext) (addrs_inside ha)).trans ?_
  simp only [reduceCtorEq, and_false, and_true, if_false]
  apply if_neg
  rintro ⟨later, rfl⟩
  have listed : (addrs .used pre).getLastD front ∈ addrs .used (pre ++ ⟨x, s, .used⟩ :: post) := by
    rw [addrs_append]
    exact List.mem_append_left _ (B.last later)
  exact addrs_disjoint unique (by decide) ha listed

/-! ### The freed block and its neighbours -/

theorem tiles_next {b c : Block} (h : Tiles limit base (pre ++ b :: c :: post)) :
    c.addr = b.addr + mcbSize + b.size := by
  simp only [tiles_append, Tiles] at h
  obtain ⟨middle, _, rfl, next, _⟩ := h
  exact next

/-- The end of a block is the start of the block behind it. -/
theorem word_next (L : Layout base limit h (pre ++ ⟨x, s, kind⟩ :: ⟨y, t, kind'⟩ :: post)) :
    word (x + mcbSize + s) = y := by
  have next : y = x + mcbSize + s := tiles_next L.tiles
  rw [← next]
  exact Nat.mod_eq_of_lt (L.headers.lt y (by simp))

/-- No free block starts where a block ends whose next block is not free. -/
theorem word_apart (L : Layout base limit h (pre ++ ⟨x, s, kind⟩ :: post))
    (gap : ∀ b ∈ post.head?, b.kind ≠ .free) (hy : y ∈ addrs .free post) :
    word (x + mcbSize + s) ≠ y := by
  obtain ⟨b, member, isFree, rfl⟩ := mem_addrs.mp hy
  cases post with
  | nil => cases member
  | cons c post =>
    have later : b ∈ post := by
      rcases List.mem_cons.mp member with same | later
      · exact (gap c rfl (same ▸ isFree)).elim
      · exact later
    have apart := (tiles_ordered L.tiles)
    have := (List.pairwise_cons.mp (List.pairwise_cons.mp (List.pairwise_append.mp apart).2.1).2).1 b later
    have row : Layout base limit h (pre ++ ⟨x, s, kind⟩ :: ⟨c.addr, c.size, c.kind⟩ :: post) := L
    rw [word_next row]
    simp only [mcbSize] at this
    omega

/-- The nearest free block below does not reach a block whose neighbour in front is not free. -/
theorem word_before (L : Layout base limit h (pre ++ ⟨x, s, kind⟩ :: post))
    (below : addrs .free pre ≠ []) (gap : ∀ b ∈ pre.getLast?, b.kind ≠ .free) :
    blkEnd h.mem ((addrs .free pre).getLastD 0) ≠ x := by
  obtain ⟨b, member, isFree, same⟩ := mem_addrs.mp (getLastD_mem (s := 0) below)
  rw [← same]
  have size : get h.mem b.addr .blkSize = b.size := L.sizes b (List.mem_append_left _ member) (Or.inl isFree)
  rcases List.eq_nil_or_concat pre with rfl | ⟨front, c, rfl⟩
  · cases member
  · rw [List.concat_eq_append] at L member gap
    have earlier : b ∈ front := by
      rcases List.mem_append.mp member with earlier | last
      · exact earlier
      · have last : b = c := by simpa using last
        exact (gap c (by simp) (last ▸ isFree)).elim
    have ordered := tiles_ordered L.tiles
    rw [List.append_assoc] at ordered
    obtain ⟨_, behind, across⟩ := List.pairwise_append.mp ordered
    have before := across b earlier c (by simp)
    have after := (List.pairwise_cons.mp behind).1 ⟨x, s, kind⟩ (by simp)
    have c_lt := L.headers.lt c.addr (by simp)
    unfold blkEnd word
    rw [size, Nat.mod_eq_of_lt (by omega)]
    simp only [mcbSize] at before after ⊢
    omega

/-- What `insertFree` writes when no free block lies in front of the freed one and it reaches none. -/
theorem alone_get (L : Layout base limit h (pre ++ ⟨x, s, .dead⟩ :: post)) (size : get h.mem x .blkSize = s)
    (lowest : addrs .free pre = []) (gap : ∀ b ∈ post.head?, b.kind ≠ .free) :
    ∃ m, insertFree h x 0 ((addrs .free post).headD 0) = { h with mem := m, freeHead := x } ∧
      ∀ a ∈ (pre ++ ⟨x, s, .dead⟩ :: post).map (·.addr), ∀ g, get m a g =
        if a = (addrs .free post).headD 0 ∧ g = .pPrev then x
        else if a = x ∧ g = .pNext then (addrs .free post).headD 0
        else if a = x ∧ g = .pPrev then 0
        else get h.mem a g := by
  have headers := L.headers
  have hx : x ∈ (pre ++ ⟨x, s, .dead⟩ :: post).map (·.addr) := by simp
  have freeOld : addrs .free (pre ++ ⟨x, s, .dead⟩ :: post) = addrs .free post := by
    simp [addrs_append, addrs_cons, lowest]
  have free := L.free
  rw [freeOld] at free
  have apart := fun b hb => word_apart (y := b) L gap hb
  generalize hB : addrs .free post = B at freeOld free apart
  cases B with
  | nil =>
    have empty : h.freeHead = 0 := free.head
    unfold insertFree
    rw [if_pos empty]
    refine ⟨_, rfl, fun a ha g => ?_⟩
    have real : a ≠ 0 := headers.real ha
    rw [get_set headers ha hx (by decide), get_set headers ha hx (by decide),
      if_neg (c := a = List.headD [] 0 ∧ g = .pPrev) (fun both => real both.1)]
    by_cases same : a = x
    · cases g <;> simp [same]
    · simp [same]
  | cons b B =>
    have head : h.freeHead = b := free.head
    have hb : b ∈ (pre ++ ⟨x, s, .dead⟩ :: post).map (·.addr) := by
      apply addrs_inside (k := .free)
      rw [freeOld]
      exact List.mem_cons_self
    have real : b ≠ 0 := headers.real hb
    have blk : get (set h.mem x .pPrev 0) x .blkSize = s := by
      rw [get_set headers hx hx (by decide), if_neg (by simp)]
      exact size
    have far : blkEnd (set h.mem x .pPrev 0) x ≠ b := by
      unfold blkEnd
      rw [blk]
      exact apart b List.mem_cons_self
    unfold insertFree
    rw [if_neg (by rw [head]; exact real), if_neg (by simp)]
    unfold joinNext
    rw [List.headD_cons, if_neg far]
    refine ⟨_, rfl, fun a ha g => ?_⟩
    rw [get_set headers ha hb (headers.lt x hx), get_set headers ha hx (headers.lt b hb),
      get_set headers ha hx (by decide)]

/-- The lowest free block becomes the head of the free list. -/
theorem insertFree_alone (L : Layout base limit h (pre ++ ⟨x, s, .dead⟩ :: post))
    (size : get h.mem x .blkSize = s) (lowest : addrs .free pre = [])
    (gap : ∀ b ∈ post.head?, b.kind ≠ .free) :
    Layout base limit (insertFree h x 0 ((addrs .free post).headD 0)) (pre ++ ⟨x, s, .free⟩ :: post) := by
  have headers := L.headers
  have unique := tiles_nodup L.tiles
  obtain ⟨m, result, fields⟩ := alone_get L size lowest gap
  have hx : x ∈ (pre ++ ⟨x, s, .dead⟩ :: post).map (·.addr) := by simp
  have x_dead : x ∈ addrs .dead (pre ++ ⟨x, s, .dead⟩ :: post) :=
    mem_addrs.mpr ⟨⟨x, s, .dead⟩, by simp, rfl, rfl⟩
  have freeOld : addrs .free (pre ++ ⟨x, s, .dead⟩ :: post) = addrs .free post := by
    simp [addrs_append, addrs_cons, lowest]
  have free := L.free
  rw [freeOld] at free
  have nonnull : x ≠ 0 := headers.real hx
  rw [result]
  generalize hB : addrs .free post = B at freeOld free fields
  refine L.merge [⟨x, s, .dead⟩] rfl rfl rfl (tiles_kind .free L.tiles) List.mem_cons_self rfl rfl ?_ ?_ ?_ ?_
  · intro a ha g
    have real : a ≠ 0 := headers.real (addrs_inside ha)
    have other : a ≠ x := addrs_apart unique (by decide) ha x_dead
    have away : a ∉ B := freeOld ▸ addrs_disjoint unique (by decide) ha
    show get m a g = _
    rw [fields a (addrs_inside ha), if_neg (fun both => ne_headD away real both.1),
      if_neg (fun both => other both.1), if_neg (fun both => other both.1)]
  · intro a ha _
    refine (fields a ha .blkSize).trans ?_
    simp only [reduceCtorEq, and_false, if_false]
  · refine (fields x hx .blkSize).trans ?_
    simp only [reduceCtorEq, and_false, if_false]
    exact size
  · have freeNew : addrs .free (pre ++ ⟨x, s, .free⟩ :: post) = x :: B := by
      simp [addrs_append, addrs_cons, lowest, hB]
    have x_next : next m x = B.headD 0 := by
      refine (fields x hx .pNext).trans ?_
      simp only [reduceCtorEq, and_false, and_true, if_false, if_true]
    rw [freeNew]
    refine chain_cons_iff.mpr ⟨rfl, nonnull, ?_⟩
    show Chain _ 0 (next m x) B
    rw [x_next]
    apply chain_congr (free.head ▸ free)
    intro b hb
    rw [← freeOld] at hb
    have other : b ≠ x := addrs_apart unique (by decide) hb x_dead
    refine (fields b (addrs_inside hb) .pNext).trans ?_
    simp only [reduceCtorEq, and_false, if_false, other, false_and]

/-- What `insertFree` writes when the lowest free block absorbs the free block behind it. -/
theorem forward_get (L : Layout base limit h (pre ++ ⟨x, s, .dead⟩ :: ⟨y, t, .free⟩ :: post))
    (size : get h.mem x .blkSize = s) (lowest : addrs .free pre = []) :
    ∃ m, insertFree h x 0 y = { h with mem := m, freeHead := x } ∧
      ∀ a ∈ (pre ++ ⟨x, s, .dead⟩ :: ⟨y, t, .free⟩ :: post).map (·.addr), ∀ g, get m a g =
        if a = (addrs .free post).headD 0 ∧ g = .pPrev then x
        else if a = x ∧ g = .pNext then (addrs .free post).headD 0
        else if a = x ∧ g = .blkSize then s + (t + mcbSize)
        else if a = x ∧ g = .pPrev then 0
        else get h.mem a g := by
  have adjacent := word_next L
  have next_addr : y = x + mcbSize + s := tiles_next L.tiles
  have size_y : get h.mem y .blkSize = t := L.sizes ⟨y, t, .free⟩ (by simp) (Or.inl rfl)
  have fits := (tiles_inside L.tiles ⟨y, t, .free⟩ (by simp)).2
  simp only at fits
  have bound := L.bound
  have headers := L.headers
  have unique := tiles_nodup L.tiles
  generalize hrow : pre ++ ⟨x, s, .dead⟩ :: ⟨y, t, .free⟩ :: post = bs at L headers unique
  have hx : x ∈ bs.map (·.addr) := by simp [← hrow]
  have hy : y ∈ bs.map (·.addr) := by simp [← hrow]
  have x_dead : x ∈ addrs .dead bs := mem_addrs.mpr ⟨⟨x, s, .dead⟩, by simp [← hrow], rfl, rfl⟩
  have y_free : y ∈ addrs .free bs := mem_addrs.mpr ⟨⟨y, t, .free⟩, by simp [← hrow], rfl, rfl⟩
  have different : x ≠ y := addrs_apart unique (by decide) x_dead y_free
  have real_x : x ≠ 0 := headers.real hx
  generalize hB : addrs .free post = B
  have freeOld : addrs .free bs = y :: B := by
    simp [← hrow, addrs_append, addrs_cons, lowest, hB]
  have free := L.free
  rw [freeOld] at free
  obtain ⟨head, real_y, rest⟩ := chain_cons_iff.mp free
  have ahead : next h.mem y = B.headD 0 := rest.head
  have start : ∀ a ∈ bs.map (·.addr), ∀ g, get (set h.mem x .pPrev 0) a g =
      if a = x ∧ g = .pPrev then 0 else get h.mem a g :=
    fun a ha g => get_set headers ha hx (by decide)
  have start_x : get (set h.mem x .pPrev 0) x .blkSize = s := by
    rw [start x hx, if_neg (by simp), size]
  have start_y : ∀ g, get (set h.mem x .pPrev 0) y g = get h.mem y g := by
    intro g
    rw [start y hy, if_neg (fun both => different both.1.symm)]
  refine ⟨absorbNext (set h.mem x .pPrev 0) x y, ?_, ?_⟩
  · unfold insertFree joinNext blkEnd
    rw [if_neg (by rw [head]; exact real_y), if_neg (by simp), start_x, if_pos adjacent]
  · intro a ha g
    rw [get_absorbNext headers ha hx hy different ((start_y .pNext).trans ahead)
      ((headD_or_mem B 0).imp_right fun member => addrs_inside (freeOld ▸ List.mem_cons_of_mem _ member))
      (by rw [start_x, start_y, size_y]; omega), start_x, start_y, size_y, start a ha]

/-- The lowest free block absorbs the free block behind it. -/
theorem insertFree_forward (L : Layout base limit h (pre ++ ⟨x, s, .dead⟩ :: ⟨y, t, .free⟩ :: post))
    (size : get h.mem x .blkSize = s) (lowest : addrs .free pre = []) :
    Layout base limit (insertFree h x 0 y) (pre ++ ⟨x, s + mcbSize + t, .free⟩ :: post) := by
  have tiles := tiles_merge .free L.tiles
  have headers := L.headers
  have unique := tiles_nodup L.tiles
  obtain ⟨m, result, fields⟩ := forward_get L size lowest
  generalize hrow : pre ++ ⟨x, s, .dead⟩ :: ⟨y, t, .free⟩ :: post = bs at L headers unique fields
  have hx : x ∈ bs.map (·.addr) := by simp [← hrow]
  have x_dead : x ∈ addrs .dead bs := mem_addrs.mpr ⟨⟨x, s, .dead⟩, by simp [← hrow], rfl, rfl⟩
  have real_x : x ≠ 0 := headers.real hx
  generalize hB : addrs .free post = B at fields
  have freeOld : addrs .free bs = y :: B := by
    simp [← hrow, addrs_append, addrs_cons, lowest, hB]
  have free := L.free
  rw [freeOld] at free
  obtain ⟨head, real_y, rest⟩ := chain_cons_iff.mp free
  have ahead : next h.mem y = B.headD 0 := rest.head
  have memB : ∀ b ∈ B, b ∈ bs.map (·.addr) ∧ b ≠ x := by
    intro b hb
    have listed : b ∈ addrs .free bs := freeOld ▸ List.mem_cons_of_mem _ hb
    exact ⟨addrs_inside listed, addrs_apart unique (by decide) listed x_dead⟩
  rw [result]
  refine L.merge [⟨x, s, .dead⟩, ⟨y, t, .free⟩] hrow rfl rfl tiles List.mem_cons_self rfl rfl ?_ ?_ ?_ ?_
  · intro a ha g
    have real : a ≠ 0 := headers.real (addrs_inside ha)
    have other : a ≠ x := addrs_apart unique (by decide) ha x_dead
    have away : a ∉ y :: B := freeOld ▸ addrs_disjoint unique (by decide) ha
    simp only [List.mem_cons, not_or] at away
    show get m a g = _
    rw [fields a (addrs_inside ha), if_neg (fun both => ne_headD away.2 real both.1)]
    simp only [other, false_and, if_false]
  · intro a ha other
    refine (fields a ha .blkSize).trans ?_
    simp only [reduceCtorEq, and_false, show a ≠ x from other, false_and, if_false]
  · refine (fields x hx .blkSize).trans ?_
    simp only [reduceCtorEq, and_false, if_false, and_self, if_true]
    omega
  · have freeNew : addrs .free (pre ++ ⟨x, s + mcbSize + t, .free⟩ :: post) = x :: B := by
      simp [addrs_append, addrs_cons, lowest, hB]
    have x_next : next m x = B.headD 0 := by
      refine (fields x hx .pNext).trans ?_
      simp only [reduceCtorEq, and_false, and_true, if_false, if_true]
    rw [freeNew]
    refine chain_cons_iff.mpr ⟨rfl, real_x, ?_⟩
    show Chain _ 0 (next m x) B
    rw [x_next, ← ahead]
    apply chain_congr rest
    intro b hb
    obtain ⟨member, other⟩ := memB b hb
    refine (fields b member .pNext).trans ?_
    simp only [reduceCtorEq, and_false, if_false, other, false_and]

/-- The block in front of the freed one has got its size. -/
theorem grown_get (L : Layout base limit h (pre ++ ⟨y, t, .free⟩ :: ⟨x, s, .dead⟩ :: post)) :
    ∀ a ∈ (pre ++ ⟨y, t, .free⟩ :: ⟨x, s, .dead⟩ :: post).map (·.addr), ∀ g,
      get (set h.mem y .blkSize (t + (s + mcbSize))) a g =
        if a = y ∧ g = .blkSize then t + (s + mcbSize) else get h.mem a g := by
  intro a ha g
  have next_addr : x = y + mcbSize + t := tiles_next L.tiles
  have fits := (tiles_inside L.tiles ⟨x, s, .dead⟩ (by simp)).2
  simp only at fits
  have bound := L.bound
  have real_y : y ≠ 0 := L.headers.real (by simp)
  exact get_set L.headers ha (by simp) (by omega)

/-- A free block that ends where the freed one starts grows over it, and then over the next free block if it
reaches that one. -/
theorem insertFree_grows (L : Layout base limit h (pre ++ ⟨y, t, .free⟩ :: ⟨x, s, .dead⟩ :: post))
    (size : get h.mem x .blkSize = s) (z : Nat) :
    insertFree h x y z = { h with
      mem :=
        if z ≠ 0 then
          if word (x + mcbSize + s) = z then absorbNext (set h.mem y .blkSize (t + (s + mcbSize))) y z
          else set h.mem y .blkSize (t + (s + mcbSize))
        else set (set h.mem y .blkSize (t + (s + mcbSize))) y .pNext 0 } := by
  have next_addr : x = y + mcbSize + t := tiles_next L.tiles
  have fits := (tiles_inside L.tiles ⟨x, s, .dead⟩ (by simp)).2
  simp only at fits
  have bound := L.bound
  have size_y : get h.mem y .blkSize = t := L.sizes ⟨y, t, .free⟩ (by simp) (Or.inl rfl)
  have real_y : y ≠ 0 := L.headers.real (by simp)
  have y_free : y ∈ addrs .free (pre ++ ⟨y, t, .free⟩ :: ⟨x, s, .dead⟩ :: post) :=
    mem_addrs.mpr ⟨⟨y, t, .free⟩, by simp, rfl, rfl⟩
  have nonempty : h.freeHead ≠ 0 := by
    intro empty
    have free := L.free
    rw [empty] at free
    rw [chain_null free] at y_free
    cases y_free
  have met : blkEnd h.mem y = x := by
    unfold blkEnd
    rw [size_y]
    exact word_next L
  have grown : word (t + (s + mcbSize)) = t + (s + mcbSize) := Nat.mod_eq_of_lt (by omega)
  have different : x ≠ y := by
    intro same
    simp only [mcbSize] at next_addr
    omega
  have size_x : get (set h.mem y .blkSize (t + (s + mcbSize))) x .blkSize = s := by
    rw [grown_get L x (by simp), if_neg fun both => different both.1, size]
  unfold insertFree
  rw [if_neg nonempty, if_pos real_y, if_pos met]
  simp only [size_y, size, grown]
  unfold blkEnd
  rw [size_x]
  by_cases real : z ≠ 0
  · rw [if_pos real, if_pos real]
    split <;> rfl
  · rw [if_neg real, if_neg real]

/-- What `insertFree` writes when the free block in front of the freed one grows over it. -/
theorem backward_get (L : Layout base limit h (pre ++ ⟨y, t, .free⟩ :: ⟨x, s, .dead⟩ :: post))
    (size : get h.mem x .blkSize = s) (gap : ∀ b ∈ post.head?, b.kind ≠ .free) :
    ∃ m, insertFree h x y ((addrs .free post).headD 0) = { h with mem := m } ∧
      ∀ a ∈ (pre ++ ⟨y, t, .free⟩ :: ⟨x, s, .dead⟩ :: post).map (·.addr), ∀ g, get m a g =
        if a = y ∧ g = .blkSize then t + (s + mcbSize) else get h.mem a g := by
  have grows := insertFree_grows L size
  have start := grown_get L
  have behind : Layout base limit h ((pre ++ [⟨y, t, .free⟩]) ++ ⟨x, s, .dead⟩ :: post) := by
    simpa using L
  have apart : ∀ b ∈ addrs .free post, word (x + mcbSize + s) ≠ b := fun b hb => word_apart behind gap hb
  have headers := L.headers
  generalize hrow : pre ++ ⟨y, t, .free⟩ :: ⟨x, s, .dead⟩ :: post = bs at L headers start
  have hy : y ∈ bs.map (·.addr) := by simp [← hrow]
  generalize hA : addrs .free pre = A
  generalize hB : addrs .free post = B at apart
  have freeOld : addrs .free bs = A ++ y :: B := by
    simp [← hrow, addrs_append, addrs_cons, hA, hB]
  have free := L.free
  rw [freeOld] at free
  have ahead : next h.mem y = B.headD 0 := (seg_append.mp free.links).2.1
  rw [grows]
  cases B with
  | nil =>
    rw [if_neg (by simp)]
    refine ⟨_, rfl, fun a ha g => ?_⟩
    rw [get_set headers ha hy (by decide), start a ha]
    by_cases hit : a = y ∧ g = .pNext
    · obtain ⟨rfl, rfl⟩ := hit
      simpa using ahead.symm
    · rw [if_neg hit]
  | cons b B =>
    have hb : b ∈ bs.map (·.addr) := addrs_inside (k := .free) (by simp [freeOld])
    have real : b ≠ 0 := headers.real hb
    rw [List.headD_cons, if_pos real, if_neg (apart b List.mem_cons_self)]
    exact ⟨_, rfl, start⟩

/-- The free block in front of the freed one grows over it. -/
theorem insertFree_backward (L : Layout base limit h (pre ++ ⟨y, t, .free⟩ :: ⟨x, s, .dead⟩ :: post))
    (size : get h.mem x .blkSize = s) (gap : ∀ b ∈ post.head?, b.kind ≠ .free) :
    Layout base limit (insertFree h x y ((addrs .free post).headD 0))
      (pre ++ ⟨y, t + mcbSize + s, .free⟩ :: post) := by
  have tiles := tiles_merge .free L.tiles
  have unique := tiles_nodup L.tiles
  obtain ⟨m, result, fields⟩ := backward_get L size gap
  generalize hrow : pre ++ ⟨y, t, .free⟩ :: ⟨x, s, .dead⟩ :: post = bs at L unique fields
  have hy : y ∈ bs.map (·.addr) := by simp [← hrow]
  have y_free : y ∈ addrs .free bs := mem_addrs.mpr ⟨⟨y, t, .free⟩, by simp [← hrow], rfl, rfl⟩
  have freeOld : addrs .free bs = addrs .free pre ++ y :: addrs .free post := by
    simp [← hrow, addrs_append, addrs_cons]
  have free := L.free
  rw [freeOld] at free
  rw [result]
  refine L.merge [⟨y, t, .free⟩, ⟨x, s, .dead⟩] hrow rfl rfl tiles List.mem_cons_self rfl rfl ?_ ?_ ?_ ?_
  · intro a ha g
    have other : a ≠ y := addrs_apart unique (by decide) ha y_free
    show get m a g = _
    rw [fields a (addrs_inside ha), if_neg (fun both => other both.1)]
  · intro a ha other
    refine (fields a ha .blkSize).trans ?_
    rw [if_neg fun both => other both.1]
  · refine (fields y hy .blkSize).trans ?_
    rw [if_pos ⟨rfl, rfl⟩]
    show t + (s + mcbSize) = t + mcbSize + s
    omega
  · have freeNew : addrs .free (pre ++ ⟨y, t + mcbSize + s, .free⟩ :: post) = addrs .free pre ++ y :: addrs .free post :=
      addrs_here
    rw [freeNew]
    apply chain_congr free
    intro a ha
    refine (fields a (addrs_inside (freeOld ▸ ha)) .pNext).trans ?_
    simp only [reduceCtorEq, and_false, if_false]

/-- What `insertFree` writes when the free blocks on both sides of the freed one become one block. -/
theorem both_get
    (L : Layout base limit h (pre ++ ⟨y, t, .free⟩ :: ⟨x, s, .dead⟩ :: ⟨z, u, .free⟩ :: post))
    (size : get h.mem x .blkSize = s) :
    ∃ m, insertFree h x y z = { h with mem := m } ∧
      ∀ a ∈ (pre ++ ⟨y, t, .free⟩ :: ⟨x, s, .dead⟩ :: ⟨z, u, .free⟩ :: post).map (·.addr), ∀ g, get m a g =
        if a = (addrs .free post).headD 0 ∧ g = .pPrev then y
        else if a = y ∧ g = .pNext then (addrs .free post).headD 0
        else if a = y ∧ g = .blkSize then t + (s + mcbSize) + (u + mcbSize)
        else get h.mem a g := by
  have next_addr : x = y + mcbSize + t := tiles_next L.tiles
  have grows := insertFree_grows L size z
  have start := grown_get L
  have behind : Layout base limit h
      ((pre ++ [⟨y, t, .free⟩]) ++ ⟨x, s, .dead⟩ :: ⟨z, u, .free⟩ :: post) := by
    simpa using L
  have adjacent' := word_next behind
  have next_addr' : z = x + mcbSize + s := tiles_next behind.tiles
  have size_z : get h.mem z .blkSize = u := L.sizes ⟨z, u, .free⟩ (by simp) (Or.inl rfl)
  have fits := (tiles_inside L.tiles ⟨z, u, .free⟩ (by simp)).2
  simp only at fits
  have bound := L.bound
  have headers := L.headers
  generalize hrow : pre ++ ⟨y, t, .free⟩ :: ⟨x, s, .dead⟩ :: ⟨z, u, .free⟩ :: post = bs at L headers start
  have hy : y ∈ bs.map (·.addr) := by simp [← hrow]
  have hz : z ∈ bs.map (·.addr) := by simp [← hrow]
  have z_y : z ≠ y := by
    intro same
    simp only [mcbSize] at next_addr next_addr'
    omega
  have real_y : y ≠ 0 := headers.real hy
  have real_z : z ≠ 0 := headers.real hz
  generalize hA : addrs .free pre = A
  generalize hB : addrs .free post = B
  have freeOld : addrs .free bs = (A ++ [y]) ++ ([z] ++ B) := by
    simp [← hrow, addrs_append, addrs_cons, hA, hB]
  have free := L.free
  rw [freeOld] at free
  have ahead : next h.mem z = B.headD 0 := (seg_append.mp free.links).2.1
  rw [if_pos real_z, if_pos adjacent'] at grows
  generalize set h.mem y .blkSize (t + (s + mcbSize)) = m at grows start
  have start_y : get m y .blkSize = t + (s + mcbSize) := by rw [start y hy, if_pos ⟨rfl, rfl⟩]
  have start_z : ∀ g, get m z g = get h.mem z g := by
    intro g
    rw [start z hz, if_neg (fun both => z_y both.1)]
  have last : ∀ a ∈ B, a ∈ bs.map (·.addr) :=
    fun a ha => addrs_inside (k := .free) (by simp [freeOld, ha])
  refine ⟨absorbNext m y z, grows, fun a ha g => ?_⟩
  rw [get_absorbNext headers ha hy hz z_y.symm ((start_z .pNext).trans ahead)
    ((headD_or_mem B 0).imp_right fun member => last _ member)
    (by rw [start_y, start_z, size_z]; omega), start_y, start_z, size_z, start a ha]
  by_cases both : a = y ∧ g = .blkSize
  · simp [both]
  · simp only [if_neg both]

/-- The free blocks on both sides of the freed one become one block. -/
theorem insertFree_both
    (L : Layout base limit h (pre ++ ⟨y, t, .free⟩ :: ⟨x, s, .dead⟩ :: ⟨z, u, .free⟩ :: post))
    (size : get h.mem x .blkSize = s) :
    Layout base limit (insertFree h x y z)
      (pre ++ ⟨y, t + mcbSize + s + mcbSize + u, .free⟩ :: post) := by
  have tiles := tiles_merge .free (tiles_merge .free L.tiles)
  have headers := L.headers
  have unique := tiles_nodup L.tiles
  obtain ⟨m, result, fields⟩ := both_get L size
  generalize hrow : pre ++ ⟨y, t, .free⟩ :: ⟨x, s, .dead⟩ :: ⟨z, u, .free⟩ :: post = bs
    at L headers unique fields
  have hy : y ∈ bs.map (·.addr) := by simp [← hrow]
  generalize hA : addrs .free pre = A
  generalize hB : addrs .free post = B at fields
  have freeOld : addrs .free bs = (A ++ [y]) ++ ([z] ++ B) := by
    simp [← hrow, addrs_append, addrs_cons, hA, hB]
  have free := L.free
  have freeNodup := unique.sublist (addrs_sublist .free bs)
  rw [freeOld] at free freeNodup
  rw [result]
  refine L.merge [⟨y, t, .free⟩, ⟨x, s, .dead⟩, ⟨z, u, .free⟩] hrow rfl rfl tiles List.mem_cons_self rfl rfl
    ?_ ?_ ?_ ?_
  · intro a ha g
    have real : a ≠ 0 := headers.real (addrs_inside ha)
    have away : a ∉ A ++ [y] ++ ([z] ++ B) := freeOld ▸ addrs_disjoint unique (by decide) ha
    simp only [List.mem_append, List.mem_singleton, not_or] at away
    show get m a g = _
    rw [fields a (addrs_inside ha), if_neg (fun both => ne_headD away.2.2 real both.1)]
    simp only [away, false_and, if_false]
  · intro a ha other
    refine (fields a ha .blkSize).trans ?_
    simp only [reduceCtorEq, and_false, show a ≠ y from other, false_and, if_false]
  · refine (fields y hy .blkSize).trans ?_
    simp only [reduceCtorEq, and_false, and_self, if_false, if_true]
    omega
  · have freeNew : addrs .free (pre ++ ⟨y, t + mcbSize + s + mcbSize + u, .free⟩ :: post) =
        (A ++ [y]) ++ B := by
      simp [addrs_append, addrs_cons, hA, hB]
    have middle : z ∉ (A ++ [y]) ++ B ∧ ((A ++ [y]) ++ B).Nodup :=
      List.nodup_cons.mp (List.nodup_middle.mp freeNodup)
    rw [freeNew]
    apply chain_drop free middle.2
    · have head := free.head
      cases A <;> exact head
    · intro a ha
      have member : a ∈ bs.map (·.addr) := by
        apply addrs_inside
        rw [freeOld]
        rcases List.mem_append.mp ha with before | behind
        · exact List.mem_append_left _ before
        · exact List.mem_append_right _ (List.mem_append_right _ behind)
      refine (fields a member .pNext).trans ?_
      simp only [reduceCtorEq, and_false, and_true, if_false, getLastD_append, List.getLastD_cons,
        List.getLastD_nil]

/-- Whose back link is turned to a block that nothing links to: the free block behind it, or the one behind that if
the block reaches up to it. -/
def misled (x s : Nat) (B : List Nat) : Nat :=
  if word (x + mcbSize + s) = B.headD 0 then B.tail.headD 0 else B.headD 0

/-- What `insertFree` writes to other blocks when the nearest free block below does not reach the freed one. -/
theorem lost_get (L : Layout base limit h (pre ++ ⟨x, s, .dead⟩ :: post)) (size : get h.mem x .blkSize = s)
    (below : addrs .free pre ≠ []) (gap : ∀ b ∈ pre.getLast?, b.kind ≠ .free) :
    ∃ m, insertFree h x ((addrs .free pre).getLastD 0) ((addrs .free post).headD 0) = { h with mem := m } ∧
      ∀ a ∈ (pre ++ ⟨x, s, .dead⟩ :: post).map (·.addr), a ≠ x → ∀ g, get m a g =
        if a = misled x s (addrs .free post) ∧ g = .pPrev then x else get h.mem a g := by
  have short := word_before L below gap
  have headers := L.headers
  have unique := tiles_nodup L.tiles
  have bound := L.bound
  have after : ∀ b ∈ addrs .free post, x + mcbSize + s ≤ b ∧ b + mcbSize + get h.mem b .blkSize ≤ limit := by
    intro b hb
    obtain ⟨c, hc, isFree, rfl⟩ := mem_addrs.mp hb
    have listed : c ∈ pre ++ ⟨x, s, .dead⟩ :: post := by simp [hc]
    rw [L.sizes c listed (.inl isFree)]
    have ordered := (List.pairwise_append.mp (tiles_ordered L.tiles)).2.1
    exact ⟨(List.pairwise_cons.mp ordered).1 c hc, (tiles_inside L.tiles c listed).2⟩
  generalize hrow : pre ++ ⟨x, s, .dead⟩ :: post = bs at L headers unique
  have hx : x ∈ bs.map (·.addr) := by simp [← hrow]
  have x_dead : x ∈ addrs .dead bs := mem_addrs.mpr ⟨⟨x, s, .dead⟩, by simp [← hrow], rfl, rfl⟩
  generalize hA : addrs .free pre = A at below short
  generalize hB : addrs .free post = B at after
  have freeOld : addrs .free bs = A ++ B := by
    simp [← hrow, addrs_append, addrs_cons, hA, hB]
  have free := L.free
  have freeNodup := unique.sublist (addrs_sublist .free bs)
  rw [freeOld] at free freeNodup
  have member : ∀ a ∈ A ++ B, a ∈ bs.map (·.addr) := fun a ha => addrs_inside (freeOld ▸ ha)
  have select := member _ (List.mem_append_left _ (getLastD_mem (s := 0) below))
  have nonempty : h.freeHead ≠ 0 := by
    intro empty
    rw [empty] at free
    exact below (List.append_eq_nil_iff.mp (chain_null free)).1
  have start : ∀ a ∈ bs.map (·.addr), ∀ g, get (set h.mem x .pPrev (A.getLastD 0)) a g =
      if a = x ∧ g = .pPrev then A.getLastD 0 else get h.mem a g :=
    fun a ha g => get_set headers ha hx (headers.lt _ select)
  have others : ∀ a ∈ bs.map (·.addr), a ≠ x → ∀ g,
      get (set h.mem x .pPrev (A.getLastD 0)) a g = get h.mem a g := by
    intro a ha other g
    rw [start a ha, if_neg fun both => other both.1]
  have blk : get (set h.mem x .pPrev (A.getLastD 0)) x .blkSize = s := by
    rw [start x hx, if_neg (by simp), size]
  unfold insertFree
  rw [if_neg nonempty, if_pos (headers.real select), if_neg short]
  cases B with
  | nil =>
    rw [if_neg (by simp)]
    refine ⟨_, rfl, fun a ha other g => ?_⟩
    have null : misled x s [] = 0 := by
      unfold misled
      split <;> rfl
    rw [others a ha other, null, if_neg fun both => headers.real ha both.1]
  | cons b B =>
    have hb := member b (by simp)
    have b_free : b ∈ addrs .free bs := freeOld ▸ List.mem_append_right _ List.mem_cons_self
    have b_x : b ≠ x := addrs_apart unique (by decide) b_free x_dead
    have notHead : b ≠ h.freeHead := by
      have head := free.head
      rw [headD_append] at head
      cases A with
      | nil => exact (below rfl).elim
      | cons a A =>
        have apart := (List.nodup_append.mp freeNodup).2.2 a List.mem_cons_self b List.mem_cons_self
        rw [show h.freeHead = a from head]
        exact apart.symm
    have behind : next h.mem b = B.headD 0 := (seg_append.mp free.links).2.1
    have known := (headD_or_mem B 0).imp_right fun inner =>
      member (B.headD 0) (List.mem_append_right _ (List.mem_cons_of_mem _ inner))
    rw [List.headD_cons, if_pos (headers.real hb), if_neg notHead]
    unfold joinNext blkEnd misled
    rw [blk, List.headD_cons, List.tail_cons]
    by_cases met : word (x + mcbSize + s) = b
    · have room := after b List.mem_cons_self
      have positive := headers.real hx
      rw [if_pos met, if_pos met]
      refine ⟨_, rfl, fun a ha other g => ?_⟩
      rw [get_absorbNext headers ha hx hb b_x.symm ((others b hb b_x .pNext).trans behind) known
        (by rw [blk, others b hb b_x]; omega), others a ha other]
      simp only [other, false_and, if_false]
    · rw [if_neg met, if_neg met]
      refine ⟨_, rfl, fun a ha other g => ?_⟩
      rw [get_set headers ha hb (headers.lt x hx), get_set headers ha hx (headers.lt b hb), others a ha other]
      simp only [other, false_and, if_false]

/-- `below` is the nearest free block below `x` and does not reach it: nothing links to `x`. -/
theorem insertFree_lost (L : Layout base limit h (pre ++ ⟨x, s, .dead⟩ :: post)) (size : get h.mem x .blkSize = s)
    (below : addrs .free pre ≠ []) (gap : ∀ b ∈ pre.getLast?, b.kind ≠ .free) :
    Layout base limit (insertFree h x ((addrs .free pre).getLastD 0) ((addrs .free post).headD 0))
      (pre ++ ⟨x, s, .dead⟩ :: post) := by
  have headers := L.headers
  have unique := tiles_nodup L.tiles
  obtain ⟨m, result, fields⟩ := lost_get L size below gap
  have x_dead : x ∈ addrs .dead (pre ++ ⟨x, s, .dead⟩ :: post) :=
    mem_addrs.mpr ⟨⟨x, s, .dead⟩, by simp, rfl, rfl⟩
  have target : ∀ a ∈ addrs .used (pre ++ ⟨x, s, .dead⟩ :: post), a ≠ misled x s (addrs .free post) := by
    intro a ha
    have away := addrs_disjoint unique (by decide : Kind.used ≠ .free) ha
    have freeOld : addrs .free (pre ++ ⟨x, s, .dead⟩ :: post) = addrs .free pre ++ addrs .free post :=
      addrs_other (by decide)
    rw [freeOld, List.mem_append, not_or] at away
    have real := headers.real (addrs_inside ha)
    unfold misled
    split
    · exact ne_headD (fun inner => away.2 (List.mem_of_mem_tail inner)) real
    · exact ne_headD away.2 real
  rw [result]
  refine L.changeFree rfl rfl L.tiles (fun a ha => ha) (fun b member _ => member) rfl ?_ ?_ ?_
  · intro a ha g
    refine (fields a (addrs_inside ha) (addrs_apart unique (by decide) ha x_dead) g).trans (if_neg ?_)
    exact fun both => target a ha both.1
  · intro b listed isFree
    have other : b.addr ≠ x :=
      addrs_apart unique (by decide) (mem_addrs.mpr ⟨b, listed, isFree, rfl⟩) x_dead
    refine (fields _ (List.mem_map_of_mem listed) other _).trans ?_
    rw [if_neg (by simp)]
    exact L.sizes b listed (Or.inl isFree)
  · apply chain_congr L.free
    intro a ha
    refine (fields a (addrs_inside ha) (addrs_apart unique (by decide) ha x_dead) .pNext).trans ?_
    rw [if_neg (by simp)]

end Mpx.Heap

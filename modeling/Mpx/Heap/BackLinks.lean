import Mpx.Heap.Wellformed

/-! # Back links

Which calls leave the back links of the two lists right. -/

namespace Mpx.Heap
open Library.ByteMemory Library.Links Library.Transition

/-- The head of a list has no block in front of it, and the block behind a block points back at it. -/
structure BackLinked (h : HeapState) : Prop where
  free : Backed (next h.mem) (prev h.mem) 0 h.freeHead
  used : Backed (next h.mem) (prev h.mem) 0 h.allocHead

/-- A block is handed out behind the first allocated one, and whole only if it is the whole free list. A block is
freed below all free blocks, where the free block below reaches up to it, or where the list ends behind that one
or behind a block that the freed one reaches. -/
def Call.KeepsLinks (h : HeapState) : Call → Prop
  | .allocate n => ∀ a ∈ firstFit h n, (h.allocHead = 0 ∨ h.allocHead < a) ∧
      (get h.mem a .blkSize ≤ n + mcbSize → a = h.freeHead ∧ next h.mem a = 0)
  | .free p => p - mcbSize ∈ allocList h →
      let below := freeBelow h (p - mcbSize)
      below = 0 ∨ blkEnd h.mem below = p - mcbSize ∨ next h.mem below = 0 ∨
        blkEnd h.mem (p - mcbSize) = next h.mem below ∧ next h.mem (next h.mem below) = 0

instance (h : HeapState) : (c : Call) → Decidable (c.KeepsLinks h)
  | .allocate n => inferInstanceAs (Decidable (∀ a ∈ firstFit h n, _ ∧ (_ → _)))
  | .free p => inferInstanceAs (Decidable (p - mcbSize ∈ allocList h → _ ∨ _ ∨ _ ∨ _ ∧ _))

variable {base limit size x y z n s t u : Nat} {h : HeapState} {bs pre post : List Block} {session : Session}

theorem Layout.backLinked_iff (L : Layout base limit h bs) :
    BackLinked h ↔ Back (prev h.mem) 0 (addrs .free bs) ∧ Back (prev h.mem) 0 (addrs .used bs) := by
  rw [← backed_iff L.free, ← backed_iff L.used]
  exact ⟨fun linked => ⟨linked.free, linked.used⟩, fun both => ⟨both.1, both.2⟩⟩

/-! ### Allocation -/

theorem Layout.behind_iff (L : Layout base limit h (pre ++ ⟨x, s, .free⟩ :: post)) :
    (h.allocHead = 0 ∨ h.allocHead < x) ↔ ¬(addrs .used pre = [] ∧ addrs .used post ≠ []) := by
  have head := L.used.head
  have nonnull := L.used.nonnull
  obtain ⟨below, above⟩ := L.sides .used
  simp only [addrs_append, addrs_cons, reduceCtorEq, if_false] at head nonnull
  cases front : addrs .used pre with
  | cons u U =>
    rw [front] at head below
    have lower : u < x := below u List.mem_cons_self
    have first : h.allocHead = u := head
    simp [first, lower]
  | nil =>
    rw [front] at head
    cases behind : addrs .used post with
    | nil =>
      rw [behind] at head
      simpa using Or.inl head
    | cons v V =>
      rw [behind] at head above nonnull
      have higher : x < v := above v List.mem_cons_self
      have first : h.allocHead = v := head
      simp only [true_and, ne_eq, reduceCtorEq, not_false_eq_true, not_true, iff_false]
      omega

/-- When the free block at `x` is the first fit, this decides. -/
theorem Layout.keepsLinks_iff (L : Layout base limit h (pre ++ ⟨x, s, .free⟩ :: post))
    (first : firstFit h n = some x) :
    (Call.allocate n).KeepsLinks h ↔ ¬(addrs .used pre = [] ∧ addrs .used post ≠ []) ∧
      (s ≤ n + mcbSize → addrs .free pre = [] ∧ addrs .free post = []) := by
  have free := L.free
  rw [addrs_here] at free
  have last : next h.mem x = 0 ↔ addrs .free post = [] := chain_last_iff free
  have size : get h.mem x .blkSize = s := L.sizes ⟨x, s, .free⟩ (by simp) (.inl rfl)
  simp only [Call.KeepsLinks, first, Option.mem_some_iff, forall_eq']
  rw [L.behind_iff, L.freeHead_iff, last, size]

/-- In front of all allocated blocks the head stays, and it points back. -/
theorem Linking.front_unbacked {S V : List Nat} {h' : HeapState} (C : Linking S h h' x [] V) (nonempty : V ≠ []) :
    ¬Backed (next h'.mem) (prev h'.mem) 0 h'.allocHead := by
  have first := headD_mem (t := 0) nonempty
  have member := (C.others _ first).1
  have head : h'.allocHead = V.headD 0 := by
    rw [C.head, if_neg fun both => nonempty both.2]
    exact C.used.head
  have link := C.prevs _ member
  rw [if_pos rfl] at link
  intro backed
  have null := backed.first
  rw [head, link] at null
  exact C.headers.real C.here (null (C.headers.real member))

/-- The heap once the block at `x` is handed out between the blocks `U` and `V`. -/
def handOut (h : HeapState) (n x : Nat) (whole : Bool) (U V : List Nat) : HeapState :=
  insertAlloc (takeBlock h n x whole) x (U.getLastD 0) (V.headD 0)

/-- Carving off a block keeps the back links unless it lies in front of all allocated ones. -/
theorem split_backLinked (L : Layout base limit h (pre ++ ⟨x, s, .free⟩ :: post)) (linked : BackLinked h)
    (nowrap : n + mcbSize < 2 ^ 32) (room : n + mcbSize < s) :
    BackLinked (handOut h n x false (addrs .used pre) (addrs .used post)) ↔
      ¬(addrs .used pre = [] ∧ addrs .used post ≠ []) := by
  obtain ⟨freeBack, usedBack⟩ := L.backLinked_iff.mp linked
  have back : prev h.mem x = (addrs .free pre).getLastD 0 := by
    rw [addrs_here] at freeBack
    exact (back_append.mp freeBack).2.1
  have full : word (n + mcbSize) = n + mcbSize := Nat.mod_eq_of_lt nowrap
  have T := takeBlock_split L nowrap room back
  have old : get h.mem x .blkSize = s := L.sizes ⟨x, s, .free⟩ (by simp) (.inl rfl)
  have size := takeBlock_size (n := n) (old ▸ get_lt _ _ _) old (by omega) false
  have C := insertAlloc_linking T
  have L' := insertAlloc_layout T size
  have takenFree := takeBlock_back L nowrap room freeBack
  have unique := tiles_nodup T.tiles
  have x_dead : x ∈ addrs .dead (pre ++ ⟨x, n, .dead⟩ :: ⟨x + mcbSize + n, s - n - mcbSize, .free⟩ :: post) :=
    mem_addrs.mpr ⟨⟨x, n, .dead⟩, by simp, rfl, rfl⟩
  have freeList : addrs .free (pre ++ ⟨x, n, .dead⟩ :: ⟨x + mcbSize + n, s - n - mcbSize, .free⟩ :: post) =
      addrs .free pre ++ (x + mcbSize + n) :: addrs .free post := by
    simp [addrs_append, addrs_cons]
  have usedList : addrs .used (pre ++ ⟨x, n, .dead⟩ :: ⟨x + mcbSize + n, s - n - mcbSize, .free⟩ :: post) =
      addrs .used pre ++ addrs .used post := by
    simp [addrs_append, addrs_cons]
  have usedOld : addrs .used (pre ++ ⟨x, s, .free⟩ :: post) = addrs .used pre ++ addrs .used post :=
    addrs_other (by decide)
  have takenUsed : Back (prev (takeBlock h n x false).mem) 0 (addrs .used pre ++ addrs .used post) := by
    rw [usedOld] at usedBack
    refine back_congr ?_ usedBack
    intro a ha
    rw [← usedList] at ha
    refine (takeBlock_link (g := .pPrev) T.headers (addrs_inside ha) (addrs_inside x_dead) (by omega)
      (by decide)).trans ?_
    rw [full]
    exact split_used L room back .pPrev ha
  simp only [addrs_cons, reduceCtorEq, if_false] at C L'
  constructor
  · rintro linked' ⟨front, behind⟩
    rw [front] at C linked'
    exact C.front_unbacked behind linked'.used
  · intro reached
    have claimedUsed : claimed pre (⟨x + mcbSize + n, s - n - mcbSize, .free⟩ :: post) = .used := by
      unfold claimed
      rw [if_neg]
      simpa only [addrs_cons, reduceCtorEq, if_false] using reached
    rw [claimedUsed] at L'
    apply L'.backLinked_iff.mpr
    constructor
    · have free : addrs .free (pre ++ ⟨x, n, .used⟩ :: ⟨x + mcbSize + n, s - n - mcbSize, .free⟩ :: post) =
          addrs .free pre ++ (x + mcbSize + n) :: addrs .free post := by
        simp [addrs_append, addrs_cons]
      rw [free]
      refine back_congr ?_ takenFree
      intro a ha
      rw [← freeList] at ha
      have apart := addrs_disjoint unique (by decide : Kind.free ≠ .used) ha
      rw [usedList] at apart
      exact (C.aside (addrs_inside ha) apart (addrs_apart unique (by decide) ha x_dead)).2
    · have used : addrs .used (pre ++ ⟨x, n, .used⟩ :: ⟨x + mcbSize + n, s - n - mcbSize, .free⟩ :: post) =
          addrs .used pre ++ x :: addrs .used post := by
        simp [addrs_append, addrs_cons]
      have linkedBack := C.linked_back takenUsed
      rw [ite_self] at linkedBack
      rw [used]
      exact linkedBack

theorem takeBlock_whole {S : List Nat} {a : Nat} {g : Field} (headers : Headers S) (ha : a ∈ S) (hx : x ∈ S)
    (other : g ≠ .blkSize) : get (takeBlock h n x true).mem a g = get h.mem a g := by
  show get (set h.mem x .blkSize (get h.mem x .blkSize)) a g = _
  rw [get_set headers ha hx (get_lt _ _ _), if_neg fun both => other both.2]

/-- Handing out a whole block links it in between the same neighbours, wherever it stands on the free list. -/
theorem whole_linking (L : Layout base limit h (pre ++ ⟨x, s, .free⟩ :: post))
    (usedBack : Back (prev h.mem) 0 (addrs .used pre ++ addrs .used post)) :
    Back (prev (takeBlock h n x true).mem) 0 (addrs .used pre ++ addrs .used post) ∧
      Linking ((pre ++ ⟨x, s, .free⟩ :: post).map (·.addr)) (takeBlock h n x true)
        (insertAlloc (takeBlock h n x true) x ((addrs .used pre).getLastD 0) ((addrs .used post).headD 0)) x
        (addrs .used pre) (addrs .used post) := by
  have unique := tiles_nodup L.tiles
  have x_free : x ∈ addrs .free (pre ++ ⟨x, s, .free⟩ :: post) :=
    mem_addrs.mpr ⟨⟨x, s, .free⟩, by simp, rfl, rfl⟩
  have usedList : addrs .used (pre ++ ⟨x, s, .free⟩ :: post) = addrs .used pre ++ addrs .used post :=
    addrs_other (by decide)
  have others : ∀ a ∈ addrs .used pre ++ addrs .used post,
      a ∈ (pre ++ ⟨x, s, .free⟩ :: post).map (·.addr) ∧ a ≠ x := by
    intro a ha
    rw [← usedList] at ha
    exact ⟨addrs_inside ha, addrs_apart unique (by decide) ha x_free⟩
  have used := L.used
  rw [usedList] at used
  have same := fun a ha g other =>
    takeBlock_whole (n := n) (h := h) (g := g) L.headers (others a ha).1 (addrs_inside x_free) other
  have back := back_congr (fun a ha => same a ha .pPrev (by decide)) usedBack
  exact ⟨back, linking_of L.headers (addrs_inside x_free) others (usedList ▸ unique.sublist (addrs_sublist .used _))
    (chain_congr used fun a ha => same a ha .pNext (by decide)) ⟨0, back⟩⟩

theorem whole_aside (L : Layout base limit h (pre ++ ⟨x, s, .free⟩ :: post))
    (usedBack : Back (prev h.mem) 0 (addrs .used pre ++ addrs .used post)) {a : Nat}
    (ha : a ∈ addrs .free pre ++ addrs .free post) :
    next (handOut h n x true (addrs .used pre) (addrs .used post)).mem a = next h.mem a ∧
      prev (handOut h n x true (addrs .used pre) (addrs .used post)).mem a = prev h.mem a := by
  have unique := tiles_nodup L.tiles
  have nodup := unique.sublist (addrs_sublist .free _)
  obtain ⟨-, C⟩ := whole_linking (n := n) L usedBack
  have usedList : addrs .used (pre ++ ⟨x, s, .free⟩ :: post) = addrs .used pre ++ addrs .used post :=
    addrs_other (by decide)
  have freeList : addrs .free (pre ++ ⟨x, s, .free⟩ :: post) = addrs .free pre ++ x :: addrs .free post := addrs_here
  have listed : a ∈ addrs .free (pre ++ ⟨x, s, .free⟩ :: post) := by
    rw [freeList]
    simp only [List.mem_append, List.mem_cons] at ha ⊢
    exact ha.imp_right .inr
  have apart := addrs_disjoint unique (by decide : Kind.free ≠ .used) listed
  rw [freeList] at nodup
  rw [usedList] at apart
  have other : a ≠ x := fun same => (List.nodup_cons.mp (List.nodup_middle.mp nodup)).1 (same ▸ ha)
  obtain ⟨ahead, behind⟩ := C.aside (addrs_inside listed) apart other
  have same := fun g => takeBlock_whole (n := n) (h := h) (g := g) C.headers (addrs_inside listed) C.here
  exact ⟨ahead.trans (same .pNext (by decide)), behind.trans (same .pPrev (by decide))⟩

/-- The block stays on the free list, or leaves a new head that points back at it. -/
theorem whole_free (L : Layout base limit h (pre ++ ⟨x, s, .free⟩ :: post))
    (freeBack : Back (prev h.mem) 0 (addrs .free pre ++ x :: addrs .free post))
    (usedBack : Back (prev h.mem) 0 (addrs .used pre ++ addrs .used post)) :
    Backed (next (handOut h n x true (addrs .used pre) (addrs .used post)).mem)
      (prev (handOut h n x true (addrs .used pre) (addrs .used post)).mem) 0
      (handOut h n x true (addrs .used pre) (addrs .used post)).freeHead ↔
        addrs .free pre = [] ∧ addrs .free post = [] := by
  obtain ⟨-, C⟩ := whole_linking (n := n) L usedBack
  have aside := fun a ha => whole_aside (n := n) (a := a) L usedBack ha
  have start : (handOut h n x true (addrs .used pre) (addrs .used post)).freeHead =
      if x = h.freeHead then next h.mem h.freeHead else h.freeHead := insertAlloc_freeHead _ _ _ _
  have x_free : x ∈ addrs .free (pre ++ ⟨x, s, .free⟩ :: post) :=
    mem_addrs.mpr ⟨⟨x, s, .free⟩, by simp, rfl, rfl⟩
  have unique := tiles_nodup L.tiles
  have head := L.freeHead_iff
  have free := L.free
  have link := C.prevs x C.here
  have real := C.headers.real C.here
  have usedList : addrs .used (pre ++ ⟨x, s, .free⟩ :: post) = addrs .used pre ++ addrs .used post :=
    addrs_other (by decide)
  have freeList : addrs .free (pre ++ ⟨x, s, .free⟩ :: post) = addrs .free pre ++ x :: addrs .free post := addrs_here
  have unlisted := addrs_disjoint unique (by decide : Kind.free ≠ .used) x_free
  rw [usedList, List.mem_append, not_or] at unlisted
  rw [if_neg (ne_headD unlisted.2 real), if_pos rfl] at link
  rw [freeList] at free
  change prev (handOut h n x true (addrs .used pre) (addrs .used post)).mem x = _ at link
  generalize handOut h n x true (addrs .used pre) (addrs .used post) = h' at aside start link ⊢
  cases front : addrs .free pre with
  | nil =>
    have lowest := head.mpr front
    rw [front] at free freeBack aside
    have ahead : next h.mem x = (addrs .free post).headD 0 := chain_next (A := []) free
    rw [if_pos lowest, ← lowest, ahead] at start
    cases behind : addrs .free post with
    | nil =>
      rw [behind] at start
      rw [start]
      exact ⟨fun _ => ⟨rfl, rfl⟩, fun _ => (backed_iff (chain_nil_iff.mpr rfl)).mpr trivial⟩
    | cons b B =>
      rw [behind] at start free freeBack aside
      have b_real : b ≠ 0 := fun null => free.nonnull (by simp [null])
      have points : prev h'.mem b = x := (aside b (by simp)).2.trans freeBack.2.1
      refine ⟨fun backed => ?_, fun both => by simp at both⟩
      have null := backed.first
      rw [start, List.headD_cons, points] at null
      exact absurd (null b_real) real
  | cons a A =>
    have some : addrs .free pre ≠ [] := by simp [front]
    rw [if_neg (mt head.mp some), free.head, headD_append] at start
    refine ⟨fun backed => ?_, fun both => by simp at both⟩
    have kept := seg_congr (fun b hb => (aside b (List.mem_append_left _ hb)).1) (seg_append.mp free.links).1
    have nonnull : 0 ∉ addrs .free pre := fun null => free.nonnull (List.mem_append_left _ null)
    rw [start] at backed
    have points := seg_backed kept nonnull some real backed
    have last := getLastD_mem (s := 0) some
    have listed : (addrs .free pre).getLastD 0 ∈ addrs .free (pre ++ ⟨x, s, .free⟩ :: post) := by
      rw [freeList]
      exact List.mem_append_left _ last
    have away := addrs_disjoint unique (by decide : Kind.free ≠ .used) listed
    rw [usedList, List.mem_append, not_or] at away
    exact absurd (points.symm.trans link) (ne_getLastD away.1 (fun null => nonnull (null ▸ last)))

/-- Handing out a whole block keeps the back links only if it is the whole free list. -/
theorem whole_backLinked (L : Layout base limit h (pre ++ ⟨x, s, .free⟩ :: post)) (linked : BackLinked h) :
    BackLinked (handOut h n x true (addrs .used pre) (addrs .used post)) ↔
      ¬(addrs .used pre = [] ∧ addrs .used post ≠ []) ∧ addrs .free pre = [] ∧ addrs .free post = [] := by
  obtain ⟨freeBack, usedBack⟩ := L.backLinked_iff.mp linked
  have usedList : addrs .used (pre ++ ⟨x, s, .free⟩ :: post) = addrs .used pre ++ addrs .used post :=
    addrs_other (by decide)
  rw [addrs_here] at freeBack
  rw [usedList] at usedBack
  obtain ⟨takenBack, C⟩ := whole_linking (n := n) L usedBack
  have free := whole_free (n := n) L freeBack usedBack
  constructor
  · intro linked'
    refine ⟨?_, free.mp linked'.free⟩
    rintro ⟨front, behind⟩
    have used := linked'.used
    unfold handOut at used
    rw [front] at C used
    exact C.front_unbacked behind used
  · rintro ⟨reached, single⟩
    have back := C.linked_back takenBack
    rw [ite_self] at back
    exact ⟨free.mpr single, (backed_iff (C.linked reached).1).mpr back⟩

theorem allocate_backLinked (L : Layout base limit h bs) (linked : BackLinked h) (nowrap : n + mcbSize < 2 ^ 32) :
    ∃ h' p, allocateMemory h n = some (h', p) ∧ (BackLinked h' ↔ (Call.allocate n).KeepsLinks h) ∧
      (BackLinked h' → ∃ bs', Layout base limit h' bs') := by
  rcases firstFit_cases n bs with small | ⟨pre, x, s, post, rfl, fits, before⟩
  · refine ⟨h, 0, allocate_nofit L nowrap small, ⟨fun _ => ?_, fun _ => linked⟩, fun _ => ⟨bs, L⟩⟩
    simp [Call.KeepsLinks, L.firstFit_none small]
  · have granted := allocate_found L (findFit_first L nowrap fits before)
    have keeps := L.keepsLinks_iff (L.firstFit_first fits before)
    by_cases room : n + mcbSize < s
    · have split := split_backLinked L linked nowrap room
      have back : prev h.mem x = (addrs .free pre).getLastD 0 := by
        have freeBack := (L.backLinked_iff.mp linked).1
        rw [addrs_here] at freeBack
        exact (back_append.mp freeBack).2.1
      obtain ⟨h', called, layout⟩ := allocate_split L nowrap before room back
      rw [decide_eq_false (Nat.not_le.mpr room)] at granted
      obtain rfl := (Prod.mk.inj (Option.some.inj (called.symm.trans granted))).1
      refine ⟨_, _, granted, split.trans ?_, fun _ => ⟨_, layout⟩⟩
      rw [keeps]
      exact ⟨fun reached => ⟨reached, fun tight => absurd room (Nat.not_lt.mpr tight)⟩, And.left⟩
    · have tight := Nat.not_lt.mp room
      have whole := whole_backLinked (n := n) L linked
      rw [decide_eq_true tight] at granted
      refine ⟨_, _, granted, whole.trans ?_, fun linked' => ?_⟩
      · rw [keeps]
        exact ⟨fun all => ⟨all.1, fun _ => all.2⟩, fun all => ⟨all.1, all.2 tight⟩⟩
      · obtain ⟨h', called, layout⟩ := allocate_whole L nowrap before fits tight (whole.mp linked').2.1
        obtain rfl := (Prod.mk.inj (Option.some.inj (called.symm.trans granted))).1
        exact ⟨_, layout⟩

/-! ### Release -/

theorem misled_cases (x s : Nat) (B : List Nat) : misled x s B = 0 ∨ misled x s B ∈ B := by
  unfold misled
  split
  · exact (headD_or_mem B.tail 0).imp_right List.mem_of_mem_tail
  · exact headD_or_mem B 0

/-- When no free block touches the freed one from below, and there is one, the free list stays as it is, and one of
its blocks may be turned to the freed one. -/
theorem lost_back (L : Layout base limit h (pre ++ ⟨x, s, .dead⟩ :: post)) (size : get h.mem x .blkSize = s)
    (below : addrs .free pre ≠ []) (gap : ∀ b ∈ pre.getLast?, b.kind ≠ .free)
    (back : Back (prev h.mem) 0 (addrs .free (pre ++ ⟨x, s, .dead⟩ :: post))) :
    Back (prev (insertFree h x ((addrs .free pre).getLastD 0) ((addrs .free post).headD 0)).mem) 0
      (addrs .free (pre ++ ⟨x, s, .dead⟩ :: post)) ↔ misled x s (addrs .free post) = 0 := by
  have headers := L.headers
  have unique := tiles_nodup L.tiles
  have x_dead : x ∈ addrs .dead (pre ++ ⟨x, s, .dead⟩ :: post) :=
    mem_addrs.mpr ⟨⟨x, s, .dead⟩, by simp, rfl, rfl⟩
  obtain ⟨m, result, fields⟩ := lost_get L size below gap
  rw [result]
  change Back (prev m) 0 _ ↔ _
  have prevs : ∀ a ∈ addrs .free (pre ++ ⟨x, s, .dead⟩ :: post),
      prev m a = if a = misled x s (addrs .free post) then x else prev h.mem a := by
    intro a ha
    refine (fields a (addrs_inside ha) (addrs_apart unique (by decide) ha x_dead) .pPrev).trans ?_
    simp only [and_true]
  constructor
  · intro back'
    refine (misled_cases x s (addrs .free post)).resolve_right fun member => ?_
    have listed : misled x s (addrs .free post) ∈ addrs .free (pre ++ ⟨x, s, .dead⟩ :: post) := by
      rw [addrs_other (by decide)]
      exact List.mem_append_right _ member
    have points := back_mem back' listed
    rw [prevs _ listed, if_pos rfl] at points
    rcases points with null | inside
    · exact headers.real (addrs_inside x_dead) null
    · exact addrs_disjoint unique (by decide) x_dead inside
  · intro none
    refine back_congr ?_ back
    intro a ha
    rw [prevs a ha, none, if_neg (headers.real (addrs_inside ha))]

/-- The new head of the free list stands in front of `B`, perhaps in the place of `M`. -/
theorem lowest_back {m : Mem} {S M B : List Nat} (headers : Headers S) (unique : (x :: B).Nodup)
    (inside : ∀ a ∈ x :: B, a ∈ S) (back : Back (prev h.mem) 0 (M ++ B))
    (prevs : ∀ a ∈ S, prev m a = if a = B.headD 0 then x else if a = x then 0 else prev h.mem a) :
    Back (prev m) 0 (x :: B) := by
  have fresh := (List.nodup_cons.mp unique).1
  have listed := inside x List.mem_cons_self
  have nonnull : 0 ∉ [] ++ B := fun null => headers.nonnull (inside 0 (List.mem_cons_of_mem _ null))
  refine back_put (A := []) (M := M) back unique nonnull (fun some => (some rfl).elim) ?_ ?_
  · intro a ha
    have other : a ≠ x := fun same => fresh (same ▸ ha)
    rw [prevs a (inside a (List.mem_cons_of_mem _ ha)), if_neg (c := a = x) other]
  · rw [prevs x listed, if_neg (ne_headD fresh (headers.real listed)), if_pos rfl]
    rfl

theorem alone_back (L : Layout base limit h (pre ++ ⟨x, s, .dead⟩ :: post)) (size : get h.mem x .blkSize = s)
    (lowest : addrs .free pre = []) (gap : ∀ b ∈ post.head?, b.kind ≠ .free)
    (back : Back (prev h.mem) 0 (addrs .free (pre ++ ⟨x, s, .dead⟩ :: post))) :
    Back (prev (insertFree h x 0 ((addrs .free post).headD 0)).mem) 0
      (addrs .free (pre ++ ⟨x, s, .free⟩ :: post)) := by
  obtain ⟨m, result, fields⟩ := alone_get L size lowest gap
  have row : addrs .free (pre ++ ⟨x, s, .free⟩ :: post) = x :: addrs .free post := by
    simp [addrs_append, addrs_cons, lowest]
  have unique := (tiles_nodup (tiles_kind .free L.tiles)).sublist (addrs_sublist .free _)
  have inside : ∀ a ∈ addrs .free (pre ++ ⟨x, s, .free⟩ :: post), a ∈ (pre ++ ⟨x, s, .dead⟩ :: post).map (·.addr) := by
    intro a ha
    simpa using addrs_inside ha
  rw [row] at unique inside
  rw [addrs_other (by decide), lowest] at back
  rw [result, row]
  refine lowest_back (M := []) L.headers unique inside back fun a ha => (fields a ha .pPrev).trans ?_
  simp only [and_true, reduceCtorEq, and_false, if_false]

theorem forward_back (L : Layout base limit h (pre ++ ⟨x, s, .dead⟩ :: ⟨y, t, .free⟩ :: post))
    (size : get h.mem x .blkSize = s) (lowest : addrs .free pre = [])
    (back : Back (prev h.mem) 0 (addrs .free (pre ++ ⟨x, s, .dead⟩ :: ⟨y, t, .free⟩ :: post))) :
    Back (prev (insertFree h x 0 y).mem) 0 (addrs .free (pre ++ ⟨x, s + mcbSize + t, .free⟩ :: post)) := by
  obtain ⟨m, result, fields⟩ := forward_get L size lowest
  have row : addrs .free (pre ++ ⟨x, s + mcbSize + t, .free⟩ :: post) = x :: addrs .free post := by
    simp [addrs_append, addrs_cons, lowest]
  have unique := (tiles_nodup (tiles_merge .free L.tiles)).sublist (addrs_sublist .free _)
  have inside : ∀ a ∈ x :: addrs .free post,
      a ∈ (pre ++ ⟨x, s, .dead⟩ :: ⟨y, t, .free⟩ :: post).map (·.addr) := by
    intro a ha
    rcases List.mem_cons.mp ha with rfl | later
    · simp
    · have listed := addrs_inside later
      simp only [List.map_append, List.map_cons, List.mem_append, List.mem_cons]
      exact .inr (.inr (.inr listed))
  rw [row] at unique
  rw [addrs_other (by decide), addrs_cons, if_pos rfl, lowest] at back
  rw [result, row]
  refine lowest_back (M := [y]) L.headers unique inside back fun a ha => (fields a ha .pPrev).trans ?_
  simp only [and_true, reduceCtorEq, and_false, if_false]

theorem backward_back (L : Layout base limit h (pre ++ ⟨y, t, .free⟩ :: ⟨x, s, .dead⟩ :: post))
    (size : get h.mem x .blkSize = s) (gap : ∀ b ∈ post.head?, b.kind ≠ .free)
    (back : Back (prev h.mem) 0 (addrs .free (pre ++ ⟨y, t, .free⟩ :: ⟨x, s, .dead⟩ :: post))) :
    Back (prev (insertFree h x y ((addrs .free post).headD 0)).mem) 0
      (addrs .free (pre ++ ⟨y, t + mcbSize + s, .free⟩ :: post)) := by
  obtain ⟨m, result, fields⟩ := backward_get L size gap
  have row : addrs .free (pre ++ ⟨y, t + mcbSize + s, .free⟩ :: post) =
      addrs .free (pre ++ ⟨y, t, .free⟩ :: ⟨x, s, .dead⟩ :: post) := by
    simp [addrs_append, addrs_cons]
  rw [result, row]
  refine back_congr (fun a ha => (fields a (addrs_inside ha) .pPrev).trans ?_) back
  simp only [reduceCtorEq, and_false, if_false]

theorem both_back
    (L : Layout base limit h (pre ++ ⟨y, t, .free⟩ :: ⟨x, s, .dead⟩ :: ⟨z, u, .free⟩ :: post))
    (size : get h.mem x .blkSize = s)
    (back : Back (prev h.mem) 0 (addrs .free (pre ++ ⟨y, t, .free⟩ :: ⟨x, s, .dead⟩ :: ⟨z, u, .free⟩ :: post))) :
    Back (prev (insertFree h x y z).mem) 0
      (addrs .free (pre ++ ⟨y, t + mcbSize + s + mcbSize + u, .free⟩ :: post)) := by
  obtain ⟨m, result, fields⟩ := both_get L size
  have row : addrs .free (pre ++ ⟨y, t + mcbSize + s + mcbSize + u, .free⟩ :: post) =
      (addrs .free pre ++ [y]) ++ addrs .free post := by
    simp [addrs_append, addrs_cons]
  have old : addrs .free (pre ++ ⟨y, t, .free⟩ :: ⟨x, s, .dead⟩ :: ⟨z, u, .free⟩ :: post) =
      (addrs .free pre ++ [y]) ++ ([z] ++ addrs .free post) := by
    simp [addrs_append, addrs_cons]
  have unique := (tiles_nodup (tiles_merge .free (tiles_merge .free L.tiles))).sublist (addrs_sublist .free _)
  have inside : ∀ a ∈ (addrs .free pre ++ [y]) ++ addrs .free post,
      a ∈ (pre ++ ⟨y, t, .free⟩ :: ⟨x, s, .dead⟩ :: ⟨z, u, .free⟩ :: post).map (·.addr) := by
    intro a ha
    apply addrs_inside (k := .free)
    rw [old]
    rcases List.mem_append.mp ha with before | behind
    · exact List.mem_append_left _ before
    · exact List.mem_append_right _ (List.mem_append_right _ behind)
  rw [row] at unique
  rw [old] at back
  rw [result, row]
  refine back_drop back unique (fun null => L.headers.nonnull (inside 0 null)) fun a ha => ?_
  refine (fields a (inside a ha) .pPrev).trans ?_
  simp only [and_true, reduceCtorEq, and_false, if_false, getLastD_append, List.getLastD_cons, List.getLastD_nil]

/-- Where a free block touches the freed one from below, or none lies below, the back links stay right. -/
theorem insertFree_backLinked (L : Layout base limit h (pre ++ ⟨x, s, .dead⟩ :: post))
    (size : get h.mem x .blkSize = s) (linked : BackLinked h) :
    BackLinked (insertFree h x ((addrs .free pre).getLastD 0) ((addrs .free post).headD 0)) ↔
      addrs .free pre = [] ∨ (∃ y t front, pre = front ++ [⟨y, t, .free⟩]) ∨ misled x s (addrs .free post) = 0 := by
  obtain ⟨freeBack, usedBack⟩ := L.backLinked_iff.mp linked
  have usedKept : Back (prev (insertFree h x ((addrs .free pre).getLastD 0) ((addrs .free post).headD 0)).mem) 0
      (addrs .used (pre ++ ⟨x, s, .dead⟩ :: post)) :=
    back_congr (fun a ha => release_get L ha .pPrev) usedBack
  have usedList : addrs .used (pre ++ ⟨x, s, .dead⟩ :: post) = addrs .used pre ++ addrs .used post :=
    addrs_other (by decide)
  rw [usedList] at usedKept
  rcases endsFree_cases pre with apart | ⟨y, t, front, rfl⟩
  · by_cases lowest : addrs .free pre = []
    · simp only [lowest, true_or, iff_true]
      rw [lowest] at usedKept
      rcases startsFree_cases post with gap | ⟨z, u, rest, rfl⟩
      · apply (insertFree_alone L size lowest gap).backLinked_iff.mpr
        refine ⟨alone_back L size lowest gap freeBack, ?_⟩
        simpa [addrs_append, addrs_cons] using usedKept
      · rw [addrs_cons, if_pos rfl] at usedKept ⊢
        apply (insertFree_forward L size lowest).backLinked_iff.mpr
        refine ⟨forward_back L size lowest freeBack, ?_⟩
        simpa [addrs_append, addrs_cons] using usedKept
    · have untouched : ¬∃ y t front, pre = front ++ [⟨y, t, .free⟩] := by
        rintro ⟨y, t, front, rfl⟩
        exact apart ⟨y, t, .free⟩ (by simp) rfl
      rw [(insertFree_lost L size lowest apart).backLinked_iff, lost_back L size lowest apart freeBack, usedList]
      simp only [lowest, untouched, false_or]
      exact ⟨And.left, fun none => ⟨none, usedKept⟩⟩
  · rw [addrs_here, getLastD_append] at usedKept ⊢
    have touched : ∃ y' t' front', front ++ [⟨y, t, .free⟩] = front' ++ [(⟨y', t', .free⟩ : Block)] :=
      ⟨y, t, front, rfl⟩
    simp only [touched, true_or, or_true, iff_true]
    rw [List.append_assoc] at L freeBack
    rcases startsFree_cases post with gap | ⟨z, u, rest, rfl⟩
    · apply (insertFree_backward L size gap).backLinked_iff.mpr
      refine ⟨backward_back L size gap freeBack, ?_⟩
      simpa [addrs_append, addrs_cons] using usedKept
    · rw [addrs_cons, if_pos rfl] at usedKept ⊢
      apply (insertFree_both L size).backLinked_iff.mpr
      refine ⟨both_back L size freeBack, ?_⟩
      simpa [addrs_append, addrs_cons] using usedKept

theorem unlink_backLinked (L : Layout base limit h (pre ++ ⟨x, s, .used⟩ :: post)) (linked : BackLinked h) :
    BackLinked (unlinkAlloc h x) := by
  obtain ⟨freeBack, usedBack⟩ := L.backLinked_iff.mp linked
  have unique := tiles_nodup L.tiles
  have B := L.between usedBack
  have usedOld : addrs .used (pre ++ ⟨x, s, .used⟩ :: post) = addrs .used pre ++ x :: addrs .used post := addrs_here
  have usedList : addrs .used (pre ++ ⟨x, s, .dead⟩ :: post) = addrs .used pre ++ addrs .used post :=
    addrs_other (by decide)
  have freeList : addrs .free (pre ++ ⟨x, s, .dead⟩ :: post) = addrs .free (pre ++ ⟨x, s, .used⟩ :: post) := by
    simp [addrs_append, addrs_cons]
  apply (unlinkAlloc_layout L).1.backLinked_iff.mpr
  rw [usedList, freeList]
  refine ⟨back_congr ?_ freeBack, B.unlink_back⟩
  intro a ha
  have apart := addrs_disjoint unique (by decide : Kind.free ≠ .used) ha
  rw [usedOld] at apart
  simp only [List.mem_append, List.mem_cons, not_or] at apart
  refine (B.get_unlink (g := .pPrev) (addrs_inside ha)).trans ?_
  simp only [reduceCtorEq, and_false, and_true, if_false]
  exact if_neg (ne_headD apart.2.2 (B.headers.real (addrs_inside ha)))

theorem Layout.keepsLinks_free_iff (L : Layout base limit h (pre ++ ⟨x, s, .used⟩ :: post)) :
    (Call.free (x + mcbSize)).KeepsLinks h ↔
      addrs .free pre = [] ∨ (∃ y t front, pre = front ++ [⟨y, t, .free⟩]) ∨ misled x s (addrs .free post) = 0 := by
  have size : get h.mem x .blkSize = s := L.sizes ⟨x, s, .used⟩ (by simp) (.inr rfl)
  have listed : x ∈ allocList h := by
    rw [L.allocList_eq]
    exact mem_addrs.mpr ⟨⟨x, s, .used⟩, by simp, rfl, rfl⟩
  have free := L.free
  rw [addrs_other (by decide)] at free
  simp only [Call.KeepsLinks, Nat.add_sub_cancel, listed, forall_const, L.freeBelow_eq]
  by_cases lowest : addrs .free pre = []
  · simp [lowest]
  · have last := getLastD_mem (s := 0) lowest
    have real : (addrs .free pre).getLastD 0 ≠ 0 := fun null => free.nonnull (null ▸ List.mem_append_left _ last)
    have ahead : next h.mem ((addrs .free pre).getLastD 0) = (addrs .free post).headD 0 := by
      rcases List.eq_nil_or_concat (addrs .free pre) with empty | ⟨front, y, split⟩
      · exact (lowest empty).elim
      · rw [split, List.concat_eq_append] at free ⊢
        rw [List.append_assoc] at free
        rw [getLastD_append]
        exact chain_next free
    have touched : blkEnd h.mem ((addrs .free pre).getLastD 0) = x ↔ ∃ y t front, pre = front ++ [⟨y, t, .free⟩] := by
      rcases endsFree_cases pre with apart | ⟨y, t, front, rfl⟩
      · refine ⟨fun met => (word_before L lowest apart met).elim, ?_⟩
        rintro ⟨y, t, front, rfl⟩
        exact (apart ⟨y, t, .free⟩ (by simp) rfl).elim
      · refine ⟨fun _ => ⟨y, t, front, rfl⟩, fun _ => ?_⟩
        rw [addrs_here, getLastD_append]
        rw [List.append_assoc] at L
        have size_y : get h.mem y .blkSize = t := L.sizes ⟨y, t, .free⟩ (by simp) (.inl rfl)
        change word (y + mcbSize + get h.mem y .blkSize) = x
        rw [size_y]
        exact word_next L
    have ended : (next h.mem ((addrs .free pre).getLastD 0) = 0 ∨
        blkEnd h.mem x = next h.mem ((addrs .free pre).getLastD 0) ∧
          next h.mem (next h.mem ((addrs .free pre).getLastD 0)) = 0) ↔ misled x s (addrs .free post) = 0 := by
      rw [ahead]
      unfold misled blkEnd
      rw [size]
      cases rest : addrs .free post with
      | nil => simp
      | cons b B =>
        rw [rest] at free
        have b_real : b ≠ 0 := fun null => free.nonnull (by simp [null])
        have behind : next h.mem b = B.headD 0 := chain_next free
        simp only [List.headD_cons, List.tail_cons, b_real, false_or, behind]
        by_cases met : word (x + mcbSize + s) = b
        · simp only [met, if_true, true_and]
        · simp only [met, if_false, false_and, b_real]
    simp only [real, false_or, lowest, touched, ended]

theorem free_backLinked (L : Layout base limit h bs) (linked : BackLinked h) {p : Nat} (small : p < 2 ^ 32) :
    ∃ h' result, freeMemory h p = some (h', result) ∧ (BackLinked h' ↔ (Call.free p).KeepsLinks h) ∧
      ∃ bs', Layout base limit h' bs' := by
  by_cases listed : word (p + 2 ^ 32 - mcbSize) ∈ addrs .used bs
  · obtain ⟨⟨x, s, kind⟩, member, rfl, here⟩ := mem_addrs.mp listed
    obtain ⟨pre, post, rfl⟩ := List.append_of_mem member
    have room := L.payload x (by simp)
    have pointer : p = x + mcbSize := by
      have here : x = word (p + 2 ^ 32 - mcbSize) := here
      unfold word at here
      simp only [mcbSize] at here room ⊢
      omega
    subst pointer
    obtain ⟨unlinked, size⟩ := unlinkAlloc_layout L
    obtain ⟨h', bs', freed, -, layout⟩ := free_refines L
    obtain rfl := (Prod.mk.inj (Option.some.inj (freed.symm.trans (free_found L)))).1
    refine ⟨_, 0, freed, ?_, bs', layout⟩
    rw [insertFree_backLinked unlinked size (unlink_backLinked L linked), L.keepsLinks_free_iff]
  · refine ⟨h, 1, free_unlisted L listed, ⟨fun _ => ?_, fun _ => linked⟩, bs, L⟩
    intro inside
    rw [L.allocList_eq] at inside
    refine (listed ?_).elim
    have room := L.payload _ (addrs_inside inside)
    have real := L.headers.real (addrs_inside inside)
    rwa [show word (p + 2 ^ 32 - mcbSize) = p - mcbSize by
      unfold word
      simp only [mcbSize] at real room ⊢
      omega]

/-! ### Runs -/

theorem step_backLinked {c : Call} (L : Layout base limit session.heap bs) (linked : BackLinked session.heap)
    (valid : c.Valid) :
    ∃ t, step session c = some t ∧ (BackLinked t.heap ↔ c.KeepsLinks session.heap) ∧
      (BackLinked t.heap → ∃ bs', Layout base limit t.heap bs') := by
  cases c with
  | allocate n =>
    obtain ⟨h', p, called, keeps, layout⟩ := allocate_backLinked L linked valid
    refine ⟨⟨h', if p = 0 then session.live else (p, n) :: session.live⟩, ?_, keeps, layout⟩
    simp [step, called]
  | free p =>
    obtain ⟨h', result, called, keeps, layout⟩ := free_backLinked L linked valid
    refine ⟨⟨h', if result = 0 then session.live.filter (·.1 ≠ p) else session.live⟩, ?_, keeps, fun _ => layout⟩
    simp [step, called]

/-- As long as every call keeps the back links they are right, and any call that does not leaves one wrong. -/
theorem back_links_right
    (reached : Reaches (Starts base size) (fun s c => c.Valid ∧ c.KeepsLinks s.heap) step session) :
    BackLinked session.heap ∧ ∀ c : Call, c.Valid →
      ∃ t, step session c = some t ∧ (BackLinked t.heap ↔ c.KeepsLinks session.heap) := by
  have invariant : BackLinked session.heap ∧ ∃ bs, Layout base (base + size) session.heap bs := by
    refine reaches_invariant
      (P := fun s => BackLinked s.heap ∧ ∃ bs, Layout base (base + size) s.heap bs) ?_ ?_ reached
    · intro s starts
      have W := starts_wellformed starts
      exact ⟨W.layout.backLinked_iff.mpr ⟨W.freeBack, W.usedBack⟩, _, W.layout⟩
    · intro s c t inv admitted moved
      obtain ⟨linked, bs, layout⟩ := inv
      obtain ⟨t', moved', keeps, layout'⟩ := step_backLinked layout linked admitted.1
      obtain rfl : t' = t := Option.some.inj (moved'.symm.trans moved)
      exact ⟨keeps.mpr admitted.2, layout' (keeps.mpr admitted.2)⟩
  obtain ⟨linked, bs, layout⟩ := invariant
  refine ⟨linked, fun c valid => ?_⟩
  obtain ⟨t, moved, keeps, -⟩ := step_backLinked layout linked valid
  exact ⟨t, moved, keeps⟩

theorem back_links_right_example : ∃ s : Session, s.live = [(4130, 20)] ∧ BackLinked s.heap := by
  have ran : (run (fun s c => c.Valid ∧ c.KeepsLinks s.heap) step (startSession 4096 1000)
      [.allocate 10, .allocate 20, .free 4108]).map (·.live) = some [(4130, 20)] := by
    decide +kernel
  obtain ⟨s, ran, live⟩ := Option.map_eq_some_iff.mp ran
  have starts := startSession_starts 4096 1000 (by decide) (by decide) (by decide)
  exact ⟨s, live, (back_links_right (run_reaches (.start starts) ran)).1⟩

/-- The lowest block is given back and handed out again: the heads of both lists point back at it. -/
theorem back_links_wrong : ¬∀ (base size : Nat) (s : Session),
    Reaches (Starts base size) (fun _ c => c.Valid) step s → BackLinked s.heap := by
  intro always
  have ran : (run (fun _ c => c.Valid) step (startSession 4096 1000)
      [.allocate 10, .allocate 10, .free 4108, .allocate 10]).map
        (fun s => (s.heap.freeHead, prev s.heap.mem s.heap.freeHead, s.heap.allocHead,
          prev s.heap.mem s.heap.allocHead)) = some (4140, 4096, 4118, 4096) := by
    decide +kernel
  obtain ⟨s, ran, results⟩ := Option.map_eq_some_iff.mp ran
  have head := congrArg Prod.fst results
  have stale := congrArg (fun heads => heads.2.1) results
  dsimp only at head stale
  have starts := startSession_starts 4096 1000 (by decide) (by decide) (by decide)
  have null := (always _ _ s (run_reaches (.start starts) ran)).free.first
  rw [stale, head] at null
  exact absurd (null (by decide)) (by decide)

end Mpx.Heap

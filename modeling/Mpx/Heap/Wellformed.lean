import Mpx.Heap.Session

/-! # Single calls on a well-formed heap

The heap may have come about in any way, as long as its two lists, linked in both directions, tile it
in address order. -/

namespace Mpx.Heap
open Library.ByteMemory Library.Links

/-- Every block of the row is on one of the two lists, and every block has an address for its payload. -/
structure Wellformed (base limit : Nat) (h : HeapState) (bs : List Block) : Prop where
  isinit : h.heapIsinit = true
  positive : 0 < base
  bound : limit ≤ 2 ^ 32
  tiles : Tiles limit base bs
  payload : ∀ b ∈ bs, b.addr + mcbSize < 2 ^ 32
  kinds : ∀ b ∈ bs, b.kind = .free ∨ b.kind = .used
  sizes : ∀ b ∈ bs, get h.mem b.addr .blkSize = b.size
  free : Chain (next h.mem) 0 h.freeHead (addrs .free bs)
  used : Chain (next h.mem) 0 h.allocHead (addrs .used bs)
  freeBack : Back (prev h.mem) 0 (addrs .free bs)
  usedBack : Back (prev h.mem) 0 (addrs .used bs)

variable {base limit size x n s p : Nat} {h h' : HeapState} {bs pre post : List Block} {m m' : Mem} {session : Session}

theorem Wellformed.layout (W : Wellformed base limit h bs) : Layout base limit h bs := by
  refine ⟨W.isinit, W.positive, W.bound, W.tiles, ?_, fun b member _ => W.sizes b member, W.free, W.used,
    0, W.usedBack⟩
  intro a ha
  obtain ⟨b, member, rfl⟩ := List.mem_map.mp ha
  exact W.payload b member

theorem starts_wellformed (starts : Starts base size session) :
    Wellformed base (base + size) session.heap [⟨base, size - mcbSize, .free⟩] := by
  have L := (starts_held starts).layout
  obtain ⟨heads, _, fields⟩ := starts_heap starts
  refine ⟨L.isinit, L.positive, L.bound, L.tiles, ?_, ?_, ?_, L.free, L.used, ⟨fields .pPrev, trivial⟩, trivial⟩
  · intro b member
    exact L.payload b.addr (List.mem_map_of_mem member)
  · intro b member
    obtain rfl : b = ⟨base, size - mcbSize, .free⟩ := by simpa using member
    exact .inl rfl
  · intro b member
    obtain rfl : b = ⟨base, size - mcbSize, .free⟩ := by simpa using member
    exact fields .blkSize

/-! ### Never less than was asked for -/

/-- A block that is handed out holds `n` bytes of one free block, and a refusal changes nothing. -/
def AllocatesWithin (h : HeapState) (bs : List Block) (n : Nat) : Prop :=
  ∃ h' p, allocateMemory h n = some (h', p) ∧ (p = 0 → h' = h) ∧
    (p ≠ 0 → ∃ b ∈ bs, b.kind = .free ∧ b.addr + mcbSize ≤ p ∧ p + n ≤ b.addr + mcbSize + b.size)

/-- The first loop with a size that wraps: it compares with what is left of the sum. -/
theorem findFit_wrapped {l : List Nat} {head fuel : Nat} (chain : Chain (next m) 0 head l) (enough : l.length < fuel)
    (below : ∀ a ∈ l, get m a .blkSize < n) :
    findFit m n fuel head =
      some (((l.find? fun a => word (n + mcbSize) ≤ get m a .blkSize).getD 0), false) := by
  induction l generalizing head fuel with
  | nil =>
    cases fuel with
    | zero => cases enough
    | succ fuel =>
      rw [chain_nil_iff.mp chain]
      rfl
  | cons a l ih =>
    obtain ⟨rfl, nonnull, rest⟩ := chain_cons_iff.mp chain
    have short : ¬get m head .blkSize ≥ n := Nat.not_le.mpr (below head List.mem_cons_self)
    cases fuel with
    | zero => cases enough
    | succ fuel =>
      have others := ih rest (by simpa using enough) fun b hb => below b (List.mem_cons_of_mem _ hb)
      simp only [findFit, if_neg nonnull, List.find?_cons, decide_eq_false short, Bool.and_false,
        Bool.false_eq_true, or_false]
      by_cases fits : word (n + mcbSize) ≤ get m head .blkSize
      · rw [if_pos fits]
        simp [fits]
      · rw [if_neg fits, others]
        simp [fits]

theorem free_below (L : Layout base limit h bs) {b : Block} (member : b ∈ bs) : b.size + mcbSize < 2 ^ 32 := by
  have inside := tiles_inside L.tiles b member
  have positive := L.positive
  have bound := L.bound
  omega

/-- With a size that wraps a block that is long enough for the rest of it is handed out. -/
theorem allocate_wraps (W : Wellformed base limit h bs) (wraps : 2 ^ 32 ≤ n + mcbSize) (small : n < 2 ^ 32) :
    (∀ b ∈ bs, b.kind = .free → b.size < n + mcbSize - 2 ^ 32) ∧ allocateMemory h n = some (h, 0) ∨
      ∃ b ∈ bs, b.kind = .free ∧ n + mcbSize - 2 ^ 32 ≤ b.size ∧
        ∃ h', allocateMemory h n = some (h', b.addr + mcbSize) := by
  have L := W.layout
  have rest : word (n + mcbSize) = n + mcbSize - 2 ^ 32 := by
    simp only [mcbSize] at wraps ⊢
    unfold word
    omega
  have below : ∀ a ∈ addrs .free bs, get h.mem a .blkSize < n := by
    intro a ha
    obtain ⟨b, member, _, rfl⟩ := mem_addrs.mp ha
    have short := free_below L member
    rw [W.sizes b member]
    omega
  have search := findFit_wrapped L.free (L.short .free) below
  rw [rest] at search
  rcases firstFit_cases (n + mcbSize - 2 ^ 32) bs with tiny | ⟨pre, x, s, post, rfl, fits, before⟩
  · rw [L.fit_none tiny] at search
    exact .inl ⟨tiny, by simp [allocateMemory, L.isinit, search]⟩
  · rw [L.fit_first fits before] at search
    exact .inr ⟨⟨x, s, .free⟩, by simp, rfl, fits, _, allocate_found L search⟩

/-- A size that wraps is met exactly by a refusal. -/
theorem within_wraps (W : Wellformed base limit h bs) (wraps : 2 ^ 32 ≤ n + mcbSize) (small : n < 2 ^ 32) :
    AllocatesWithin h bs n ↔ ∀ b ∈ bs, b.kind = .free → b.size < n + mcbSize - 2 ^ 32 := by
  rcases allocate_wraps W wraps small with ⟨tiny, refused⟩ | ⟨b, member, kind, fits, h', granted⟩
  · exact ⟨fun _ => tiny, fun _ => ⟨h, 0, refused, fun _ => rfl, fun real => (real rfl).elim⟩⟩
  · constructor
    · rintro ⟨g, p, called, _, within⟩
      obtain ⟨_, rfl⟩ := Prod.mk.inj (Option.some.inj (granted.symm.trans called))
      obtain ⟨c, inside, _, low, high⟩ := within (by simp [mcbSize])
      have top := (tiles_inside W.tiles c inside).2
      have bottom := (tiles_inside W.tiles b member).1
      have positive := W.positive
      have bound := W.bound
      omega
    · intro tiny
      exact absurd (tiny b member kind) (Nat.not_lt.mpr fits)

theorem within_fits (W : Wellformed base limit h bs) (nowrap : n + mcbSize < 2 ^ 32) : AllocatesWithin h bs n := by
  have L := W.layout
  rcases firstFit_cases n bs with small | ⟨pre, x, s, post, rfl, fits, before⟩
  · exact ⟨h, 0, allocate_nofit L nowrap small, fun _ => rfl, fun real => (real rfl).elim⟩
  · refine ⟨_, x + mcbSize, allocate_found L (findFit_first L nowrap fits before), ?_, ?_⟩
    · intro null
      simp [mcbSize] at null
    · intro _
      refine ⟨⟨x, s, .free⟩, by simp, rfl, Nat.le_refl _, ?_⟩
      show x + mcbSize + n ≤ x + mcbSize + s
      omega

/-- A call gives what was asked for unless the size with its control block wraps and some free block is
as long as what is left of it. -/
theorem allocate_within (W : Wellformed base limit h bs) (small : n < 2 ^ 32) :
    AllocatesWithin h bs n ↔
      n + mcbSize < 2 ^ 32 ∨ ∀ b ∈ bs, b.kind = .free → b.size < n + mcbSize - 2 ^ 32 := by
  by_cases nowrap : n + mcbSize < 2 ^ 32
  · exact ⟨fun _ => .inl nowrap, fun _ => within_fits W nowrap⟩
  · rw [within_wraps W (Nat.not_lt.mp nowrap) small]
    exact ⟨.inr, fun either => either.resolve_left nowrap⟩

/-- Two blocks have been given back between blocks that are in use. -/
def holed : HeapState :=
  ([.allocate 10, .allocate 30, .allocate 12, .allocate 5, .free 4172, .free 4108].foldl
    (fun s c => (step s c).getD s) (startSession 4096 200)).heap

def holedRow : List Block :=
  [⟨4096, 10, .free⟩, ⟨4118, 30, .used⟩, ⟨4160, 12, .free⟩, ⟨4184, 5, .used⟩, ⟨4201, 83, .free⟩]

theorem holed_wellformed : Wellformed 4096 4296 holed holedRow :=
  ⟨by decide +kernel, by decide, by decide, ⟨rfl, rfl, rfl, rfl, rfl, rfl⟩, by decide, by decide, by decide +kernel,
    ⟨by decide +kernel, by decide, by decide +kernel, by decide +kernel, by decide +kernel, trivial⟩,
    ⟨by decide +kernel, by decide, by decide +kernel, by decide +kernel, trivial⟩,
    ⟨by decide +kernel, by decide +kernel, by decide +kernel, trivial⟩,
    ⟨by decide +kernel, by decide +kernel, trivial⟩⟩

/-- A block in front that is too short, an exact fit, a rest that is too short for a control block, and a split. -/
theorem allocate_within_example : (∀ n ∈ [8, 10, 11, 12, 20], AllocatesWithin holed holedRow n) ∧
    ¬AllocatesWithin holed holedRow (2 ^ 32 - 1) := by
  refine ⟨?_, ?_⟩
  · intro n member
    have short : ∀ n ∈ [8, 10, 11, 12, 20], n + mcbSize < 2 ^ 32 := by decide
    exact (allocate_within holed_wellformed (by have := short n member; omega)).mpr (.inl (short n member))
  · intro within
    rcases (allocate_within holed_wellformed (by decide)).mp within with nowrap | none
    · exact absurd nowrap (by decide)
    · exact absurd (none ⟨4160, 12, .free⟩ (by decide) rfl) (by decide)

/-- The size that the command passes on for "4294967295". -/
theorem allocate_not_within : ¬∀ (base limit n : Nat) (h : HeapState) (bs : List Block),
    Wellformed base limit h bs → n < 2 ^ 32 → AllocatesWithin h bs n := by
  intro always
  have W := starts_wellformed (startSession_starts 4096 100 (by decide) (by decide) (by decide))
  have within := always _ _ (2 ^ 32 - 1) _ _ W (by decide)
  have short := (within_wraps W (by decide) (by decide)).mp within ⟨4096, 88, .free⟩ (by simp [mcbSize]) rfl
  exact absurd short (by decide)

/-! ### First fit -/

/-- The call has handed out the lowest free block of the row that is long enough, and a rest that can be
used has taken its place in the free list. -/
structure FirstFit (n : Nat) (bs : List Block) (h' : HeapState) (p : Nat) (pre : List Block) (x s : Nat)
    (post : List Block) : Prop where
  row : bs = pre ++ ⟨x, s, .free⟩ :: post
  pointer : p = x + mcbSize
  fits : n ≤ s
  lowest : ∀ b ∈ pre, b.kind = .free → b.size < n
  header : get h'.mem x .blkSize = if n + mcbSize < s then n else s
  rest : n + mcbSize < s → 1 ≤ s - n - mcbSize ∧ get h'.mem (x + mcbSize + n) .blkSize = s - n - mcbSize
  forward : n + mcbSize < s →
    Chain (next h'.mem) 0 h'.freeHead (addrs .free pre ++ (x + mcbSize + n) :: addrs .free post)
  backward : n + mcbSize < s →
    Back (prev h'.mem) 0 (addrs .free pre ++ (x + mcbSize + n) :: addrs .free post)

theorem Wellformed.back (W : Wellformed base limit h (pre ++ ⟨x, s, .free⟩ :: post)) :
    prev h.mem x = (addrs .free pre).getLastD 0 := by
  have back := W.freeBack
  rw [addrs_here] at back
  exact (back_append.mp back).2.1

theorem grant_split (W : Wellformed base limit h (pre ++ ⟨x, s, .free⟩ :: post)) (nowrap : n + mcbSize < 2 ^ 32)
    (room : n + mcbSize < s) (lowest : ∀ b ∈ pre, b.kind = .free → b.size < n) :
    FirstFit n (pre ++ ⟨x, s, .free⟩ :: post)
      (insertAlloc (takeBlock h n x false) x ((addrs .used pre).getLastD 0) ((addrs .used post).headD 0))
      (x + mcbSize) pre x s post := by
  have L := W.layout
  have T := takeBlock_split L nowrap room W.back
  have old : get h.mem x .blkSize = s := W.sizes ⟨x, s, .free⟩ (by simp)
  have size := takeBlock_size (old ▸ get_lt _ _ _) old (n := n) (by omega) false
  have hx : x ∈ (pre ++ ⟨x, n, .dead⟩ :: ⟨x + mcbSize + n, s - n - mcbSize, .free⟩ :: post).map (·.addr) := by
    simp
  have freeList : ∀ k, k ≠ .free →
      addrs .free (pre ++ ⟨x, n, k⟩ :: ⟨x + mcbSize + n, s - n - mcbSize, .free⟩ :: post) =
        addrs .free pre ++ (x + mcbSize + n) :: addrs .free post := by
    intro k other
    simp [addrs_append, addrs_cons, other]
  have usedList : addrs .used (pre ++ ⟨x, n, .dead⟩ :: ⟨x + mcbSize + n, s - n - mcbSize, .free⟩ :: post) =
      addrs .used pre ++ addrs .used post := by
    simp [addrs_append, addrs_cons]
  have inserted := insertAlloc_layout T size
  have unclaimed : claimed pre (⟨x + mcbSize + n, s - n - mcbSize, .free⟩ :: post) ≠ .free := by
    unfold claimed
    split <;> decide
  have used := T.used
  have unique := tiles_nodup T.tiles
  rw [usedList] at used
  have known : ∀ b ∈ addrs .used pre ++ addrs .used post,
      b ∈ (pre ++ ⟨x, n, .dead⟩ :: ⟨x + mcbSize + n, s - n - mcbSize, .free⟩ :: post).map (·.addr) :=
    fun b hb => addrs_inside (usedList ▸ hb)
  have fields := fun a ha g => insertAlloc_get (a := a) (g := g) T.headers ha hx known used
  simp only [addrs_cons, reduceCtorEq, if_false] at inserted
  refine ⟨rfl, rfl, by omega, lowest, ?_, fun _ => ⟨by omega, ?_⟩, fun _ => ?_, fun _ => ?_⟩
  · rw [if_pos room, fields x hx]
    simp only [reduceCtorEq, and_false, if_false]
    exact size
  · exact inserted.sizes ⟨x + mcbSize + n, s - n - mcbSize, .free⟩ (by simp) (.inl rfl)
  · rw [← freeList _ unclaimed]
    exact inserted.free
  · refine back_congr ?_ (takeBlock_back L nowrap room W.freeBack)
    intro a ha
    rw [← freeList .dead (by decide)] at ha
    have nonnull := T.headers.real (addrs_inside ha)
    have apart := addrs_disjoint unique (by decide : Kind.free ≠ .used) ha
    have other : a ≠ x := addrs_apart unique (by decide : Kind.free ≠ .dead) ha
      (mem_addrs.mpr ⟨⟨x, n, .dead⟩, by simp, rfl, rfl⟩)
    rw [usedList, List.mem_append, not_or] at apart
    refine (fields a (addrs_inside ha) .pPrev).trans ?_
    simp only [reduceCtorEq, and_false, and_true, if_false, other, if_neg (ne_headD apart.2 nonnull)]

theorem grant_whole (W : Wellformed base limit h (pre ++ ⟨x, s, .free⟩ :: post)) (fits : n ≤ s)
    (tight : s ≤ n + mcbSize) (lowest : ∀ b ∈ pre, b.kind = .free → b.size < n) :
    FirstFit n (pre ++ ⟨x, s, .free⟩ :: post)
      (insertAlloc (takeBlock h n x true) x ((addrs .used pre).getLastD 0) ((addrs .used post).headD 0))
      (x + mcbSize) pre x s post := by
  have L := W.layout
  have old : get h.mem x .blkSize = s := W.sizes ⟨x, s, .free⟩ (by simp)
  have small : s < 2 ^ 32 := old ▸ get_lt _ _ _
  have hx : x ∈ (pre ++ ⟨x, s, .free⟩ :: post).map (·.addr) := by simp
  have size := takeBlock_size small old fits true
  have usedList : addrs .used (pre ++ ⟨x, s, .free⟩ :: post) = addrs .used pre ++ addrs .used post :=
    addrs_other (by decide)
  have used := W.used
  rw [usedList] at used
  have known : ∀ b ∈ addrs .used pre ++ addrs .used post, b ∈ (pre ++ ⟨x, s, .free⟩ :: post).map (·.addr) :=
    fun b hb => addrs_inside (usedList ▸ hb)
  have taken : Chain (next (takeBlock h n x true).mem) 0 (takeBlock h n x true).allocHead
      (addrs .used pre ++ addrs .used post) := by
    apply chain_congr used
    intro a ha
    show get (set h.mem x .blkSize (get h.mem x .blkSize)) a .pNext = get h.mem a .pNext
    rw [get_set L.headers (known a ha) hx (get_lt _ _ _), if_neg (by simp)]
  have impossible : ¬n + mcbSize < s := Nat.not_lt.mpr tight
  refine ⟨rfl, rfl, fits, lowest, ?_, fun room => (impossible room).elim, fun room => (impossible room).elim,
    fun room => (impossible room).elim⟩
  refine (insertAlloc_get (g := .blkSize) L.headers (a := x) hx hx known taken).trans ?_
  rw [if_neg impossible]
  simp only [reduceCtorEq, and_false, if_false]
  exact size

/-- A call gives the lowest free block that is long enough, and is refused only if there is none. -/
theorem first_fit (W : Wellformed base limit h bs) (nowrap : n + mcbSize < 2 ^ 32) :
    ∃ h' p, allocateMemory h n = some (h', p) ∧ (p = 0 ↔ ∀ b ∈ bs, b.kind = .free → b.size < n) ∧
      (p = 0 → h' = h) ∧ (p ≠ 0 → ∃ pre x s post, FirstFit n bs h' p pre x s post) := by
  have L := W.layout
  rcases firstFit_cases n bs with small | ⟨pre, x, s, post, rfl, fits, before⟩
  · exact ⟨h, 0, allocate_nofit L nowrap small, ⟨fun _ => small, fun _ => rfl⟩, fun _ => rfl,
      fun real => (real rfl).elim⟩
  · have granted := allocate_found L (findFit_first L nowrap fits before)
    have real : x + mcbSize ≠ 0 := by simp [mcbSize]
    refine ⟨_, x + mcbSize, granted, ⟨fun null => (real null).elim, fun small => ?_⟩, fun null => (real null).elim,
      fun _ => ⟨pre, x, s, post, ?_⟩⟩
    · exact absurd (small ⟨x, s, .free⟩ (by simp) rfl) (Nat.not_lt.mpr fits)
    · by_cases room : n + mcbSize < s
      · rw [decide_eq_false (Nat.not_le.mpr room)]
        exact grant_split W nowrap room before
      · rw [decide_eq_true (Nat.not_lt.mp room)]
        exact grant_whole W fits (Nat.not_lt.mp room) before

theorem first_fit_example :
    (∀ n ∈ [8, 10, 11, 12, 20], ∃ h' p pre x s post, allocateMemory holed n = some (h', p) ∧
      FirstFit n holedRow h' p pre x s post) ∧
    allocateMemory holed 100 = some (holed, 0) := by
  refine ⟨?_, ?_⟩
  · intro n member
    have nowrap : ∀ n ∈ [8, 10, 11, 12, 20], n + mcbSize < 2 ^ 32 := by decide
    have room : ∀ n ∈ [8, 10, 11, 12, 20], ¬∀ b ∈ holedRow, b.kind = .free → b.size < n := by decide
    obtain ⟨h', p, granted, null, -, found⟩ := first_fit holed_wellformed (nowrap n member)
    obtain ⟨pre, x, s, post, fit⟩ := found (mt null.mp (room n member))
    exact ⟨h', p, pre, x, s, post, granted, fit⟩
  · obtain ⟨h', p, refused, null, kept, -⟩ := first_fit holed_wellformed (show 100 + mcbSize < 2 ^ 32 by decide)
    have none : p = 0 := null.mpr (by decide)
    rw [refused, none, kept none]

/-! ### What belongs to others -/

/-- No byte of the payload of a used block differs. -/
def PayloadKept (bs : List Block) (h h' : HeapState) : Prop :=
  ∀ b ∈ bs, b.kind = .used → ∀ i, b.addr + mcbSize ≤ i → i < b.addr + mcbSize + b.size → h'.mem i = h.mem i

/-- The block at `x` has left the allocated list, as read in both directions, and the others have kept their
place and their size. -/
def Erased (h h' : HeapState) (x : Nat) : Prop :=
  ∃ l, walk (next h.mem) 0 addressSpace h.allocHead = some l ∧ x ∈ l ∧
    walk (next h'.mem) 0 addressSpace h'.allocHead = some (l.erase x) ∧
    walk (prev h'.mem) 0 addressSpace ((l.erase x).getLastD 0) = some (l.erase x).reverse ∧
    ∀ a ∈ l.erase x, get h'.mem a .blkSize = get h.mem a .blkSize

/-- A payload holds no byte of a control block. -/
theorem tiles_payload {b : Block} {i : Nat} (tiles : Tiles limit base bs) (hb : b ∈ bs)
    (low : b.addr + mcbSize ≤ i) (high : i < b.addr + mcbSize + b.size) :
    ¬headerBytes (· ∈ bs.map (·.addr)) i := by
  rintro ⟨a, ha, above, below⟩
  obtain ⟨c, hc, rfl⟩ := List.mem_map.mp ha
  rcases tiles_apart tiles hb hc with rfl | before | behind
  · omega
  · omega
  · omega

/-- A call that writes to the control blocks of a row leaves the payloads of the used blocks of the row. -/
theorem kept_confined {row : List Block} (tiles : Tiles limit base row)
    (known : ∀ b ∈ bs, b.kind = .used → b ∈ row)
    (confined : Confined (headerBytes (· ∈ row.map (·.addr))) h.mem h'.mem) : PayloadKept bs h h' := by
  intro b hb kind i low high
  exact confined i (tiles_payload tiles (known b hb kind) low high)

theorem takeBlock_confined {S : List Nat} (hx : x ∈ S) (whole : Bool)
    (split : whole = false →
      Confined (headerBytes (· ∈ S)) h.mem (splitFree h x (word (n + mcbSize))).mem) :
    Confined (headerBytes (· ∈ S)) h.mem (takeBlock h n x whole).mem := by
  unfold takeBlock
  cases whole with
  | true => exact set_confined hx
  | false => exact confined_trans (split rfl) (set_confined hx)

/-- Linking in the block that has been taken writes to it and its neighbours. -/
theorem grant_confined {row : List Block} {whole : Bool} (hx : x ∈ row.map (·.addr))
    (inside : ∀ k, ∀ a ∈ addrs k pre ++ addrs k post, a ∈ row.map (·.addr))
    (taken : Confined (headerBytes (· ∈ row.map (·.addr))) h.mem (takeBlock h n x whole).mem) :
    Confined (headerBytes (· ∈ row.map (·.addr))) h.mem
      (insertAlloc (takeBlock h n x whole) x ((addrs .used pre).getLastD 0) ((addrs .used post).headD 0)).mem := by
  apply confined_trans taken
  apply insertAlloc_confined hx
  · intro real
    exact inside .used _ (List.mem_append_left _ ((getLastD_or_mem _ 0).resolve_left real))
  · intro real
    exact inside .used _ (List.mem_append_right _ ((headD_or_mem _ 0).resolve_left real))

theorem allocate_kept (W : Wellformed base limit h bs) (nowrap : n + mcbSize < 2 ^ 32) :
    ∃ h' p, allocateMemory h n = some (h', p) ∧ PayloadKept bs h h' := by
  have L := W.layout
  rcases firstFit_cases n bs with small | ⟨pre, x, s, post, rfl, fits, before⟩
  · exact ⟨h, 0, allocate_nofit L nowrap small, fun _ _ _ _ _ _ => rfl⟩
  · refine ⟨_, _, allocate_found L (findFit_first L nowrap fits before), ?_⟩
    have listed : ∀ row : List Block, pre ⊆ row → post ⊆ row →
        ∀ k, ∀ a ∈ addrs k pre ++ addrs k post, a ∈ row.map (·.addr) := by
      intro row front rest k a ha
      rcases List.mem_append.mp ha with before | behind
      · exact List.map_subset _ front (addrs_inside before)
      · exact List.map_subset _ rest (addrs_inside behind)
    have used : ∀ row : List Block, pre ⊆ row → post ⊆ row →
        ∀ b ∈ pre ++ ⟨x, s, .free⟩ :: post, b.kind = .used → b ∈ row := by
      intro row front rest b hb kind
      rcases List.mem_append.mp hb with before | behind
      · exact front before
      · rcases List.mem_cons.mp behind with rfl | after
        · cases kind
        · exact rest after
    by_cases room : n + mcbSize < s
    · rw [decide_eq_false (Nat.not_le.mpr room)]
      have tiles := split_tiles L room
      have P := L.split room W.back
      have full : word (n + mcbSize) = n + mcbSize := Nat.mod_eq_of_lt nowrap
      have front : pre ⊆ pre ++ ⟨x, n, .dead⟩ :: ⟨x + mcbSize + n, s - n - mcbSize, .free⟩ :: post := by simp
      have rest : post ⊆ pre ++ ⟨x, n, .dead⟩ :: ⟨x + mcbSize + n, s - n - mcbSize, .free⟩ :: post := by
        intro b hb
        simp [hb]
      apply kept_confined tiles (used _ front rest)
      apply grant_confined (by simp) (listed _ front rest)
      exact takeBlock_confined (by simp) false fun _ => full.symm ▸ P.split_confined
    · rw [decide_eq_true (Nat.not_lt.mp room)]
      have front : pre ⊆ pre ++ ⟨x, s, .free⟩ :: post := by simp
      have rest : post ⊆ pre ++ ⟨x, s, .free⟩ :: post := by
        intro b hb
        simp [hb]
      apply kept_confined L.tiles (used _ front rest)
      apply grant_confined (by simp) (listed _ front rest)
      exact takeBlock_confined (by simp) true fun split => nomatch split

theorem insertFree_allocHead (h : HeapState) (x select next : Nat) :
    (insertFree h x select next).allocHead = h.allocHead := by
  unfold insertFree
  dsimp only
  split_ifs <;> rfl

/-- The freed block is linked in by writing to it and to free blocks. -/
theorem release_confined (L : Layout base limit h (pre ++ ⟨x, s, .dead⟩ :: post)) :
    Confined (headerBytes fun a => a = x ∨ a ∈ addrs .free (pre ++ ⟨x, s, .dead⟩ :: post)) h.mem
      (insertFree h x ((addrs .free pre).getLastD 0) ((addrs .free post).headD 0)).mem := by
  have headers := L.headers
  have unique := tiles_nodup L.tiles
  have x_dead : x ∈ addrs .dead (pre ++ ⟨x, s, .dead⟩ :: post) :=
    mem_addrs.mpr ⟨⟨x, s, .dead⟩, by simp, rfl, rfl⟩
  have row : addrs .free (pre ++ ⟨x, s, .dead⟩ :: post) = addrs .free pre ++ addrs .free post :=
    addrs_other (by decide)
  have free := L.free
  have freeNodup := unique.sublist (addrs_sublist .free _)
  have inside : ∀ a ∈ addrs .free pre ++ addrs .free post,
      a ∈ (pre ++ ⟨x, s, .dead⟩ :: post).map (·.addr) := fun a ha => addrs_inside (row ▸ ha)
  have other : ∀ a ∈ addrs .free pre ++ addrs .free post, a ≠ x :=
    fun a ha => addrs_apart unique (by decide) (row ▸ ha) x_dead
  rw [row] at free freeNodup
  rw [row]
  generalize addrs .free pre = A at free freeNodup inside other
  generalize addrs .free post = B at free freeNodup inside other
  have last : A.getLastD 0 ≠ 0 → A.getLastD 0 ∈ A := (getLastD_or_mem A 0).resolve_left
  have first : B.headD 0 ≠ 0 → B.headD 0 ∈ B := (headD_or_mem B 0).resolve_left
  have behind : B.headD 0 ≠ 0 → next h.mem (B.headD 0) = B.tail.headD 0 := by
    intro real
    cases B with
    | nil => exact (real rfl).elim
    | cons b B => exact (seg_append.mp free.links).2.1
  apply insertFree_confined headers (addrs_inside x_dead) (q := B.tail.headD 0)
  · exact (getLastD_or_mem A 0).imp_right fun member => inside _ (List.mem_append_left _ member)
  · exact (headD_or_mem B 0).imp_right fun member => inside _ (List.mem_append_right _ member)
  · intro real same
    have low := last real
    have high := first (same ▸ real)
    exact (List.nodup_append.mp freeNodup).2.2 _ low _ high same
  · intro same
    by_cases real : B.headD 0 = 0
    · exact headers.real (addrs_inside x_dead) (same.trans real)
    · exact other _ (List.mem_append_right _ (first real)) same.symm
  · exact behind
  · intro occupied lowest ended
    have head := free.head
    rw [headD_append, ended] at head
    cases A with
    | nil => exact occupied head
    | cons a A =>
      have member := getLastD_mem (l := a :: A) (s := 0) (by simp)
      rw [lowest] at member
      exact free.nonnull (List.mem_append_left _ member)
  · exact .inl rfl
  · exact fun real => .inr (List.mem_append_left _ (last real))
  · exact fun real => .inr (List.mem_append_right _ (first real))
  · intro real
    have member := (headD_or_mem B.tail 0).resolve_left real
    exact .inr (List.mem_append_right _ (List.mem_of_mem_tail member))

/-- The allocated blocks keep their control blocks. -/
theorem release_get (L : Layout base limit h (pre ++ ⟨x, s, .dead⟩ :: post)) {a : Nat}
    (ha : a ∈ addrs .used (pre ++ ⟨x, s, .dead⟩ :: post)) (g : Field) :
    get (insertFree h x ((addrs .free pre).getLastD 0) ((addrs .free post).headD 0)).mem a g = get h.mem a g := by
  have unique := tiles_nodup L.tiles
  have x_dead : x ∈ addrs .dead (pre ++ ⟨x, s, .dead⟩ :: post) :=
    mem_addrs.mpr ⟨⟨x, s, .dead⟩, by simp, rfl, rfl⟩
  apply get_confined (release_confined L)
  intro b hb
  have known : b ∈ (pre ++ ⟨x, s, .dead⟩ :: post).map (·.addr) := by
    rcases hb with rfl | free
    · exact addrs_inside x_dead
    · exact addrs_inside free
  apply L.headers.apart a (addrs_inside ha) b known
  rintro rfl
  rcases hb with rfl | free
  · exact addrs_disjoint unique (by decide) ha x_dead
  · exact addrs_disjoint unique (by decide) ha free

theorem free_kept (W : Wellformed base limit h (pre ++ ⟨x, s, .used⟩ :: post)) :
    ∃ h', freeMemory h (x + mcbSize) = some (h', 0) ∧ PayloadKept (pre ++ ⟨x, s, .used⟩ :: post) h h' ∧
      Erased h h' x := by
  have L := W.layout
  have B := L.between W.usedBack
  obtain ⟨unlinked, size⟩ := unlinkAlloc_layout L
  have released := release_confined unlinked
  have head := insertFree_allocHead (unlinkAlloc h x) x ((addrs .free pre).getLastD 0) ((addrs .free post).headD 0)
  have kept := fun a ha g => release_get unlinked (a := a) ha g
  refine ⟨_, free_found L, ?_, ?_⟩
  all_goals
    generalize insertFree (unlinkAlloc h x) x ((addrs .free pre).getLastD 0) ((addrs .free post).headD 0) = h'
      at released head kept ⊢
  · apply kept_confined L.tiles fun b hb _ => hb
    apply confined_trans B.unlink_confined
    refine confined_mono ?_ released
    rintro i ⟨a, ha, low, high⟩
    refine ⟨a, ?_, low, high⟩
    rcases ha with rfl | free
    · exact B.here
    · simpa using addrs_inside free
  · have row : addrs .used (pre ++ ⟨x, s, .used⟩ :: post) = addrs .used pre ++ x :: addrs .used post := addrs_here
    have fresh := B.fresh
    have erased : (addrs .used (pre ++ ⟨x, s, .used⟩ :: post)).erase x = addrs .used pre ++ addrs .used post := by
      rw [row, List.erase_append_right _ fun low => fresh (List.mem_append_left _ low), List.erase_cons_head]
    have usedList : addrs .used (pre ++ ⟨x, s, .dead⟩ :: post) = addrs .used pre ++ addrs .used post :=
      addrs_other (by decide)
    have fields : ∀ a ∈ addrs .used pre ++ addrs .used post, ∀ g,
        get h'.mem a g = get (unlinkAlloc h x).mem a g :=
      fun a ha g => kept a (usedList ▸ ha) g
    have chain : Chain (next h'.mem) 0 (unlinkAlloc h x).allocHead (addrs .used pre ++ addrs .used post) :=
      chain_congr B.unlink_chain fun a ha => fields a ha .pNext
    have back : Back (prev h'.mem) _ (addrs .used pre ++ addrs .used post) :=
      back_congr (fun a ha => fields a ha .pPrev) B.unlink_back
    have short : (addrs .used pre ++ addrs .used post).length < addressSpace := usedList ▸ unlinked.short .used
    rw [← head] at chain
    refine ⟨_, walk_iff.mpr ⟨L.used, L.short .used⟩, row ▸ by simp, ?_⟩
    rw [erased]
    refine ⟨walk_iff.mpr ⟨chain, short⟩,
      walk_iff.mpr ⟨chain_reverse back chain.nonnull, by rwa [List.length_reverse]⟩, ?_⟩
    intro a ha
    rw [fields a ha]
    refine (B.get_unlink (g := .blkSize) (B.inside a ha)).trans ?_
    simp only [reduceCtorEq, and_false, if_false]

/-- No call changes the payload of a used block, and a block that is freed leaves the others as they are. -/
theorem payloads_kept (W : Wellformed base limit h bs) :
    (∀ n, n + mcbSize < 2 ^ 32 → ∃ h' p, allocateMemory h n = some (h', p) ∧ PayloadKept bs h h') ∧
    ∀ p, p < 2 ^ 32 → ∃ h' result, freeMemory h p = some (h', result) ∧ PayloadKept bs h h' ∧
      (result = 0 → ∃ x, p = x + mcbSize ∧ Erased h h' x) := by
  have L := W.layout
  refine ⟨fun n nowrap => allocate_kept W nowrap, ?_⟩
  intro p small
  by_cases listed : word (p + 2 ^ 32 - mcbSize) ∈ addrs .used bs
  · obtain ⟨⟨x, s, kind⟩, member, rfl, here⟩ := mem_addrs.mp listed
    obtain ⟨pre, post, rfl⟩ := List.append_of_mem member
    have room : x + mcbSize < 2 ^ 32 := W.payload _ member
    have pointer : p = x + mcbSize := by
      have here : x = word (p + 2 ^ 32 - mcbSize) := here
      unfold word at here
      simp only [mcbSize] at here room ⊢
      omega
    obtain ⟨h', freed, kept, erased⟩ := free_kept W
    exact ⟨h', 0, pointer ▸ freed, kept, fun _ => ⟨x, pointer, erased⟩⟩
  · exact ⟨h, 1, free_unlisted L listed, fun _ _ _ _ _ _ => rfl, fun failed => absurd failed (by decide)⟩

theorem payloads_kept_example :
    (∀ n, n + mcbSize < 2 ^ 32 → ∃ h' p, allocateMemory holed n = some (h', p) ∧ PayloadKept holedRow holed h') ∧
    ∀ p, p < 2 ^ 32 → ∃ h' result, freeMemory holed p = some (h', result) ∧ PayloadKept holedRow holed h' ∧
      (result = 0 → ∃ x, p = x + mcbSize ∧ Erased holed h' x) :=
  payloads_kept holed_wellformed

end Mpx.Heap

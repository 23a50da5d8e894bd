import Mpx.Heap.Guarantees

/-! # Show Allocated Memory and Show Free Memory

`showAllocatedMemoryCommand` and `showFreeMemoryCommand` walk a list of the heap and print an entry of five
WRITEs for each block. Every WRITE allocates an iocb on the same heap and frees it when it is done, and so do
the requests of other processes meanwhile. -/

namespace Mpx.Heap
open Library.ByteMemory Library.Links Library.Transition

/-- The list that a command shows. -/
inductive Shown where
  | allocated | free
  deriving DecidableEq, Repr

def Shown.head (which : Shown) (h : HeapState) : Nat :=
  match which with
  | .allocated => h.allocHead
  | .free => h.freeHead

def Shown.blocks (which : Shown) (h : HeapState) : List Nat :=
  match which with
  | .allocated => allocList h
  | .free => freeList h

/-- The call leaves the block `b` on the list: it does not hand out a free block, and gives back neither the block
nor, of a free block, the allocated one in front of it. -/
def Shown.Spares (which : Shown) (h : HeapState) (b : Nat) : Call → Prop
  | .allocate n => which = .free → firstFit h n ≠ some b
  | .free p => p ≠ b + mcbSize ∧ (which = .free → p - mcbSize ∈ allocList h → blkEnd h.mem (p - mcbSize) ≠ b)

instance (which : Shown) (h : HeapState) (b : Nat) : (c : Call) → Decidable (which.Spares h b c)
  | .allocate _ => inferInstanceAs (Decidable (_ → _))
  | .free _ => inferInstanceAs (Decidable (_ ∧ _))

/-- `sizeof(struct iocb)`. -/
def iocbSize : Nat := 20

/-- The WRITEs of an entry. -/
inductive EntryWrite where
  | addressMsg | addressarr | sizeMsg | printSize | newLine
  deriving DecidableEq, Repr

/-- The WRITE that the command is at. -/
inductive ListingPlace where
  | title (currList : Nat)
  | entry (currList : Nat) (write : EntryWrite)
  | done
  deriving DecidableEq, Repr

/-- The block that the command stands at: it has got there, and has not read its `p_next`. -/
def ListingPlace.block : ListingPlace → Option Nat
  | .title currList => if currList = 0 then none else some currList
  | .entry currList _ => some currList
  | .done => none

/-- Whether it has still to be made, waits for its request, or is done. -/
inductive WriteState where
  | pending
  | blocked (iocb : Nat)
  | finished
  deriving DecidableEq, Repr

def WriteState.iocb : WriteState → Option Nat
  | .blocked iocb => some iocb
  | _ => none

/-- `iocbs` are those of other processes. `printed` lists the blocks whose addresses have been printed, `sizes`
the sizes, `reads` each block that was read with the list as it was then, and `stays` the blocks that have
been on the list since the command began. -/
structure Listing where
  session : Session
  iocbs : List Nat
  place : ListingPlace
  write : WriteState
  printed : List Nat
  sizes : List Nat
  reads : List (Nat × List Nat)
  stays : List Nat

/-- A process makes a request, or one is done; the command makes its WRITE, that is done, and the command
goes on. -/
inductive ListingInput where
  | requests
  | completes (iocb : Nat)
  | writes
  | written
  | goesOn
  deriving DecidableEq, Repr

/-- What `allocate_memory` has returned. -/
def granted (s t : Session) : Option Nat :=
  if s.live.length < t.live.length then t.live.head?.map (·.1) else none

namespace Listing

def start (which : Shown) (session : Session) (iocbs : List Nat) : Listing :=
  { session := session
    iocbs := iocbs
    place := .title (which.head session.heap)
    write := .pending
    printed := []
    sizes := []
    reads := []
    stays := which.blocks session.heap }

def calls (s : Listing) (which : Shown) (c : Call) : Option Listing :=
  (step s.session c).map fun t => { s with session := t, stays := s.stays.filter (· ∈ which.blocks t.heap) }

/-- The head of the loop. -/
def enter (s : Listing) (currList : Nat) : Listing :=
  { s with place := if currList = 0 then .done else .entry currList .addressMsg }

def readBlock (s : Listing) (which : Shown) (currList : Nat) : Listing :=
  { s with reads := s.reads ++ [(currList, which.blocks s.session.heap)] }

/-- From a WRITE that is done to the next one. -/
def goOn (s : Listing) (which : Shown) : Listing :=
  match s.place with
  | .title currList => s.enter currList
  | .entry currList .addressMsg => { s.readBlock which currList with
      printed := s.printed ++ [currList], place := .entry currList .addressarr }
  | .entry currList .addressarr => { s.readBlock which currList with
      sizes := s.sizes ++ [get s.session.heap.mem currList .blkSize], place := .entry currList .sizeMsg }
  | .entry currList .sizeMsg => { s with place := .entry currList .printSize }
  | .entry currList .printSize => { s with place := .entry currList .newLine }
  | .entry currList .newLine => s.enter (get s.session.heap.mem currList .pNext)
  | .done => s

/-- A WRITE that is not accepted is done at once. -/
def step (which : Shown) (s : Listing) : ListingInput → Option Listing
  | .requests => (s.calls which (.allocate iocbSize)).map fun t =>
      { t with iocbs := (granted s.session t.session).toList ++ s.iocbs }
  | .completes iocb =>
    if iocb ∈ s.iocbs then (s.calls which (.free iocb)).map fun t => { t with iocbs := s.iocbs.erase iocb } else none
  | .writes =>
    if s.write = .pending ∧ s.place ≠ .done then
      (s.calls which (.allocate iocbSize)).map fun t =>
        { t with write := (granted s.session t.session).elim .finished .blocked }
    else none
  | .written =>
    match s.write with
    | .blocked iocb => (s.calls which (.free iocb)).map fun t => { t with write := .finished }
    | _ => none
  | .goesOn => if s.write = .finished then some { s.goOn which with write := .pending } else none

end Listing

/-- The iocbs at the start are live. -/
structure ListingStarts (base size : Nat) (ok : Session → Call → Prop) (which : Shown) (s : Listing) : Prop where
  reached : Reaches (Starts base size) ok step s.session
  iocbs : ∀ p ∈ s.iocbs, (p, iocbSize) ∈ s.session.live
  starts : s = .start which s.session s.iocbs

/-- The heap call leaves the block `b`, at which the command stands, on the list. Only the command's own WRITE may
take a free block it stands at, if the block is linked then and given back as the lowest one. -/
def Listing.Spares (s : Listing) (which : Shown) (b : Nat) : ListingInput → Prop
  | .requests => which.Spares s.session.heap b (.allocate iocbSize)
  | .completes iocb => which.Spares s.session.heap b (.free iocb)
  | .writes => which.Spares s.session.heap b (.allocate iocbSize) ∨
      (Call.allocate iocbSize).Behind s.session.heap
  | .written => ∀ p ∈ s.write.iocb, which.Spares s.session.heap b (.free p) ∨
      which = .free ∧ p = b + mcbSize ∧ freeBelow s.session.heap b = 0
  | .goesOn => True

/-- The iocb comes from a block that is linked as `allocate_memory` assumes. -/
def Listing.Linked (s : Listing) : ListingInput → Prop
  | .requests | .writes => FitLinked s.session.heap iocbSize
  | _ => True

def Listing.Admits (which : Shown) (s : Listing) (i : ListingInput) : Prop :=
  s.Linked i ∧ ∀ b ∈ s.place.block, s.Spares which b i

variable {base limit size b currList x n : Nat} {which : Shown} {s s' : Listing} {session t : Session} {h : HeapState}
  {bs bs' pre post : List Block} {c : Call} {i : ListingInput} {l printed stays stays' : List Nat} {m : Nat → Nat}
  {k : Kind}

/-! ### What a call does to the lists -/

def Shown.kind : Shown → Kind
  | .allocated => .used
  | .free => .free

theorem blocks_eq (L : Layout base limit h bs) (which : Shown) : which.blocks h = addrs which.kind bs := by
  cases which with
  | allocated => exact L.allocList_eq
  | free => exact L.freeList_eq

theorem granted_addrs (granted : Granted n bs x bs') (other : k = .free → b ≠ x) (member : b ∈ addrs k bs) :
    b ∈ addrs k bs' := by
  obtain ⟨c, inside, kind, rfl⟩ := mem_addrs.mp member
  refine mem_addrs.mpr ⟨c, ?_, kind, rfl⟩
  cases granted with
  | split room =>
    simp only [List.mem_append, List.mem_cons] at inside ⊢
    rcases inside with before | rfl | after
    · exact .inl before
    · exact (other kind.symm rfl).elim
    · exact .inr (.inr (.inr after))
  | whole fits =>
    simp only [List.mem_append, List.mem_cons] at inside ⊢
    rcases inside with before | rfl | after
    · exact .inl before
    · exact (other kind.symm rfl).elim
    · exact .inr (.inr after)

/-- A block that is given back is absorbed or absorbs the free block behind it, and the others stay. -/
theorem released_addrs (L : Layout base limit h (pre ++ ⟨x, n, .used⟩ :: post)) (released : Released x n pre post bs')
    (other : b ≠ x) (apart : k = .free → word (x + mcbSize + n) ≠ b)
    (member : b ∈ addrs k (pre ++ ⟨x, n, .used⟩ :: post)) : b ∈ addrs k bs' := by
  obtain ⟨c, inside, kind, rfl⟩ := mem_addrs.mp member
  have sides : c ∈ pre ∨ c ∈ post := by
    simp only [List.mem_append, List.mem_cons] at inside
    rcases inside with before | rfl | after
    · exact .inl before
    · exact (other rfl).elim
    · exact .inr after
  have absorbed : ∀ y t rest, post = ⟨y, t, .free⟩ :: rest → c = ⟨y, t, .free⟩ → False := by
    rintro y t rest rfl rfl
    exact apart kind.symm (word_next L)
  cases released with
  | alone _ _ =>
    refine mem_addrs.mpr ⟨c, ?_, kind, rfl⟩
    simp only [List.mem_append, List.mem_cons]
    exact sides.imp_right .inr
  | lost _ _ =>
    refine mem_addrs.mpr ⟨c, ?_, kind, rfl⟩
    simp only [List.mem_append, List.mem_cons]
    exact sides.imp_right .inr
  | forward _ =>
    refine mem_addrs.mpr ⟨c, ?_, kind, rfl⟩
    simp only [List.mem_append, List.mem_cons]
    rcases sides with before | after
    · exact .inl before
    · exact .inr (.inr ((List.mem_cons.mp after).resolve_left (absorbed _ _ _ rfl)))
  | @backward front _ y t _ =>
    rcases sides with before | after
    · rcases List.mem_append.mp before with earlier | last
      · exact mem_addrs.mpr ⟨c, by simp [earlier], kind, rfl⟩
      · obtain rfl := List.mem_singleton.mp last
        exact mem_addrs.mpr ⟨⟨y, t + mcbSize + n, .free⟩, by simp, kind, rfl⟩
    · exact mem_addrs.mpr ⟨c, by simp [after], kind, rfl⟩
  | @both front rest y z t u =>
    rcases sides with before | after
    · rcases List.mem_append.mp before with earlier | last
      · exact mem_addrs.mpr ⟨c, by simp [earlier], kind, rfl⟩
      · obtain rfl := List.mem_singleton.mp last
        exact mem_addrs.mpr ⟨⟨y, t + mcbSize + n + mcbSize + u, .free⟩, by simp, kind, rfl⟩
    · have behind := (List.mem_cons.mp after).resolve_left (absorbed _ _ _ rfl)
      exact mem_addrs.mpr ⟨c, by simp [behind], kind, rfl⟩

/-- The lowest free block stands on the free list, whether it absorbs another one or not. -/
theorem released_lowest (released : Released x n pre post bs') (lowest : addrs .free pre = []) :
    x ∈ addrs .free bs' := by
  cases released with
  | alone _ _ => exact mem_addrs.mpr ⟨⟨x, n, .free⟩, by simp, rfl, rfl⟩
  | @forward _ _ y t _ => exact mem_addrs.mpr ⟨⟨x, n + mcbSize + t, .free⟩, by simp, rfl, rfl⟩
  | backward _ => simp [addrs_append, addrs_cons] at lowest
  | both => simp [addrs_append, addrs_cons] at lowest
  | lost below _ => exact (below lowest).elim

/-- A call that spares a block leaves it on its list. -/
theorem step_spared (held : Held base limit session bs) (valid : c.Valid) (linked : c.FitLinked session.heap)
    (moved : Heap.step session c = some t) (spares : which.Spares session.heap b c)
    (member : b ∈ which.blocks session.heap) : b ∈ which.blocks t.heap := by
  obtain ⟨t', bs', ran, row, held'⟩ := step_held held valid linked
  obtain rfl : t' = t := Option.some.inj (ran.symm.trans moved)
  rw [blocks_eq held.layout] at member
  rw [blocks_eq held'.layout]
  cases row with
  | same => exact member
  | granted first granted =>
    refine granted_addrs granted (fun kind same => ?_) member
    cases which with
    | allocated => cases kind
    | free => exact spares rfl (same ▸ first)
  | @released x n pre post _ released =>
    obtain ⟨other, apart⟩ := spares
    refine released_addrs held.layout released (fun same => other (same ▸ rfl)) (fun kind => ?_) member
    cases which with
    | allocated => cases kind
    | free =>
      have listed : x + mcbSize - mcbSize ∈ allocList session.heap := by
        rw [held.layout.allocList_eq, Nat.add_sub_cancel]
        exact mem_addrs.mpr ⟨⟨x, n, .used⟩, by simp, rfl, rfl⟩
      have ends := apart rfl listed
      rw [Nat.add_sub_cancel] at ends
      unfold blkEnd at ends
      rw [held.layout.sizes ⟨x, n, .used⟩ (by simp) (.inr rfl)] at ends
      exact ends

/-- The free block that a call takes is an allocated block if it does not lie in front of all of them. -/
theorem step_taken (held : Held base limit session bs) (valid : (Call.allocate n).Valid)
    (linked : FitLinked session.heap n) (behind : (Call.allocate n).Behind session.heap)
    (first : firstFit session.heap n = some b) (moved : Heap.step session (.allocate n) = some t) :
    granted session t = some (b + mcbSize) ∧ b ∈ allocList t.heap := by
  have L := held.layout
  rcases allocate_refines L valid linked with ⟨_, none⟩ | ⟨h', x, bs', ran, found, taken, layout⟩
  · cases none.symm.trans first
  obtain rfl : x = b := Option.some.inj (found.symm.trans first)
  have real : x + mcbSize ≠ 0 := Nat.ne_of_gt (Nat.add_pos_right x (by decide))
  unfold Heap.step at moved
  simp only [ran, Option.bind_eq_bind, Option.bind_some, if_neg real] at moved
  obtain rfl := Option.some.inj moved
  refine ⟨?_, ?_⟩
  · unfold granted
    rw [if_pos (by simp)]
    rfl
  · have kind := behind x found
    show x ∈ allocList h'
    rw [layout.allocList_eq]
    cases taken with
    | split room =>
      rw [claimed_used L kind]
      exact mem_addrs.mpr ⟨⟨x, n, .used⟩, by simp, rfl, rfl⟩
    | @whole pre post _ s fits =>
      rw [claimed_used L kind]
      exact mem_addrs.mpr ⟨⟨x, s, .used⟩, by simp, rfl, rfl⟩

/-- Given back as the lowest one, a block is on the free list again. -/
theorem step_returned (held : Held base limit session bs) (lowest : freeBelow session.heap b = 0)
    (member : b ∈ allocList session.heap) (moved : Heap.step session (.free (b + mcbSize)) = some t) :
    b ∈ freeList t.heap := by
  have L := held.layout
  rw [L.allocList_eq] at member
  obtain ⟨⟨x, n, kind⟩, inside, used, rfl⟩ := mem_addrs.mp member
  obtain rfl : kind = .used := used
  obtain ⟨pre, post, rfl⟩ := List.append_of_mem inside
  obtain ⟨h', bs', freed, released, layout⟩ := free_refines L
  unfold Heap.step at moved
  simp only [freed, Option.bind_eq_bind, Option.bind_some] at moved
  obtain rfl := Option.some.inj moved
  show x ∈ freeList h'
  rw [layout.freeList_eq]
  apply released_lowest released
  rw [L.freeBelow_eq] at lowest
  by_contra below
  have last := getLastD_mem (s := 0) below
  rw [lowest] at last
  apply L.headers.nonnull
  apply (addrs_sublist .free _).subset
  rw [addrs_append]
  exact List.mem_append_left _ last

/-- A free block cannot be given back. -/
theorem step_refused (held : Held base limit session bs) (member : b ∈ freeList session.heap)
    (moved : Heap.step session (.free (b + mcbSize)) = some t) : t.heap = session.heap := by
  have L := held.layout
  rw [L.freeList_eq] at member
  have bound := L.headers.lt b (addrs_inside member)
  have header : word (b + mcbSize + 2 ^ 32 - mcbSize) = b := by
    unfold word
    omega
  have unlisted := free_unlisted L (p := b + mcbSize)
    (header.symm ▸ addrs_disjoint (tiles_nodup L.tiles) (by decide) member)
  unfold Heap.step at moved
  simp only [unlisted, Option.bind_eq_bind, Option.bind_some] at moved
  obtain rfl := Option.some.inj moved
  rfl

/-! ### Lists in address order -/

theorem addrs_sorted (tiles : Tiles limit base bs) (k : Kind) : (addrs k bs).Pairwise (· < ·) := by
  apply List.Pairwise.sublist (addrs_sublist k bs)
  apply List.pairwise_map.mpr
  apply (tiles_ordered tiles).imp
  intro b c ordered
  simp only [mcbSize] at ordered
  omega

theorem held_list (held : Held base limit session bs) (which : Shown) :
    Chain (next session.heap.mem) 0 (which.head session.heap) (which.blocks session.heap) ∧
      (which.blocks session.heap).Pairwise (· < ·) := by
  have layout := held.layout
  cases which with
  | allocated =>
    show Chain _ _ session.heap.allocHead (allocList session.heap) ∧ (allocList session.heap).Pairwise _
    rw [layout.allocList_eq]
    exact ⟨layout.used, addrs_sorted layout.tiles .used⟩
  | free =>
    show Chain _ _ session.heap.freeHead (freeList session.heap) ∧ (freeList session.heap).Pairwise _
    rw [layout.freeList_eq]
    exact ⟨layout.free, addrs_sorted layout.tiles .free⟩

theorem head_gap {head : Nat} (chain : Chain m 0 head l) (sorted : l.Pairwise (· < ·)) :
    (head = 0 → l = []) ∧ ∀ x ∈ l, ¬x < head := by
  cases l with
  | nil => exact ⟨fun _ => rfl, fun x member => nomatch member⟩
  | cons a l =>
    obtain ⟨rfl, real, _⟩ := chain_cons_iff.mp chain
    refine ⟨fun null => (real null).elim, ?_⟩
    intro x member less
    cases List.mem_cons.mp member with
    | inl same => exact Nat.lt_irrefl _ (same ▸ less)
    | inr later => exact Nat.lt_asymm less ((List.pairwise_cons.mp sorted).1 x later)

/-- Nothing on the list lies between a block and the next one. -/
theorem next_gap {head : Nat} (chain : Chain m 0 head l) (sorted : l.Pairwise (· < ·)) (member : b ∈ l) :
    (m b = 0 → ∀ x ∈ l, x ≤ b) ∧ (m b ≠ 0 → b < m b) ∧ ∀ x ∈ l, x < m b → x ≤ b := by
  obtain ⟨front, rest, rfl⟩ := List.append_of_mem member
  have follows := chain_next chain
  obtain ⟨_, behind, before⟩ := List.pairwise_append.mp sorted
  have low : ∀ x ∈ front ++ b :: rest, x ∉ rest → x ≤ b := by
    intro x inside outside
    rcases List.mem_append.mp inside with first | last
    · exact Nat.le_of_lt (before x first b List.mem_cons_self)
    · exact Nat.le_of_eq ((List.mem_cons.mp last).resolve_right outside)
  cases rest with
  | nil =>
    have null : m b = 0 := follows
    refine ⟨fun _ x inside => low x inside List.not_mem_nil, fun real => (real null).elim, ?_⟩
    intro x inside _
    exact low x inside List.not_mem_nil
  | cons y rest =>
    have link : m b = y := follows
    have after : b < y := (List.pairwise_cons.mp behind).1 y List.mem_cons_self
    rw [link]
    refine ⟨fun null => absurd (null ▸ after) (Nat.not_lt_zero b), fun _ => after, ?_⟩
    intro x inside less
    apply low x inside
    intro later
    cases List.mem_cons.mp later with
    | inl same => exact Nat.lt_irrefl _ (same ▸ less)
    | inr more =>
      have sorted' := (List.pairwise_cons.mp behind).2
      exact Nat.lt_asymm less ((List.pairwise_cons.mp sorted').1 x more)

theorem next_mem {head : Nat} (chain : Chain m 0 head l) (member : b ∈ l) (real : m b ≠ 0) : m b ∈ l := by
  obtain ⟨front, rest, rfl⟩ := List.append_of_mem member
  rw [chain_next chain] at real ⊢
  have more : rest ≠ [] := by
    rintro rfl
    exact real rfl
  exact List.mem_append_right _ (List.mem_cons_of_mem _ (headD_mem more))

/-! ### How far the command has come -/

/-- The block is on the list, or the command's own WRITE has taken it from the free list for a while. -/
def Listing.Stands (s : Listing) (which : Shown) (b : Nat) : Prop :=
  b ∈ which.blocks s.session.heap ∨
    which = .free ∧ s.write.iocb = some (b + mcbSize) ∧ b ∈ allocList s.session.heap

/-- The printed blocks lie below `currList`, and the blocks that stay and lie there have been printed. -/
structure Before (printed stays : List Nat) (currList : Nat) : Prop where
  ends : currList = 0 → ∀ b ∈ stays, b ∈ printed
  below : currList ≠ 0 → ∀ b ∈ printed, b < currList
  all : ∀ b ∈ stays, b < currList → b ∈ printed

structure UpTo (printed stays : List Nat) (currList : Nat) : Prop where
  below : ∀ b ∈ printed, b ≤ currList
  all : ∀ b ∈ stays, b ≤ currList → b ∈ printed

def ListingPlace.Passed (printed stays : List Nat) : ListingPlace → Prop
  | .title currList => Before printed stays currList
  | .entry currList .addressMsg => currList ≠ 0 ∧ Before printed stays currList
  | .entry currList .addressarr => UpTo printed stays currList
  | .entry currList .sizeMsg => UpTo printed stays currList
  | .entry currList .printSize => UpTo printed stays currList
  | .entry currList .newLine => UpTo printed stays currList
  | .done => ∀ b ∈ stays, b ∈ printed

structure InStep (base limit : Nat) (which : Shown) (s : Listing) : Prop where
  held : ∃ bs, Held base limit s.session bs
  iocbs : ∀ p ∈ s.iocbs, p < 2 ^ 32
  own : ∀ p ∈ s.write.iocb, p < 2 ^ 32
  stays : ∀ b ∈ s.stays, b ∈ which.blocks s.session.heap
  reads : ∀ r ∈ s.reads, r.1 ∈ r.2
  rising : s.printed.Pairwise (· < ·)
  passed : s.place.Passed s.printed s.stays
  stands : ∀ b ∈ s.place.block, s.Stands which b

theorem before_mono (B : Before printed stays currList) (fewer : ∀ b ∈ stays', b ∈ stays) :
    Before printed stays' currList :=
  ⟨fun null b member => B.ends null b (fewer b member), B.below, fun b member => B.all b (fewer b member)⟩

theorem upTo_mono (U : UpTo printed stays currList) (fewer : ∀ b ∈ stays', b ∈ stays) :
    UpTo printed stays' currList :=
  ⟨U.below, fun b member => U.all b (fewer b member)⟩

theorem passed_mono {place : ListingPlace} (passed : place.Passed printed stays) (fewer : ∀ b ∈ stays', b ∈ stays) :
    place.Passed printed stays' := by
  cases place with
  | title currList => exact before_mono passed fewer
  | entry currList write =>
    cases write with
    | addressMsg => exact ⟨passed.1, before_mono passed.2 fewer⟩
    | addressarr => exact upTo_mono passed fewer
    | sizeMsg => exact upTo_mono passed fewer
    | printSize => exact upTo_mono passed fewer
    | newLine => exact upTo_mono passed fewer
  | done => exact fun b member => passed b (fewer b member)

/-- The block is printed. -/
theorem before_upTo (B : Before printed stays currList) (real : currList ≠ 0) :
    UpTo (printed ++ [currList]) stays currList := by
  refine ⟨?_, ?_⟩
  · intro b member
    rcases List.mem_append.mp member with old | new
    · exact Nat.le_of_lt (B.below real b old)
    · exact Nat.le_of_eq (List.mem_singleton.mp new)
  · intro b member reached
    apply List.mem_append.mpr
    rcases Nat.lt_or_eq_of_le reached with less | same
    · exact .inl (B.all b member less)
    · exact .inr (List.mem_singleton.mpr same)

/-- And the command goes on to the next one. -/
theorem upTo_next {head : Nat} (U : UpTo printed stays b) (chain : Chain m 0 head l) (sorted : l.Pairwise (· < ·))
    (member : b ∈ l) (stay : ∀ x ∈ stays, x ∈ l) : Before printed stays (m b) := by
  obtain ⟨last, after, between⟩ := next_gap chain sorted member
  refine ⟨?_, ?_, ?_⟩
  · intro null x inside
    exact U.all x inside (last null x (stay x inside))
  · intro real x inside
    exact Nat.lt_of_le_of_lt (U.below x inside) (after real)
  · intro x inside less
    exact U.all x inside (between x (stay x inside) less)

theorem live_bound (held : Held base limit session bs) {e : Nat × Nat} (member : e ∈ session.live) : e.1 < 2 ^ 32 := by
  obtain ⟨b, inside, _, at_b, _⟩ := held.tracks.backed e member
  have room := held.layout.payload b.addr (List.mem_map_of_mem inside)
  have bound := held.layout.bound
  omega

/-! ### The steps -/

/-- A call of the heap by another process, or by the command. -/
theorem calls_inStep (L : InStep base limit which s) (valid : c.Valid) (linked : c.FitLinked s.session.heap)
    (moved : s.calls which c = some s') {w : WriteState} (own : ∀ p ∈ w.iocb, p < 2 ^ 32)
    (stands : ∀ b ∈ s.place.block, { s' with write := w }.Stands which b) :
    InStep base limit which { s' with write := w } := by
  obtain ⟨t, ran, rfl⟩ := Option.map_eq_some_iff.mp moved
  obtain ⟨bs, held⟩ := L.held
  obtain ⟨t', bs', ran', _, held'⟩ := step_held held valid linked
  obtain rfl : t' = t := Option.some.inj (ran'.symm.trans ran)
  have fewer : ∀ b ∈ s.stays.filter (· ∈ which.blocks t'.heap), b ∈ s.stays :=
    fun b member => (List.mem_filter.mp member).1
  refine ⟨⟨bs', held'⟩, L.iocbs, own, ?_, L.reads, L.rising, passed_mono L.passed fewer, stands⟩
  intro b member
  exact of_decide_eq_true (List.mem_filter.mp member).2

theorem calls_bound (L : InStep base limit which s) (valid : c.Valid) (linked : c.FitLinked s.session.heap)
    (moved : s.calls which c = some s') : ∀ p ∈ granted s.session s'.session, p < 2 ^ 32 := by
  obtain ⟨t, ran, rfl⟩ := Option.map_eq_some_iff.mp moved
  obtain ⟨bs, held⟩ := L.held
  obtain ⟨t', bs', ran', _, held'⟩ := step_held held valid linked
  obtain rfl : t' = t := Option.some.inj (ran'.symm.trans ran)
  intro p grants
  unfold granted at grants
  split at grants
  · obtain ⟨e, first, rfl⟩ := Option.map_eq_some_iff.mp grants
    exact live_bound held' (List.mem_of_mem_head? first)
  · cases grants

/-- While another process calls, the block stays where it is. -/
theorem others_stands (L : InStep base limit which s) (valid : c.Valid) (linked : c.FitLinked s.session.heap)
    (moved : s.calls which c = some s') (spares : ∀ b ∈ s.place.block, which.Spares s.session.heap b c) :
    ∀ b ∈ s.place.block, s'.Stands which b := by
  obtain ⟨t, ran, rfl⟩ := Option.map_eq_some_iff.mp moved
  obtain ⟨bs, held⟩ := L.held
  intro b here
  rcases L.stands b here with there | ⟨free, own, taken⟩
  · exact .inl (step_spared held valid linked ran (spares b here) there)
  · have used : Shown.allocated.Spares s.session.heap b c := by
      have spares := spares b here
      cases c with
      | allocate n => exact fun other => nomatch other
      | free p => exact ⟨spares.1, fun other => nomatch other⟩
    have taken' : b ∈ Shown.allocated.blocks t.heap := step_spared held valid linked ran used taken
    exact .inr ⟨free, own, taken'⟩

/-- The command's own WRITE may take the block. -/
theorem writes_stands (L : InStep base limit which s) (pending : s.write = .pending)
    (valid : (Call.allocate iocbSize).Valid) (linked : FitLinked s.session.heap iocbSize)
    (moved : s.calls which (.allocate iocbSize) = some s') (spares : ∀ b ∈ s.place.block, s.Spares which b .writes)
    {w : WriteState} (write : w = (granted s.session s'.session).elim .finished .blocked) :
    ∀ b ∈ s.place.block, { s' with write := w }.Stands which b := by
  obtain ⟨t, ran, rfl⟩ := Option.map_eq_some_iff.mp moved
  obtain ⟨bs, held⟩ := L.held
  intro b here
  have there : b ∈ which.blocks s.session.heap := by
    rcases L.stands b here with there | ⟨_, own, _⟩
    · exact there
    · rw [pending] at own
      cases own
  by_cases takes : which = .free ∧ firstFit s.session.heap iocbSize = some b
  · obtain ⟨free, first⟩ := takes
    have behind : (Call.allocate iocbSize).Behind s.session.heap :=
      (spares b here).resolve_left fun spares => spares free first
    obtain ⟨grants, taken⟩ := step_taken held valid linked behind first ran
    change w = (granted s.session t).elim .finished .blocked at write
    rw [grants] at write
    exact .inr ⟨free, by rw [write]; rfl, taken⟩
  · have spares : which.Spares s.session.heap b (.allocate iocbSize) := fun free first => takes ⟨free, first⟩
    exact .inl (step_spared held valid linked ran spares there)

/-- And gives it back. -/
theorem written_stands (L : InStep base limit which s) {iocb : Nat} (write : s.write = .blocked iocb)
    (valid : (Call.free iocb).Valid) (moved : s.calls which (.free iocb) = some s')
    (spares : ∀ b ∈ s.place.block, s.Spares which b .written) :
    ∀ b ∈ s.place.block, b ∈ which.blocks s'.session.heap := by
  obtain ⟨t, ran, rfl⟩ := Option.map_eq_some_iff.mp moved
  obtain ⟨bs, held⟩ := L.held
  intro b here
  have own : s.write.iocb = some iocb := by
    rw [write]
    rfl
  rcases spares b here iocb own with spares | ⟨free, rfl, lowest⟩
  · rcases L.stands b here with there | ⟨_, same, _⟩
    · exact step_spared held valid trivial ran spares there
    · exact (spares.1 (Option.some.inj (own.symm.trans same))).elim
  · subst free
    rcases L.stands b here with there | ⟨_, _, taken⟩
    · show b ∈ freeList t.heap
      rw [step_refused held there ran]
      exact there
    · exact step_returned held lowest taken ran

theorem pending_inStep (L : InStep base limit which s) (idle : s.write.iocb = none) :
    InStep base limit which { s with write := .pending } := by
  refine { L with own := fun p none => (nomatch none), stands := ?_ }
  intro b here
  rcases L.stands b here with there | ⟨_, own, _⟩
  · exact .inl there
  · cases idle.symm.trans own

theorem enter_inStep (L : InStep base limit which s) (B : Before s.printed s.stays currList)
    (listed : currList ≠ 0 → currList ∈ which.blocks s.session.heap) : InStep base limit which (s.enter currList) := by
  have place : (s.enter currList).place = if currList = 0 then .done else .entry currList .addressMsg := rfl
  refine ⟨L.held, L.iocbs, L.own, L.stays, L.reads, L.rising, ?_, ?_⟩
  · rw [place]
    by_cases null : currList = 0
    · rw [if_pos null]
      exact B.ends null
    · rw [if_neg null]
      exact ⟨null, B⟩
  · intro b here
    rw [place] at here
    by_cases null : currList = 0
    · rw [if_pos null] at here
      cases here
    · rw [if_neg null] at here
      obtain rfl : currList = b := Option.some.inj here
      exact .inl (listed null)

theorem readBlock_reads (reads : ∀ r ∈ s.reads, r.1 ∈ r.2) (member : currList ∈ which.blocks s.session.heap) :
    ∀ r ∈ (s.readBlock which currList).reads, r.1 ∈ r.2 := by
  intro r inside
  rcases List.mem_append.mp inside with old | new
  · exact reads r old
  · rw [List.mem_singleton.mp new]
    exact member

theorem goOn_inStep (L : InStep base limit which s) (listed : ∀ b ∈ s.place.block, b ∈ which.blocks s.session.heap) :
    InStep base limit which (s.goOn which) := by
  have passed := L.passed
  unfold Listing.goOn
  cases place : s.place with
  | title currList =>
    rw [place] at passed listed
    exact enter_inStep L passed fun real => listed currList (if_neg real)
  | done => exact L
  | entry currList write =>
    rw [place] at passed listed
    have here := listed currList rfl
    have stands : ∀ b ∈ some currList, b ∈ which.blocks s.session.heap ∨
        which = .free ∧ s.write.iocb = some (b + mcbSize) ∧ b ∈ allocList s.session.heap := by
      rintro b ⟨⟩
      exact .inl here
    cases write with
    | addressMsg =>
      refine ⟨L.held, L.iocbs, L.own, L.stays, readBlock_reads L.reads here, ?_, before_upTo passed.2 passed.1, stands⟩
      apply List.pairwise_append.mpr
      refine ⟨L.rising, List.pairwise_singleton _ _, ?_⟩
      intro b member x last
      rw [List.mem_singleton.mp last]
      exact passed.2.below passed.1 b member
    | addressarr => exact ⟨L.held, L.iocbs, L.own, L.stays, readBlock_reads L.reads here, L.rising, passed, stands⟩
    | sizeMsg => exact ⟨L.held, L.iocbs, L.own, L.stays, L.reads, L.rising, passed, stands⟩
    | printSize => exact ⟨L.held, L.iocbs, L.own, L.stays, L.reads, L.rising, passed, stands⟩
    | newLine =>
      obtain ⟨bs, held⟩ := L.held
      obtain ⟨chain, sorted⟩ := held_list held which
      exact enter_inStep L (upTo_next (b := currList) passed chain sorted here L.stays)
        (next_mem (m := next s.session.heap.mem) chain here)

theorem goOn_write (s : Listing) (which : Shown) : (s.goOn which).write = s.write := by
  unfold Listing.goOn
  cases s.place with
  | title currList => rfl
  | entry currList write => cases write <;> rfl
  | done => rfl

theorem step_inStep (L : InStep base limit which s) (admitted : s.Admits which i)
    (moved : s.step which i = some s') : InStep base limit which s' := by
  have allocates : Call.Valid (.allocate iocbSize) := by
    show iocbSize + mcbSize < 2 ^ 32
    decide
  obtain ⟨linked, spares⟩ := admitted
  cases i with
  | requests =>
    obtain ⟨t, ran, rfl⟩ := Option.map_eq_some_iff.mp moved
    have small := calls_bound L allocates linked ran
    have stands := others_stands L allocates linked ran spares
    obtain ⟨session, called, rfl⟩ := Option.map_eq_some_iff.mp ran
    refine { calls_inStep L allocates linked ran L.own stands with iocbs := ?_ }
    intro p member
    rcases List.mem_append.mp member with new | old
    · exact small p (Option.mem_toList.mp new)
    · exact L.iocbs p old
  | completes iocb =>
    unfold Listing.step at moved
    dsimp only at moved
    by_cases known : iocb ∈ s.iocbs
    · rw [if_pos known] at moved
      obtain ⟨t, ran, rfl⟩ := Option.map_eq_some_iff.mp moved
      have valid : (Call.free iocb).Valid := L.iocbs iocb known
      have stands := others_stands L valid trivial ran spares
      obtain ⟨session, called, rfl⟩ := Option.map_eq_some_iff.mp ran
      refine { calls_inStep L valid trivial ran L.own stands with iocbs := ?_ }
      intro p member
      exact L.iocbs p (List.mem_of_mem_erase member)
    · rw [if_neg known] at moved
      cases moved
  | writes =>
    unfold Listing.step at moved
    dsimp only at moved
    by_cases ready : s.write = .pending ∧ s.place ≠ .done
    · rw [if_pos ready] at moved
      obtain ⟨t, ran, rfl⟩ := Option.map_eq_some_iff.mp moved
      refine calls_inStep L allocates linked ran ?_ (writes_stands L ready.1 allocates linked ran spares rfl)
      intro p own
      have small := calls_bound L allocates linked ran p
      cases grants : granted s.session t.session with
      | none =>
        rw [grants] at own
        cases own
      | some q =>
        rw [grants] at own small
        exact small own
    · rw [if_neg ready] at moved
      cases moved
  | written =>
    unfold Listing.step at moved
    dsimp only at moved
    cases write : s.write with
    | pending =>
      rw [write] at moved
      cases moved
    | finished =>
      rw [write] at moved
      cases moved
    | blocked iocb =>
      rw [write] at moved
      obtain ⟨t, ran, rfl⟩ := Option.map_eq_some_iff.mp moved
      have valid : (Call.free iocb).Valid := L.own iocb (by rw [write]; rfl)
      have listed := written_stands L write valid ran spares
      exact calls_inStep L valid trivial ran (fun p own => nomatch own) fun b here => .inl (listed b here)
  | goesOn =>
    unfold Listing.step at moved
    dsimp only at moved
    by_cases finished : s.write = .finished
    · rw [if_pos finished] at moved
      obtain rfl := Option.some.inj moved
      have idle : s.write.iocb = none := by
        rw [finished]
        rfl
      have listed : ∀ b ∈ s.place.block, b ∈ which.blocks s.session.heap := by
        intro b here
        rcases L.stands b here with there | ⟨_, own, _⟩
        · exact there
        · cases idle.symm.trans own
      exact pending_inStep (goOn_inStep L listed) (by rw [goOn_write, idle])
    · rw [if_neg finished] at moved
      cases moved

theorem start_inStep (start : ListingStarts base size (fun s c => c.Valid ∧ c.FitLinked s.heap) which s) :
    InStep base (base + size) which s := by
  obtain ⟨reached, iocbs, starts⟩ := start
  obtain ⟨bs, held⟩ := reaches_held reached
  obtain ⟨chain, sorted⟩ := held_list held which
  obtain ⟨empty, least⟩ := head_gap chain sorted
  rw [starts]
  refine ⟨⟨bs, held⟩, fun p member => live_bound held (iocbs p member), fun p blocked => (nomatch blocked),
    fun b member => member, fun r member => (nomatch member), List.Pairwise.nil, ?_, ?_⟩
  · refine ⟨?_, fun _ b member => (nomatch member), fun b member less => (least b member less).elim⟩
    intro null b member
    have none : which.blocks s.session.heap = [] := empty null
    change b ∈ which.blocks s.session.heap at member
    rw [none] at member
    cases member
  · intro b here
    change (if which.head s.session.heap = 0 then none else some (which.head s.session.heap)) = some b at here
    by_cases null : which.head s.session.heap = 0
    · rw [if_pos null] at here
      cases here
    · rw [if_neg null] at here
      obtain rfl := Option.some.inj here
      refine .inl ?_
      show which.head s.session.heap ∈ which.blocks s.session.heap
      rw [chain.head]
      apply headD_mem
      intro none
      rw [none] at chain
      exact null chain.head

/-- In every run in which the iocbs come from linked blocks and no call of the heap takes the block at which the
command stands off the list, what it reads is on the list, no block is printed twice, and at the end every block that
has stayed on the list has been printed once. -/
theorem memory_listed
    (reached : Reaches (ListingStarts base size (fun s c => c.Valid ∧ c.FitLinked s.heap) which)
      (Listing.Admits which) (Listing.step which) s) :
    (∀ r ∈ s.reads, r.1 ∈ r.2) ∧ s.printed.Nodup ∧ (s.place = .done → ∀ b ∈ s.stays, s.printed.count b = 1) := by
  have L : InStep base (base + size) which s := by
    apply reaches_invariant (P := InStep base (base + size) which) ?_ ?_ reached
    · intro s start
      exact start_inStep start
    · intro s i s' L admitted moved
      exact step_inStep L admitted moved
  have once : s.printed.Nodup := L.rising.imp Nat.ne_of_lt
  refine ⟨L.reads, once, ?_⟩
  intro ends b member
  have passed := L.passed
  rw [ends] at passed
  exact List.count_eq_one_of_mem once (passed b member)

/-! ### Runs on fixed inputs -/

instance linkedDecidable (s : Listing) : (i : ListingInput) → Decidable (s.Linked i)
  | .requests | .writes => inferInstanceAs (Decidable (FitLinked s.session.heap iocbSize))
  | .completes _ | .written | .goesOn => .isTrue trivial

instance sparesDecidable (s : Listing) (which : Shown) (b : Nat) : (i : ListingInput) → Decidable (s.Spares which b i)
  | .requests => inferInstanceAs (Decidable (which.Spares s.session.heap b (.allocate iocbSize)))
  | .completes iocb => inferInstanceAs (Decidable (which.Spares s.session.heap b (.free iocb)))
  | .writes => inferInstanceAs (Decidable (_ ∨ _))
  | .written => inferInstanceAs (Decidable (∀ p ∈ s.write.iocb, _ ∨ _))
  | .goesOn => .isTrue trivial

instance admitsDecidable (which : Shown) (s : Listing) (i : ListingInput) : Decidable (s.Admits which i) :=
  inferInstanceAs (Decidable (_ ∧ _))

/-- Some calls, and then the command. -/
def listing (which : Shown) (admits : Session → Call → Prop) [∀ s c, Decidable (admits s c)]
    (ok : Listing → ListingInput → Prop) [∀ s i, Decidable (ok s i)] (calls : List Call) (iocbs : List Nat)
    (inputs : List ListingInput) : Option (Session × Listing) :=
  (run admits step (startSession 4096 1000) calls).bind fun session =>
    (run ok (Listing.step which) (.start which session iocbs) inputs).map (session, ·)

theorem listing_reaches {admits : Session → Call → Prop} [∀ s c, Decidable (admits s c)]
    {ok : Listing → ListingInput → Prop} [∀ s i, Decidable (ok s i)] {calls : List Call} {iocbs : List Nat}
    {inputs : List ListingInput} (ran : listing which admits ok calls iocbs inputs = some (session, s))
    (live : ∀ p ∈ iocbs, (p, iocbSize) ∈ session.live) :
    Reaches (ListingStarts 4096 1000 admits which) ok (Listing.step which) s := by
  unfold listing at ran
  obtain ⟨session', called, ran⟩ := Option.bind_eq_some_iff.mp ran
  obtain ⟨s', walked, same⟩ := Option.map_eq_some_iff.mp ran
  obtain ⟨rfl, rfl⟩ := Prod.mk.inj same
  have begins := startSession_starts 4096 1000 (by decide) (by decide) (by decide)
  have start : ListingStarts 4096 1000 admits which (.start which session' iocbs) :=
    ⟨run_reaches (.start begins) called, live, rfl⟩
  exact run_reaches (.start start) walked

/-- A WRITE of the command, and what other processes do meanwhile. -/
def during (inputs : List ListingInput) : List ListingInput := .writes :: inputs ++ [.written, .goesOn]

/-- Other processes make a request, whose iocb is shown last, and have one completed, whose iocb is not shown, while
the command shows the allocated blocks, and while it shows the free ones, in the first of which its own iocbs lie. -/
theorem memory_listed_example :
    (∃ s : Listing, s.printed = [4096, 4150, 4224] ∧ s.stays = [4096, 4150] ∧ ∀ b ∈ s.stays, s.printed.count b = 1) ∧
    ∃ s : Listing, s.printed = [4118, 4252] ∧ s.stays = [4252] ∧ ∀ b ∈ s.stays, s.printed.count b = 1 := by
  refine ⟨?_, ?_⟩
  · have ran : (listing .allocated (fun s c => c.Valid ∧ c.FitLinked s.heap) (Listing.Admits .allocated)
        [.allocate 10, .allocate 20, .allocate 30] [4130]
        (during [] ++ during [.requests] ++ during [] ++ during [.completes 4130] ++
          (List.replicate 12 (during [])).flatten)).map
          (fun x => (decide ((4130, iocbSize) ∈ x.1.live), x.2.place, x.2.printed, x.2.stays)) =
        some (true, .done, [4096, 4150, 4224], [4096, 4150]) := by
      decide +kernel
    obtain ⟨⟨session, s⟩, ran, seen⟩ := Option.map_eq_some_iff.mp ran
    simp only [Prod.mk.injEq, decide_eq_true_eq] at seen
    obtain ⟨live, place, printed, stays⟩ := seen
    have known : ∀ p ∈ [4130], (p, iocbSize) ∈ session.live := by
      intro p member
      rw [List.mem_singleton.mp member]
      exact live
    exact ⟨s, printed, stays, (memory_listed (listing_reaches ran known)).2.2 place⟩
  · have ran : (listing .free (fun s c => c.Valid ∧ c.FitLinked s.heap) (Listing.Admits .free)
        [.allocate 10, .allocate 100, .allocate 10, .free 4130] []
        (during [] ++ during [.requests] ++ during [.completes 4162] ++
          (List.replicate 8 (during [])).flatten)).map (fun x => (x.2.place, x.2.printed, x.2.stays)) =
        some (.done, [4118, 4252], [4252]) := by
      decide +kernel
    obtain ⟨⟨session, s⟩, ran, seen⟩ := Option.map_eq_some_iff.mp ran
    simp only [Prod.mk.injEq] at seen
    obtain ⟨place, printed, stays⟩ := seen
    have known : ∀ p ∈ ([] : List Nat), (p, iocbSize) ∈ session.live := by
      intro p member
      exact nomatch member
    exact ⟨s, printed, stays, (memory_listed (listing_reaches ran known)).2.2 place⟩

/-- A request of another process is done while the command prints the block of its iocb. -/
theorem memory_mislisted : ¬∀ (base size : Nat) (which : Shown) (s : Listing),
    Reaches (ListingStarts base size (fun _ c => c.Valid) which) (fun _ _ => True) (Listing.step which) s →
      (∀ r ∈ s.reads, r.1 ∈ r.2) ∧ (s.place = .done → ∀ b ∈ s.stays, s.printed.count b = 1) := by
  intro always
  have ran : (listing .allocated (fun _ c => c.Valid) (fun _ _ => True) [.allocate 20, .allocate 10] [4108]
      [.writes, .written, .goesOn, .writes, .written, .completes 4108, .goesOn]).map
        (fun x => (decide ((4108, iocbSize) ∈ x.1.live), x.2.reads)) = some (true, [(4096, [4128])]) := by
    decide +kernel
  obtain ⟨⟨session, s⟩, ran, seen⟩ := Option.map_eq_some_iff.mp ran
  obtain ⟨live, reads⟩ := Prod.mk.inj seen
  have known : ∀ p ∈ [4108], (p, iocbSize) ∈ session.live := by
    intro p member
    rw [List.mem_singleton.mp member]
    exact of_decide_eq_true live
  have right := (always _ _ _ s (listing_reaches ran known)).1
  rw [reads] at right
  exact absurd (right _ List.mem_cons_self) (by decide)

end Mpx.Heap

import Mpx.Library.ByteMemory

/-! # The heap allocator

`initialize_heap`, `allocate_memory` and `free_memory` of `kernel/memory.c`, over the bytes of
memory that hold the heap and its control blocks. -/

namespace Mpx.Heap
open Library.ByteMemory

/-- The fields of `struct mcb`. -/
inductive Field where
  | pPrev | pNext | blkSize
  deriving DecidableEq

def Field.offset : Field → Nat
  | .pPrev => 0
  | .pNext => 4
  | .blkSize => 8

/-- `sizeof(struct mcb)`. -/
def mcbSize : Nat := 12

/-- `b->f`. -/
def get (m : Mem) (b : Nat) (f : Field) : Nat := load m (b + f.offset)

/-- `b->f = v`. -/
def set (m : Mem) (b : Nat) (f : Field) (v : Nat) : Mem := store m (b + f.offset) v

/-- `if (b != NULL) b->f = v`. -/
def setSome (m : Mem) (b : Nat) (f : Field) (v : Nat) : Mem := if b ≠ 0 then set m b f v else m

/-- Arithmetic on `size_t` and on pointers. -/
def word (n : Nat) : Nat := n % 2 ^ 32

def addressSpace : Nat := 2 ^ 32

structure HeapState where
  mem : Mem
  heapIsinit : Bool
  freeHead : Nat
  allocHead : Nat

/-- `base` is the region that `kmalloc(size, 0, NULL)` returns. -/
def initializeHeap (h : HeapState) (size base : Nat) : HeapState :=
  if h.heapIsinit then h
  else
    let m := set h.mem base .pPrev 0
    let m := set m base .pNext 0
    let m := set m base .blkSize (word (size + 2 ^ 32 - mcbSize))
    { h with mem := m, freeHead := base, heapIsinit := true }

/-- The first loop of `allocate_memory`: the selected free block, or 0, and `blk_replace_free`.
A search of more steps than there are addresses goes round for ever: `none`. -/
def findFit (m : Mem) (size : Nat) : Nat → Nat → Option (Nat × Bool)
  | 0, _ => none
  | fuel + 1, iter =>
    if iter = 0 then some (0, false)
    else
      let replace := decide (get m iter .blkSize ≤ word (size + mcbSize)) &&
        decide (get m iter .blkSize ≥ size)
      if get m iter .blkSize ≥ word (size + mcbSize) ∨ replace then some (iter, replace)
      else findFit m size fuel (get m iter .pNext)

/-- The search of both functions for the blocks of a list on either side of `target`. -/
def findNeighbours (m : Mem) (target : Nat) : Nat → Nat → Nat → Option (Nat × Nat)
  | 0, _, _ => none
  | fuel + 1, select, next =>
    if next = 0 then some (select, next)
    else if next > target then some (select, next)
    else findNeighbours m target fuel next (get m next .pNext)

/-- `*to = *from`. -/
def copyMcb (m : Mem) (source target : Nat) : Mem :=
  set (set (set m target .pPrev (get m source .pPrev)) target .pNext (get m source .pNext))
    target .blkSize (get m source .blkSize)

/-- The branch of `allocate_memory` that moves the free block ahead of the allocation. -/
def splitFree (h : HeapState) (select req : Nat) : HeapState :=
  let new := word (select + req)
  let m := copyMcb h.mem select new
  let m := setSome m (get m new .pPrev) .pNext new
  let m := setSome m (get m new .pNext) .pPrev new
  let m := set m new .blkSize (word (get m new .blkSize + 2 ^ 32 - req))
  { h with mem := m, freeHead := if select = h.freeHead then new else h.freeHead }

/-- The branch that hands out the whole free block. -/
def replaceFree (h : HeapState) (select : Nat) : HeapState :=
  { h with freeHead := if select = h.freeHead then get h.mem h.freeHead .pNext else h.freeHead }

def insertAlloc (h : HeapState) (new select next : Nat) : HeapState :=
  if h.allocHead ≠ 0 then
    let m := set h.mem new .pNext next
    let m := set m new .pPrev select
    let m := setSome m select .pNext new
    { h with mem := setSome m next .pPrev new }
  else
    { h with mem := set (set h.mem new .pNext 0) new .pPrev 0, allocHead := new }

def allocateMemory (h : HeapState) (size : Nat) : Option (HeapState × Nat) :=
  if !h.heapIsinit then some (h, 0)
  else do
    let req := word (size + mcbSize)
    let (select, replace) ← findFit h.mem size addressSpace h.freeHead
    if select = 0 then return (h, 0)
    let (allocSelect, allocNext) ← findNeighbours h.mem select addressSpace 0 h.allocHead
    let blk := if replace then get h.mem select .blkSize else size
    let h := if replace then replaceFree h select else splitFree h select req
    let h := insertAlloc { h with mem := set h.mem select .blkSize blk } select allocSelect allocNext
    return (h, word (select + mcbSize))

/-- The search of `free_memory` in the allocated list. -/
def findAlloc (m : Mem) (tofree : Nat) : Nat → Nat → Option Nat
  | 0, _ => none
  | fuel + 1, iter =>
    if iter = 0 then some 0
    else if iter = tofree then some iter
    else findAlloc m tofree fuel (get m iter .pNext)

def unlinkAlloc (h : HeapState) (tofree : Nat) : HeapState :=
  let h :=
    if tofree = h.allocHead then { h with allocHead := get h.mem tofree .pNext }
    else { h with mem := set h.mem (get h.mem tofree .pPrev) .pNext (get h.mem tofree .pNext) }
  { h with mem := setSome h.mem (get h.mem tofree .pNext) .pPrev (get h.mem tofree .pPrev) }

/-- `left` absorbs the free block `right` behind it. -/
def absorbNext (m : Mem) (left right : Nat) : Mem :=
  let m := set m left .blkSize (word (get m left .blkSize + (get m right .blkSize + mcbSize)))
  let m := set m left .pNext (get m right .pNext)
  setSome m (get m right .pNext) .pPrev left

/-- The address behind a block. -/
def blkEnd (m : Mem) (b : Nat) : Nat := word (b + mcbSize + get m b .blkSize)

/-- Forward merge of the freed block, or a link to the free block ahead of it. -/
def joinNext (m : Mem) (tofree next : Nat) : Mem :=
  if blkEnd m tofree = next then absorbNext m tofree next
  else set (set m tofree .pNext next) next .pPrev tofree

/-- The second half of `free_memory`: `select` and `next` are the free blocks on either side. -/
def insertFree (h : HeapState) (tofree select next : Nat) : HeapState :=
  if h.freeHead = 0 then
    { h with mem := set (set h.mem tofree .pNext 0) tofree .pPrev 0, freeHead := tofree }
  else if select ≠ 0 then
    if blkEnd h.mem select = tofree then
      let m := set h.mem select .blkSize
        (word (get h.mem select .blkSize + (get h.mem tofree .blkSize + mcbSize)))
      if next ≠ 0 then
        if blkEnd m tofree = next then { h with mem := absorbNext m select next }
        else { h with mem := m }
      else { h with mem := set m select .pNext 0 }
    else
      -- `select->p_next` keeps its value here.
      let m := set h.mem tofree .pPrev select
      if next ≠ 0 then
        { h with
          mem := joinNext m tofree next
          freeHead := if next = h.freeHead then tofree else h.freeHead }
      else { h with mem := m }
  else
    { h with mem := joinNext (set h.mem tofree .pPrev 0) tofree next, freeHead := tofree }

def freeMemory (h : HeapState) (ptr : Nat) : Option (HeapState × Int) :=
  if !h.heapIsinit then some (h, 1)
  else do
    let tofree := word (ptr + 2 ^ 32 - mcbSize)
    let iter ← findAlloc h.mem tofree addressSpace h.allocHead
    if iter = 0 then return (h, 1)
    let h := unlinkAlloc h tofree
    let (select, next) ← findNeighbours h.mem tofree addressSpace 0 h.freeHead
    return (insertFree h tofree select next, 0)

end Mpx.Heap

import Mpx.Library.Bitmap
import Mpx.Library.ByteMemory
import Mpx.Library.Loop

/-! # Virtual memory

The second half of `kernel/core.c`: frames, page tables, the primitive kernel heap, and `vm_init`. -/

namespace Mpx.Paging
open Library.ByteMemory Library.Loop

def kheapBase : UInt32 := 0xD000000
def kheapSize : UInt32 := 0x10000
def pageSize : UInt32 := 0x1000
def memSize : Nat := 0x4000000
def nframes : Nat := memSize / pageSize.toNat
def frameBit : Nat := 32

/-- The bit fields of a `page_entry`. -/
structure PageEntry where
  present : BitVec 1
  writeable : BitVec 1
  usermode : BitVec 1
  accessed : BitVec 1
  dirty : BitVec 1
  reserved : BitVec 7
  frameaddr : BitVec 20
  deriving DecidableEq

/-- The first field is in the lowest bits. -/
def PageEntry.toWord (e : PageEntry) : Nat :=
  e.present.toNat + 2 * e.writeable.toNat + 4 * e.usermode.toNat + 8 * e.accessed.toNat + 16 * e.dirty.toNat +
    32 * e.reserved.toNat + 4096 * e.frameaddr.toNat

def PageEntry.ofWord (w : Nat) : PageEntry where
  present := .ofNat 1 w
  writeable := .ofNat 1 (w / 2)
  usermode := .ofNat 1 (w / 4)
  accessed := .ofNat 1 (w / 8)
  dirty := .ofNat 1 (w / 16)
  reserved := .ofNat 7 (w / 32)
  frameaddr := .ofNat 20 (w / 4096)

def PageEntry.give (e : PageEntry) (index : Nat) : PageEntry :=
  { e with present := 1, frameaddr := .ofNat 20 index, writeable := 1, usermode := 0 }

/-- Physical memory, the variables of the file, and the two registers that `vm_init` loads. -/
structure Vm where
  mem : Mem
  frames : Nat → UInt32
  kdir : UInt32
  physAllocAddr : UInt32
  heapIsInitialized : Bool
  heapAddr : UInt32
  cr0 : UInt32
  cr3 : UInt32
  /-- The frames that `new_frame` has handed out, the last one first. The source keeps no such list. -/
  handed : List Nat

inductive Halt where
  | kpanic | outOfFuel
  deriving DecidableEq

def loadWord (m : Mem) (a : UInt32) : UInt32 := .ofNat (load m a.toNat)

def storeWord (m : Mem) (a v : UInt32) : Mem := store m a.toNat v.toNat

def alloc (s : Vm) (size : UInt32) : Except Halt (Vm × UInt32) :=
  let base := s.heapAddr
  let heapAddr := s.heapAddr + size
  if heapAddr > kheapBase + kheapSize then .error .kpanic else .ok ({ s with heapAddr := heapAddr }, base)

/-- `&dir->tables[addr / PAGE_SIZE / 1024]`. The array `tables_phys` lies 4096 bytes behind `tables`. -/
def tableSlot (dir addr : UInt32) : UInt32 := dir + 4 * (addr / pageSize / 1024)

def pageOffset (addr : UInt32) : UInt32 := 4 * (addr / pageSize % 1024)

/-- `get_page(addr, dir, 0)`. -/
def findPage (m : Mem) (addr dir : UInt32) : UInt32 :=
  let table := loadWord m (tableSlot dir addr)
  if table ≠ 0 then table + pageOffset addr else 0

def readPage (m : Mem) (page : UInt32) : PageEntry := .ofWord (load m page.toNat)

def writePage (m : Mem) (page : UInt32) (e : PageEntry) : Mem := store m page.toNat e.toWord

/-- The result comes with what is stored to `*phys_addr`, if that is asked for. -/
def kmalloc (s : Vm) (size : UInt32) (pageAlign physAddr : Bool) : Except Halt (Vm × UInt32 × Option UInt32) :=
  if s.heapIsInitialized then do
    let (s, addr) ← alloc s size
    let phys := if physAddr then
        some ((readPage s.mem (findPage s.mem addr s.kdir)).frameaddr.toNat.toUInt32 * 0x1000 + (addr &&& 0xFFF))
      else none
    return (s, addr, phys)
  else
    let addr := if pageAlign ∧ s.physAllocAddr &&& 0xFFFFF000 ≠ 0 then (s.physAllocAddr &&& 0xFFFFF000) + 0x1000
      else s.physAllocAddr
    .ok ({ s with physAllocAddr := addr + size }, addr, if physAddr then some addr else none)

/-- `get_page(addr, dir, 1)`. -/
def getPage (s : Vm) (addr dir : UInt32) : Except Halt (Vm × UInt32) :=
  if loadWord s.mem (tableSlot dir addr) ≠ 0 then .ok (s, findPage s.mem addr dir)
  else do
    let (s, table, phys) ← kmalloc s 4096 true true
    let m := storeWord s.mem (tableSlot dir addr) table
    let m := storeWord m (tableSlot dir addr + 4096) (phys.getD 0 ||| 7)
    return ({ s with mem := m }, loadWord m (tableSlot dir addr) + pageOffset addr)

/-- The inner loop of `find_free`, from the bit `j` on. -/
def findBit (word : UInt32) : Nat → Nat → Option Nat
  | 0, _ => none
  | n + 1, j => if word &&& (1 <<< UInt32.ofNat j) = 0 then some j else findBit word n (j + 1)

/-- The outer loop, with `n` words to go. -/
def findFreeFrom (frames : Nat → UInt32) : Nat → Nat → Option Nat
  | 0, _ => none
  | n + 1, i =>
    if frames i ≠ 0xFFFFFFFF then
      match findBit (frames i) frameBit 0 with
      | some j => some (i * frameBit + j)
      | none => findFreeFrom frames n (i + 1)
    else findFreeFrom frames n (i + 1)

/-- `none` is `-1`. -/
def findFree (frames : Nat → UInt32) : Option Nat := findFreeFrom frames (nframes / frameBit) 0

def setBit (frames : Nat → UInt32) (addr : Nat) : Nat → UInt32 :=
  let frame := addr / pageSize.toNat
  let index := frame / frameBit
  let offset := frame % frameBit
  Function.update frames index (frames index ||| (1 <<< UInt32.ofNat offset))

def newFrame (s : Vm) (page : UInt32) : Except Halt Vm :=
  let e := readPage s.mem page
  if e.frameaddr ≠ 0 then .ok s
  else
    match findFree s.frames with
    | none => .error .kpanic
    | some index => .ok { s with
        frames := setBit s.frames (index * pageSize.toNat)
        mem := writePage s.mem page (e.give index)
        handed := index :: s.handed }

/-- `for (uint32_t i = ...; i < bound; i += step) body(i)`. -/
def forLoop (bound : Vm → UInt32) (step : UInt32) (body : Vm → UInt32 → Except Halt Vm) (fuel : Nat) (i : UInt32)
    (s : Vm) : Except Halt Vm :=
  (loop .outOfFuel (fun x : UInt32 × Vm => x.1 < bound x.2)
    (fun x => (body x.2 x.1).map fun s => (x.1 + step, s)) fuel (i, s)).map (·.2)

def createDirectory (s : Vm) : Except Halt Vm := do
  let (s, kdir, _) ← kmalloc s 8192 true false
  return { s with kdir := kdir, mem := fill kdir.toNat 0 8192 s.mem }

def touchPage (s : Vm) (i : UInt32) : Except Halt Vm := (getPage s i s.kdir).map (·.1)

def mapPage (s : Vm) (i : UInt32) : Except Halt Vm := do
  let (s, page) ← getPage s i s.kdir
  newFrame s page

/-- Page 0 is taken out, and paging begins. -/
def enablePaging (s : Vm) : Vm :=
  { s with
    mem := fill (loadWord s.mem s.kdir).toNat 0 4 s.mem
    cr3 := s.kdir + 4096
    cr0 := s.cr0 ||| 0x80000000
    heapIsInitialized := true }

def vmInit (fuel : Nat) (s : Vm) : Except Halt Vm := do
  let s ← createDirectory s
  let s ← forLoop (fun _ => kheapBase + kheapSize) 1 touchPage fuel kheapBase s
  let s ← forLoop (fun s => s.physAllocAddr + 0x10000) pageSize mapPage fuel 0 s
  let s ← forLoop (fun _ => kheapBase + kheapSize) pageSize mapPage fuel kheapBase s
  return enablePaging s

end Mpx.Paging

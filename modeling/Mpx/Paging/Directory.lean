import Mpx.Paging.Frames

/-! # The page directory

Where the tables stand that `vm_init` makes, and what a turn of its loops does to them. -/

namespace Mpx.Paging
open Library.ByteMemory Library.Bitmap Library.Words

def pageOf (s : Vm) (a : UInt32) : Option PageEntry :=
  if findPage s.mem a s.kdir ≠ 0 then some (readPage s.mem (findPage s.mem a s.kdir)) else none

/-! ### The tables -/

/-- The table `t`: the first `T` are those of the identity mapping, and that of the heap stands in front of
them. A page is left out between any two. -/
def tableAt (H T t : Nat) : Nat := if t < T then H + 8192 * t + 8192 else if t = 52 then H else 0

/-- Where the entry of page `q` stands. -/
def entryAt (H T q : Nat) : Nat := tableAt H T (q / 1024) + 4 * (q % 1024)

/-- The entry of page `q`, when `n` pages and `k` pages of the heap have their frames. -/
def wordAt (n k q : Nat) : Nat :=
  if q < n then mapped q else if 53248 ≤ q ∧ q < 53248 + k then mapped (n + (q - 53248)) else 0

/-- The tables that `n` pages take. -/
def tablesFor (n : Nat) : Nat := (n + 1023) / 1024

variable {D H T n k q q' t t' : Nat} {s : Vm} {a page : UInt32}

theorem tableAt_range (real : tableAt H T t ≠ 0) :
    H ≤ tableAt H T t ∧ tableAt H T t + 4096 ≤ H + 4096 + 8192 * T := by
  unfold tableAt at real ⊢
  split
  · omega
  split
  · omega
  · rename_i first second
    rw [if_neg first, if_neg second] at real
    exact absurd rfl real

theorem tableAt_apart (real : tableAt H T t ≠ 0) (real' : tableAt H T t' ≠ 0) (few : T ≤ 17) (different : t ≠ t') :
    tableAt H T t + 4096 ≤ tableAt H T t' ∨ tableAt H T t' + 4096 ≤ tableAt H T t := by
  unfold tableAt at real real' ⊢
  split_ifs at real real' ⊢ <;> omega

theorem entryAt_apart (real : tableAt H T (q / 1024) ≠ 0) (real' : tableAt H T (q' / 1024) ≠ 0) (few : T ≤ 17)
    (different : q ≠ q') : entryAt H T q + 4 ≤ entryAt H T q' ∨ entryAt H T q' + 4 ≤ entryAt H T q := by
  unfold entryAt
  by_cases same : q / 1024 = q' / 1024
  · rw [same]
    omega
  · have apart := tableAt_apart real real' few same
    omega

theorem entryAt_range (real : tableAt H T (q / 1024) ≠ 0) :
    H ≤ entryAt H T q ∧ entryAt H T q + 4 ≤ H + 4096 + 8192 * T := by
  have range := tableAt_range real
  unfold entryAt
  omega

/-- The directory at `D`, the table of the heap at `H` and `T` tables behind it, in which `n` pages have been
mapped, and `k` pages of the heap. -/
structure Built (s : Vm) (D H T n k : Nat) : Prop where
  dir : s.kdir.toNat = D
  early : s.heapIsInitialized = false
  aligned : H % 4096 = 0
  apart : D + 8192 ≤ H
  room : H + 0x33000 < 2 ^ 32
  few : T ≤ 17
  covered : n ≤ 1024 * T
  short : k ≤ 16
  phys : s.physAllocAddr.toNat = H + 4096 + 8192 * T
  table : ∀ t < 1024, load s.mem (D + 4 * t) = tableAt H T t
  tablePhys : ∀ t < 1024, load s.mem (D + 4096 + 4 * t) = if tableAt H T t = 0 then 0 else tableAt H T t + 7
  entry : ∀ q < 2 ^ 20, tableAt H T (q / 1024) ≠ 0 → load s.mem (entryAt H T q) = wordAt n k q
  clear : ∀ x, H + 4096 + 8192 * T ≤ x → s.mem x = 0
  filled : Filled s.frames (n + k)
  handed : s.handed = (List.range (n + k)).reverse

theorem toNat_loadWord (m : Mem) (a : UInt32) : (loadWord m a).toNat = load m a.toNat :=
  UInt32.toNat_ofNat_of_lt' (load_lt m _)

theorem page_index (a : UInt32) : (a / pageSize / 1024).toNat = a.toNat / 4096 / 1024 := by
  rw [UInt32.toNat_div, UInt32.toNat_div]
  rfl

theorem page_small (a : UInt32) : a.toNat / 4096 < 2 ^ 20 := by
  have := a.toNat_lt
  omega

theorem pageOffset_toNat (a : UInt32) : (pageOffset a).toNat = 4 * (a.toNat / 4096 % 1024) := by
  have offset : (a / pageSize % 1024).toNat = a.toNat / 4096 % 1024 := by
    rw [UInt32.toNat_mod, UInt32.toNat_div]
    rfl
  unfold pageOffset
  rw [UInt32.toNat_mul, offset]
  change 4 * (a.toNat / 4096 % 1024) % 2 ^ 32 = _
  omega

theorem tableSlot_toNat {dir : UInt32} (room : dir.toNat + 4096 ≤ 2 ^ 32) (a : UInt32) :
    (tableSlot dir a).toNat = dir.toNat + 4 * (a.toNat / 4096 / 1024) := by
  have := a.toNat_lt
  have slot : (4 * (a / pageSize / 1024) : UInt32).toNat = 4 * (a.toNat / 4096 / 1024) := by
    rw [UInt32.toNat_mul, page_index]
    change 4 * (a.toNat / 4096 / 1024) % 2 ^ 32 = _
    omega
  unfold tableSlot
  rw [offset_toNat (by omega), slot]

namespace Built

theorem slot (B : Built s D H T n k) (a : UInt32) :
    (tableSlot s.kdir a).toNat = D + 4 * (a.toNat / 4096 / 1024) := by
  have apart := B.apart
  have room := B.room
  rw [← B.dir]
  rw [← B.dir] at apart
  exact tableSlot_toNat (by omega) a

theorem slotWord (B : Built s D H T n k) (a : UInt32) :
    (loadWord s.mem (tableSlot s.kdir a)).toNat = tableAt H T (a.toNat / 4096 / 1024) := by
  have small := page_small a
  rw [toNat_loadWord, B.slot, B.table _ (by omega)]

theorem slot_zero (B : Built s D H T n k) (a : UInt32) :
    loadWord s.mem (tableSlot s.kdir a) = 0 ↔ tableAt H T (a.toNat / 4096 / 1024) = 0 := by
  rw [← UInt32.toNat_inj, B.slotWord]
  rfl

theorem findPage_entry (B : Built s D H T n k) (real : tableAt H T (a.toNat / 4096 / 1024) ≠ 0) :
    (findPage s.mem a s.kdir).toNat = entryAt H T (a.toNat / 4096) := by
  have range := tableAt_range real
  have room := B.room
  have few := B.few
  unfold findPage entryAt
  rw [if_pos (mt (B.slot_zero a).mp real), offset_toNat, B.slotWord, pageOffset_toNat]
  rw [B.slotWord, pageOffset_toNat]
  omega

theorem findPage_zero (B : Built s D H T n k) (a : UInt32) :
    findPage s.mem a s.kdir = 0 ↔ tableAt H T (a.toNat / 4096 / 1024) = 0 := by
  have apart := B.apart
  constructor
  · intro null
    apply by_contra
    intro real
    have entry := B.findPage_entry real
    have range := entryAt_range (q := a.toNat / 4096) real
    rw [null, UInt32.toNat_zero] at entry
    omega
  · intro absent
    unfold findPage
    rw [if_neg (not_not.mpr ((B.slot_zero a).mpr absent))]

theorem pageOf_entry (B : Built s D H T n k) (a : UInt32) :
    pageOf s a = if tableAt H T (a.toNat / 4096 / 1024) = 0 then none
      else some (.ofWord (wordAt n k (a.toNat / 4096))) := by
  unfold pageOf
  by_cases real : tableAt H T (a.toNat / 4096 / 1024) = 0
  · rw [if_pos real, if_neg (not_not.mpr ((B.findPage_zero a).mpr real))]
  · rw [if_neg real, if_pos (mt (B.findPage_zero a).mp real)]
    unfold readPage
    rw [B.findPage_entry real, B.entry _ (page_small a) real]

end Built

/-! ### A new table -/

def nextPage (p : Nat) : Nat := if p < 4096 then p else p / 4096 * 4096 + 4096

theorem masked_zero (p : UInt32) : p &&& 0xFFFFF000 = 0 ↔ p.toNat < 4096 := by
  rw [← UInt32.toNat_inj, masked_toNat, UInt32.toNat_zero]
  omega

theorem kmalloc_aligned (early : s.heapIsInitialized = false) (fits : nextPage s.physAllocAddr.toNat < 2 ^ 32)
    (size : UInt32) (physAddr : Bool) :
    ∃ addr, addr.toNat = nextPage s.physAllocAddr.toNat ∧ kmalloc s size true physAddr =
      .ok ({ s with physAllocAddr := addr + size }, addr, if physAddr then some addr else none) := by
  unfold kmalloc
  rw [if_neg (by simp [early])]
  refine ⟨_, ?_, rfl⟩
  unfold nextPage at fits ⊢
  by_cases low : s.physAllocAddr.toNat < 4096
  · rw [if_pos low, if_neg fun both => both.2 ((masked_zero _).mpr low)]
  · rw [if_neg low] at fits ⊢
    rw [if_pos ⟨rfl, mt (masked_zero _).mp low⟩, offset_toNat, masked_toNat]
    · rfl
    · rw [masked_toNat]
      exact fits

theorem or_seven {a : UInt32} (aligned : a.toNat % 4096 = 0) : (a ||| 7).toNat = a.toNat + 7 := by
  have split : 2 ^ 12 * (a.toNat / 4096) = a.toNat := by omega
  rw [UInt32.toNat_or]
  have sum := Nat.two_pow_add_eq_or_of_lt (show 7 < 2 ^ 12 by decide) (a.toNat / 4096)
  rw [split] at sum
  exact sum.symm

/-- The table is entered into both arrays of the directory. -/
def entered (m : Mem) (slot table : Nat) : Mem := store (store m slot table) (slot + 4096) (table + 7)

section Entered
variable {m : Mem} {i j x table : Nat}

theorem load_entered (first : i < 1024) (other : j < 1024) (word : table < 2 ^ 32) :
    load (entered m (D + 4 * i) table) (D + 4 * j) = if j = i then table else load m (D + 4 * j) := by
  unfold entered
  rw [load_store_other (by omega)]
  split
  · rename_i same
    rw [same, load_store_same word]
  · rw [load_store_other (by omega)]

theorem load_entered_phys (first : i < 1024) (other : j < 1024) (word : table + 7 < 2 ^ 32) :
    load (entered m (D + 4 * i) table) (D + 4096 + 4 * j) =
      if j = i then table + 7 else load m (D + 4096 + 4 * j) := by
  unfold entered
  split
  · rename_i same
    rw [same, show D + 4096 + 4 * i = D + 4 * i + 4096 by omega, load_store_same word]
  · rw [load_store_other (by omega), load_store_other (by omega)]

theorem entered_behind (first : i < 1024) (behind : D + 8192 ≤ x) : entered m (D + 4 * i) table x = m x := by
  unfold entered
  rw [store_byte (by omega), store_byte (by omega)]

theorem load_entered_behind (first : i < 1024) (behind : D + 8192 ≤ x) :
    load (entered m (D + 4 * i) table) x = load m x :=
  load_congr fun _ low _ => entered_behind first (Nat.le_trans behind low)

end Entered

theorem getPage_fresh (early : s.heapIsInitialized = false) (dir : s.kdir.toNat + 8192 ≤ s.physAllocAddr.toNat)
    (room : nextPage s.physAllocAddr.toNat + 4096 ≤ 2 ^ 32) (absent : loadWord s.mem (tableSlot s.kdir a) = 0) :
    ∃ table page, table.toNat = nextPage s.physAllocAddr.toNat ∧
      page.toNat = table.toNat + 4 * (a.toNat / 4096 % 1024) ∧ getPage s a s.kdir =
        .ok ({ s with
          physAllocAddr := table + 4096
          mem := entered s.mem (s.kdir.toNat + 4 * (a.toNat / 4096 / 1024)) table.toNat }, page) := by
  have := a.toNat_lt
  have upper : nextPage s.physAllocAddr.toNat % 4096 = 0 := by
    unfold nextPage
    rw [if_neg (by omega)]
    omega
  obtain ⟨table, start, allocated⟩ := kmalloc_aligned early (by omega) 4096 true
  have dirRoom : s.kdir.toNat + 4096 ≤ 2 ^ 32 := by
    have := s.physAllocAddr.toNat_lt
    omega
  have slot := tableSlot_toNat dirRoom a
  have behind : (tableSlot s.kdir a + 4096).toNat = s.kdir.toNat + 4 * (a.toNat / 4096 / 1024) + 4096 := by
    rw [offset_toNat, slot]
    · rfl
    · rw [slot]
      change _ + 4096 < 2 ^ 32
      have := s.physAllocAddr.toNat_lt
      omega
  have memory : storeWord (storeWord s.mem (tableSlot s.kdir a) table) (tableSlot s.kdir a + 4096) (table ||| 7) =
      entered s.mem (s.kdir.toNat + 4 * (a.toNat / 4096 / 1024)) table.toNat := by
    unfold storeWord entered
    rw [behind, slot, or_seven (start ▸ upper)]
  refine ⟨table, loadWord (entered s.mem (s.kdir.toNat + 4 * (a.toNat / 4096 / 1024)) table.toNat)
    (tableSlot s.kdir a) + pageOffset a, start, ?_, ?_⟩
  · have word : (loadWord (entered s.mem (s.kdir.toNat + 4 * (a.toNat / 4096 / 1024)) table.toNat)
        (tableSlot s.kdir a)).toNat = table.toNat := by
      rw [toNat_loadWord, slot]
      unfold entered
      rw [load_store_other (by omega), load_store_same table.toNat_lt]
    rw [offset_toNat, word, pageOffset_toNat]
    rw [word, pageOffset_toNat]
    omega
  · unfold getPage
    rw [if_neg (not_not.mpr absent), allocated, ← memory]
    rfl

namespace Built

theorem getPage_found (B : Built s D H T n k) (real : tableAt H T (a.toNat / 4096 / 1024) ≠ 0) :
    getPage s a s.kdir = .ok (s, findPage s.mem a s.kdir) := by
  unfold getPage
  rw [if_pos (mt (B.slot_zero a).mp real)]

theorem tableAt_succ (small : T ≤ 17) (t : Nat) :
    tableAt H (T + 1) t = if t = T then H + 8192 * T + 8192 else tableAt H T t := by
  unfold tableAt
  split_ifs <;> omega

theorem getPage_new (B : Built s D H T n k) (next : a.toNat / 4096 / 1024 = T) (few : T ≤ 16) :
    ∃ s' page, getPage s a s.kdir = .ok (s', page) ∧ Built s' D H (T + 1) n k ∧
      page.toNat = entryAt H (T + 1) (a.toNat / 4096) := by
  have absent : tableAt H T T = 0 := by
    unfold tableAt
    rw [if_neg (Nat.lt_irrefl T), if_neg (by omega)]
  have empty := (B.slot_zero a).mpr (next ▸ absent)
  obtain ⟨dir, early, aligned, apart, room, -, covered, short, phys, table, tablePhys, entry, clear, filled,
    handed⟩ := B
  have top : nextPage s.physAllocAddr.toNat = H + 8192 * T + 8192 := by
    unfold nextPage
    rw [phys, if_neg (by omega)]
    omega
  obtain ⟨new, page, start, at_page, got⟩ := getPage_fresh (a := a) early (by omega) (by omega) empty
  rw [top] at start
  rw [next, start, dir] at got
  have grown := tableAt_succ (H := H) (T := T) (by omega)
  refine ⟨_, page, got, ?_, ?_⟩
  · have first : T < 1024 := by omega
    have word : H + 8192 * T + 8192 + 7 < 2 ^ 32 := by omega
    refine ⟨dir, early, aligned, apart, room, by omega, by omega, short, ?_, ?_, ?_, ?_, ?_, filled, handed⟩
    · rw [offset_toNat, start]
      · change _ + 4096 = _
        omega
      · rw [start]
        change _ + 4096 < _
        omega
    · intro t small
      change load (entered s.mem (D + 4 * T) (H + 8192 * T + 8192)) (D + 4 * t) = _
      rw [load_entered first small (by omega), grown, table t small]
    · intro t small
      change load (entered s.mem (D + 4 * T) (H + 8192 * T + 8192)) (D + 4096 + 4 * t) = _
      rw [load_entered_phys first small word, grown, tablePhys t small]
      by_cases here : t = T
      · rw [if_pos here, if_pos here, if_neg (by omega)]
      · rw [if_neg here, if_neg here]
    · intro q small real
      rw [grown] at real
      have old : ∀ x, H ≤ x → load (entered s.mem (D + 4 * T) (H + 8192 * T + 8192)) x = load s.mem x := fun x above =>
        load_entered_behind first (by omega)
      change load (entered s.mem (D + 4 * T) (H + 8192 * T + 8192)) _ = _
      by_cases here : q / 1024 = T
      · have at_entry : entryAt H (T + 1) q = H + 8192 * T + 8192 + 4 * (q % 1024) := by
          unfold entryAt
          rw [grown, if_pos here]
        have unmapped : wordAt n k q = 0 := by
          unfold wordAt
          rw [if_neg (by omega), if_neg (by omega)]
        have fresh : load s.mem (H + 8192 * T + 8192 + 4 * (q % 1024)) = 0 :=
          load_zero fun x low _ => clear x (by omega)
        rw [unmapped, at_entry]
        exact (old _ (by omega)).trans fresh
      · rw [if_neg here] at real
        have at_entry : entryAt H (T + 1) q = entryAt H T q := by
          unfold entryAt
          rw [grown, if_neg here]
        have range := entryAt_range (q := q) real
        rw [at_entry]
        exact (old _ range.1).trans (entry q small real)
    · intro x above
      have behind : D + 8192 ≤ x := Nat.le_trans apart (by omega)
      change entered s.mem (D + 4 * T) (H + 8192 * T + 8192) x = 0
      rw [entered_behind first behind, clear x (by omega)]
  · unfold entryAt
    rw [at_page, start, grown, if_pos next]

/-- The entry of page `q` is given the next frame. -/
theorem newFrame_next (n' k' : Nat) (B : Built s D H T n k) (small : q < 2 ^ 20)
    (real : tableAt H T (q / 1024) ≠ 0) (at_page : page.toNat = entryAt H T q) (fresh : wordAt n k q = 0)
    (room : n + k < nframes) (sum : n' + k' = n + k + 1) (covered : n' ≤ 1024 * T) (short : k' ≤ 16)
    (words : ∀ q', wordAt n' k' q' = if q' = q then mapped (n + k) else wordAt n k q') :
    ∃ s', newFrame s page = .ok s' ∧ Built s' D H T n' k' := by
  have range := entryAt_range (q := q) real
  have apart := B.apart
  have free : load s.mem page.toNat = 0 := by
    rw [at_page, B.entry q small real, fresh]
  have word : mapped (n + k) < 2 ^ 32 := by
    have bound : n + k < 16384 := room
    unfold mapped
    omega
  refine ⟨_, (newFrame_filled B.filled free).trans (if_pos room), B.dir, B.early, B.aligned, apart, B.room, B.few,
    covered, short, B.phys, ?_, ?_, ?_, ?_, ?_, ?_⟩
  · intro t below
    exact (load_store_other (by omega)).trans (B.table t below)
  · intro t below
    exact (load_store_other (by omega)).trans (B.tablePhys t below)
  · intro q' small' real'
    rw [words q', at_page]
    by_cases here : q' = q
    · rw [here, if_pos rfl]
      exact load_store_same word
    · rw [if_neg here]
      exact (load_store_other (entryAt_apart real' real B.few here)).trans (B.entry q' small' real')
  · intro x above
    exact (store_byte (by omega)).trans (B.clear x above)
  · rw [sum]
    exact setBit_filled B.filled
  · rw [sum, List.range_succ, List.reverse_append, ← B.handed]
    rfl

theorem newFrame_full (B : Built s D H T n k) (small : q < 2 ^ 20) (real : tableAt H T (q / 1024) ≠ 0)
    (at_page : page.toNat = entryAt H T q) (fresh : wordAt n k q = 0) (full : nframes ≤ n + k) :
    newFrame s page = .error .kpanic := by
  have free : load s.mem page.toNat = 0 := by
    rw [at_page, B.entry q small real, fresh]
  exact (newFrame_filled B.filled free).trans (if_neg (Nat.not_lt.mpr full))

/-- The table of the next page is there, or is made. -/
theorem getPage_next (B : Built s D H (tablesFor n) n k) (here : a.toNat / 4096 = n) (small : n ≤ nframes) :
    ∃ s' page, getPage s a s.kdir = .ok (s', page) ∧ Built s' D H (tablesFor (n + 1)) n k ∧
      page.toNat = entryAt H (tablesFor (n + 1)) n := by
  have bound : n ≤ 16384 := small
  by_cases first : n % 1024 = 0
  · have next : a.toNat / 4096 / 1024 = tablesFor n := by
      unfold tablesFor
      omega
    obtain ⟨s', page, got, built, at_page⟩ := B.getPage_new next (by unfold tablesFor; omega)
    have one : tablesFor n + 1 = tablesFor (n + 1) := by
      unfold tablesFor
      omega
    rw [one, here] at at_page
    exact ⟨s', page, got, one ▸ built, at_page⟩
  · have same : tablesFor (n + 1) = tablesFor n := by
      unfold tablesFor
      omega
    have real : tableAt H (tablesFor n) (a.toNat / 4096 / 1024) ≠ 0 := by
      unfold tableAt tablesFor
      rw [if_pos (by omega)]
      omega
    have at_page := B.findPage_entry real
    rw [here] at at_page
    rw [same]
    exact ⟨s, _, B.getPage_found real, B, at_page⟩

theorem wordAt_identity (small : n ≤ nframes) (q' : Nat) :
    wordAt (n + 1) 0 q' = if q' = n then mapped n else wordAt n 0 q' := by
  have bound : n ≤ 16384 := small
  unfold wordAt
  by_cases here : q' = n
  · rw [if_pos (by omega), if_pos here, here]
  · rw [if_neg here]
    by_cases low : q' < n
    · rw [if_pos low, if_pos (by omega)]
    · rw [if_neg low, if_neg (by omega), if_neg (by omega), if_neg (by omega)]

theorem wordAt_heap (small : n ≤ nframes) (q' : Nat) :
    wordAt n (k + 1) q' = if q' = 53248 + k then mapped (n + k) else wordAt n k q' := by
  have bound : n ≤ 16384 := small
  unfold wordAt
  by_cases here : q' = 53248 + k
  · rw [if_neg (by omega), if_pos (by omega), if_pos here, show q' - 53248 = k by omega]
  · rw [if_neg here]
    by_cases low : q' < n
    · rw [if_pos low, if_pos low]
    · rw [if_neg low, if_neg low]
      by_cases inside : 53248 ≤ q' ∧ q' < 53248 + k
      · rw [if_pos inside, if_pos (by omega)]
      · rw [if_neg inside, if_neg (by omega)]

/-- A turn of the second loop. -/
theorem mapPage_identity (B : Built s D H (tablesFor n) n 0) (here : a.toNat / 4096 = n) (small : n ≤ nframes) :
    (n < nframes ∧ ∃ s', mapPage s a = .ok s' ∧ Built s' D H (tablesFor (n + 1)) (n + 1) 0) ∨
      n = nframes ∧ mapPage s a = .error .kpanic := by
  have bound : n ≤ 16384 := small
  have above := B.apart
  obtain ⟨s', page, got, built, at_page⟩ := B.getPage_next here small
  have real : tableAt H (tablesFor (n + 1)) (n / 1024) ≠ 0 := by
    unfold tableAt tablesFor
    rw [if_pos (by omega)]
    omega
  have fresh : wordAt n 0 n = 0 := by
    unfold wordAt
    rw [if_neg (Nat.lt_irrefl n), if_neg (by omega)]
  have mapping : mapPage s a = newFrame s' page := by
    unfold mapPage
    rw [got]
    rfl
  rw [mapping]
  rcases Nat.lt_or_eq_of_le small with room | full
  · obtain ⟨s'', framed, built'⟩ := newFrame_next (n + 1) 0 built (by omega) real at_page fresh room rfl
      (by unfold tablesFor; omega) (Nat.zero_le _) (wordAt_identity small)
    exact .inl ⟨room, s'', framed, built'⟩
  · exact .inr ⟨full, built.newFrame_full (by omega) real at_page fresh (Nat.le_of_eq full.symm)⟩

/-- A turn of the third loop. -/
theorem mapPage_heap (B : Built s D H T n k) (here : a.toNat / 4096 = 53248 + k) (small : n ≤ nframes) (low : k < 16)
    (few : T ≤ 17) :
    (n + k < nframes ∧ ∃ s', mapPage s a = .ok s' ∧ Built s' D H T n (k + 1)) ∨
      nframes ≤ n + k ∧ mapPage s a = .error .kpanic := by
  have bound : n ≤ 16384 := small
  have above := B.apart
  have real : tableAt H T ((53248 + k) / 1024) ≠ 0 := by
    unfold tableAt
    rw [if_neg (by omega), if_pos (by omega)]
    omega
  have fresh : wordAt n k (53248 + k) = 0 := by
    unfold wordAt
    rw [if_neg (by omega), if_neg (by omega)]
  have at_page := B.findPage_entry (a := a) (here ▸ real)
  rw [here] at at_page
  have mapping : mapPage s a = newFrame s (findPage s.mem a s.kdir) := by
    unfold mapPage
    rw [B.getPage_found (here ▸ real)]
    rfl
  rw [mapping]
  rcases Nat.lt_or_ge (n + k) nframes with room | full
  · obtain ⟨s', framed, built⟩ := newFrame_next n (k + 1) B (by omega) real at_page fresh room rfl
      B.covered (by omega) (wordAt_heap small)
    exact .inl ⟨room, s', framed, built⟩
  · exact .inr ⟨full, B.newFrame_full (by omega) real at_page fresh full⟩

end Built

end Mpx.Paging

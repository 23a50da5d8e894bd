import Mathlib.Data.List.Nodup
import Mpx.Paging.Directory

/-! # The identity mapping

`vm_init` asks for one frame after another, and the search for the first free one makes page `i` get frame `i`. -/

namespace Mpx.Paging
open Library.ByteMemory Library.Bitmap Library.Loop Library.Words

/-! ### What is asked for -/

/-- The page of `a` is present with the frame `f`. -/
def MapsTo (s : Vm) (a : UInt32) (f : Nat) : Prop := ∃ e ∈ pageOf s a, e.present = 1 ∧ e.frameaddr.toNat = f

/-- What the processor finds from `cr3` on, where the upper 20 bits of an entry of `tables_phys` lead to a table. -/
def walkedPage (s : Vm) (a : UInt32) : Option PageEntry :=
  let entry := load s.mem (s.cr3.toNat + 4 * (a.toNat / 4096 / 1024))
  if entry % 2 = 1 then some (.ofWord (load s.mem (entry / 4096 * 4096 + 4 * (a.toNat / 4096 % 1024)))) else none

structure IdentityMapped (s : Vm) : Prop where
  walked : ∀ a, walkedPage s a = pageOf s a
  identity : ∀ a : UInt32, 0x1000 ≤ a.toNat → a.toNat < s.physAllocAddr.toNat + 0x10000 →
    MapsTo s a (a.toNat / pageSize.toNat)
  null : ∀ a : UInt32, a.toNat < 0x1000 → ¬∃ f, MapsTo s a f
  heap : ∀ a : UInt32, kheapBase ≤ a → a < kheapBase + kheapSize → ∃ f, MapsTo s a f
  injective : ∀ a b f, MapsTo s a f → MapsTo s b f → a.toNat / pageSize.toNat = b.toNat / pageSize.toNat
  bitmap : ∀ f < nframes, Marked s.frames f ↔ f ∈ s.handed
  once : s.handed.Nodup

/-- The state at the boot. Memory reads zero behind the image. -/
structure Boots (s : Vm) : Prop where
  clear : ∀ x, s.physAllocAddr.toNat ≤ x → s.mem x = 0
  frames : s.frames = fun _ => 0
  early : s.heapIsInitialized = false
  handed : s.handed = []

variable {D H T n k : Nat} {s : Vm} {a : UInt32}

/-! ### The loops -/

theorem forLoop_ends (bound : Vm → UInt32) (step : UInt32) (body : Vm → UInt32 → Except Halt Vm)
    (I : UInt32 → Vm → Prop) (Q : Halt → Prop) (measure : UInt32 → Nat) {i : UInt32}
    (turns : ∀ i s, I i s → i < bound s →
      (∃ s', body s i = .ok s' ∧ I (i + step) s' ∧ measure (i + step) < measure i) ∨ ∃ e, body s i = .error e ∧ Q e)
    (start : I i s) :
    (∃ i' s', (∀ fuel, measure i < fuel → forLoop bound step body fuel i s = .ok s') ∧ I i' s' ∧ ¬i' < bound s') ∨
      ∃ e, (∀ fuel, measure i < fuel → forLoop bound step body fuel i s = .error e) ∧ Q e := by
  have ends := loop_ends .outOfFuel (fun x : UInt32 × Vm => x.1 < bound x.2)
    (fun x => (body x.2 x.1).map fun s => (x.1 + step, s)) (fun x => I x.1 x.2) Q (fun x => measure x.1) ?_
    (s := (i, s)) start
  · unfold forLoop
    rcases ends with ⟨t, ended, kept, exit⟩ | ⟨e, ended, stopped⟩
    · exact .inl ⟨t.1, t.2, fun fuel enough => by rw [ended fuel enough]; rfl, kept, of_decide_eq_false exit⟩
    · exact .inr ⟨e, fun fuel enough => by rw [ended fuel enough]; rfl, stopped⟩
  · rintro ⟨i, s⟩ kept enter
    rcases turns i s kept (of_decide_eq_true enter) with ⟨s', turn, kept', lower⟩ | ⟨e, turn, stopped⟩
    · exact .inl ⟨(i + step, s'), by rw [turn]; rfl, kept', lower⟩
    · exact .inr ⟨e, by rw [turn]; rfl, stopped⟩

/-- The directory alone. -/
structure Cleared (s : Vm) (D : Nat) : Prop where
  dir : s.kdir.toNat = D
  early : s.heapIsInitialized = false
  phys : s.physAllocAddr.toNat = D + 8192
  clear : ∀ x, D ≤ x → s.mem x = 0
  frames : s.frames = fun _ => 0
  handed : s.handed = []

theorem createDirectory_clears (boots : Boots s) (room : s.physAllocAddr.toNat + 0x37000 < 2 ^ 32) :
    ∃ s', createDirectory s = .ok s' ∧ Cleared s' (nextPage s.physAllocAddr.toNat) := by
  have top : s.physAllocAddr.toNat ≤ nextPage s.physAllocAddr.toNat ∧
      nextPage s.physAllocAddr.toNat ≤ s.physAllocAddr.toNat + 4096 := by
    unfold nextPage
    split_ifs <;> omega
  obtain ⟨kdir, start, allocated⟩ := kmalloc_aligned boots.early (by omega) 8192 false
  have clear : ∀ x, nextPage s.physAllocAddr.toNat ≤ x → fill kdir.toNat 0 8192 s.mem x = 0 := by
    intro x low
    by_cases inside : x < kdir.toNat + 8192
    · exact fill_inside (start.trans_le low) inside
    · exact (fill_outside (.inr (Nat.le_of_not_lt inside))).trans (boots.clear x (by omega))
  generalize filled : fill kdir.toNat 0 8192 s.mem = m at clear
  refine ⟨{ s with physAllocAddr := kdir + 8192, kdir := kdir, mem := m }, ?_, start, boots.early, ?_, clear,
    boots.frames, boots.handed⟩
  · unfold createDirectory
    rw [allocated, ← filled]
    rfl
  · change (kdir + 8192).toNat = _
    rw [offset_toNat, start]
    · rfl
    · rw [start]
      change _ + 8192 < _
      omega

/-- The first turn of the first loop makes the table of the heap. -/
theorem touchPage_first (C : Cleared s D) (room : D + 0x36000 < 2 ^ 32) (here : a.toNat / 4096 / 1024 = 52) :
    ∃ s', touchPage s a = .ok s' ∧ Built s' D ((D + 8192) / 4096 * 4096 + 4096) 0 0 0 := by
  obtain ⟨dir, early, phys, clear, frames, handed⟩ := C
  have top : nextPage s.physAllocAddr.toNat = (D + 8192) / 4096 * 4096 + 4096 := by
    unfold nextPage
    rw [phys, if_neg (by omega)]
  have slot : (tableSlot s.kdir a).toNat = D + 208 := by
    rw [tableSlot_toNat (by omega), dir, here]
  have empty : loadWord s.mem (tableSlot s.kdir a) = 0 := by
    rw [← UInt32.toNat_inj, toNat_loadWord, slot]
    exact load_zero fun x low _ => clear x (by omega)
  obtain ⟨new, page, start, -, got⟩ := getPage_fresh (a := a) early (by omega) (by omega) empty
  rw [top] at start
  rw [here, start, dir] at got
  generalize hH : (D + 8192) / 4096 * 4096 + 4096 = H at start got
  refine ⟨_, by unfold touchPage; rw [got]; rfl, ?_⟩
  have table : ∀ t, tableAt H 0 t = if t = 52 then H else 0 := by
    intro t
    unfold tableAt
    rw [if_neg (Nat.not_lt_zero t)]
  have unmapped : ∀ q, wordAt 0 0 q = 0 := by
    intro q
    unfold wordAt
    rw [if_neg (Nat.not_lt_zero q), if_neg (by omega)]
  have first : 52 < 1024 := by decide
  have word : H + 7 < 2 ^ 32 := by omega
  have zero : ∀ x, D ≤ x → load s.mem x = 0 := fun x low => load_zero fun y below _ => clear y (by omega)
  refine ⟨dir, early, by omega, by omega, by omega, by decide, Nat.zero_le _, by decide, ?_, ?_, ?_, ?_, ?_, ?_,
    handed⟩
  · rw [offset_toNat, start]
    · rfl
    · rw [start]
      change _ + 4096 < _
      omega
  · intro t small
    change load (entered s.mem (D + 4 * 52) H) (D + 4 * t) = _
    rw [load_entered first small (Nat.lt_of_le_of_lt (Nat.le_add_right H 7) word), table, zero _ (by omega)]
  · intro t small
    change load (entered s.mem (D + 4 * 52) H) (D + 4096 + 4 * t) = _
    rw [load_entered_phys first small word, table, zero _ (by omega)]
    by_cases here : t = 52
    · rw [if_pos here, if_pos here, if_neg (by omega)]
    · rw [if_neg here, if_neg here, if_pos rfl]
  · intro q small real
    have range := entryAt_range (q := q) real
    change load (entered s.mem (D + 4 * 52) H) _ = _
    have behind : D + 8192 ≤ entryAt H 0 q := by omega
    rw [unmapped, load_entered_behind first behind, zero _ (by omega)]
  · intro x above
    have behind : D + 8192 ≤ x := by omega
    change entered s.mem (D + 4 * 52) H x = 0
    rw [entered_behind first behind, clear x (by omega)]
  · change Filled s.frames 0
    rw [frames]
    exact filled_zero

/-- The first loop takes one turn for each byte of the heap, and only the first turn makes a table. -/
theorem heapTable_made (C : Cleared s D) (room : D + 0x36000 < 2 ^ 32) :
    ∃ s', (∀ fuel, 0x10000 < fuel →
      forLoop (fun _ => kheapBase + kheapSize) 1 touchPage fuel kheapBase s = .ok s') ∧
        Built s' D ((D + 8192) / 4096 * 4096 + 4096) 0 0 0 := by
  generalize top : (D + 8192) / 4096 * 4096 + 4096 = H
  let I (i : UInt32) (t : Vm) : Prop :=
    i = kheapBase ∧ t = s ∨ 218103808 < i.toNat ∧ i.toNat ≤ 218169344 ∧ Built t D H 0 0 0
  have ends := forLoop_ends (fun _ => kheapBase + kheapSize) 1 touchPage I (fun _ => False)
    (fun i => 218169344 - i.toNat) ?_ (.inl ⟨rfl, rfl⟩)
  · rcases ends with ⟨i, s', ended, kept, exit⟩ | ⟨e, -, impossible⟩
    · refine ⟨s', ended, ?_⟩
      rcases kept with ⟨rfl, -⟩ | ⟨-, -, built⟩
      · exact absurd (by decide) exit
      · exact built
    · exact impossible.elim
  · intro i t kept enter
    have below : i.toNat < 218169344 := enter
    have next : (i + 1).toNat = i.toNat + 1 := offset_toNat (by change i.toNat + 1 < 2 ^ 32; omega)
    left
    rcases kept with ⟨rfl, rfl⟩ | ⟨above, -, built⟩
    · obtain ⟨s', touched, built⟩ := touchPage_first (a := kheapBase) C room rfl
      exact ⟨s', touched, .inr ⟨by decide, by decide, top ▸ built⟩, by decide⟩
    · have table : i.toNat / 4096 / 1024 = 52 := by omega
      have apart := built.apart
      have real : tableAt H 0 (i.toNat / 4096 / 1024) ≠ 0 := by
        rw [table]
        change H ≠ 0
        omega
      refine ⟨t, ?_, .inr ⟨by omega, by omega, built⟩, by omega⟩
      unfold touchPage
      rw [built.getPage_found real]
      rfl

/-- The second loop maps the pages up to the end of the tables that it makes. -/
theorem identity_made (B : Built s D H 0 0 0) :
    (∃ n s', (∀ fuel, 0x10000 < fuel →
      forLoop (fun s => s.physAllocAddr + 0x10000) pageSize mapPage fuel 0 s = .ok s') ∧
        Built s' D H (tablesFor n) n 0 ∧ n ≤ nframes ∧ n = H / 4096 + 17 + 2 * tablesFor n) ∨
      nframes < H / 4096 + 49 ∧ ∀ fuel, 0x10000 < fuel →
        forLoop (fun s => s.physAllocAddr + 0x10000) pageSize mapPage fuel 0 s = .error .kpanic := by
  let I (i : UInt32) (t : Vm) : Prop :=
    ∃ n, Built t D H (tablesFor n) n 0 ∧ i.toNat = 4096 * n ∧ n ≤ nframes ∧ n ≤ H / 4096 + 17 + 2 * tablesFor n
  have bound : ∀ {t n}, Built t D H (tablesFor n) n 0 →
      (t.physAllocAddr + 0x10000).toNat = 4096 * (H / 4096 + 17 + 2 * tablesFor n) := by
    intro t n built
    have phys := built.phys
    have aligned := built.aligned
    have room := built.room
    have few := built.few
    rw [offset_toNat (by change t.physAllocAddr.toNat + 65536 < 2 ^ 32; omega)]
    change t.physAllocAddr.toNat + 65536 = _
    omega
  have ends := forLoop_ends (fun s => s.physAllocAddr + 0x10000) pageSize mapPage I
    (fun e => e = .kpanic ∧ nframes < H / 4096 + 49) (fun i => nframes - i.toNat / 4096) (i := 0) ?_
    ⟨0, B, rfl, Nat.zero_le _, Nat.zero_le _⟩
  · have enough : ∀ fuel, 0x10000 < fuel → nframes - (0 : UInt32).toNat / 4096 < fuel := by
      intro fuel more
      exact Nat.lt_trans (by decide) more
    rcases ends with ⟨i, s', ended, ⟨n, built, at_page, small, low⟩, exit⟩ | ⟨e, ended, rfl, tight⟩
    · refine .inl ⟨n, s', fun fuel more => ended fuel (enough fuel more), built, small, ?_⟩
      have passed : (s'.physAllocAddr + 0x10000).toNat ≤ i.toNat := Nat.le_of_not_lt exit
      rw [bound built] at passed
      omega
    · exact .inr ⟨tight, fun fuel more => ended fuel (enough fuel more)⟩
  · rintro i t ⟨n, built, at_page, small, -⟩ enter
    have inside : i.toNat < (t.physAllocAddr + 0x10000).toNat := enter
    rw [bound built] at inside
    have frames : n ≤ 16384 := small
    have grows : tablesFor n ≤ tablesFor (n + 1) := by
      unfold tablesFor
      omega
    have next : (i + pageSize).toNat = i.toNat + 4096 := offset_toNat (by change i.toNat + 4096 < 2 ^ 32; omega)
    rcases built.mapPage_identity (a := i) (by omega) small with ⟨more, s', turn, built'⟩ | ⟨full, turn⟩
    · exact .inl ⟨s', turn, ⟨n + 1, built', by omega, more, by omega⟩, by omega⟩
    · have tables : tablesFor n ≤ 16 := by
        unfold tablesFor
        omega
      exact .inr ⟨.kpanic, turn, rfl, by omega⟩

/-- The third loop maps the sixteen pages of the heap. -/
theorem heap_made (B : Built s D H T n 0) (small : n ≤ nframes) :
    (∃ s', (∀ fuel, 0x10000 < fuel →
      forLoop (fun _ => kheapBase + kheapSize) pageSize mapPage fuel kheapBase s = .ok s') ∧
        Built s' D H T n 16 ∧ n + 16 ≤ nframes) ∨
      nframes < n + 16 ∧ ∀ fuel, 0x10000 < fuel →
        forLoop (fun _ => kheapBase + kheapSize) pageSize mapPage fuel kheapBase s = .error .kpanic := by
  let I (i : UInt32) (t : Vm) : Prop :=
    ∃ k, Built t D H T n k ∧ i.toNat = 4096 * k + 218103808 ∧ k ≤ 16 ∧ n + k ≤ nframes
  have ends := forLoop_ends (fun _ => kheapBase + kheapSize) pageSize mapPage I
    (fun e => e = .kpanic ∧ nframes < n + 16) (fun i => 218169344 - i.toNat) (i := kheapBase) ?_
    ⟨0, B, rfl, Nat.zero_le _, small⟩
  · rcases ends with ⟨i, s', ended, ⟨k, built, at_page, short, fits⟩, exit⟩ | ⟨e, ended, rfl, tight⟩
    · have passed : 218169344 ≤ i.toNat := Nat.le_of_not_lt exit
      obtain rfl : k = 16 := by omega
      exact .inl ⟨s', ended, built, fits⟩
    · exact .inr ⟨tight, ended⟩
  · rintro i t ⟨k, built, at_page, short, fits⟩ enter
    have inside : i.toNat < 218169344 := enter
    have next : (i + pageSize).toNat = i.toNat + 4096 := offset_toNat (by change i.toNat + 4096 < 2 ^ 32; omega)
    have page : i.toNat / 4096 = 53248 + k := by omega
    rcases built.mapPage_heap page small (by omega) built.few with
      ⟨more, s', turn, built'⟩ | ⟨full, turn⟩
    · exact .inl ⟨s', turn, ⟨k + 1, built', by omega, by omega, more⟩, by omega⟩
    · exact .inr ⟨.kpanic, turn, rfl, by omega⟩

/-! ### What is mapped in the end -/

theorem mapsTo_iff (B : Built s D H T n k) (few : n ≤ nframes) {f : Nat} :
    MapsTo s a f ↔ a.toNat / 4096 < n ∧ f = a.toNat / 4096 ∨
      53248 ≤ a.toNat / 4096 ∧ a.toNat / 4096 < 53248 + k ∧ f = n + (a.toNat / 4096 - 53248) := by
  have bound : n ≤ 16384 := few
  have covered := B.covered
  have apart := B.apart
  have short := B.short
  generalize index : a.toNat / 4096 = q
  have present : ∀ {g}, g < 2 ^ 20 → wordAt n k q = mapped g → tableAt H T (q / 1024) ≠ 0 →
      (MapsTo s a f ↔ f = g) := by
    intro g small word real
    obtain ⟨set, frame⟩ := ofWord_mapped small
    unfold MapsTo
    rw [B.pageOf_entry, index, if_neg real, word]
    constructor
    · rintro ⟨e, found, -, given⟩
      obtain rfl := Option.mem_some_iff.mp found
      exact given.symm.trans frame
    · rintro rfl
      exact ⟨_, rfl, set, frame⟩
  by_cases low : q < n
  · have word : wordAt n k q = mapped q := if_pos low
    have real : tableAt H T (q / 1024) ≠ 0 := by
      unfold tableAt
      rw [if_pos (by omega)]
      omega
    rw [present (by omega) word real]
    omega
  · by_cases inside : 53248 ≤ q ∧ q < 53248 + k
    · have word : wordAt n k q = mapped (n + (q - 53248)) := (if_neg low).trans (if_pos inside)
      have real : tableAt H T (q / 1024) ≠ 0 := by
        have last := B.few
        unfold tableAt
        rw [if_neg (by omega), if_pos (by omega)]
        omega
      rw [present (by omega) word real]
      omega
    · have word : wordAt n k q = 0 := (if_neg low).trans (if_neg inside)
      constructor
      · rintro ⟨e, found, set, -⟩
        rw [B.pageOf_entry, index, word] at found
        split at found
        · exact absurd found (Option.not_mem_none e)
        · obtain rfl := Option.mem_some_iff.mp found
          exact absurd set ofWord_zero_absent
      · omega

/-- Only the entry of page 0 is changed. -/
theorem load_enabled (B : Built s D H T n k) (tables : 0 < T) {x : Nat} (out : x + 4 ≤ H + 8192 ∨ H + 8196 ≤ x) :
    load (enablePaging s).mem x = load s.mem x := by
  have table : tableAt H T 0 = H + 8192 := if_pos tables
  have first : (loadWord s.mem s.kdir).toNat = H + 8192 := by
    rw [toNat_loadWord, B.dir, ← table]
    exact B.table 0 (by decide)
  apply load_congr
  intro y low high
  change fill (loadWord s.mem s.kdir).toNat 0 4 s.mem y = s.mem y
  exact fill_outside (by omega)

theorem findPage_enabled (B : Built s D H T n k) (tables : 0 < T) (a : UInt32) :
    findPage (enablePaging s).mem a (enablePaging s).kdir = findPage s.mem a s.kdir := by
  have apart := B.apart
  have small := page_small a
  have slot : loadWord (enablePaging s).mem (tableSlot s.kdir a) = loadWord s.mem (tableSlot s.kdir a) := by
    unfold loadWord
    rw [B.slot, load_enabled B tables (by omega)]
  change findPage (enablePaging s).mem a s.kdir = _
  unfold findPage
  rw [slot]

/-- Page 0 is taken out and no other page is touched. -/
theorem pageOf_enabled (B : Built s D H T n k) (tables : 0 < T) (a : UInt32) :
    pageOf (enablePaging s) a = if a.toNat < 4096 then some (.ofWord 0) else pageOf s a := by
  have table : tableAt H T 0 = H + 8192 := if_pos tables
  have zero : entryAt H T 0 = H + 8192 := by
    unfold entryAt
    rw [Nat.zero_div, table]
  have first : (loadWord s.mem s.kdir).toNat = H + 8192 := by
    rw [toNat_loadWord, B.dir, ← table]
    exact B.table 0 (by decide)
  unfold pageOf
  rw [findPage_enabled B tables]
  by_cases real : tableAt H T (a.toNat / 4096 / 1024) = 0
  · have absent := (B.findPage_zero a).mpr real
    have above : ¬a.toNat < 4096 := by
      intro low
      rw [Nat.div_eq_of_lt low, Nat.zero_div, table] at real
      omega
    rw [if_neg (not_not.mpr absent), if_neg above, if_neg (not_not.mpr absent)]
  · have place := B.findPage_entry real
    have range := entryAt_range (q := a.toNat / 4096) real
    have present := mt (B.findPage_zero a).mp real
    rw [if_pos present]
    unfold readPage
    rw [place]
    by_cases low : a.toNat < 4096
    · have cleared : load (enablePaging s).mem (H + 8192) = 0 := by
        apply load_zero
        intro y from_start below
        change fill (loadWord s.mem s.kdir).toNat 0 4 s.mem y = 0
        exact fill_inside (by omega) (by omega)
      rw [if_pos low, Nat.div_eq_of_lt low, zero, cleared]
    · have away := entryAt_apart real (by rw [Nat.zero_div, table]; omega) B.few (show a.toNat / 4096 ≠ 0 by omega)
      rw [if_neg low, if_pos present, load_enabled B tables (by omega)]

/-- The directory at `cr3` leads to the same entries: the tables begin with a page each, and the lowest bits of their
addresses are those of `enable present, writable`. -/
theorem walkedPage_enabled (B : Built s D H T n k) (tables : 0 < T) (a : UInt32) :
    walkedPage (enablePaging s) a = pageOf (enablePaging s) a := by
  have small := page_small a
  have dir := B.dir
  have apart := B.apart
  have room := B.room
  have aligned := B.aligned
  have base : (enablePaging s).cr3.toNat = D + 4096 := by
    change (s.kdir + 4096).toNat = D + 4096
    rw [offset_toNat (by change s.kdir.toNat + 4096 < _; omega), dir]
    rfl
  have entry : load (enablePaging s).mem (D + 4096 + 4 * (a.toNat / 4096 / 1024)) =
      if tableAt H T (a.toNat / 4096 / 1024) = 0 then 0 else tableAt H T (a.toNat / 4096 / 1024) + 7 := by
    rw [load_enabled B tables (by omega)]
    exact B.tablePhys _ (by omega)
  unfold walkedPage pageOf
  rw [base, entry, findPage_enabled B tables]
  by_cases real : tableAt H T (a.toNat / 4096 / 1024) = 0
  · rw [if_pos real, if_neg (by decide), if_neg (not_not.mpr ((B.findPage_zero a).mpr real))]
  · have page : tableAt H T (a.toNat / 4096 / 1024) % 4096 = 0 := by
      unfold tableAt at real ⊢
      split_ifs at real ⊢ <;> omega
    have place : (tableAt H T (a.toNat / 4096 / 1024) + 7) / 4096 * 4096 + 4 * (a.toNat / 4096 % 1024) =
        entryAt H T (a.toNat / 4096) := by
      unfold entryAt
      omega
    rw [if_neg real, if_pos (by omega), if_pos (mt (B.findPage_zero a).mp real), place]
    unfold readPage
    rw [B.findPage_entry real]

theorem mapsTo_enabled (B : Built s D H T n k) (tables : 0 < T) {f : Nat} :
    MapsTo (enablePaging s) a f ↔ 4096 ≤ a.toNat ∧ MapsTo s a f := by
  unfold MapsTo
  rw [pageOf_enabled B tables]
  by_cases low : a.toNat < 4096
  · rw [if_pos low]
    constructor
    · rintro ⟨e, found, set, -⟩
      obtain rfl := Option.mem_some_iff.mp found
      exact absurd set ofWord_zero_absent
    · rintro ⟨above, -⟩
      omega
  · rw [if_neg low]
    exact ⟨fun maps => ⟨Nat.le_of_not_lt low, maps⟩, And.right⟩

theorem identity_enabled (B : Built s D H (tablesFor n) n 16) (few : n + 16 ≤ nframes)
    (full : n = H / 4096 + 17 + 2 * tablesFor n) : IdentityMapped (enablePaging s) := by
  have bound : n + 16 ≤ 16384 := few
  have tables : 0 < tablesFor n := by
    unfold tablesFor
    omega
  have maps : ∀ {a f}, MapsTo (enablePaging s) a f ↔ 4096 ≤ a.toNat ∧ (a.toNat / 4096 < n ∧ f = a.toNat / 4096 ∨
      53248 ≤ a.toNat / 4096 ∧ a.toNat / 4096 < 53264 ∧ f = n + (a.toNat / 4096 - 53248)) := fun {a f} => by
    rw [mapsTo_enabled B tables, mapsTo_iff B (by omega)]
  have top : s.physAllocAddr.toNat + 0x10000 = 4096 * n := by
    have phys := B.phys
    have aligned := B.aligned
    omega
  refine ⟨walkedPage_enabled B tables, ?_, ?_, ?_, ?_, ?_, ?_⟩
  · intro a low high
    change a.toNat < s.physAllocAddr.toNat + 0x10000 at high
    exact maps.mpr ⟨low, .inl ⟨by omega, rfl⟩⟩
  · rintro a low ⟨f, mapsTo⟩
    have := (maps.mp mapsTo).1
    omega
  · intro a low high
    have below : 218103808 ≤ a.toNat := low
    have above : a.toNat < 218169344 := high
    exact ⟨_, maps.mpr ⟨by omega, .inr ⟨by omega, by omega, rfl⟩⟩⟩
  · intro a b f first second
    have from_a := maps.mp first
    have from_b := maps.mp second
    change a.toNat / 4096 = b.toNat / 4096
    omega
  · intro f small
    change Marked s.frames f ↔ f ∈ s.handed
    rw [B.filled f, B.handed, List.mem_reverse, List.mem_range]
  · change s.handed.Nodup
    rw [B.handed, List.nodup_reverse]
    exact List.nodup_range

/-- Where the table of the heap stands, when the image ends at `p`. -/
def heapTable (p : Nat) : Nat := (nextPage p + 8192) / 4096 * 4096 + 4096

/-- The loops run to their ends, unless the frames run out. -/
theorem vmInit_ends (boots : Boots s) (room : s.physAllocAddr.toNat + 0x37000 < 2 ^ 32)
    (top : heapTable s.physAllocAddr.toNat = H) :
    (∃ n s', (∀ fuel, 0x10000 < fuel → vmInit fuel s = .ok (enablePaging s')) ∧
      Built s' (nextPage s.physAllocAddr.toNat) H (tablesFor n) n 16 ∧ n + 16 ≤ nframes ∧
        n = H / 4096 + 17 + 2 * tablesFor n) ∨
      16319 < H / 4096 ∧ ∀ fuel, 0x10000 < fuel → vmInit fuel s = .error .kpanic := by
  have start : nextPage s.physAllocAddr.toNat ≤ s.physAllocAddr.toNat + 4096 := by
    unfold nextPage
    split_ifs <;> omega
  obtain ⟨s₁, created, cleared⟩ := createDirectory_clears boots room
  obtain ⟨s₂, first, built₂⟩ := heapTable_made cleared (by omega)
  rw [show (nextPage s.physAllocAddr.toNat + 8192) / 4096 * 4096 + 4096 = H from top] at built₂
  have run₂ : ∀ fuel, 0x10000 < fuel → vmInit fuel s =
      ((forLoop (fun s => s.physAllocAddr + 0x10000) pageSize mapPage fuel 0 s₂).bind
        (forLoop (fun _ => kheapBase + kheapSize) pageSize mapPage fuel kheapBase)).map enablePaging := by
    intro fuel enough
    unfold vmInit
    rw [created]
    change (forLoop (fun _ => kheapBase + kheapSize) 1 touchPage fuel kheapBase s₁).bind _ = _
    rw [first fuel enough]
    change (forLoop (fun s => s.physAllocAddr + 0x10000) pageSize mapPage fuel 0 s₂).bind _ = _
    cases forLoop (fun s => s.physAllocAddr + 0x10000) pageSize mapPage fuel 0 s₂ with
    | error e => rfl
    | ok s₃ =>
      change (forLoop (fun _ => kheapBase + kheapSize) pageSize mapPage fuel kheapBase s₃).bind _ =
        (forLoop (fun _ => kheapBase + kheapSize) pageSize mapPage fuel kheapBase s₃).map enablePaging
      cases forLoop (fun _ => kheapBase + kheapSize) pageSize mapPage fuel kheapBase s₃ with
      | error e => rfl
      | ok s₄ => rfl
  rcases identity_made built₂ with ⟨n, s₃, second, built₃, small, full⟩ | ⟨tight, second⟩
  · have pages : n ≤ 16384 := small
    have tables : tablesFor n ≤ 16 := by
      unfold tablesFor
      omega
    rcases heap_made built₃ small with ⟨s₄, third, built₄, fits⟩ | ⟨tight, third⟩
    · refine .inl ⟨n, s₄, fun fuel enough => ?_, built₄, fits, full⟩
      rw [run₂ fuel enough, second fuel enough]
      change (forLoop (fun _ => kheapBase + kheapSize) pageSize mapPage fuel kheapBase s₃).map enablePaging = _
      rw [third fuel enough]
      rfl
    · have beyond : 16384 < n + 16 := tight
      refine .inr ⟨by omega, fun fuel enough => ?_⟩
      rw [run₂ fuel enough, second fuel enough]
      change (forLoop (fun _ => kheapBase + kheapSize) pageSize mapPage fuel kheapBase s₃).map enablePaging = _
      rw [third fuel enough]
      rfl
  · have beyond : 16384 < H / 4096 + 49 := tight
    refine .inr ⟨by omega, fun fuel enough => ?_⟩
    rw [run₂ fuel enough, second fuel enough]
    rfl

/-- The frames suffice for an image that ends below this address. -/
def imageLimit : Nat := 0x3FBC000

theorem heapTable_fits (p : Nat) : heapTable p / 4096 ≤ 16319 ↔ p < imageLimit := by
  unfold heapTable nextPage imageLimit
  split_ifs <;> omega

/-- The loops end. Where the frames suffice, `vm_init` builds the identity mapping, and for a later image it stops
for want of memory. -/
theorem vmInit_maps (boots : Boots s) :
    (s.physAllocAddr.toNat < imageLimit →
      ∃ s', (∀ fuel, 0x10000 < fuel → vmInit fuel s = .ok s') ∧ IdentityMapped s') ∧
    (imageLimit ≤ s.physAllocAddr.toNat → s.physAllocAddr.toNat + 0x37000 < 2 ^ 32 →
      ∀ fuel, 0x10000 < fuel → vmInit fuel s = .error .kpanic) := by
  have fits := heapTable_fits s.physAllocAddr.toNat
  have limit : imageLimit = 66830336 := rfl
  constructor
  · intro below
    rcases vmInit_ends boots (by omega) rfl with ⟨n, s', ended, built, few, full⟩ | ⟨tight, -⟩
    · exact ⟨_, ended, identity_enabled built few full⟩
    · omega
  · intro above room
    rcases vmInit_ends boots room rfl with ⟨n, s', -, -, few, full⟩ | ⟨-, ended⟩
    · have pages : n + 16 ≤ 16384 := few
      have tables : tablesFor n = (n + 1023) / 1024 := rfl
      omega
    · exact ended

def booted : Vm where
  mem x := if x < 0x10D000 then 0x90 else 0
  frames _ := 0
  kdir := 0
  physAllocAddr := 0x10D000
  heapIsInitialized := false
  heapAddr := kheapBase
  cr0 := 0
  cr3 := 0
  handed := []

theorem booted_boots : Boots booted :=
  ⟨fun x low => if_neg (Nat.not_lt.mpr (show 0x10D000 ≤ x from low)), rfl, rfl, rfl⟩

theorem vmInit_maps_booted :
    ∃ s', (∀ fuel, 0x10000 < fuel → vmInit fuel booted = .ok s') ∧ IdentityMapped s' :=
  (vmInit_maps booted_boots).1 (by decide)

end Mpx.Paging

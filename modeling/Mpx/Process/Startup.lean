import Mpx.Library.Processor
import Mpx.Library.Words
import Mpx.Process.Pcb

/-! # The start of a process

`pcb_context_init` of `kernel/pcb.c` on the bytes of memory, and the stub `sys_call_isr` of `kernel/irq.s`,
which loads what it has written. -/

namespace Mpx.Process
open Library.ByteMemory Library.Processor Library.Words

def readContext (m : Mem) (p : Nat) : Context :=
  { gs := .ofNat (load16 m p)
    pad1 := .ofNat (load16 m (p + 2))
    fs := .ofNat (load16 m (p + 4))
    pad2 := .ofNat (load16 m (p + 6))
    es := .ofNat (load16 m (p + 8))
    pad3 := .ofNat (load16 m (p + 10))
    ds := .ofNat (load16 m (p + 12))
    pad4 := .ofNat (load16 m (p + 14))
    ss := .ofNat (load16 m (p + 16))
    pad5 := .ofNat (load16 m (p + 18))
    edi := .ofNat (load m (p + 20))
    esi := .ofNat (load m (p + 24))
    ebp := .ofNat (load m (p + 28))
    esp := .ofNat (load m (p + 32))
    ebx := .ofNat (load m (p + 36))
    edx := .ofNat (load m (p + 40))
    ecx := .ofNat (load m (p + 44))
    eax := .ofNat (load m (p + 48))
    eip := .ofNat (load m (p + 52))
    cs := .ofNat (load16 m (p + 56))
    pad6 := .ofNat (load16 m (p + 58))
    eflags := .ofNat (load m (p + 60)) }

def storeContext (m : Mem) (p : Nat) (c : Context) : Mem :=
  let m := store16 m (p + 16) c.ss.toNat
  let m := store16 m (p + 12) c.ds.toNat
  let m := store16 m (p + 8) c.es.toNat
  let m := store16 m (p + 4) c.fs.toNat
  let m := store16 m p c.gs.toNat
  let m := store m (p + 20) c.edi.toNat
  let m := store m (p + 24) c.esi.toNat
  let m := store m (p + 28) c.ebp.toNat
  let m := store m (p + 32) c.esp.toNat
  let m := store m (p + 36) c.ebx.toNat
  let m := store m (p + 40) c.edx.toNat
  let m := store m (p + 44) c.ecx.toNat
  let m := store m (p + 48) c.eax.toNat
  let m := store m (p + 52) c.eip.toNat
  let m := store16 m (p + 56) c.cs.toNat
  store m (p + 60) c.eflags.toNat

/-- What `pcb_context_init` puts into a context, whose pads are those of `old`. -/
def startContext (old : Context) (func oppo : UInt32) : Context :=
  { old with
    ss := 0x0010
    ds := 0x0010
    es := 0x0010
    fs := 0x0010
    gs := 0x0010
    edi := 0
    esi := 0
    ebp := oppo
    esp := oppo
    ebx := 0
    edx := 0
    ecx := 0
    eax := 0
    eip := func
    cs := 0x0008
    eflags := 0x00000202 }

/-- `pctxt` after the arguments have been put in front of it, if there are any. -/
def argTop (pctxt fargs fargc : UInt32) : UInt32 := if fargs ≠ 0 then pctxt - fargc + 1 else pctxt

/-- `pcb_context_init`: the memory, and `pcb->pctxt`. -/
def contextInit (m : Mem) (pctxt func fargs fargc : UInt32) : Mem × UInt32 :=
  if fargc > pcbMaxArgSz then (m, pctxt)
  else
    let top := argTop pctxt fargs fargc
    let m := if fargs ≠ 0 then copy fargs.toNat top.toNat fargc.toNat m else m
    let oppo := top - 4
    let pctxt := oppo - contextSize
    (storeContext m pctxt.toNat (startContext (readContext m pctxt.toNat) func oppo), pctxt)

def sysCallIsrEntry : List Instr :=
  [.cli, .pushad, .pushSeg .ss, .pushSeg .ds, .pushSeg .es, .pushSeg .fs, .pushSeg .gs, .push .esp]

def sysCallIsrRet : List Instr :=
  [.popSeg .gs, .popSeg .fs, .popSeg .es, .popSeg .ds, .popSeg .ss, .popad, .iret]

/-- `sys_call_isr` behind its call. -/
def sysCallIsrExit (c : Cpu) : Cpu :=
  if c.reg .eax = 0 then run c (.addEsp 4 :: sysCallIsrRet) else run c (.mov .esp .eax :: sysCallIsrRet)

/-! ### What the stub loads -/

/-- The processor with a context loaded. The saved `esp` is not part of it. -/
def loadContext (c : Cpu) (context : Context) (esp : UInt32) : Cpu :=
  { c with
    reg := fun
      | .eax => context.eax
      | .ecx => context.ecx
      | .edx => context.edx
      | .ebx => context.ebx
      | .esp => esp
      | .ebp => context.ebp
      | .esi => context.esi
      | .edi => context.edi
    seg := fun
      | .cs => context.cs
      | .ds => context.ds
      | .es => context.es
      | .fs => context.fs
      | .gs => context.gs
      | .ss => context.ss
    eip := context.eip
    eflags := context.eflags }

theorem readContext_congr {m m' : Mem} {p : Nat} (same : ∀ x, p ≤ x → x < p + 64 → m' x = m x) :
    readContext m' p = readContext m p := by
  have half : ∀ n, n + 2 ≤ 64 → load16 m' (p + n) = load16 m (p + n) := fun n inside =>
    load16_congr fun x low high => same x (by omega) (by omega)
  have word : ∀ n, n + 4 ≤ 64 → load m' (p + n) = load m (p + n) := fun n inside =>
    load_congr fun x low high => same x (by omega) (by omega)
  have first : load16 m' p = load16 m p := half 0 (by omega)
  unfold readContext
  simp only [first, half 2 (by omega), half 4 (by omega), half 6 (by omega), half 8 (by omega), half 10 (by omega),
    half 12 (by omega), half 14 (by omega), half 16 (by omega), half 18 (by omega), half 56 (by omega),
    half 58 (by omega), word 20 (by omega), word 24 (by omega), word 28 (by omega), word 32 (by omega),
    word 36 (by omega), word 40 (by omega), word 44 (by omega), word 48 (by omega), word 52 (by omega),
    word 60 (by omega)]

/-- The pops of the stub follow the fields of `struct context`. -/
theorem sysCallIsrRet_loads {c : Cpu} (fits : (c.reg .esp).toNat + 64 ≤ 2 ^ 32) :
    run c sysCallIsrRet = loadContext c (readContext c.mem (c.reg .esp).toNat) (c.reg .esp + 64) := by
  have words : ∀ n : UInt32, n.toNat < 64 → c.word n = .ofNat (load c.mem ((c.reg .esp).toNat + n.toNat)) := by
    intro n small
    rw [Cpu.word, offset_toNat (by omega)]
  have halves : ∀ n : UInt32, n.toNat < 64 → c.half n = .ofNat (load16 c.mem ((c.reg .esp).toNat + n.toNat)) := by
    intro n small
    rw [Cpu.half, offset_toNat (by omega)]
  unfold run sysCallIsrRet
  simp only [List.foldl_cons, List.foldl_nil, step]
  ext r
  · cases r <;> simp [loadContext, readContext, words, UInt32.add_assoc]
  · cases r <;> simp [loadContext, readContext, halves, Cpu.half_setReg]
  · simp [loadContext, readContext, words, Cpu.word_setReg]
  · simp [loadContext, readContext, words, Cpu.word_setReg]
  · simp [loadContext]

/-- The registers as a context, over the pads of `old` and its `esp`, which `popad` skips. -/
def saveContext (c : Cpu) (old : Context) : Context :=
  { old with
    gs := c.seg .gs
    fs := c.seg .fs
    es := c.seg .es
    ds := c.seg .ds
    ss := c.seg .ss
    edi := c.reg .edi
    esi := c.reg .esi
    ebp := c.reg .ebp
    ebx := c.reg .ebx
    edx := c.reg .edx
    ecx := c.reg .ecx
    eax := c.reg .eax
    eip := c.eip
    cs := c.seg .cs
    eflags := c.eflags }

theorem sysCallIsrEntry_saves {c : Cpu} (room : 68 ≤ (c.reg .esp).toNat) :
    (run c.interrupt sysCallIsrEntry).reg .esp = c.reg .esp - 68 ∧
      ∃ old, readContext (run c.interrupt sysCallIsrEntry).mem ((c.reg .esp).toNat - 64) = saveContext c old := by
  have below : ∀ n : UInt32, n.toNat ≤ 68 → (c.reg .esp - n).toNat = (c.reg .esp).toNat - n.toNat := by
    intro n small
    exact below_toNat (by omega)
  have subs : ∀ n k : UInt32, c.reg .esp - n - k = c.reg .esp - (n + k) := by
    intro n k
    simp only [UInt32.sub_eq_add_neg, UInt32.add_assoc, UInt32.neg_add]
  have half : ∀ v : UInt16, v.toNat < 2 ^ 16 := fun v => v.toNat_lt
  have word : ∀ v : UInt32, v.toNat < 2 ^ 32 := fun v => v.toNat_lt
  constructor
  · simp [run, sysCallIsrEntry, step, Cpu.pushHalf, subs]
  · refine ⟨readContext (run c.interrupt sysCallIsrEntry).mem ((c.reg .esp).toNat - 64), ?_⟩
    have pushed : ∃ s, (c.reg .esp).toNat = s + 68 := ⟨_, (Nat.sub_add_cancel room).symm⟩
    obtain ⟨s, esp⟩ := pushed
    simp (disch := decide) [run, sysCallIsrEntry, step, Cpu.pushHalf, Cpu.pushWord, Cpu.interrupt, subs, below, esp]
    simp (disch := omega) only [saveContext, readContext, load16_store_other, load16_store16_other, load_store_other,
      load_store16_other, load16_store16_same (half _), load_store_same (word _), load16_store_same (half _),
      UInt16.ofNat_toNat, UInt32.ofNat_toNat]

theorem sysCallIsrExit_loads {c : Cpu} {pctxt : UInt32} (switched : c.reg .eax = pctxt) (nonzero : 0 < pctxt.toNat)
    (fits : pctxt.toNat + 64 ≤ 2 ^ 32) :
    sysCallIsrExit c = loadContext c (readContext c.mem pctxt.toNat) (pctxt + 64) := by
  have jump : sysCallIsrExit c = run (c.setReg .esp pctxt) sysCallIsrRet := by
    have task : c.reg .eax ≠ 0 := by
      intro zero
      rw [← switched, zero] at nonzero
      exact Nat.lt_irrefl 0 nonzero
    unfold sysCallIsrExit
    rw [if_neg task, run_cons, step, switched]
  have esp : (c.setReg .esp pctxt).reg .esp = pctxt := by simp
  rw [jump, sysCallIsrRet_loads (by rw [esp]; exact fits), esp, Cpu.mem_setReg]
  rfl

theorem sysCallIsrExit_mem (c : Cpu) : (sysCallIsrExit c).mem = c.mem := by
  unfold sysCallIsrExit
  split <;> simp [run, sysCallIsrRet, step]

/-- A call that does not switch, and leaves the saved context alone, is invisible. -/
theorem sysCallIsr_resumes {c called : Cpu} (room : 68 ≤ (c.reg .esp).toNat)
    (esp : called.reg .esp = (run c.interrupt sysCallIsrEntry).reg .esp) (task : called.reg .eax = 0)
    (kept : ∀ x, (c.reg .esp).toNat - 64 ≤ x → x < (c.reg .esp).toNat →
      called.mem x = (run c.interrupt sysCallIsrEntry).mem x) :
    (∀ r, (sysCallIsrExit called).reg r = c.reg r) ∧ (∀ s, (sysCallIsrExit called).seg s = c.seg s) ∧
      (sysCallIsrExit called).eip = c.eip ∧ (sysCallIsrExit called).eflags = c.eflags := by
  obtain ⟨top, old, saved⟩ := sysCallIsrEntry_saves room
  have back : (called.release 4).reg .esp = c.reg .esp - 64 := by
    rw [Cpu.reg_release, if_pos rfl, esp, top, show (68 : UInt32) = 64 + 4 from rfl]
    simp only [UInt32.sub_eq_add_neg, UInt32.neg_add, UInt32.add_assoc, UInt32.add_left_neg, UInt32.add_zero]
  have context : (c.reg .esp - 64).toNat = (c.reg .esp).toNat - 64 := below_toNat (by change 64 ≤ _; omega)
  have exit : sysCallIsrExit called = run (called.release 4) sysCallIsrRet := by
    unfold sysCallIsrExit
    rw [if_pos task, run_cons, step]
  have bound := (c.reg .esp).toNat_lt
  rw [exit, sysCallIsrRet_loads (by rw [back, context]; omega), back, context, Cpu.mem_release,
    readContext_congr fun x low high => kept x low (by omega), saved, UInt32.sub_add_cancel]
  refine ⟨fun r => ?_, fun s => ?_, rfl, rfl⟩
  · cases r <;> rfl
  · cases s <;> rfl

/-! ### What `pcb_context_init` writes -/

variable {m : Mem} {p : Nat} {context : Context}

theorem readContext_storeContext (m : Mem) (p : Nat) (context : Context) :
    readContext (storeContext m p context) p =
      { context with
        pad1 := (readContext m p).pad1
        pad2 := (readContext m p).pad2
        pad3 := (readContext m p).pad3
        pad4 := (readContext m p).pad4
        pad5 := (readContext m p).pad5
        pad6 := (readContext m p).pad6 } := by
  have half : ∀ v : UInt16, v.toNat < 2 ^ 16 := fun v => v.toNat_lt
  have word : ∀ v : UInt32, v.toNat < 2 ^ 32 := fun v => v.toNat_lt
  unfold readContext storeContext
  simp (disch := omega) only [load16_store_other, load16_store16_other, load_store_other, load_store16_other,
    load16_store16_same (half _), load_store_same (word _), UInt16.ofNat_toNat, UInt32.ofNat_toNat]

theorem storeContext_outside {x : Nat} (outside : x < p ∨ p + 64 ≤ x) (context : Context) :
    storeContext m p context x = m x := by
  unfold storeContext
  simp (disch := omega) only [store_byte, store16_byte]

def argBytes (fargs fargc : UInt32) : Nat := if fargs = 0 then 0 else fargc.toNat

variable {segment func fargs fargc pctxt : UInt32}

/-- The last byte of a stack segment, as `pcb_setup` leaves `pctxt`. -/
def stackLast (segment : UInt32) : UInt32 := segment + pcbStackSz - 1

theorem stackLast_toNat (fits : segment.toNat + 4096 < 2 ^ 32) :
    (stackLast segment).toNat = segment.toNat + 4095 := by
  have stack : segment + pcbStackSz - 1 = segment + 4095 := by
    rw [UInt32.sub_eq_add_neg, UInt32.add_assoc]
    rfl
  unfold stackLast
  rw [stack]
  exact offset_toNat (by change _ + 4095 < _; omega)

theorem fits_iff : ¬fargc > pcbMaxArgSz ↔ fargc.toNat ≤ 32 := by
  change ¬(32 < fargc.toNat) ↔ _
  omega

theorem argTop_toNat (fargs : UInt32) (fits : segment.toNat + 4096 < 2 ^ 32) (small : fargc.toNat ≤ 32) :
    (argTop (stackLast segment) fargs fargc).toNat = if fargs = 0 then segment.toNat + 4095
      else segment.toNat + 4096 - fargc.toNat := by
  have last := stackLast_toNat fits
  unfold argTop
  by_cases none : fargs = 0
  · rw [if_neg (not_not_intro none), if_pos none]
    exact last
  · have start : (stackLast segment - fargc).toNat = segment.toNat + 4095 - fargc.toNat := by
      rw [below_toNat (by omega), last]
    have one : (1 : UInt32).toNat = 1 := rfl
    rw [if_pos none, if_neg none, offset_toNat (by omega), start]
    omega

/-- The arguments are at the end of the segment, the slot of the return address and the context below. -/
theorem contextInit_pctxt (m : Mem) (func fargs : UInt32) (fits : segment.toNat + 4096 < 2 ^ 32)
    (small : fargc.toNat ≤ 32) :
    (contextInit m (stackLast segment) func fargs fargc).2.toNat + 68 =
      (argTop (stackLast segment) fargs fargc).toNat := by
  have top := argTop_toNat fargs fits small
  have high : 68 ≤ (argTop (stackLast segment) fargs fargc).toNat := by
    rw [top]
    split <;> omega
  have four : (4 : UInt32).toNat = 4 := rfl
  have size : contextSize.toNat = 64 := rfl
  have slot := below_toNat (a := argTop (stackLast segment) fargs fargc) (n := 4) (by omega)
  unfold contextInit
  rw [if_neg (fits_iff.mpr small)]
  dsimp only
  rw [below_toNat (by omega)]
  omega

def argCopy (m : Mem) (pctxt fargs fargc : UInt32) : Mem :=
  if fargs ≠ 0 then copy fargs.toNat (argTop pctxt fargs fargc).toNat fargc.toNat m else m

theorem contextInit_memory (small : fargc.toNat ≤ 32) :
    (contextInit m pctxt func fargs fargc).1 =
      let copied := argCopy m pctxt fargs fargc
      let saved := (contextInit m pctxt func fargs fargc).2
      storeContext copied saved.toNat (startContext (readContext copied saved.toNat) func (saved + contextSize)) := by
  unfold contextInit
  simp only [if_neg (fits_iff.mpr small), UInt32.sub_add_cancel]
  rfl

theorem contextInit_context (small : fargc.toNat ≤ 32) :
    let after := contextInit m pctxt func fargs fargc
    readContext after.1 after.2.toNat =
      startContext (readContext (argCopy m pctxt fargs fargc) after.2.toNat) func (after.2 + contextSize) := by
  dsimp only
  rw [contextInit_memory small, readContext_storeContext]
  rfl

theorem contextInit_behind {x : Nat} (small : fargc.toNat ≤ 32)
    (behind : (contextInit m pctxt func fargs fargc).2.toNat + 64 ≤ x) :
    (contextInit m pctxt func fargs fargc).1 x = argCopy m pctxt fargs fargc x := by
  rw [contextInit_memory small]
  exact storeContext_outside (.inr behind) _

/-- Nothing outside the stack segment is written. -/
theorem contextInit_outside {x : Nat} (fits : segment.toNat + 4096 < 2 ^ 32)
    (outside : x < segment.toNat ∨ segment.toNat + 4096 ≤ x) :
    (contextInit m (stackLast segment) func fargs fargc).1 x = m x := by
  by_cases small : fargc.toNat ≤ 32
  · have saved := contextInit_pctxt m func fargs fits small
    have top := argTop_toNat fargs fits small
    rw [contextInit_memory small]
    dsimp only
    rw [storeContext_outside (by split at top <;> omega)]
    unfold argCopy
    split
    case isTrue given =>
      rw [if_neg given] at top
      exact copy_outside (by omega)
    case isFalse => rfl
  · unfold contextInit
    rw [if_pos (Classical.not_not.mp (mt fits_iff.mp small))]

theorem argTop_add (a b fargs fargc : UInt32) : argTop (a + b) fargs fargc = a + argTop b fargs fargc := by
  unfold argTop
  split
  · simp only [UInt32.sub_eq_add_neg, UInt32.add_assoc]
  · rfl

/-- On the typed contexts, `pcb_context_init` puts the same context at the same address. -/
theorem pcbContextInit_agrees {s t : Procs} {pcb : Ptr} (setup : (s.pcbs pcb).pctxt = some ⟨segment, pcbStackSz - 1⟩)
    (small : fargc.toNat ≤ 32) (run : pcbContextInit s pcb func fargs fargc = some t) :
    ∃ ctxt, (t.pcbs pcb).pctxt = some ctxt ∧
      ctxt.segment + ctxt.offset = (contextInit m (stackLast segment) func fargs fargc).2 ∧
      t.contexts ctxt = startContext (s.contexts ctxt) func (ctxt.segment + ctxt.offset + contextSize) := by
  have within := fits_iff.mpr small
  have saved : (contextInit m (stackLast segment) func fargs fargc).2 =
      segment + (argTop (pcbStackSz - 1) fargs fargc - 4 - contextSize) := by
    unfold contextInit stackLast
    rw [if_neg within]
    simp only [UInt32.sub_eq_add_neg, UInt32.add_assoc, argTop_add]
  have offset : (if fargs ≠ 0 then { segment, offset := pcbStackSz - 1 - fargc + 1 } else ⟨segment, pcbStackSz - 1⟩) =
      (⟨segment, argTop (pcbStackSz - 1) fargs fargc⟩ : CtxPtr) := by
    unfold argTop
    split <;> rfl
  unfold pcbContextInit at run
  rw [if_neg within] at run
  split at run
  · cases run
  · rw [setup, Option.bind_eq_bind, Option.bind_some] at run
    dsimp only at run
    rw [offset] at run
    cases run
    refine ⟨⟨segment, argTop (pcbStackSz - 1) fargs fargc - 4 - contextSize⟩, ?_, saved.symm, ?_⟩
    · simp [Procs.setContext, Procs.setPctxt, Procs.setPcb]
    · simp [Procs.setContext, Procs.setPctxt, Procs.setPcb, startContext, UInt32.add_assoc]

/-! ### The first run of a process -/

/-- The context, the slot of the return address and `n` argument bytes follow each other in the segment. -/
structure StackPlaced (segment context slot args n : Nat) : Prop where
  context_low : segment ≤ context
  context_high : context + 64 ≤ slot
  slot_high : slot + 4 ≤ args
  args_high : args + n ≤ segment + pcbStackSz.toNat

/-- The processor is at the first instruction of the process, in front of the slot. -/
structure AtEntry (c : Cpu) (func slot : UInt32) : Prop where
  eip : c.eip = func
  interrupts : c.eflags &&& ifFlag ≠ 0
  cs : c.seg .cs = 0x0008
  data : ∀ s, s ≠ .cs → c.seg s = 0x0010
  esp : c.reg .esp = slot

/-- A processor that has called `sys_call`, which returned the context, and that shares the segment's bytes. -/
structure Switches (c : Cpu) (segment pctxt : UInt32) (written : Mem) : Prop where
  eax : c.reg .eax = pctxt
  mem : ∀ x, segment.toNat ≤ x → x < segment.toNat + pcbStackSz.toNat → c.mem x = written x

/-- The process gets its entry point and its arguments, whatever processor switches to it. -/
def StartsRight (m : Mem) (segment func fargs fargc : UInt32) : Prop :=
  let after := contextInit m (stackLast segment) func fargs fargc
  let n := argBytes fargs fargc
  StackPlaced segment.toNat after.2.toNat (after.2.toNat + 64) (after.2.toNat + 68) n ∧
    ∀ c, Switches c segment after.2 after.1 →
      AtEntry (sysCallIsrExit c) func (after.2 + 64) ∧
        ∀ i < n, (sysCallIsrExit c).mem ((after.2 + 64).toNat + 4 + i) = m (fargs.toNat + i)

theorem contextInit_placed (m : Mem) (func fargs : UInt32) (fits : segment.toNat + 4096 < 2 ^ 32)
    (small : fargc.toNat ≤ 32) :
    let pctxt := (contextInit m (stackLast segment) func fargs fargc).2
    StackPlaced segment.toNat pctxt.toNat (pctxt.toNat + 64) (pctxt.toNat + 68) (argBytes fargs fargc) := by
  have saved := contextInit_pctxt m func fargs fits small
  have top := argTop_toNat fargs fits small
  have stack : pcbStackSz.toNat = 4096 := rfl
  have bytes : argBytes fargs fargc = if fargs = 0 then 0 else fargc.toNat := rfl
  constructor
  case context_low => split at top <;> omega
  case context_high => exact Nat.le_refl _
  case slot_high => exact Nat.le_refl _
  case args_high => split at top <;> simp_all only [if_true, if_false] <;> omega

theorem contextInit_loaded {c : Cpu} (fits : segment.toNat + 4096 < 2 ^ 32) (small : fargc.toNat ≤ 32)
    (switches : Switches c segment (contextInit m (stackLast segment) func fargs fargc).2
      (contextInit m (stackLast segment) func fargs fargc).1) :
    ∃ old, sysCallIsrExit c = loadContext c
      (startContext old func ((contextInit m (stackLast segment) func fargs fargc).2 + 64))
      ((contextInit m (stackLast segment) func fargs fargc).2 + 64) := by
  obtain ⟨low, high, -, args⟩ := contextInit_placed m func fargs fits small
  have stack : pcbStackSz.toNat = 4096 := rfl
  have saved := contextInit_pctxt m func fargs fits small
  have top := argTop_toNat fargs fits small
  have nonzero : 0 < (contextInit m (stackLast segment) func fargs fargc).2.toNat := by split at top <;> omega
  have loads := sysCallIsrExit_loads switches.eax nonzero (by omega)
  rw [readContext_congr fun x above below => switches.mem x (by omega) (by omega), contextInit_context small] at loads
  exact ⟨_, loads⟩

theorem contextInit_entry {c : Cpu} (fits : segment.toNat + 4096 < 2 ^ 32) (small : fargc.toNat ≤ 32)
    (switches : Switches c segment (contextInit m (stackLast segment) func fargs fargc).2
      (contextInit m (stackLast segment) func fargs fargc).1) :
    AtEntry (sysCallIsrExit c) func ((contextInit m (stackLast segment) func fargs fargc).2 + 64) := by
  obtain ⟨old, loaded⟩ := contextInit_loaded fits small switches
  rw [loaded]
  constructor
  case eip => rfl
  case interrupts =>
    change (0x00000202 : UInt32) &&& ifFlag ≠ 0
    decide
  case cs => rfl
  case data =>
    intro s other
    cases s <;> first | rfl | exact absurd rfl other
  case esp => rfl

theorem contextInit_args {c : Cpu} {i : Nat} (fits : segment.toNat + 4096 < 2 ^ 32) (small : fargc.toNat ≤ 32)
    (apart : fargs ≠ 0 → fargs.toNat + fargc.toNat ≤ segment.toNat ∨ segment.toNat + 4096 ≤ fargs.toNat)
    (switches : Switches c segment (contextInit m (stackLast segment) func fargs fargc).2
      (contextInit m (stackLast segment) func fargs fargc).1) (inside : i < argBytes fargs fargc) :
    (sysCallIsrExit c).mem (((contextInit m (stackLast segment) func fargs fargc).2 + 64).toNat + 4 + i) =
      m (fargs.toNat + i) := by
  have saved := contextInit_pctxt m func fargs fits small
  have top := argTop_toNat fargs fits small
  have stack : pcbStackSz.toNat = 4096 := rfl
  have bytes : argBytes fargs fargc = if fargs = 0 then 0 else fargc.toNat := rfl
  have given : fargs ≠ 0 := by
    intro none
    rw [if_pos none] at bytes
    omega
  rw [if_neg given] at top bytes
  have slot : ((contextInit m (stackLast segment) func fargs fargc).2 + 64).toNat =
      (contextInit m (stackLast segment) func fargs fargc).2.toNat + 64 :=
    offset_toNat (by change _ + 64 < _; omega)
  have at_top : (contextInit m (stackLast segment) func fargs fargc).2.toNat + 64 + 4 + i =
      (argTop (stackLast segment) fargs fargc).toNat + i := by omega
  obtain ⟨old, loaded⟩ := contextInit_loaded fits small switches
  rw [loaded, slot, at_top]
  change c.mem _ = _
  rw [switches.mem _ (by omega) (by omega), contextInit_behind small (by omega), argCopy, if_pos given]
  have away := apart given
  exact copy_inside (by unfold Apart; omega) (by omega)

/-- At a size above the maximum nothing is written, and `pctxt` stays at the last byte of the segment. -/
theorem contextInit_more (fits : segment.toNat + 4096 < 2 ^ 32) (more : ¬fargc ≤ pcbMaxArgSz) :
    ¬StartsRight m segment func fargs fargc := by
  intro right
  have kept : contextInit m (stackLast segment) func fargs fargc = (m, stackLast segment) :=
    if_pos (Classical.not_not.mp (mt (fun small => UInt32.le_iff_toNat_le.mpr (fits_iff.mp small)) more))
  unfold StartsRight at right
  rw [kept] at right
  have high := right.1.args_high
  dsimp only at high
  have last := stackLast_toNat fits
  have stack : pcbStackSz.toNat = 4096 := rfl
  omega

/-- A process starts right exactly if its size of arguments is within the maximum. `pcb.h` has the size disregarded
where there are no arguments; the code returns at it. -/
theorem contextInit_starts (fits : segment.toNat + 4096 < 2 ^ 32)
    (apart : fargs ≠ 0 → fargs.toNat + fargc.toNat ≤ segment.toNat ∨ segment.toNat + 4096 ≤ fargs.toNat) :
    StartsRight m segment func fargs fargc ↔ fargc ≤ pcbMaxArgSz := by
  constructor
  · intro right
    exact Classical.byContradiction fun more => contextInit_more fits more right
  · intro within
    have small : fargc.toNat ≤ 32 := UInt32.le_iff_toNat_le.mp within
    exact ⟨contextInit_placed m func fargs fits small, fun c switches =>
      ⟨contextInit_entry fits small switches, fun i => contextInit_args fits small apart switches⟩⟩

theorem contextInit_starts_alarm : StartsRight (fun x => .ofNat x) 0x0D000200 0x00100000 0x00010000 16 :=
  (contextInit_starts (by decide) (fun _ => .inl (by decide))).mpr (by decide)

theorem contextInit_not_starts :
    ¬∀ (m : Mem) (segment func fargs fargc : UInt32), segment.toNat + 4096 < 2 ^ 32 →
      fargs = 0 ∨ fargc ≤ pcbMaxArgSz →
      (fargs ≠ 0 → fargs.toNat + fargc.toNat ≤ segment.toNat ∨ segment.toNat + 4096 ≤ fargs.toNat) →
      StartsRight m segment func fargs fargc := by
  intro starts
  have right := starts (fun _ => 0) 0x0D000200 0x00100000 0 33 (by decide) (.inl rfl) (absurd rfl)
  exact contextInit_more (by decide) (by decide) right

end Mpx.Process

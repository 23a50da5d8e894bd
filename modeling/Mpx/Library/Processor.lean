import Mathlib.Algebra.Group.Nat.Defs
import Mpx.Library.ByteMemory

/-! # A processor with the i386 registers

The registers, the stack and the instructions of interrupt stubs, in 32-bit mode. -/

namespace Library.Processor
open Function Library.ByteMemory

inductive Reg where
  | eax | ecx | edx | ebx | esp | ebp | esi | edi
  deriving DecidableEq, Repr

inductive Seg where
  | cs | ds | es | fs | gs | ss
  deriving DecidableEq, Repr

/-- `eip` is where the processor goes on after an `iret`. -/
structure Cpu where
  reg : Reg → UInt32
  seg : Seg → UInt16
  eip : UInt32
  eflags : UInt32
  mem : Mem

def ifFlag : UInt32 := 0x200

inductive Instr where
  | cli
  | push (r : Reg)
  | pushSeg (s : Seg)
  | popSeg (s : Seg)
  | pushad
  | popad
  | mov (dst src : Reg)
  | addEsp (n : UInt32)
  | iret
  deriving DecidableEq, Repr

namespace Cpu

def setReg (c : Cpu) (r : Reg) (v : UInt32) : Cpu := { c with reg := update c.reg r v }

def setSeg (c : Cpu) (s : Seg) (v : UInt16) : Cpu := { c with seg := update c.seg s v }

def word (c : Cpu) (n : UInt32) : UInt32 := .ofNat (load c.mem (c.reg .esp + n).toNat)

/-- The lower half of the word at `esp + n`. -/
def half (c : Cpu) (n : UInt32) : UInt16 := .ofNat (load16 c.mem (c.reg .esp + n).toNat)

def release (c : Cpu) (n : UInt32) : Cpu := c.setReg .esp (c.reg .esp + n)

def pushWord (c : Cpu) (v : UInt32) : Cpu :=
  let esp := c.reg .esp - 4
  { c.setReg .esp esp with mem := store c.mem esp.toNat v.toNat }

/-- The other half of the word keeps what it was. -/
def pushHalf (c : Cpu) (v : UInt16) : Cpu :=
  let esp := c.reg .esp - 4
  { c.setReg .esp esp with mem := store16 c.mem esp.toNat v.toNat }

/-- An interrupt: the flags, `cs` and `eip` go to the stack, and further interrupts are off. -/
def interrupt (c : Cpu) : Cpu :=
  let entered := ((c.pushWord c.eflags).pushWord (c.seg .cs).toUInt32).pushWord c.eip
  { entered with eflags := entered.eflags &&& ~~~ifFlag }

end Cpu

/-- `popad` skips the saved `esp`. -/
def step (c : Cpu) : Instr → Cpu
  | .cli => { c with eflags := c.eflags &&& ~~~ifFlag }
  | .push r => c.pushWord (c.reg r)
  | .pushSeg s => c.pushHalf (c.seg s)
  | .popSeg s => (c.setSeg s (c.half 0)).release 4
  | .pushad =>
    let esp := c.reg .esp
    let c := (((c.pushWord (c.reg .eax)).pushWord (c.reg .ecx)).pushWord (c.reg .edx)).pushWord (c.reg .ebx)
    (((c.pushWord esp).pushWord (c.reg .ebp)).pushWord (c.reg .esi)).pushWord (c.reg .edi)
  | .popad =>
    let popped := ((((((c.setReg .edi (c.word 0)).setReg .esi (c.word 4)).setReg .ebp (c.word 8)).setReg .ebx
      (c.word 16)).setReg .edx (c.word 20)).setReg .ecx (c.word 24)).setReg .eax (c.word 28)
    popped.release 32
  | .mov dst src => c.setReg dst (c.reg src)
  | .addEsp n => c.release n
  | .iret => { c.setSeg .cs (c.half 4) |>.release 12 with eip := c.word 0, eflags := c.word 8 }

def run (c : Cpu) (l : List Instr) : Cpu := l.foldl step c

theorem run_cons (c : Cpu) (i : Instr) (l : List Instr) : run c (i :: l) = run (step c i) l := rfl

/-! ### Reading a processor after a change -/

namespace Cpu
variable (c : Cpu) (r r' : Reg) (s s' : Seg) (v n k : UInt32) (h : UInt16)

@[simp] theorem reg_setReg : (c.setReg r v).reg r' = if r' = r then v else c.reg r' := update_apply ..
@[simp] theorem seg_setReg : (c.setReg r v).seg = c.seg := rfl
@[simp] theorem eip_setReg : (c.setReg r v).eip = c.eip := rfl
@[simp] theorem eflags_setReg : (c.setReg r v).eflags = c.eflags := rfl
@[simp] theorem mem_setReg : (c.setReg r v).mem = c.mem := rfl

@[simp] theorem reg_setSeg : (c.setSeg s h).reg = c.reg := rfl
@[simp] theorem seg_setSeg : (c.setSeg s h).seg s' = if s' = s then h else c.seg s' := update_apply ..
@[simp] theorem eip_setSeg : (c.setSeg s h).eip = c.eip := rfl
@[simp] theorem eflags_setSeg : (c.setSeg s h).eflags = c.eflags := rfl
@[simp] theorem mem_setSeg : (c.setSeg s h).mem = c.mem := rfl

@[simp] theorem reg_release : (c.release n).reg r = if r = .esp then c.reg .esp + n else c.reg r :=
  update_apply ..
@[simp] theorem seg_release : (c.release n).seg = c.seg := rfl
@[simp] theorem eip_release : (c.release n).eip = c.eip := rfl
@[simp] theorem eflags_release : (c.release n).eflags = c.eflags := rfl
@[simp] theorem mem_release : (c.release n).mem = c.mem := rfl

@[simp] theorem word_release : (c.release n).word k = c.word (n + k) := by simp [word, UInt32.add_assoc]
@[simp] theorem half_release : (c.release n).half k = c.half (n + k) := by simp [half, UInt32.add_assoc]
@[simp] theorem word_setSeg : (c.setSeg s h).word k = c.word k := rfl
@[simp] theorem half_setSeg : (c.setSeg s h).half k = c.half k := rfl

theorem word_setReg (other : r ≠ .esp) : (c.setReg r v).word k = c.word k := by simp [word, other.symm]
theorem half_setReg (other : r ≠ .esp) : (c.setReg r v).half k = c.half k := by simp [half, other.symm]

@[ext] theorem ext {c c' : Cpu} (reg : ∀ r, c.reg r = c'.reg r) (seg : ∀ s, c.seg s = c'.seg s)
    (eip : c.eip = c'.eip) (eflags : c.eflags = c'.eflags) (mem : c.mem = c'.mem) : c = c' := by
  cases c
  cases c'
  simp only [Cpu.mk.injEq]
  exact ⟨funext reg, funext seg, eip, eflags, mem⟩

@[simp] theorem reg_pushWord : (c.pushWord v).reg r = if r = .esp then c.reg .esp - 4 else c.reg r :=
  update_apply ..
@[simp] theorem seg_pushWord : (c.pushWord v).seg = c.seg := rfl
@[simp] theorem eip_pushWord : (c.pushWord v).eip = c.eip := rfl
@[simp] theorem eflags_pushWord : (c.pushWord v).eflags = c.eflags := rfl

theorem three_words (v : UInt32) : v - 4 - 4 - 4 = v - 12 := by
  simp only [UInt32.sub_eq_add_neg, UInt32.add_assoc]
  rfl

@[simp] theorem reg_interrupt : c.interrupt.reg r = if r = .esp then c.reg .esp - 12 else c.reg r := by
  cases r <;> simp [interrupt, three_words]
@[simp] theorem seg_interrupt : c.interrupt.seg = c.seg := rfl

/-- What an `iret` takes from the stack: `eip`, `cs` and the flags. -/
def frame : UInt32 × UInt16 × UInt32 := (c.word 0, c.half 4, c.word 8)

theorem interrupt_frame : c.interrupt.frame = (c.eip, c.seg .cs, c.eflags) := by
  have first : c.reg .esp - 4 - 4 - 4 + 4 = c.reg .esp - 4 - 4 := UInt32.sub_add_cancel ..
  have second : c.reg .esp - 4 - 4 - 4 + 8 = c.reg .esp - 4 := by
    rw [show (8 : UInt32) = 4 + 4 from rfl, ← UInt32.add_assoc, first, UInt32.sub_add_cancel]
  have apart : ∀ x : UInt32, (x - 4).toNat + 4 ≤ x.toNat ∨ x.toNat + 4 ≤ (x - 4).toNat := by
    intro x
    have := x.toNat_lt
    rw [UInt32.toNat_sub, show (4 : UInt32).toNat = 4 from rfl]
    omega
  have far : (c.reg .esp - 4 - 4 - 4).toNat + 4 ≤ (c.reg .esp - 4).toNat ∨
      (c.reg .esp - 4).toNat + 4 ≤ (c.reg .esp - 4 - 4 - 4).toNat := by
    have := (c.reg .esp - 4).toNat_lt
    generalize c.reg .esp - 4 = x at *
    rw [UInt32.toNat_sub, UInt32.toNat_sub, show (4 : UInt32).toNat = 4 from rfl]
    omega
  have near := apart (c.reg .esp - 4 - 4)
  have next := apart (c.reg .esp - 4)
  unfold frame word half
  rw [reg_interrupt, if_pos rfl, ← three_words, first, second, UInt32.add_zero]
  simp only [interrupt, pushWord, setReg, update_self]
  rw [load_store_same (c.eip.toNat_lt), load_store_other far.symm, load_store_other next.symm,
    load_store_same c.eflags.toNat_lt, ← load_mod, load_store_other near.symm, load_store_same (UInt32.toNat_lt _)]
  simp
end Cpu

theorem iret_frame {c : Cpu} {eip eflags : UInt32} {cs : UInt16} (h : c.frame = (eip, cs, eflags)) :
    step c .iret = { c.setSeg .cs cs |>.release 12 with eip := eip, eflags := eflags } := by
  cases h
  rfl

/-! ### Compiled code -/

/-- An access to a port: `dx` holds the port, and `al` the byte that came in or goes out. -/
inductive Access where
  | inb (port : UInt16) (byte : UInt8)
  | outb (port : UInt16) (byte : UInt8)
  deriving DecidableEq, Repr

def Access.dx : Access → UInt16
  | .inb port _ => port
  | .outb port _ => port

def Access.al : Access → UInt8
  | .inb _ byte => byte
  | .outb _ byte => byte

def Cpu.al (c : Cpu) : UInt8 := (c.reg .eax).toUInt8

def Cpu.dx (c : Cpu) : UInt16 := (c.reg .edx).toUInt16

/-- The accesses of compiled code, in order. All else between two of them is up to the compiler. -/
inductive Accesses : List Access → Cpu → Cpu → Prop where
  | done (c : Cpu) : Accesses [] c c
  | access {a : Access} {l : List Access} {c c' : Cpu} (between : Cpu) : between.al = a.al → between.dx = a.dx →
    Accesses l between c' → Accesses (a :: l) c c'

def calleeSaved : List Reg := [.ebx, .esp, .ebp, .esi, .edi]

/-- A call of a C function with these accesses: the registers that it has to restore and the words on the stack are
as they were, and `eax` and `edx` as its last access left them. -/
structure Called (l : List Access) (c c' : Cpu) : Prop where
  body : ∃ last, Accesses l c last ∧ c'.reg .eax = last.reg .eax ∧ c'.reg .edx = last.reg .edx
  saved : ∀ r ∈ calleeSaved, c'.reg r = c.reg r
  seg : c'.seg = c.seg
  frame : c'.frame = c.frame

variable {l : List Access} {a : Access} {c c' : Cpu}

theorem accesses_last (h : Accesses (l ++ [a]) c c') : c'.al = a.al ∧ c'.dx = a.dx := by
  induction l generalizing c with
  | nil =>
    cases h with
    | access between al dx rest =>
      cases rest
      exact ⟨al, dx⟩
  | cons first l ih =>
    cases h with
    | access between _ _ rest => exact ih rest

theorem called_last (h : Called (l ++ [a]) c c') : c'.al = a.al ∧ c'.dx = a.dx := by
  obtain ⟨last, accesses, eax, edx⟩ := h.body
  unfold Cpu.al Cpu.dx
  rw [eax, edx]
  exact accesses_last accesses

theorem accesses_any (al : c'.al = a.al) (dx : c'.dx = a.dx) : Accesses (l ++ [a]) c c' := by
  induction l generalizing c with
  | nil => exact .access c' al dx (.done c')
  | cons first l ih =>
    have load : ∃ between : Cpu, between.al = first.al ∧ between.dx = first.dx :=
      ⟨(c.setReg .eax first.al.toUInt32).setReg .edx first.dx.toUInt32, by simp [Cpu.al], by simp [Cpu.dx]⟩
    obtain ⟨between, al', dx'⟩ := load
    exact .access between al' dx' ih

end Library.Processor

import Mpx.Command.Hex
import Mpx.Device.Streams
import Mpx.System.Acceptance

/-! # The line in `user_input`

How `user_input_promptread` of `kernel/comhand.c` makes a string of what a READ gives it, and the commands that
copy that string into an array of their own. -/

namespace Mpx.Command
open Library.Buffer Library.Numerals Process Device

/-- `user_input_promptread`, when `read` has stored into `user_input` and returned `result`: the array and
`user_input_len`. -/
def userInputPromptread (user_input : Nat → UInt8) (result : Int32) : Option ((Nat → UInt8) × Int32) := do
  let user_input_len := result - 1
  if user_input_len < 0 then none
  let user_input ← write userInputSize user_input user_input_len.toNatClampNeg 0
  return (user_input, user_input_len)

def readStores (scheduled : Bool) (typed : List UInt8) : List UInt8 :=
  if scheduled then lineOf userInputSize typed else []

def ReadReturns (scheduled : Bool) (typed : List UInt8) : Prop :=
  scheduled = true → Filled userInputSize (lineOf userInputSize typed)

/-- The line that was typed: what was stored, without the line end. -/
def typedLine (stored : List UInt8) : List UInt8 :=
  if stored.getLast? = some carriageReturn then stored.dropLast else stored

/-- The size of `proc_name`, and of `inputNum`. -/
def procnameSize : Nat := pcbProcnameBufferSz - 1
def inputNumSize : Nat := 100

/-- The copy of the name in `setPcbPriorityCommand`. `some none` asks again. -/
def setPcbPriorityCopy (proc_name user_input : Nat → UInt8) (user_input_len : Nat) : Option (Option (Nat → UInt8)) :=
  copyIf (decide (user_input_len > 0) && decide (user_input_len ≤ procnameSize)) userInputSize procnameSize
    (user_input_len + 1) user_input proc_name

/-- The copy of the size in `allocateMemoryCommand`. -/
def allocateMemoryCopy (user_input : Nat → UInt8) (user_input_len : Nat) : Option (Option (Nat → UInt8)) :=
  copyIf (intParsable user_input user_input_len) userInputSize inputNumSize user_input_len user_input fun _ => 0

/-- A copy that is made is the line as a string, inside the array of `size` bytes. -/
def CopiesLine (line : List UInt8) (size : Nat) (result : Option (Option (Nat → UInt8))) : Prop :=
  ∃ r, result = some r ∧ ∀ text, r = some text → line.length < size ∧ Holds text 0 (line ++ [0])

/-- The array holds the line as a string, with its length beside it, and no index was outside. -/
def PromptReads (user_input : Nat → UInt8) (stored : List UInt8) : Prop :=
  ∃ text len, userInputPromptread user_input (.ofNat stored.length) = some (text, len) ∧
    0 ≤ len.toInt ∧ len.toInt ≤ 127 ∧ len.toInt = (typedLine stored).length ∧ Holds text 0 (typedLine stored ++ [0])

variable {user_input : Nat → UInt8} {typed stored line : List UInt8} {scheduled : Bool}

theorem lineOf_ends {n : Nat} (positive : 0 < n) :
    (lineOf n typed).getLast? = some carriageReturn ↔ carriageReturn ∈ typed.take n := by
  induction typed generalizing n with
  | nil => simp [lineOf_nil]
  | cons byte rest ih =>
    obtain ⟨n, rfl⟩ := Nat.exists_eq_succ_of_ne_zero (Nat.ne_of_gt positive)
    rw [lineOf, List.take_succ_cons, List.mem_cons]
    split
    · rename_i ends
      simp [ends]
    · rename_i other
      cases n with
      | zero => simp [lineOf, other, Ne.symm other]
      | succ n =>
        rw [← ih (Nat.succ_pos n)]
        cases rest with
        | nil => simp [lineOf, other, Ne.symm other]
        | cons next rest =>
          have more : ∃ b l, lineOf (n + 1) (next :: rest) = b :: l := by
            unfold lineOf
            split
            · exact ⟨_, _, rfl⟩
            · exact ⟨_, _, rfl⟩
          obtain ⟨b, l, more⟩ := more
          rw [more, List.getLast?_cons_cons]
          simp [Ne.symm other]

theorem lineOf_size (typed : List UInt8) : (lineOf userInputSize typed).length ≤ userInputSize :=
  lineOf_length _ typed

theorem readStores_length (scheduled : Bool) (typed : List UInt8) :
    (readStores scheduled typed).length ≤ userInputSize := by
  unfold readStores
  split
  · exact lineOf_size typed
  · exact Nat.zero_le _

/-- `--user_input_len` takes the last byte off, if there is one. -/
theorem userInputPromptread_some {n : Nat} (positive : 0 < n) (fits : n ≤ userInputSize) (user_input : Nat → UInt8) :
    userInputPromptread user_input (.ofNat n) = some (Function.update user_input (n - 1) 0, .ofNat (n - 1)) := by
  unfold userInputSize at fits
  have len : Int32.ofNat n - 1 = Int32.ofNat (n - 1) := (Int32.ofNat_sub n 1 positive).symm
  have small : n - 1 < 2 ^ 31 := by omega
  have value := toInt_of_lt small
  have inside : ¬Int32.ofNat (n - 1) < 0 := by
    rw [Int32.lt_iff_toInt_lt, value, Int32.toInt_zero]
    omega
  unfold userInputPromptread
  rw [len]
  dsimp only
  rw [if_neg inside, Int32.toNatClampNeg_ofNat_of_lt small, write_inside (show n - 1 < userInputSize by
    unfold userInputSize
    omega)]
  rfl

theorem userInputPromptread_none (user_input : Nat → UInt8) : userInputPromptread user_input 0 = none := by
  unfold userInputPromptread
  rw [if_pos (by decide)]
  rfl

theorem promptReads_ends (holds : Holds user_input 0 stored) (fits : stored.length ≤ userInputSize)
    (ends : stored.getLast? = some carriageReturn) : PromptReads user_input stored := by
  obtain ⟨line, rfl⟩ := List.getLast?_eq_some_iff.mp ends
  have length : (line ++ [carriageReturn]).length - 1 = line.length := by simp
  have typed : typedLine (line ++ [carriageReturn]) = line := by
    unfold typedLine
    rw [if_pos ends, List.dropLast_concat]
  have small : line.length < userInputSize := by simpa using fits
  unfold PromptReads
  rw [userInputPromptread_some (by simp) fits, typed, length]
  refine ⟨_, _, rfl, ?_⟩
  unfold userInputSize at small
  rw [toInt_of_lt (by omega)]
  refine ⟨by omega, by omega, rfl, ?_⟩
  rw [holds_append, holds_cons, Nat.zero_add]
  refine ⟨?_, Function.update_self _ _ _, holds_nil _ _⟩
  apply holds_congr _ (holds_append.mp holds).1
  intro j _ below
  exact Function.update_of_ne (by omega) _ _

theorem not_promptReads (outcome : stored = [] ∨ stored.length = userInputSize)
    (other : stored.getLast? ≠ some carriageReturn) : ¬PromptReads user_input stored := by
  rintro ⟨text, len, read, low, high, same, -⟩
  rcases outcome with rfl | full
  · rw [List.length_nil, show Int32.ofNat 0 = 0 from rfl, userInputPromptread_none] at read
    cases read
  · unfold typedLine at same
    rw [if_neg other, full] at same
    unfold userInputSize at same
    omega

/-- A line that is shorter than the array is read as it was typed; a READ that could not be scheduled and one
that used the array up are not. -/
theorem promptread_exact (returns : ReadReturns scheduled typed)
    (holds : Holds user_input 0 (readStores scheduled typed)) :
    PromptReads user_input (readStores scheduled typed) ↔
      scheduled = true ∧ carriageReturn ∈ typed.take userInputSize := by
  cases scheduled with
  | false =>
    have outcome : readStores false typed = [] := rfl
    constructor
    · intro reads
      exact absurd reads (not_promptReads (.inl outcome) (by rw [outcome]; decide))
    · rintro ⟨never, -⟩
      cases never
  | true =>
    have line : readStores true typed = lineOf userInputSize typed := rfl
    rw [← lineOf_ends (show 0 < userInputSize by decide), ← line]
    constructor
    · intro reads
      refine ⟨rfl, ?_⟩
      by_cases ends : (readStores true typed).getLast? = some carriageReturn
      · exact ends
      · rcases returns rfl with full | line
        · exact absurd reads (not_promptReads (.inr full) ends)
        · exact absurd line ends
    · rintro ⟨-, ends⟩
      exact promptReads_ends holds (readStores_length true typed) ends

theorem promptread_exact_line : PromptReads (ofList 0 [104, 105, 13]) (readStores true [104, 105, 13]) ↔
    true = true ∧ carriageReturn ∈ [104, 105, 13].take userInputSize :=
  promptread_exact (fun _ => .inr rfl) rfl

theorem promptread_not_exact :
    userInputPromptread (fun _ => 0) (.ofNat (readStores false [104, 105, 13]).length) = none ∧
    ¬PromptReads (fun _ => 0) (readStores false [104, 105, 13]) :=
  ⟨rfl, not_promptReads (.inl rfl) (by decide)⟩

/-! ### The READ behind it -/

/-- What a READ of `user_input` has stored when its event is raised, and the result that it gets. -/
theorem promptread_served {w : Watch} {d : Fin 4} {r : Request} {stored : List UInt8}
    (served : ReadServed w d r stored) (size : r.size.toNat = userInputSize) (event : (w.kernel.dcb d).event = true) :
    ReadReturns true (tagged (w.kernel.history d).retired.length (w.arrived d)) ∧
      stored = readStores true (tagged (w.kernel.history d).retired.length (w.arrived d)) ∧
      ∀ dev k' result, serialDevno dev = some d → serialCheckIo w.kernel dev = some (k', result) →
        Woken w.kernel.procs k'.procs r.pcb (UInt32.ofNat stored.length) := by
  have line := served.line
  rw [size] at line
  refine ⟨?_, line, ?_⟩
  · intro _
    rw [← line, ← size]
    exact served.event.mp event
  · intro dev k' result devno ran
    exact served.reply dev k' result devno event ran

/-- A READ that cannot be scheduled gives its caller 0 at once. -/
theorem promptread_refused {k k₁ : Kernel} {pend : Fin 4 → List Ptr} {c : CtxPtr} {alloc : Ptr} {ready : Bool}
    (op : (k.procs.contexts c).eax = System.opRead) (checked : System.sysCheckIo k = some (k₁, ready))
    (running : k₁.pcbRunning ≠ 0) (linked : System.Linked k₁ pend) (fresh : alloc = 0 ∨ ∀ e, alloc ∉ pend e)
    (refused : Refused k₁ (k₁.procs.contexts c).ebx (k₁.procs.contexts c).ecx (k₁.procs.contexts c).edx alloc)
    (freedStack freedPcb : Int) :
    ∃ k', System.sysCall k c alloc freedStack freedPcb = some (k', .returned none) ∧
      (k'.procs.contexts c).eax = 0 := by
  have linked' : System.Linked { k₁ with procs := k₁.procs.setEax c 0 } pend :=
    ⟨linked.queue, linked.unique, linked.apart⟩
  have context : (k₁.procs.setEax c 0).contexts c = { k₁.procs.contexts c with eax := 0 } :=
    Function.update_self _ _ _
  obtain ⟨k', result, ran, refuses, kept, -⟩ := System.schedule_appended linked' fresh (k₁.procs.contexts c).ebx
    (k₁.procs.contexts c).ecx (k₁.procs.contexts c).edx .read
  have failed := refuses.mpr refused
  obtain rfl := kept failed
  refine ⟨{ k₁ with procs := k₁.procs.setEax c 0 }, ?_, by rw [context]⟩
  unfold System.sysCall
  rw [checked, Option.bind_eq_bind, Option.bind_some]
  dsimp only
  rw [op, if_pos rfl]
  unfold System.requestIo
  dsimp only
  rw [if_pos running, context]
  dsimp only
  rw [ran, Option.bind_eq_bind, Option.bind_some]
  dsimp only
  rw [if_pos failed]
  rfl

/-! ### Copies of the line -/

theorem intParsable_line (holds : Holds user_input 0 (line ++ [0])) :
    intParsable user_input line.length = true ↔ ∀ c ∈ line, (decimalOf c).isSome :=
  intParsable_holds (holds_append.mp holds).1

theorem copiesLine_zeros {passed : Bool} {size : Nat} (holds : Holds user_input 0 (line ++ [0]))
    (fits : line.length < userInputSize) :
    CopiesLine line size (copyIf passed userInputSize size line.length user_input fun _ => 0) ↔
      (passed = true → line.length < size) := by
  by_cases check : passed = true
  · constructor
    · rintro ⟨r, result, string⟩ _
      by_cases room : line.length ≤ size
      · rw [copyIf_within check (Nat.le_of_lt fits) room] at result
        obtain rfl := Option.some.inj result
        exact (string _ rfl).1
      · rw [copyIf_beyond check (Nat.lt_of_not_le room)] at result
        cases result
    · intro room
      refine ⟨_, copyIf_within check (Nat.le_of_lt fits) (Nat.le_of_lt (room check)) _ _, ?_⟩
      rintro _ ⟨⟩
      refine ⟨room check, ?_⟩
      rw [holds_append, holds_cons, Nat.zero_add]
      exact ⟨holds_copied (holds_append.mp holds).1 _, copied_above (Nat.le_refl _) _ _, holds_nil _ _⟩
  · constructor
    · intro _ passed
      exact absurd passed check
    · intro _
      refine ⟨none, copyIf_other check _ _, ?_⟩
      rintro _ ⟨⟩

theorem copiesLine_closed {passed : Bool} {size : Nat} (holds : Holds user_input 0 (line ++ [0]))
    (fits : line.length < userInputSize) (dst : Nat → UInt8) :
    CopiesLine line size (copyIf passed userInputSize size (line.length + 1) user_input dst) ↔
      (passed = true → line.length < size) := by
  by_cases check : passed = true
  · constructor
    · rintro ⟨r, result, string⟩ _
      by_cases room : line.length + 1 ≤ size
      · exact room
      · rw [copyIf_beyond check (Nat.lt_of_not_le room)] at result
        cases result
    · intro room
      refine ⟨_, copyIf_within check fits (room check) _ _, ?_⟩
      rintro _ ⟨⟩
      refine ⟨room check, ?_⟩
      have whole := holds_copied holds dst
      rw [List.length_append, List.length_singleton] at whole
      exact whole
  · constructor
    · intro _ passed
      exact absurd passed check
    · intro _
      refine ⟨none, copyIf_other check _ _, ?_⟩
      rintro _ ⟨⟩

/-- Set Priority copies a line of 63 bytes beyond its array, and Allocate Memory one of 100 digits or more.
Free Memory has room for every line. -/
theorem copies_bounded (holds : Holds user_input 0 (line ++ [0])) (fits : line.length < userInputSize)
    (proc_name : Nat → UInt8) :
    (CopiesLine line procnameSize (setPcbPriorityCopy proc_name user_input line.length) ↔
      line.length ≠ procnameSize) ∧
      (CopiesLine line inputNumSize (allocateMemoryCopy user_input line.length) ↔
        ((∀ c ∈ line, (decimalOf c).isSome) → line.length < inputNumSize)) ∧
      CopiesLine line inputHexSize (freeMemoryCopy user_input line.length) := by
  refine ⟨?_, ?_, ?_⟩
  · unfold setPcbPriorityCopy
    rw [copiesLine_closed holds fits, Bool.and_eq_true, decide_eq_true_iff, decide_eq_true_iff]
    have : procnameSize = 63 := rfl
    omega
  · unfold allocateMemoryCopy
    rw [copiesLine_zeros holds fits, intParsable_line holds]
  · exact (copiesLine_zeros holds fits).mpr fun _ => fits

/-- "7" is a name, a size and, for `hexParsable`, an address. -/
theorem copies_bounded_hi :
    (CopiesLine [55] procnameSize (setPcbPriorityCopy (fun _ => 0) (ofList 0 [55]) 1) ∧
      ∃ m, setPcbPriorityCopy (fun _ => 0) (ofList 0 [55]) 1 = some (some m)) ∧
    (CopiesLine [55] inputNumSize (allocateMemoryCopy (ofList 0 [55]) 1) ∧
      ∃ m, allocateMemoryCopy (ofList 0 [55]) 1 = some (some m)) ∧
    (CopiesLine [55] inputHexSize (freeMemoryCopy (ofList 0 [55]) 1) ∧
      ∃ m, freeMemoryCopy (ofList 0 [55]) 1 = some (some m)) := by
  obtain ⟨name, size, address⟩ := @copies_bounded (ofList 0 [55]) [55] rfl (by decide) fun _ => 0
  refine ⟨⟨name.mpr (by decide), ?_⟩, ⟨size.mpr fun _ => by decide, ?_⟩, ⟨address, ?_⟩⟩
  · exact ⟨_, copyIf_within (by decide) (by decide) (by decide) _ _⟩
  · exact ⟨_, copyIf_within (by decide) (by decide) (by decide) _ _⟩
  · exact ⟨_, copyIf_within (by decide) (by decide) (by decide) _ _⟩

theorem copies_unbounded :
    ¬CopiesLine (List.replicate 63 97) procnameSize
      (setPcbPriorityCopy (fun _ => 0) (ofList 0 (List.replicate 63 97)) 63) := by
  rintro ⟨r, result, -⟩
  unfold setPcbPriorityCopy at result
  rw [copyIf_beyond (by decide) (by decide)] at result
  cases result

end Mpx.Command

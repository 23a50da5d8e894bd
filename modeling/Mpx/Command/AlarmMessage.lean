import Mpx.Command.Creation
import Mpx.Process.Startup

/-! # The message of an alarm

From the line that was typed in `alarmCommand` of `kernel/comhand.c`, by a copy on the heap and the arguments on the
stack of the new process, to the WRITEs of `alarmProcess` of `kernel/time.c`. -/

namespace Mpx.Command
open Library.ByteMemory Library.Processor Mpx.Process
open Library.Buffer (Holds length text holds_congr length_text_iff)

structure AlarmPlaces where
  userInput : UInt32
  alarmMsg : UInt32
  alarmArgs : UInt32
  segment : UInt32

/-- The objects of a message of `len` bytes do not overlap. The copy has one more byte. -/
structure AlarmPlaces.Distinct (A : AlarmPlaces) (len : Nat) : Prop where
  segment : A.segment.toNat + 4096 < 2 ^ 32
  given : A.alarmArgs ≠ 0
  input : A.userInput.toNat + (len + 1) ≤ A.alarmMsg.toNat ∨ A.alarmMsg.toNat + (len + 1) ≤ A.userInput.toNat
  args : A.alarmArgs.toNat + 16 ≤ A.alarmMsg.toNat ∨ A.alarmMsg.toNat + (len + 1) ≤ A.alarmArgs.toNat
  msg_stack : A.alarmMsg.toNat + (len + 1) ≤ A.segment.toNat ∨ A.segment.toNat + 4096 ≤ A.alarmMsg.toNat
  args_stack : A.alarmArgs.toNat + 16 ≤ A.segment.toNat ∨ A.segment.toNat + 4096 ≤ A.alarmArgs.toNat

/-- The copy of the message and `alarm_args`. `pcb_setup` stands between them and writes to the PCB and its stack. -/
def alarmArgsStored (m : Mem) (A : AlarmPlaces) (userInputLen : Nat) (hour minute second : UInt32) : Mem :=
  let m := copy A.userInput.toNat A.alarmMsg.toNat userInputLen m
  let m := store m A.alarmArgs.toNat hour.toNat
  let m := store m (A.alarmArgs.toNat + 4) minute.toNat
  let m := store m (A.alarmArgs.toNat + 8) second.toNat
  store m (A.alarmArgs.toNat + 12) A.alarmMsg.toNat

def alarmStarted (m : Mem) (A : AlarmPlaces) (userInputLen : Nat) (hour minute second alarmProcess : UInt32) :
    Mem × UInt32 :=
  contextInit (alarmArgsStored m A userInputLen hour minute second) (stackLast A.segment) alarmProcess A.alarmArgs
    alarmProcessParamsSize

/-- The WRITEs of `alarmProcess` after its loop, if `strlen` stays in the `size` bytes of the message. One of no
bytes is refused and writes as much. -/
def alarmTexts (m : Mem) (esp size : Nat) : Option (List (List UInt8)) :=
  let msg := load m (esp + 4 + 12)
  (length 0 size fun i => m (msg + i)).map fun strlen =>
    [bytes "[ALARM]: ", text (fun i => m (msg + i)) 0 strlen, bytes "\r\n"]

/-- When the alarm goes off, its message is as `alarmCommand` left it, and its arguments as its first instruction
found them. -/
structure Untouched (A : AlarmPlaces) (len : Nat) (left : Mem) (entry : Cpu) (m : Mem) : Prop where
  msg : ∀ i < len + 1, m (A.alarmMsg.toNat + i) = left (A.alarmMsg.toNat + i)
  args : ∀ i < 16, m ((entry.reg .esp).toNat + 4 + i) = entry.mem ((entry.reg .esp).toNat + 4 + i)

variable {m m' : Mem} {A : AlarmPlaces} {len : Nat} {hour minute second alarmProcess : UInt32} {line : List UInt8}
  {c : Cpu}

theorem alarmArgsStored_outside {x : Nat} (outside : x < A.alarmArgs.toNat ∨ A.alarmArgs.toNat + 16 ≤ x) :
    alarmArgsStored m A len hour minute second x = copy A.userInput.toNat A.alarmMsg.toNat len m x := by
  unfold alarmArgsStored
  simp (disch := omega) only [store_byte]

/-- The block holds the line, and in its last byte what the heap held. -/
theorem alarmStarted_block (hour minute second alarmProcess : UInt32) (distinct : A.Distinct line.length)
    (typed : Holds (fun i => m (A.userInput.toNat + i)) 0 line) :
    Holds (fun i => (alarmStarted m A line.length hour minute second alarmProcess).1 (A.alarmMsg.toNat + i)) 0 line ∧
      (alarmStarted m A line.length hour minute second alarmProcess).1 (A.alarmMsg.toNat + line.length) =
        m (A.alarmMsg.toNat + line.length) := by
  obtain ⟨fits, -, input, args, stack, -⟩ := distinct
  have block : ∀ i < line.length + 1,
      (alarmStarted m A line.length hour minute second alarmProcess).1 (A.alarmMsg.toNat + i) =
        copy A.userInput.toNat A.alarmMsg.toNat line.length m (A.alarmMsg.toNat + i) := by
    intro i inside
    unfold alarmStarted
    rw [contextInit_outside fits (by omega), alarmArgsStored_outside (by omega)]
  constructor
  · apply holds_congr _ typed
    intro i _ inside
    rw [block i (by omega), copy_inside (by unfold Apart; omega) (by omega)]
  · rw [block _ (Nat.lt_succ_self _), copy_outside (by omega)]

theorem untouched_msg (distinct : A.Distinct len)
    (switches : Switches c A.segment (alarmStarted m A len hour minute second alarmProcess).2
      (alarmStarted m A len hour minute second alarmProcess).1)
    (kept : Untouched A len (alarmStarted m A len hour minute second alarmProcess).1 (sysCallIsrExit c) m') :
    load m' (((sysCallIsrExit c).reg .esp).toNat + 4 + 12) = A.alarmMsg.toNat := by
  obtain ⟨fits, given, -, -, -, apart⟩ := distinct
  have entry := contextInit_entry fits (by decide) switches
  have args : ∀ i < 4, m' (((sysCallIsrExit c).reg .esp).toNat + 4 + 12 + i) =
      alarmArgsStored m A len hour minute second (A.alarmArgs.toNat + 12 + i) := by
    intro i inside
    rw [Nat.add_assoc (_ + 4), Nat.add_assoc A.alarmArgs.toNat, kept.args (12 + i) (by omega), entry.esp]
    apply contextInit_args fits (by decide) (fun _ => apart) switches
    unfold argBytes
    rw [if_neg given]
    change 12 + i < 16
    omega
  rw [load_moved args]
  exact load_store_same A.alarmMsg.toNat_lt

theorem alarm_finds (distinct : A.Distinct line.length) (typed : Holds (fun i => m (A.userInput.toNat + i)) 0 line)
    (switches : Switches c A.segment (alarmStarted m A line.length hour minute second alarmProcess).2
      (alarmStarted m A line.length hour minute second alarmProcess).1)
    (kept : Untouched A line.length (alarmStarted m A line.length hour minute second alarmProcess).1
      (sysCallIsrExit c) m') :
    load m' (((sysCallIsrExit c).reg .esp).toNat + 4 + 12) = A.alarmMsg.toNat ∧
      Holds (fun i => m' (A.alarmMsg.toNat + i)) 0 line ∧
        m' (A.alarmMsg.toNat + line.length) = m (A.alarmMsg.toNat + line.length) := by
  obtain ⟨block, last⟩ := alarmStarted_block hour minute second alarmProcess distinct typed
  refine ⟨untouched_msg distinct switches kept, ?_, (kept.msg _ (Nat.lt_succ_self _)).trans last⟩
  apply holds_congr _ block
  intro i _ inside
  exact kept.msg i (by omega)

theorem alarmTexts_line {msg esp : Nat} (address : load m (esp + 4 + 12) = msg)
    (holds : Holds (fun i => m (msg + i)) 0 line) :
    alarmTexts m esp (line.length + 1) = some [bytes "[ALARM]: ", line, bytes "\r\n"] ↔
      0 ∉ line ∧ m (msg + line.length) = 0 := by
  rw [← @length_text_iff _ (fun i => m (msg + i)) 0 line _ holds]
  unfold alarmTexts
  rw [address, Option.map_eq_some_iff, Option.map_eq_some_iff]
  simp

/-- An alarm shows the line that was typed, and reads nothing but its copy, exactly if the line has no NUL and the
heap happened to hold one where it ends: the copy is not closed. -/
theorem alarm_shows (distinct : A.Distinct line.length) (typed : Holds (fun i => m (A.userInput.toNat + i)) 0 line)
    (switches : Switches c A.segment (alarmStarted m A line.length hour minute second alarmProcess).2
      (alarmStarted m A line.length hour minute second alarmProcess).1)
    (kept : Untouched A line.length (alarmStarted m A line.length hour minute second alarmProcess).1
      (sysCallIsrExit c) m') :
    alarmTexts m' ((sysCallIsrExit c).reg .esp).toNat (line.length + 1) =
        some [bytes "[ALARM]: ", line, bytes "\r\n"] ↔
      0 ∉ line ∧ m (A.alarmMsg.toNat + line.length) = 0 := by
  obtain ⟨address, holds, last⟩ := alarm_finds distinct typed switches kept
  rw [alarmTexts_line address holds, last]

/-! ### One alarm -/

def alarmPlaces : AlarmPlaces :=
  { userInput := 0x00020000, alarmMsg := 0x0D000300, alarmArgs := 0x00030000, segment := 0x0D001000 }

/-- The line `hi` has been typed, and the heap holds `last` where its copy will end. -/
def typedMemory (last : UInt8) : Mem := fun x =>
  if x = 0x00020000 then 'h'.toUInt8
  else if x = 0x00020001 then 'i'.toUInt8
  else if x = 0x0D000302 then last
  else 0

def switchCpu (started : Mem × UInt32) : Cpu :=
  { reg := fun _ => started.2, seg := fun _ => 0x0010, eip := 0, eflags := 0x00000002, mem := started.1 }

theorem alarmPlaces_distinct : alarmPlaces.Distinct (bytes "hi").length := by
  constructor <;> decide

theorem typedMemory_typed (last : UInt8) :
    Holds (fun i => typedMemory last (alarmPlaces.userInput.toNat + i)) 0 (bytes "hi") := rfl

theorem switchCpu_switches (segment : UInt32) (started : Mem × UInt32) :
    Switches (switchCpu started) segment started.2 started.1 := ⟨rfl, fun _ _ _ => rfl⟩

theorem switchCpu_untouched (last : UInt8) :
    let started := alarmStarted (typedMemory last) alarmPlaces (bytes "hi").length 7 30 0 0x00100000
    Untouched alarmPlaces (bytes "hi").length started.1 (sysCallIsrExit (switchCpu started))
      (sysCallIsrExit (switchCpu started)).mem := by
  constructor
  · intro i _
    rw [sysCallIsrExit_mem]
    rfl
  · exact fun _ _ => rfl

theorem alarm_shows_hi :
    let started := alarmStarted (typedMemory 0) alarmPlaces (bytes "hi").length 7 30 0 0x00100000
    let entry := sysCallIsrExit (switchCpu started)
    alarmTexts entry.mem (entry.reg .esp).toNat 3 = some [bytes "[ALARM]: ", bytes "hi", bytes "\r\n"] :=
  (alarm_shows alarmPlaces_distinct (typedMemory_typed 0) (switchCpu_switches _ _) (switchCpu_untouched 0)).mpr
    ⟨by decide, rfl⟩

theorem alarm_not_shows : ¬∀ (m m' : Mem) (A : AlarmPlaces) (line : List UInt8)
    (hour minute second alarmProcess : UInt32) (c : Cpu), A.Distinct line.length →
      Holds (fun i => m (A.userInput.toNat + i)) 0 line →
      Switches c A.segment (alarmStarted m A line.length hour minute second alarmProcess).2
        (alarmStarted m A line.length hour minute second alarmProcess).1 →
      Untouched A line.length (alarmStarted m A line.length hour minute second alarmProcess).1 (sysCallIsrExit c) m' →
      alarmTexts m' ((sysCallIsrExit c).reg .esp).toNat (line.length + 1) =
        some [bytes "[ALARM]: ", line, bytes "\r\n"] := by
  intro always
  have switches := switchCpu_switches alarmPlaces.segment
    (alarmStarted (typedMemory 88) alarmPlaces (bytes "hi").length 7 30 0 0x00100000)
  have shows := always _ _ _ _ 7 30 0 0x00100000 _ alarmPlaces_distinct (typedMemory_typed 88) switches
    (switchCpu_untouched 88)
  obtain ⟨address, holds, last⟩ := alarm_finds alarmPlaces_distinct (typedMemory_typed 88) switches
    (switchCpu_untouched 88)
  have closed := ((alarmTexts_line address holds).mp shows).2
  rw [last] at closed
  exact absurd closed (by decide)

end Mpx.Command

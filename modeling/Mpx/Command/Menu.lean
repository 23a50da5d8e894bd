import Mpx.Command.Input
import Mpx.Command.ShowState

/-! # The menu

Which command a line at the menu runs, and whose help a line at the Help prompt shows: `comhand` and `helpCommand`
of `kernel/comhand.c` look the line up in `cmd_entries` with `strcmp` of `lib/string.c`. -/

namespace Mpx.Command
open Library.Buffer Device

/-- The functions that `cmd_entries` points to. -/
inductive CommandFunc where
  | helpCommand | setTimeCommand | getTimeCommand | setDateCommand | getDateCommand | setPcbPriorityCommand
  | showPcbCommand | showPcbReadyCommand | showPcbBlockedCommand | showPcbAllCommand | deletePcbCommand
  | suspendPcbCommand | resumePcbCommand | versionCommand | shutdownCommand | loadR3 | alarmCommand
  | allocateMemoryCommand | freeMemoryCommand | showFreeMemoryCommand | showAllocatedMemoryCommand
  deriving DecidableEq, Repr

structure CmdEntry where
  key : List UInt8
  keyAlt : List UInt8
  commandFunc : CommandFunc
  deriving DecidableEq, Repr

def cmdEntries : List CmdEntry :=
  [⟨bytes "1", bytes "Help", .helpCommand⟩,
    ⟨bytes "2", bytes "Set Time", .setTimeCommand⟩,
    ⟨bytes "3", bytes "Get Time", .getTimeCommand⟩,
    ⟨bytes "4", bytes "Set Date", .setDateCommand⟩,
    ⟨bytes "5", bytes "Get Date", .getDateCommand⟩,
    ⟨bytes "6", bytes "Set PCB Priority", .setPcbPriorityCommand⟩,
    ⟨bytes "7", bytes "Show PCB", .showPcbCommand⟩,
    ⟨bytes "8", bytes "Show Ready PCBs", .showPcbReadyCommand⟩,
    ⟨bytes "9", bytes "Show Blocked PCBs", .showPcbBlockedCommand⟩,
    ⟨bytes "10", bytes "Show All PCBs", .showPcbAllCommand⟩,
    ⟨bytes "11", bytes "Delete PCB", .deletePcbCommand⟩,
    ⟨bytes "12", bytes "Suspend PCB", .suspendPcbCommand⟩,
    ⟨bytes "13", bytes "Resume PCB", .resumePcbCommand⟩,
    ⟨bytes "14", bytes "Version", .versionCommand⟩,
    ⟨bytes "15", bytes "Shut Down", .shutdownCommand⟩,
    ⟨bytes "16", bytes "LoadR3", .loadR3⟩,
    ⟨bytes "17", bytes "Alarm", .alarmCommand⟩,
    ⟨bytes "18", bytes "Allocate Memory", .allocateMemoryCommand⟩,
    ⟨bytes "19", bytes "Free Memory", .freeMemoryCommand⟩,
    ⟨bytes "20", bytes "Show Free Memory", .showFreeMemoryCommand⟩,
    ⟨bytes "21", bytes "Show Allocated Memory", .showAllocatedMemoryCommand⟩]

/-- The loop of `strcmp` from the characters at `i` on, on arrays of these sizes. -/
def strcmpFrom (size₁ size₂ : Nat) (s1 s2 : Nat → UInt8) : Nat → Nat → Option Int
  | 0, _ => none
  | n + 1, i => do
    let c1 ← read size₁ s1 i
    let c2 ← read size₂ s2 i
    if c1 ≠ 0 ∧ c1 = c2 then strcmpFrom size₁ size₂ s1 s2 n (i + 1) else return (c1.toNat : Int) - c2.toNat

/-- `none` is an access outside of an array. -/
def strcmp (size₁ size₂ : Nat) (s1 s2 : Nat → UInt8) : Option Int := strcmpFrom size₁ size₂ s1 s2 (size₁ + 1) 0

/-- `strcmp(user_input, str)` for a string constant. -/
def strcmpInput (user_input : Nat → UInt8) (str : List UInt8) : Option Int :=
  strcmp userInputSize (str.length + 1) user_input (ofList 0 (str ++ [0]))

/-- The condition in the loops over `cmd_entries`. -/
def CmdEntry.isNamed (e : CmdEntry) (user_input : Nat → UInt8) : Option Bool := do
  let byKey ← strcmpInput user_input e.key
  if byKey = 0 then return true
  let byAlt ← strcmpInput user_input e.keyAlt
  return byAlt = 0

/-- The first entry of the loop that the line names. `some none` is that there is none. -/
def findEntry (user_input : Nat → UInt8) : List CmdEntry → Option (Option CmdEntry)
  | [] => some none
  | e :: rest => do
    let named ← e.isNamed user_input
    if named then return some e else findEntry user_input rest

/-- One turn of the loop of `comhand`: the command that is run, or `none` for "Please select a valid option." -/
def comhandTurn (user_input : Nat → UInt8) : Option (Option CommandFunc) :=
  (findEntry user_input cmdEntries).map fun found => found.map (·.commandFunc)

/-- The entries whose help is shown. -/
def helpCommand (user_input : Nat → UInt8) : Option (List CmdEntry) := do
  let every ← strcmp 4 userInputSize (ofList 0 (bytes "all" ++ [0])) user_input
  if every = 0 then return cmdEntries
  let found ← findEntry user_input cmdEntries
  return found.toList

/-- What `strcmp` sees of a line. -/
def cString (line : List UInt8) : List UInt8 := line.takeWhile (· ≠ 0)

def CmdEntry.Names (e : CmdEntry) (line : List UInt8) : Prop := cString line = e.key ∨ cString line = e.keyAlt

instance (e : CmdEntry) (line : List UInt8) : Decidable (e.Names line) := inferInstanceAs (Decidable (_ ∨ _))

variable {size₁ size₂ n i : Nat} {s1 s2 user_input : Nat → UInt8} {l l' line str stored typed : List UInt8}
  {e : CmdEntry} {entries : List CmdEntry} {scheduled : Bool}

/-! ### Comparing strings -/

theorem difference_zero {c1 c2 : UInt8} : (c1.toNat : Int) - c2.toNat = 0 ↔ c1 = c2 := by
  rw [Int.sub_eq_zero, Int.ofNat_inj, UInt8.toNat_inj]

theorem headD_free (free : 0 ∉ l) : l.headD 0 = 0 ↔ l = [] := by
  cases l with
  | nil => simp
  | cons c l =>
    have real : c ≠ 0 := fun null => free (null ▸ List.mem_cons_self)
    simp [real]

/-- `strcmp` ends inside of both arrays, and its result is 0 for equal strings only. -/
theorem strcmpFrom_holds (first : Holds s1 i (l ++ [0])) (second : Holds s2 i (l' ++ [0])) (free : 0 ∉ l)
    (free' : 0 ∉ l') (fits : i + l.length < size₁) (fits' : i + l'.length < size₂) (enough : l.length < n) :
    ∃ r, strcmpFrom size₁ size₂ s1 s2 n i = some r ∧ (r = 0 ↔ l = l') := by
  induction l generalizing i l' n with
  | nil =>
    obtain ⟨n, rfl⟩ := Nat.exists_eq_succ_of_ne_zero (Nat.ne_of_gt enough)
    refine ⟨((0 : UInt8).toNat : Int) - (l'.headD 0).toNat, ?_, ?_⟩
    · unfold strcmpFrom
      rw [read_first first fits, read_first second fits']
      simp
    · rw [difference_zero, eq_comm, headD_free free', eq_comm]
  | cons c l ih =>
    obtain ⟨n, rfl⟩ := Nat.exists_eq_succ_of_ne_zero (Nat.ne_of_gt (Nat.lt_of_le_of_lt (Nat.zero_le _) enough))
    have real : c ≠ 0 := fun null => free (null ▸ List.mem_cons_self)
    unfold strcmpFrom
    rw [read_first first fits, read_first second fits', Option.bind_eq_bind, Option.bind_some, Option.bind_some,
      List.headD_cons]
    by_cases same : c = l'.headD 0
    · rw [if_pos ⟨real, same⟩]
      cases l' with
      | nil => exact (real same).elim
      | cons c' l' =>
        obtain rfl : c = c' := same
        rw [List.length_cons] at fits fits' enough
        obtain ⟨r, ran, zero⟩ := ih (holds_cons.mp first).2 (holds_cons.mp second).2
          (fun inside => free (List.mem_cons_of_mem _ inside)) (fun inside => free' (List.mem_cons_of_mem _ inside))
          (by omega) (by omega) (Nat.lt_of_succ_lt_succ enough)
        refine ⟨r, ran, zero.trans ?_⟩
        simp
    · rw [if_neg fun both => same both.2]
      refine ⟨_, rfl, difference_zero.trans ?_⟩
      constructor
      · intro equal
        exact (same equal).elim
      · intro equal
        rw [← equal]
        rfl

theorem cString_free (line : List UInt8) : 0 ∉ cString line := by
  intro inside
  have kept := List.all_eq_true.mp List.all_takeWhile 0 inside
  exact absurd rfl (of_decide_eq_true kept)

theorem cString_length (line : List UInt8) : (cString line).length ≤ line.length :=
  (List.takeWhile_sublist _).length_le

/-- A line is a string up to its first NUL. -/
theorem holds_cString (holds : Holds s1 i (line ++ [0])) : Holds s1 i (cString line ++ [0]) := by
  induction line generalizing i with
  | nil => exact holds
  | cons c line ih =>
    obtain ⟨here, rest⟩ := holds_cons.mp holds
    unfold cString
    by_cases null : c = 0
    · rw [List.takeWhile_cons_of_neg (by simp [null])]
      exact holds_cons.mpr ⟨here.trans null, holds_nil _ _⟩
    · rw [List.takeWhile_cons_of_pos (by simp [null])]
      exact holds_cons.mpr ⟨here, ih rest⟩

theorem strcmpInput_holds (holds : Holds user_input 0 (line ++ [0])) (fits : line.length < userInputSize)
    (free : 0 ∉ str) : ∃ r, strcmpInput user_input str = some r ∧ (r = 0 ↔ cString line = str) := by
  have short := cString_length line
  exact strcmpFrom_holds (holds_cString holds) (holds_ofList _ _) (cString_free line) free (by omega) (by omega)
    (by omega)

/-! ### Looking a line up -/

/-- The names are strings, no two entries share one, and no two entries run the same function. -/
theorem cmdEntries_names :
    (∀ e ∈ cmdEntries, 0 ∉ e.key ∧ 0 ∉ e.keyAlt) ∧
      (∀ e ∈ cmdEntries, ∀ e' ∈ cmdEntries, ∀ name ∈ [e.key, e.keyAlt], name ∈ [e'.key, e'.keyAlt] → e = e') ∧
        (cmdEntries.map (·.commandFunc)).Nodup := by
  decide +kernel

theorem isNamed_holds (holds : Holds user_input 0 (line ++ [0])) (fits : line.length < userInputSize)
    (strings : 0 ∉ e.key ∧ 0 ∉ e.keyAlt) : e.isNamed user_input = some (decide (e.Names line)) := by
  obtain ⟨byKey, ranKey, key⟩ := strcmpInput_holds holds fits strings.1
  obtain ⟨byAlt, ranAlt, alt⟩ := strcmpInput_holds holds fits strings.2
  unfold CmdEntry.isNamed
  rw [ranKey, Option.bind_eq_bind, Option.bind_some]
  by_cases equal : byKey = 0
  · have named : e.Names line := .inl (key.mp equal)
    rw [if_pos equal, decide_eq_true named]
    rfl
  · have named : e.Names line ↔ byAlt = 0 := by
      unfold CmdEntry.Names
      rw [← key, ← alt]
      exact or_iff_right equal
    rw [if_neg equal, ranAlt, Option.bind_some]
    exact congrArg some (decide_eq_decide.mpr named.symm)

theorem findEntry_holds (holds : Holds user_input 0 (line ++ [0])) (fits : line.length < userInputSize)
    (strings : ∀ e ∈ entries, 0 ∉ e.key ∧ 0 ∉ e.keyAlt) :
    findEntry user_input entries = some (entries.find? fun e => decide (e.Names line)) := by
  induction entries with
  | nil => rfl
  | cons e rest ih =>
    obtain ⟨own, others⟩ := List.forall_mem_cons.mp strings
    unfold findEntry
    rw [isNamed_holds holds fits own, Option.bind_eq_bind, Option.bind_some, List.find?_cons]
    by_cases named : e.Names line
    · rw [decide_eq_true named]
      rfl
    · rw [decide_eq_false named]
      exact ih others

theorem names_mem : e.Names line ↔ cString line ∈ [e.key, e.keyAlt] := by
  unfold CmdEntry.Names
  simp

/-- A line names no two entries. -/
theorem named_once {e' : CmdEntry} (member : e ∈ cmdEntries) (member' : e' ∈ cmdEntries) (named : e.Names line)
    (named' : e'.Names line) : e = e' :=
  cmdEntries_names.2.1 e member e' member' _ (names_mem.mp named) (names_mem.mp named')

/-- Where one member at most satisfies `p`, looking for one is looking for all. -/
theorem filter_find {α : Type} {p : α → Bool} {l : List α} (once : l.Nodup)
    (unique : ∀ a ∈ l, ∀ b ∈ l, p a = true → p b = true → a = b) : l.filter p = (l.find? p).toList := by
  have once := once.filter p
  rw [← List.head?_filter]
  cases found : l.filter p with
  | nil => rfl
  | cons a rest =>
    cases rest with
    | nil => rfl
    | cons b rest =>
      have first : a ∈ l.filter p := found ▸ List.mem_cons_self
      have second : b ∈ l.filter p := found ▸ List.mem_cons_of_mem a List.mem_cons_self
      obtain ⟨member, holds⟩ := List.mem_filter.mp first
      obtain ⟨member', holds'⟩ := List.mem_filter.mp second
      have same := unique a member b member' holds holds'
      rw [found, same] at once
      exact ((List.nodup_cons.mp once).1 List.mem_cons_self).elim

/-- The entry that is found is the one that the line names. -/
theorem find_named (member : e ∈ cmdEntries) :
    (cmdEntries.find? fun e => decide (e.Names line)) = some e ↔ e.Names line := by
  constructor
  · intro found
    have named := List.find?_some found
    simpa using named
  · intro named
    cases found : cmdEntries.find? fun e => decide (e.Names line) with
    | none => exact absurd (decide_eq_true named) (List.find?_eq_none.mp found e member)
    | some e' =>
      have other := List.find?_some found
      rw [named_once (List.mem_of_find?_eq_some found) member (by simpa using other) named]

theorem comhandTurn_holds (holds : Holds user_input 0 (line ++ [0])) (fits : line.length < userInputSize) :
    (∀ e ∈ cmdEntries, comhandTurn user_input = some (some e.commandFunc) ↔ e.Names line) ∧
      (comhandTurn user_input = some none ↔ ∀ e ∈ cmdEntries, ¬e.Names line) := by
  have ran := findEntry_holds holds fits cmdEntries_names.1
  unfold comhandTurn
  rw [ran]
  constructor
  · intro e member
    rw [← find_named member]
    constructor
    · intro runs
      obtain ⟨e', found, same⟩ := Option.map_eq_some_iff.mp (Option.some.inj runs)
      rw [found, List.inj_on_of_nodup_map cmdEntries_names.2.2 (List.mem_of_find?_eq_some found) member same]
    · intro found
      rw [found]
      rfl
  · rw [Option.map_some, Option.some.injEq, Option.map_eq_none_iff, List.find?_eq_none]
    simp only [decide_eq_true_eq]

/-- Help shows the entry of the command that the line would run at the menu, and all of them for "all". -/
theorem helpCommand_holds (holds : Holds user_input 0 (line ++ [0])) (fits : line.length < userInputSize) :
    helpCommand user_input = some (if cString line = bytes "all" then cmdEntries
      else cmdEntries.filter fun e => comhandTurn user_input = some (some e.commandFunc)) := by
  have short := cString_length line
  have free : 0 ∉ bytes "all" := by decide +kernel
  have three : (bytes "all").length = 3 := by decide +kernel
  obtain ⟨every, ran, all⟩ := strcmpFrom_holds (holds_ofList 0 (bytes "all" ++ [0])) (holds_cString holds) free
    (cString_free line) (by omega : 0 + _ < 4) (show 0 + _ < userInputSize by omega) (by omega : _ < 5)
  have turn : ∀ e ∈ cmdEntries, decide (comhandTurn user_input = some (some e.commandFunc)) = decide (e.Names line) :=
    fun e member => decide_eq_decide.mpr ((comhandTurn_holds holds fits).1 e member)
  unfold helpCommand
  rw [show strcmp 4 userInputSize (ofList 0 (bytes "all" ++ [0])) user_input = some every from ran,
    Option.bind_eq_bind, Option.bind_some, findEntry_holds holds fits cmdEntries_names.1, List.filter_congr turn]
  by_cases equal : every = 0
  · rw [if_pos equal, if_pos (all.mp equal).symm]
    rfl
  · rw [if_neg equal, if_neg fun same => equal (all.mpr same.symm)]
    have unique : ∀ e ∈ cmdEntries, ∀ e' ∈ cmdEntries, decide (e.Names line) = true → decide (e'.Names line) = true →
        e = e' := by
      intro e member e' member' named named'
      exact named_once member member' (of_decide_eq_true named) (of_decide_eq_true named')
    rw [filter_find cmdEntries_names.2.2.of_map unique]
    rfl

/-- A line that is typed at the menu runs the command whose number or name it is, up to its first NUL, and no
command if it is none; the same line at the Help prompt shows the help of that command. -/
theorem menu_exact (returns : ReadReturns scheduled typed)
    (holds : Holds user_input 0 (readStores scheduled typed))
    (ends : scheduled = true ∧ carriageReturn ∈ typed.take userInputSize) :
    ∃ text len, userInputPromptread user_input (.ofNat (readStores scheduled typed).length) = some (text, len) ∧
      (∀ e ∈ cmdEntries, comhandTurn text = some (some e.commandFunc) ↔
        e.Names (typedLine (readStores scheduled typed))) ∧
      (comhandTurn text = some none ↔ ∀ e ∈ cmdEntries, ¬e.Names (typedLine (readStores scheduled typed))) ∧
      helpCommand text = some (if cString (typedLine (readStores scheduled typed)) = bytes "all" then cmdEntries
        else cmdEntries.filter fun e => comhandTurn text = some (some e.commandFunc)) := by
  obtain ⟨text, len, read, _, most, length, line⟩ := (promptread_exact returns holds).mpr ends
  have fits : (typedLine (readStores scheduled typed)).length < userInputSize := by
    unfold userInputSize
    omega
  obtain ⟨runs, refuses⟩ := comhandTurn_holds line fits
  exact ⟨text, len, read, runs, refuses, helpCommand_holds line fits⟩

/-- "Shut Down", with the line end. -/
theorem menu_exact_example : ∃ text len,
    userInputPromptread (ofList 0 (bytes "Shut Down" ++ [13])) 10 = some (text, len) ∧
      comhandTurn text = some (some .shutdownCommand) := by
  have stored : readStores true (bytes "Shut Down" ++ [13]) = bytes "Shut Down" ++ [13] := by decide +kernel
  have holds : Holds (ofList 0 (bytes "Shut Down" ++ [13])) 0 (readStores true (bytes "Shut Down" ++ [13])) := by
    rw [stored]
    exact holds_ofList 0 _
  have returns : ReadReturns true (bytes "Shut Down" ++ [13]) := fun _ => .inr (by decide +kernel)
  obtain ⟨text, len, read, runs, _⟩ := menu_exact returns holds ⟨rfl, by decide +kernel⟩
  have length : Int32.ofNat (readStores true (bytes "Shut Down" ++ [13])).length = 10 := by decide +kernel
  rw [length] at read
  exact ⟨text, len, read, (runs ⟨bytes "15", bytes "Shut Down", .shutdownCommand⟩ (by decide +kernel)).mpr
    (by decide +kernel)⟩

end Mpx.Command

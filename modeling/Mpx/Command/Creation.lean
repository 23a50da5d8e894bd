import Mpx.Command.ShowState
import Mpx.System.Names

/-! # Commands that create processes

`loadR3` of `kernel/loadR3.c`, and what `alarmCommand` of `kernel/comhand.c` does after its prompts. What
`sys_alloc_mem` returns is an argument. -/

namespace Mpx.Command
open Mpx.Process Mpx.System

/-- A creation: the arguments of `pcb_setup` and `pcb_context_init`, and the results of the two calls of
`sys_alloc_mem`. -/
structure Start where
  name : List UInt8
  pri : Nat
  entry : System.Entry
  pcb : Ptr
  stack : Ptr

namespace Start

def create (t : Start) (s : Procs) : Option Procs := createPcb s t.name .user t.pri (some t.entry) t.pcb t.stack

/-- What is asked for: a process whose creation fails is not started, and all else stays as it was. -/
def attempt (t : Start) (s : Procs) : Option Procs := do
  let (s', pcbNew) ← pcbSetup s t.name .user t.pri t.pcb t.stack
  if pcbNew = 0 then return s
  let s' ← pcbContextInit s' pcbNew t.entry.func t.entry.fargs t.entry.fargc
  pcbInsert s' pcbNew

/-- The name and the arguments are not themselves refused. -/
def Fits (t : Start) : Prop :=
  t.name.length + 1 ≤ pcbProcnameBufferSz ∧ t.pri ≤ pcbProcpriMax ∧ t.entry.fargc ≤ pcbMaxArgSz

def Succeeds (t : Start) (s : Procs) : Prop := pcbFind s t.name = some 0 ∧ t.pcb ≠ 0 ∧ t.stack ≠ 0

end Start

def startAll : List Start → Procs → Option Procs
  | [], s => some s
  | t :: l, s => do
    let s ← t.create s
    startAll l s

def attemptAll : List Start → Procs → Option Procs
  | [], s => some s
  | t :: l, s => do
    let s ← t.attempt s
    attemptAll l s

/-- `proc` are the entry functions `proc1` to `proc5`. -/
def loadR3Starts (proc : Fin 5 → UInt32) (alloc : Fin 5 → Ptr × Ptr) : List Start :=
  [⟨bytes "proc1", 1, ⟨proc 0, 0, 0⟩, (alloc 0).1, (alloc 0).2⟩,
    ⟨bytes "proc2", 1, ⟨proc 1, 0, 0⟩, (alloc 1).1, (alloc 1).2⟩,
    ⟨bytes "proc3", 1, ⟨proc 2, 0, 0⟩, (alloc 2).1, (alloc 2).2⟩,
    ⟨bytes "proc4", 1, ⟨proc 3, 0, 0⟩, (alloc 3).1, (alloc 3).2⟩,
    ⟨bytes "proc5", 1, ⟨proc 4, 0, 0⟩, (alloc 4).1, (alloc 4).2⟩]

def loadR3 (s : Procs) (proc : Fin 5 → UInt32) (alloc : Fin 5 → Ptr × Ptr) : Option Procs :=
  startAll (loadR3Starts proc alloc) s

def alarmcmdMaxAlarmId : Nat := 256
def alarmcmdTimerPrefix : List UInt8 := bytes "timer_"

/-- The loop that looks for a name, with `n` numbers to go. The prefix is left if all of them are in use. -/
def timerName (s : Procs) : Nat → Nat → Option (List UInt8)
  | 0, _ => some alarmcmdTimerPrefix
  | n + 1, i => do
    let timername := alarmcmdTimerPrefix ++ itoa i
    let found ← pcbFind s timername
    if found = 0 then return timername
    timerName s n (i + 1)

def alarmProcessParamsSize : UInt32 := 16

structure AlarmAllocs where
  alarmMsg : Ptr
  pcb : Ptr
  stack : Ptr

def timerStart (timername : List UInt8) (alarmProcess alarmArgs : UInt32) (alloc : AlarmAllocs) : Start :=
  ⟨timername, 0, ⟨alarmProcess, alarmArgs, alarmProcessParamsSize⟩, alloc.pcb, alloc.stack⟩

/-- `alarmCommand` after its prompts. A message of no bytes is copied to NULL without harm. -/
def alarmCommand (s : Procs) (alarmProcess alarmArgs userInputLen : UInt32) (alloc : AlarmAllocs) : Option Procs := do
  if alloc.alarmMsg = 0 ∧ userInputLen ≠ 0 then none
  let timername ← timerName s alarmcmdMaxAlarmId 0
  (timerStart timername alarmProcess alarmArgs alloc).create s

/-- What is asked for: without a message there is no alarm. -/
def attemptAlarm (s : Procs) (alarmProcess alarmArgs : UInt32) (alloc : AlarmAllocs) : Option Procs := do
  if alloc.alarmMsg = 0 then return s
  let timername ← timerName s alarmcmdMaxAlarmId 0
  (timerStart timername alarmProcess alarmArgs alloc).attempt s

/-- The command runs to its end, past no NULL pointer, and does what is asked for. -/
def Survives (ran asked : Option Procs) : Prop := ∃ s', ran = some s' ∧ asked = some s'

/-- The contract of `sys_alloc_mem` at each creation: its PCB is in no queue. -/
def Supplied : List Start → Procs → Prop
  | [], _ => True
  | t :: l, s => (∀ i, t.pcb ∉ inRow s i) ∧ ∀ s', t.create s = some s' → Supplied l s'

variable {s s' : Procs} {qs : Fin 4 → List Ptr} {t : Start} {l : List Start} {name : List UInt8}

theorem pcbFind_free (Q : Queued s qs) : pcbFind s name = some 0 ↔ ∀ i, ∀ p ∈ qs i, (s.pcbs p).name ≠ name := by
  obtain ⟨found, ran, which⟩ := pcbFind_named Q name
  rw [ran, Option.some_inj]
  constructor
  · rintro rfl
    rcases which with ⟨-, free⟩ | ⟨⟨i, null⟩, -⟩
    · exact free
    · exact absurd null (Q.queue i).chain.nonnull
  · intro free
    rcases which with ⟨null, -⟩ | ⟨⟨i, member⟩, named⟩
    · exact null
    · exact absurd named (free i found member)

/-! ### One creation -/

theorem pcbSetup_result (Q : Queued s qs) (fits : t.Fits) :
    (t.Succeeds s ∧ ∃ s₁, pcbSetup s t.name .user t.pri t.pcb t.stack = some (s₁, t.pcb)) ∨
      (¬t.Succeeds s ∧ ∃ s₁, pcbSetup s t.name .user t.pri t.pcb t.stack = some (s₁, 0)) := by
  obtain ⟨short, pri, -⟩ := fits
  obtain ⟨found, ran, -⟩ := pcbFind_named Q t.name
  unfold Start.Succeeds pcbSetup
  rw [if_pos short, ran, Option.some_inj]
  change _ ∧ (∃ s₁, (if found = 0 then _ else some (s, 0)) = some (s₁, t.pcb)) ∨
    _ ∧ (∃ s₁, (if found = 0 then _ else some (s, 0)) = some (s₁, 0))
  by_cases free : found = 0
  swap
  · rw [if_neg free]
    exact .inr ⟨fun succeeds => free succeeds.1, s, rfl⟩
  rw [if_pos free, if_pos pri]
  unfold pcbAllocate
  by_cases real : t.pcb = 0
  · rw [if_neg (not_not.mpr real)]
    exact .inr ⟨fun succeeds => succeeds.2.1 real, s, rfl⟩
  · rw [if_pos real]
    by_cases grounded : t.stack = 0
    · simp only [if_neg (not_not.mpr grounded)]
      exact .inr ⟨fun succeeds => succeeds.2.2 grounded, _, rfl⟩
    · simp only [if_pos grounded, if_pos real]
      exact .inl ⟨⟨free, real, grounded⟩, _, rfl⟩

theorem create_fails (Q : Queued s qs) (fits : t.Fits) (fails : ¬t.Succeeds s) :
    t.create s = none ∧ t.attempt s = some s := by
  obtain ⟨succeeds, -⟩ | ⟨-, s₁, setup⟩ := pcbSetup_result Q fits
  · exact absurd succeeds fails
  have null : pcbContextInit s₁ 0 t.entry.func t.entry.fargs t.entry.fargc = none := by
    unfold pcbContextInit
    rw [if_neg (UInt32.not_lt.mpr fits.2.2), if_pos rfl]
  unfold Start.create Start.attempt createPcb
  rw [setup]
  constructor
  · change (pcbContextInit s₁ 0 _ _ _).bind _ = none
    rw [null]
    rfl
  · rfl

structure Joins (t : Start) (s s' : Procs) (qs qs' : Fin 4 → List Ptr) : Prop where
  queued : Queued s' qs'
  members : ∀ q, (∃ i, q ∈ qs' i) ↔ q = t.pcb ∨ ∃ i, q ∈ qs i
  name : (s'.pcbs t.pcb).name = t.name
  names : ∀ q, q ≠ t.pcb → (s'.pcbs q).name = (s.pcbs q).name

theorem contextInit_runs {p stack : Ptr} {fargc : UInt32} (func fargs : UInt32) (spawned : Spawned s s' p stack)
    (real : p ≠ 0) (small : fargc ≤ pcbMaxArgSz) : ∃ s₂, pcbContextInit s' p func fargs fargc = some s₂ := by
  obtain ⟨c, saved, -⟩ := spawned.saved
  unfold pcbContextInit
  rw [if_neg (UInt32.not_lt.mpr small), if_neg real, saved]
  exact ⟨_, rfl⟩

theorem create_joins (Q : Queued s qs) (fits : t.Fits) (succeeds : t.Succeeds s) (fresh : ∀ i, t.pcb ∉ qs i) :
    ∃ s' qs', t.create s = some s' ∧ t.attempt s = some s' ∧ Joins t s s' qs qs' := by
  have real := succeeds.2.1
  obtain ⟨-, s₁, setup⟩ | ⟨fails, -⟩ := pcbSetup_result Q fits
  swap
  · exact absurd succeeds fails
  obtain ⟨-, -, spawned⟩ := (pcbSetup_spawned setup).resolve_left real
  obtain ⟨s₂, init⟩ := contextInit_runs t.entry.func t.entry.fargs spawned real fits.2.2
  have spawned := pcbContextInit_spawned spawned init
  have Q₂ : Queued s₂ qs := Q.congr spawned.queues fun i q inside =>
    spawned.others q fun same => fresh i (same ▸ inside)
  obtain ⟨s', inserted, Q', -⟩ := pcbInsert_queued Q₂ real fresh spawned.next
  have created : t.create s = some s' := by
    unfold Start.create createPcb
    rw [setup]
    change (pcbContextInit s₁ t.pcb _ _ _).bind _ = some s'
    rw [init]
    exact inserted
  have attempted : t.attempt s = some s' := by
    unfold Start.attempt
    rw [setup]
    change (if t.pcb = 0 then some s else (pcbContextInit s₁ t.pcb _ _ _).bind _) = some s'
    rw [if_neg real, init]
    exact inserted
  obtain ⟨-, name, names⟩ := createPcb_named created
  refine ⟨s', _, created, attempted, Q', fun q => ?_, name, names⟩
  generalize (s₂.state t.pcb).queueSelector = i
  have row : ∀ isPri, q ∈ enqueue (fun p => (s₂.state p).pri) isPri t.pcb (qs i) ↔ q = t.pcb ∨ q ∈ qs i := by
    intro isPri
    rw [(enqueue_perm _ isPri t.pcb (qs i)).mem_iff, List.mem_cons]
  constructor
  · rintro ⟨j, member⟩
    by_cases own : j = i
    · rw [own, Function.update_self, row] at member
      exact member.imp_right fun old => ⟨i, old⟩
    · rw [Function.update_of_ne own] at member
      exact .inr ⟨j, member⟩
  · rintro (new | ⟨j, member⟩)
    · exact ⟨i, by rw [Function.update_self, row]; exact .inl new⟩
    · refine ⟨j, ?_⟩
      by_cases own : j = i
      · rw [own] at member ⊢
        rw [Function.update_self, row]
        exact .inr member
      · rw [Function.update_of_ne own]
        exact member

/-! ### Several creations -/

theorem joins_free {qs' : Fin 4 → List Ptr} (Q : Queued s qs) (fresh : ∀ i, t.pcb ∉ qs i)
    (joins : Joins t s s' qs qs') (other : name ≠ t.name) : pcbFind s' name = some 0 ↔ pcbFind s name = some 0 := by
  rw [pcbFind_free Q, pcbFind_free joins.queued]
  constructor
  · intro free i p member
    obtain ⟨j, member'⟩ := (joins.members p).mpr (.inr ⟨i, member⟩)
    rw [← joins.names p fun same => fresh i (same ▸ member)]
    exact free j p member'
  · intro free i p member
    by_cases new : p = t.pcb
    · rw [new, joins.name]
      exact other.symm
    · obtain ⟨j, old⟩ := ((joins.members p).mp ⟨i, member⟩).resolve_left new
      rw [joins.names p new]
      exact free j p old

theorem startAll_survives (Q : Queued s qs) (fits : ∀ t ∈ l, t.Fits) (names : (l.map Start.name).Nodup)
    (supplied : Supplied l s) : Survives (startAll l s) (attemptAll l s) ↔ ∀ t ∈ l, t.Succeeds s := by
  induction l generalizing s qs with
  | nil => exact ⟨fun _ t member => (nomatch member), fun _ => ⟨s, rfl, rfl⟩⟩
  | cons t l ih =>
    obtain ⟨fresh, later⟩ := supplied
    obtain ⟨unused, distinct⟩ := List.nodup_cons.mp names
    have fresh : ∀ i, t.pcb ∉ qs i := by
      intro i
      rw [← inRow_eq Q i]
      exact fresh i
    rw [List.forall_mem_cons]
    unfold startAll attemptAll
    by_cases succeeds : t.Succeeds s
    · obtain ⟨s', qs', created, attempted, joins⟩ := create_joins Q (fits t List.mem_cons_self) succeeds fresh
      rw [created, attempted]
      change Survives (startAll l s') (attemptAll l s') ↔ _
      rw [ih joins.queued (fun u member => fits u (List.mem_cons_of_mem _ member)) distinct (later s' created)]
      have same : ∀ u ∈ l, (u.Succeeds s' ↔ u.Succeeds s) := by
        intro u member
        have other : u.name ≠ t.name := fun same => unused (same ▸ List.mem_map_of_mem member)
        exact and_congr_left' (joins_free Q fresh joins other)
      exact ⟨fun all => ⟨succeeds, fun u member => (same u member).mp (all u member)⟩,
        fun all u member => (same u member).mpr (all.2 u member)⟩
    · rw [(create_fails Q (fits t List.mem_cons_self) succeeds).1]
      exact ⟨fun ⟨_, ran, _⟩ => (nomatch ran), fun all => absurd all.1 succeeds⟩

theorem loadR3Starts_fit (proc : Fin 5 → UInt32) (alloc : Fin 5 → Ptr × Ptr) :
    (∀ t ∈ loadR3Starts proc alloc, t.Fits) ∧ ((loadR3Starts proc alloc).map Start.name).Nodup := by
  constructor
  · unfold loadR3Starts Start.Fits
    simp only [List.forall_mem_cons]
    exact ⟨by decide, by decide, by decide, by decide, by decide, List.forall_mem_nil _⟩
  · change [bytes "proc1", bytes "proc2", bytes "proc3", bytes "proc4", bytes "proc5"].Nodup
    decide

/-! ### The timer -/

theorem itoa_short {i : Nat} (small : i < alarmcmdMaxAlarmId) : (itoa i).length ≤ 3 := by
  have each : ∀ n : Fin 256, (itoa n).length ≤ 3 := by decide +kernel
  exact each ⟨i, small⟩

/-- The name that is found is free if a numbered one is, or else the prefix. -/
theorem timerName_free (Q : Queued s qs) {n i : Nat} (small : i + n ≤ alarmcmdMaxAlarmId) :
    ∃ timername, timerName s n i = some timername ∧ timername.length ≤ 9 ∧ (pcbFind s timername = some 0 ↔
      (∃ j, i ≤ j ∧ j < i + n ∧ pcbFind s (alarmcmdTimerPrefix ++ itoa j) = some 0) ∨
        pcbFind s alarmcmdTimerPrefix = some 0) := by
  induction n generalizing i with
  | zero =>
    refine ⟨alarmcmdTimerPrefix, rfl, by decide, .inr, ?_⟩
    rintro (⟨j, low, high, -⟩ | free)
    · omega
    · exact free
  | succ n ih =>
    obtain ⟨found, ran, -⟩ := pcbFind_named Q (alarmcmdTimerPrefix ++ itoa i)
    unfold timerName
    dsimp only
    rw [ran]
    change ∃ timername, (if found = 0 then some (alarmcmdTimerPrefix ++ itoa i) else timerName s n (i + 1)) = _ ∧ _
    by_cases free : found = 0
    · rw [if_pos free]
      rw [free] at ran
      refine ⟨_, rfl, ?_, fun _ => .inl ⟨i, Nat.le_refl i, by omega, ran⟩, fun _ => ran⟩
      have short := itoa_short (i := i) (by omega)
      have six : alarmcmdTimerPrefix.length = 6 := by decide
      rw [List.length_append]
      omega
    · rw [if_neg free]
      obtain ⟨timername, named, short, which⟩ := ih (i := i + 1) (by omega)
      refine ⟨timername, named, short, which.trans (or_congr_left ?_)⟩
      constructor
      · rintro ⟨j, low, high, numbered⟩
        exact ⟨j, by omega, by omega, numbered⟩
      · rintro ⟨j, low, high, numbered⟩
        refine ⟨j, ?_, by omega, numbered⟩
        rcases Nat.eq_or_lt_of_le low with rfl | later
        · rw [ran] at numbered
          exact absurd (Option.some.inj numbered) free
        · exact later

def TimerNameFree (s : Procs) : Prop :=
  (∃ i < alarmcmdMaxAlarmId, pcbFind s (alarmcmdTimerPrefix ++ itoa i) = some 0) ∨
    pcbFind s alarmcmdTimerPrefix = some 0

theorem joins_changes {qs' : Fin 4 → List Ptr} (Q : Queued s qs) (fresh : ∀ i, t.pcb ∉ qs i)
    (joins : Joins t s s' qs qs') : s' ≠ s := by
  rintro rfl
  obtain ⟨i, member⟩ := (joins.members t.pcb).mpr (.inl rfl)
  have same : qs' i = qs i := Option.some.inj ((queueList_eq joins.queued i).symm.trans (queueList_eq Q i))
  exact fresh i (same ▸ member)

theorem alarmCommand_survives (Q : Queued s qs) {alarmProcess alarmArgs userInputLen : UInt32} {alloc : AlarmAllocs}
    (fresh : ∀ i, alloc.pcb ∉ inRow s i) :
    Survives (alarmCommand s alarmProcess alarmArgs userInputLen alloc)
        (attemptAlarm s alarmProcess alarmArgs alloc) ↔
      TimerNameFree s ∧ alloc.alarmMsg ≠ 0 ∧ alloc.pcb ≠ 0 ∧ alloc.stack ≠ 0 := by
  obtain ⟨timername, named, short, which⟩ := timerName_free Q (n := alarmcmdMaxAlarmId) (i := 0) (by decide)
  have free : pcbFind s timername = some 0 ↔ TimerNameFree s := by simpa [TimerNameFree] using which
  have fresh : ∀ i, alloc.pcb ∉ qs i := by
    intro i
    rw [← inRow_eq Q i]
    exact fresh i
  have fits : (timerStart timername alarmProcess alarmArgs alloc).Fits :=
    ⟨by change timername.length + 1 ≤ 64; omega, Nat.zero_le _, show alarmProcessParamsSize ≤ pcbMaxArgSz by decide⟩
  have succeeds : (timerStart timername alarmProcess alarmArgs alloc).Succeeds s ↔
      TimerNameFree s ∧ alloc.pcb ≠ 0 ∧ alloc.stack ≠ 0 := and_congr_left' free
  have ran : alarmCommand s alarmProcess alarmArgs userInputLen alloc =
      if alloc.alarmMsg = 0 ∧ userInputLen ≠ 0 then none
        else (timerStart timername alarmProcess alarmArgs alloc).create s := by
    unfold alarmCommand
    rw [named]
    split <;> rfl
  have asked : attemptAlarm s alarmProcess alarmArgs alloc =
      if alloc.alarmMsg = 0 then some s else (timerStart timername alarmProcess alarmArgs alloc).attempt s := by
    unfold attemptAlarm
    rw [named]
    split <;> rfl
  rw [ran, asked, and_left_comm, ← succeeds]
  by_cases message : alloc.alarmMsg = 0
  · rw [if_pos message]
    refine ⟨?_, fun all => absurd message all.1⟩
    rintro ⟨s', ran, asked⟩
    obtain rfl := Option.some.inj asked
    split at ran
    · cases ran
    · by_cases works : (timerStart timername alarmProcess alarmArgs alloc).Succeeds s
      · obtain ⟨s', qs', created, -, joins⟩ := create_joins Q fits works fresh
        exact absurd (Option.some.inj (created.symm.trans ran)) (joins_changes Q fresh joins)
      · rw [(create_fails Q fits works).1] at ran
        cases ran
  · rw [if_neg message, if_neg fun both => message both.1, and_iff_right message]
    by_cases works : (timerStart timername alarmProcess alarmArgs alloc).Succeeds s
    · obtain ⟨s', qs', created, attempted, -⟩ := create_joins Q fits works fresh
      exact ⟨fun _ => works, fun _ => ⟨s', created, attempted⟩⟩
    · rw [(create_fails Q fits works).1]
      exact ⟨fun ⟨_, ran, _⟩ => (nomatch ran), fun yes => absurd yes works⟩

/-- The two commands survive exactly if every creation in them succeeds: neither looks at what `pcb_setup` and
`sys_alloc_mem` return. -/
theorem creations_survive (Q : Queued s qs) (proc : Fin 5 → UInt32) (alloc : Fin 5 → Ptr × Ptr)
    (alarmProcess alarmArgs userInputLen : UInt32) (alarm : AlarmAllocs) :
    (Supplied (loadR3Starts proc alloc) s →
      (Survives (loadR3 s proc alloc) (attemptAll (loadR3Starts proc alloc) s) ↔
        ∀ t ∈ loadR3Starts proc alloc, pcbFind s t.name = some 0 ∧ t.pcb ≠ 0 ∧ t.stack ≠ 0)) ∧
      ((∀ i, alarm.pcb ∉ inRow s i) →
        (Survives (alarmCommand s alarmProcess alarmArgs userInputLen alarm)
            (attemptAlarm s alarmProcess alarmArgs alarm) ↔
          TimerNameFree s ∧ alarm.alarmMsg ≠ 0 ∧ alarm.pcb ≠ 0 ∧ alarm.stack ≠ 0)) := by
  obtain ⟨fits, names⟩ := loadR3Starts_fit proc alloc
  exact ⟨startAll_survives Q fits names, alarmCommand_survives Q⟩

theorem exhausted_supplied (Q : Queued s qs) (proc : Fin 5 → UInt32) :
    Supplied (loadR3Starts proc fun _ => (0, 0)) s := by
  refine ⟨fun i => ?_, fun s' created => ?_⟩
  · rw [inRow_eq Q i]
    exact (Q.queue i).chain.nonnull
  · have fits := (loadR3Starts_fit proc fun _ => (0, 0)).1 _ List.mem_cons_self
    rw [(create_fails Q fits fun succeeds => succeeds.2.1 rfl).1] at created
    cases created

/-- A PCB `proc1` in the ready queue. -/
def loadedOnce : Procs := oneProcess ⟨.ready, .active, .user, 1⟩

theorem creations_survive_once :
    Survives (alarmCommand loadedOnce 0x00100000 0x0D000100 5 ⟨0x0D000300, 200, 0x0D001000⟩)
        (attemptAlarm loadedOnce 0x00100000 0x0D000100 ⟨0x0D000300, 200, 0x0D001000⟩) ∧
      ¬Survives (loadR3 loadedOnce (fun _ => 0x00100000) fun _ => (0, 0))
        (attemptAll (loadR3Starts (fun _ => 0x00100000) fun _ => (0, 0)) loadedOnce) := by
  have Q : Queued loadedOnce _ := oneProcess_queued ⟨.ready, .active, .user, 1⟩
  obtain ⟨load, alarm⟩ := creations_survive Q (fun _ => 0x00100000) (fun _ => (0, 0)) 0x00100000 0x0D000100 5
    ⟨0x0D000300, 200, 0x0D001000⟩
  constructor
  · refine (alarm ?_).mpr ⟨.inl ⟨0, by decide, ?_⟩, by decide, by decide, by decide⟩
    · intro i
      rw [inRow_eq Q i]
      revert i
      decide
    · rw [pcbFind_free Q]
      exact fun i p member => show bytes "proc1" ≠ _ by decide
  · intro survives
    have each := (load (exhausted_supplied Q _)).mp survives _ List.mem_cons_self
    exact each.2.1 rfl

theorem creations_not_survived : ¬∀ m, Reached m → ∀ (proc : Fin 5 → UInt32) (alloc : Fin 5 → Ptr × Ptr),
    Supplied (loadR3Starts proc alloc) m.kernel.procs →
      Survives (loadR3 m.kernel.procs proc alloc) (attemptAll (loadR3Starts proc alloc) m.kernel.procs) := by
  intro always
  have ran : (oneport Lawful []).map (fun m => m.kernel.pcbRunning) = some 100 := by
    decide +kernel
  obtain ⟨m, ran, -⟩ := Option.map_eq_some_iff.mp ran
  have reached := oneport_reaches ran
  obtain ⟨qs, S, -⟩ := standing_sound (reached_standing reached)
  have Q := S.placed.queued
  have supplied := exhausted_supplied Q fun _ => 0x00100000
  have survives := always m reached _ _ supplied
  obtain ⟨fits, names⟩ := loadR3Starts_fit (fun _ => 0x00100000) fun _ => (0, 0)
  exact ((startAll_survives Q fits names supplied).mp survives _ List.mem_cons_self).2.1 rfl

end Mpx.Command

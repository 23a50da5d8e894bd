import Mpx.System.Evaluation

/-! # Show All PCBs

`showPcbAllCommand` walks the four queues and prints an entry for each PCB by eleven WRITEs. Each of them
blocks `comhand`, and the queues change meanwhile. -/

namespace Mpx.System
open Function Library.Links Library.Strict Library.Transition Mpx.Process Mpx.Device

-- The sizes of the texts that `class_str`, `execstate_str` and `dpatchstate_str` return.

def classStrSize : ProcClassState → Nat
  | .system => 6
  | .user => 4

def execstateStrSize : ProcExecState → Nat
  | .blocked => 7
  | .ready => 5
  | .running => 7

def dpatchstateStrSize : ProcDispatchState → Nat
  | .suspended => 9
  | .active => 6

/-- The sizes of the WRITEs of an entry. -/
def entrySizes (pcb : Pcb) : List Nat :=
  [16, pcb.name.length, 17, classStrSize pcb.state.cls, 20, (Nat.toDigits 10 pcb.state.pri).length, 17,
    execstateStrSize pcb.state.exec, 18, dpatchstateStrSize pcb.state.dpatch, 2]

/-- Where the command is: in the entry of `procIter`, found in queue `i`, with some WRITEs to go. -/
inductive Place where
  | entry (i : Fin 4) (procIter : Ptr) (writes : List Nat)
  | done
  deriving DecidableEq

def Place.entryOf (s : Procs) (i : Fin 4) (procIter : Ptr) : Place := .entry i procIter (entrySizes (s.pcbs procIter))

def queuesBefore (i : Fin 4) : List (Fin 4) := ([0, 1, 2, 3] : List (Fin 4)).filter (· < i)

def queuesAfter (i : Fin 4) : List (Fin 4) := ([0, 1, 2, 3] : List (Fin 4)).filter (i < ·)

/-- The loop over the queues that are left. -/
def showFrom (s : Procs) : List (Fin 4) → Place
  | [] => .done
  | i :: rest => if (s.queues i).pcbHead ≠ 0 then .entryOf s i (s.queues i).pcbHead else showFrom s rest

/-- The way from one entry to the next. -/
def showNext (s : Procs) (i : Fin 4) (procIter : Ptr) : Place :=
  if s.pNext procIter = 0 then showFrom s (queuesAfter i) else .entryOf s i (s.pNext procIter)

/-- The processes in a queue. -/
def inRow (s : Procs) (i : Fin 4) : List Ptr := (queueList s i).getD []

/-- The processes in the queues before queue `i`, and in it up to `procIter`. -/
def behind (s : Procs) (i : Fin 4) (procIter : Ptr) : List Ptr :=
  (queuesBefore i).flatMap (inRow s) ++ (inRow s i).takeWhile (· ≠ procIter) ++ [procIter]

/-- `shown` lists the PCBs whose entries have been begun, and `passed` records what was behind the command
when the last of them was. -/
structure Showing where
  machine : Machine
  comhand : Ptr
  place : Place
  shown : List Ptr
  passed : List Ptr

inductive ShowInput where
  | acts (a : Action)
  | advances

namespace Showing

def procs (s : Showing) : Procs := s.machine.kernel.procs

/-- Whether `comhand` runs. -/
def Runs (s : Showing) : Prop := s.machine.kernel.pcbRunning = s.comhand

instance runsDecidable (s : Showing) : Decidable s.Runs := inferInstanceAs (Decidable (_ = _))

def arrive (s : Showing) : Place → Showing
  | .entry i procIter writes => { s with
      place := .entry i procIter writes
      shown := s.shown ++ [procIter]
      passed := behind s.procs i procIter }
  | .done => { s with place := .done }

def blank (m : Machine) : Showing :=
  { machine := m, comhand := m.kernel.pcbRunning, place := .done, shown := [], passed := [] }

/-- The command starts. -/
def start (m : Machine) : Showing := (blank m).arrive (showFrom m.kernel.procs [0, 1, 2, 3])

end Showing

/-- A WRITE of the command is made. -/
def Place.wrote : Place → Place
  | .entry i procIter writes => .entry i procIter writes.tail
  | .done => .done

/-- The size of the next WRITE. -/
def Place.next : Place → Option Nat
  | .entry _ _ writes => writes.head?
  | .done => none

def Action.isTrap : Action → Bool
  | .trap _ _ _ _ _ => true
  | _ => false

def Showing.step (s : Showing) : ShowInput → Option Showing
  | .acts a => (s.machine.step a).map fun m =>
      { s with machine := m, place := if s.Runs ∧ a.isTrap then s.place.wrote else s.place }
  | .advances =>
    match s.place with
    | .entry i procIter [] => if s.Runs then some (s.arrive (showNext s.procs i procIter)) else none
    | _ => none

/-- The command makes its WRITEs. Other processes trap too, but none ends or is created, and no other
command is given. -/
def Action.Calm (s : Showing) : Action → Prop
  | .trap context _ _ _ _ =>
    if s.Runs then context.eax = opWrite ∧ context.ebx = com1 ∧ s.place.next.map UInt32.ofNat = some context.edx
    else context.eax ≠ opExit
  | .poll | .interrupt _ _ | .compute _ _ => True
  | _ => False

def Showing.Admits (s : Showing) : ShowInput → Prop
  | .acts a => Lawful s.machine a ∧ a.Calm s
  | .advances => True

structure ShowStarts (s : Showing) : Prop where
  reached : Reached s.machine
  busy : s.machine.kernel.pcbRunning ≠ 0
  starts : s = .start s.machine

/-- The PCB that was shown last is still in the queue, and the same processes are behind the command as
when its entry was begun. -/
def Place.Undisturbed (s : Procs) (passed : List Ptr) : Place → Prop
  | .entry i procIter _ =>
    procIter ∈ inRow s i ∧ (∀ p ∈ behind s i procIter, p ∈ passed) ∧ ∀ p ∈ passed, p ∈ behind s i procIter
  | .done => True

def Showing.Undisturbed (s : Showing) : ShowInput → Prop
  | .acts _ => True
  | .advances => s.place.Undisturbed s.procs s.passed

variable {m m' : Machine} {s s' : Showing} {a : Action} {p x : Ptr} {i j : Fin 4} {qs : Fin 4 → List Ptr} {k : Procs}
  {front rest : List Ptr} {place : Place} {shown : List Ptr}

/-! ### The way through the queues -/

theorem mem_queues (j : Fin 4) : j ∈ ([0, 1, 2, 3] : List (Fin 4)) := by
  revert j
  decide

theorem mem_queuesBefore : j ∈ queuesBefore i ↔ j < i := by
  revert i j
  decide

theorem mem_queuesAfter : j ∈ queuesAfter i ↔ i < j := by
  revert i j
  decide

theorem row_next (Q : Queued k qs) (row : qs i = front ++ x :: rest) : k.pNext x = rest.headD 0 := by
  have chain := (Q.queue i).chain
  rw [row] at chain
  exact chain_next chain

theorem inRow_eq (Q : Queued k qs) (i : Fin 4) : inRow k i = qs i := by
  unfold inRow
  rw [queueList_eq Q]
  rfl

theorem mem_behind (Q : Queued k qs) (row : qs i = front ++ x :: rest) :
    p ∈ behind k i x ↔ (∃ j < i, p ∈ qs j) ∨ p ∈ front ∨ p = x := by
  have apart : ∀ y ∈ front, y ≠ x := by
    intro y inside same
    have unique := Q.unique i
    rw [row] at unique
    exact (List.nodup_append.mp unique).2.2 y inside x List.mem_cons_self same
  have before : (inRow k i).takeWhile (· ≠ x) = front := by
    rw [inRow_eq Q, row, List.takeWhile_append_of_pos (by simpa using apart)]
    simp
  unfold behind
  rw [before, List.mem_append, List.mem_append, List.mem_singleton, List.mem_flatMap, or_assoc]
  simp only [mem_queuesBefore, inRow_eq Q]

/-- What the command has still to walk, when it has shown `shown`. -/
inductive Ahead (qs : Fin 4 → List Ptr) (shown : List Ptr) : Place → Prop
  | entry {i : Fin 4} {front rest : List Ptr} {x : Ptr} {writes : List Nat} : qs i = front ++ x :: rest →
      (∀ p, p ∈ shown ↔ (∃ j < i, p ∈ qs j) ∨ p ∈ front) → Ahead qs shown (.entry i x writes)
  | done : (∀ p, p ∈ shown ↔ ∃ j, p ∈ qs j) → Ahead qs shown .done

theorem showFrom_ahead (Q : Queued k qs) {order : List (Fin 4)} (rising : order.Pairwise (· < ·))
    (upper : ∀ j, j ∉ order → ∀ i ∈ order, j < i) (shows : ∀ p, p ∈ shown ↔ ∃ j, j ∉ order ∧ p ∈ qs j) :
    Ahead qs shown (showFrom k order) := by
  induction order with
  | nil =>
    apply Ahead.done
    intro p
    rw [shows]
    simp
  | cons i order ih =>
    have below : ∀ j, j ∉ i :: order ↔ j < i := by
      intro j
      constructor
      · intro outside
        exact upper j outside i List.mem_cons_self
      · intro less inside
        cases List.mem_cons.mp inside with
        | inl same => exact absurd (same ▸ less) (Nat.lt_irrefl _)
        | inr later => exact absurd ((List.pairwise_cons.mp rising).1 j later) (Nat.lt_asymm less)
    unfold showFrom
    by_cases empty : (k.queues i).pcbHead = 0
    · have none : qs i = [] := (queue_head_null_iff (Q.queue i)).mp empty
      rw [if_neg (not_not.mpr empty)]
      apply ih (List.pairwise_cons.mp rising).2
      · intro j outside l inside
        by_cases same : j = i
        · rw [same]
          exact (List.pairwise_cons.mp rising).1 l inside
        · apply upper j _ l (List.mem_cons_of_mem i inside)
          intro there
          exact (List.mem_cons.mp there).elim same outside
      · intro p
        rw [shows]
        constructor
        · intro there
          obtain ⟨j, outside, member⟩ := there
          exact ⟨j, fun later => outside (List.mem_cons_of_mem i later), member⟩
        · intro there
          obtain ⟨j, outside, member⟩ := there
          refine ⟨j, ?_, member⟩
          intro inside
          cases List.mem_cons.mp inside with
          | inl same =>
            rw [same, none] at member
            cases member
          | inr later => exact outside later
    · rw [if_pos empty]
      have occupied : qs i ≠ [] := fun none => empty ((queue_head_null_iff (Q.queue i)).mpr none)
      obtain ⟨x, rest, row⟩ := List.exists_cons_of_ne_nil occupied
      have chain := (Q.queue i).chain
      rw [row] at chain
      rw [(chain_cons_iff.mp chain).1]
      apply @Ahead.entry qs shown i [] rest x _ row
      intro p
      rw [shows]
      simp only [below, List.not_mem_nil, or_false]

theorem showNext_ahead (Q : Queued k qs) (row : qs i = front ++ x :: rest)
    (shows : ∀ p, p ∈ shown ↔ (∃ j < i, p ∈ qs j) ∨ p ∈ front ∨ p = x) : Ahead qs shown (showNext k i x) := by
  unfold showNext
  rw [row_next Q row]
  cases rest with
  | nil =>
    rw [List.headD_nil, if_pos rfl]
    apply showFrom_ahead Q
    · exact List.Pairwise.filter _ (by decide)
    · intro j outside l later
      rw [mem_queuesAfter] at outside later
      exact Nat.lt_of_le_of_lt (Nat.le_of_not_lt outside) later
    · intro p
      rw [shows]
      simp only [mem_queuesAfter]
      constructor
      · intro there
        rcases there with ⟨j, less, member⟩ | own
        · exact ⟨j, Nat.lt_asymm less, member⟩
        · refine ⟨i, Nat.lt_irrefl _, ?_⟩
          rw [row]
          simpa using own
      · intro there
        obtain ⟨j, outside, member⟩ := there
        by_cases same : j = i
        · rw [same, row] at member
          exact .inr (by simpa using member)
        · exact .inl ⟨j, Nat.lt_of_le_of_ne (Nat.le_of_not_lt outside) fun equal => same (Fin.ext equal), member⟩
  | cons y rest =>
    have real : y ≠ 0 := Q.nonnull (i := i) (row ▸ by simp)
    rw [List.headD_cons, if_neg real]
    apply @Ahead.entry qs shown i (front ++ [x]) rest y
    · rw [row]
      simp
    · intro p
      rw [shows]
      simp

/-! ### The command among the other processes -/

theorem calm_live (calm : a.Calm s) (moved : s.machine.step a = some m') : m'.live = s.machine.live := by
  cases step_moves moved with
  | @trap context offset alloc freedStack freedPcb _ ran =>
    have stays : context.eax ≠ opExit := by
      change if s.Runs then _ else _ at calm
      by_cases runs : s.Runs
      · rw [if_pos runs] at calm
        rw [calm.1]
        decide
      · rw [if_neg runs] at calm
        exact calm
    rw [trap_live ran]
    exact if_neg stays
  | poll _ _ same =>
    rw [same]
    exact settle_live ..
  | interrupt _ same => rw [same]
  | compute _ same => rw [same]
  | create _ _ _ => exact calm.elim
  | delete _ _ _ => exact calm.elim
  | suspend _ _ same => rw [same]; rfl
  | resume _ _ same => rw [same]; rfl
  | setPriority _ _ same => rw [same]; rfl

/-- What holds all the way: the entries that were begun are those behind the command then. -/
structure Walking (s : Showing) : Prop where
  reached : Reached s.machine
  busy : s.comhand ≠ 0
  once : s.shown.Nodup
  passed : s.place ≠ .done → ∀ p, p ∈ s.passed ↔ p ∈ s.shown
  all : s.place = .done → ∀ p ∈ s.machine.live, p ≠ s.comhand → p ∈ s.shown

/-- The queues when the command has the processor. -/
theorem runs_queues (reached : Reached s.machine) (busy : s.comhand ≠ 0) (runs : s.Runs) :
    ∃ qs, Queued s.procs qs ∧ ∀ p ∈ s.machine.live, p ≠ s.comhand → ∃ i, p ∈ qs i := by
  have running : s.machine.kernel.pcbRunning = s.comhand := runs
  obtain ⟨qs, R⟩ := standing_running (reached_standing reached) (running ▸ busy)
  refine ⟨qs, R.sound.placed.queued, ?_⟩
  intro p member other
  apply ((R.sound.placed.members p).mp member).resolve_left
  intro loose
  exact other ((List.mem_singleton.mp loose).trans running)

theorem arrive_walking (reached : Reached s.machine) (busy : s.comhand ≠ 0) (once : s.shown.Nodup)
    (Q : Queued s.procs qs) (queued : ∀ p ∈ s.machine.live, p ≠ s.comhand → ∃ i, p ∈ qs i)
    (ahead : Ahead qs s.shown place) : Walking (s.arrive place) := by
  cases ahead with
  | @entry i front rest x writes row shows =>
    have new : x ∉ s.shown := by
      intro old
      rcases (shows x).mp old with ⟨j, less, member⟩ | inside
      · have here : x ∈ qs i := by
          rw [row]
          simp
        exact absurd (Q.apart member here ▸ less) (Nat.lt_irrefl _)
      · have unique := Q.unique i
        rw [row] at unique
        exact (List.nodup_append.mp unique).2.2 x inside x List.mem_cons_self rfl
    refine ⟨reached, busy, ?_, ?_, fun ends => nomatch ends⟩
    · apply List.nodup_append.mpr
      refine ⟨once, List.nodup_singleton x, ?_⟩
      intro p old q last same
      rw [List.mem_singleton] at last
      exact new (last ▸ same ▸ old)
    · intro _ p
      show p ∈ behind s.procs i x ↔ p ∈ s.shown ++ [x]
      rw [mem_behind Q row, List.mem_append, List.mem_singleton, shows, or_assoc]
  | done shows =>
    refine ⟨reached, busy, once, fun going => (going rfl).elim, ?_⟩
    intro _ p member other
    exact (shows p).mpr (queued p member other)

theorem start_walking (start : ShowStarts s) : Walking s := by
  obtain ⟨reached, busy, starts⟩ := start
  rw [starts]
  obtain ⟨qs, Q, queued⟩ := runs_queues (s := .blank s.machine) reached busy rfl
  apply arrive_walking (s := .blank s.machine) reached busy List.nodup_nil Q queued
  apply showFrom_ahead Q (by decide)
  · intro j outside
    exact absurd (mem_queues j) outside
  · intro p
    constructor
    · intro old
      cases old
    · intro there
      obtain ⟨j, outside, _⟩ := there
      exact absurd (mem_queues j) outside

theorem acts_walking (W : Walking s) (admitted : s.Admits (.acts a)) (moved : s.step (.acts a) = some s') :
    Walking s' := by
  obtain ⟨m, ran, rfl⟩ := Option.map_eq_some_iff.mp moved
  have ends : (if s.Runs ∧ a.isTrap then s.place.wrote else s.place) = .done ↔ s.place = .done := by
    split
    · cases s.place <;> simp [Place.wrote]
    · rfl
  refine ⟨.step W.reached admitted.1 ran, W.busy, W.once, ?_, ?_⟩
  · intro going
    exact W.passed fun done => going (ends.mpr done)
  · intro done p member other
    change p ∈ m.live at member
    rw [calm_live admitted.2 ran] at member
    exact W.all (ends.mp done) p member other

theorem advances_walking (W : Walking s) (undisturbed : s.Undisturbed .advances)
    (moved : s.step .advances = some s') : Walking s' := by
  have at_place : s.place.Undisturbed s.procs s.passed := undisturbed
  unfold Showing.step at moved
  dsimp only at moved
  cases place : s.place with
  | done =>
    rw [place] at moved
    cases moved
  | entry i procIter writes =>
    rw [place] at moved at_place
    cases writes with
    | cons size writes => cases moved
    | nil =>
      dsimp only at moved
      by_cases runs : s.Runs
      · rw [if_pos runs] at moved
        obtain rfl := Option.some.inj moved
        obtain ⟨qs, Q, queued⟩ := runs_queues W.reached W.busy runs
        obtain ⟨there, old, kept⟩ := at_place
        rw [inRow_eq Q] at there
        obtain ⟨front, rest, row⟩ := List.append_of_mem there
        apply arrive_walking W.reached W.busy W.once Q queued
        apply showNext_ahead Q row
        intro p
        rw [← W.passed (by rw [place]; simp), ← mem_behind Q row]
        exact ⟨kept p, old p⟩
      · rw [if_neg runs] at moved
        cases moved

/-- In every run in which the command is undisturbed whenever it goes on, no process is shown twice, and at
its end every other process has been shown once. -/
theorem show_complete
    (reached : Reaches ShowStarts (fun s i => s.Admits i ∧ s.Undisturbed i) Showing.step s) :
    s.shown.Nodup ∧ (s.place = .done → ∀ p ∈ s.machine.live, p ≠ s.comhand → s.shown.count p = 1) := by
  have W : Walking s := by
    apply reaches_invariant (P := Walking) ?_ ?_ reached
    · intro s start
      exact start_walking start
    · intro s i s' W admitted moved
      cases i with
      | acts a => exact acts_walking W admitted.1 moved
      | advances => exact advances_walking W admitted.2 moved
  refine ⟨W.once, ?_⟩
  intro ends p member other
  exact List.count_eq_one_of_mem W.once (W.all ends p member other)

/-! ### Runs on fixed inputs -/

instance calmDecidable (s : Showing) : (a : Action) → Decidable (a.Calm s)
  | .trap context _ _ _ _ =>
    inferInstanceAs (Decidable (if s.Runs then context.eax = opWrite ∧ context.ebx = com1 ∧
      s.place.next.map UInt32.ofNat = some context.edx else context.eax ≠ opExit))
  | .poll | .interrupt .. | .compute .. => .isTrue trivial
  | .create .. | .delete .. | .suspend _ | .resume _ | .setPriority .. => .isFalse not_false

instance showAdmitsDecidable (s : Showing) : (i : ShowInput) → Decidable (s.Admits i)
  | .acts _ => inferInstanceAs (Decidable (_ ∧ _))
  | .advances => .isTrue trivial

instance placeDecidable (s : Procs) (passed : List Ptr) : (place : Place) → Decidable (place.Undisturbed s passed)
  | .entry i procIter _ =>
    @instDecidableAnd _ _ _ (@instDecidableAnd _ _ (List.decidableBAll _ (behind s i procIter))
      (List.decidableBAll _ passed))
  | .done => .isTrue trivial

instance undisturbedDecidable (s : Showing) : (i : ShowInput) → Decidable (s.Undisturbed i)
  | .acts _ => .isTrue trivial
  | .advances => placeDecidable _ _ _

def strictPlaceOf (place : Place) (f : Place → Option Showing) : Option Showing :=
  match place with
  | .entry i procIter writes => strictWord procIter fun procIter =>
      strictList strictNat writes fun writes => f (.entry i procIter writes)
  | .done => f .done

theorem strictPlaceOf_eq (place : Place) (f : Place → Option Showing) : strictPlaceOf place f = f place := by
  cases place with
  | entry i procIter writes =>
    unfold strictPlaceOf
    dsimp only
    rw [strictWord_eq, strictList_eq strictNat_eq]
  | done => rfl

def strictShowing (s : Showing) (f : Showing → Option Showing) : Option Showing :=
  strictMachine [100, 300, 500] [700, 800] s.machine fun m =>
    strictPlaceOf s.place fun place => f { s with machine := m, place := place }

theorem strictShowing_eq (s : Showing) (f : Showing → Option Showing) : strictShowing s f = f s := by
  unfold strictShowing
  rw [strictMachine_eq, strictPlaceOf_eq]

/-- A boot with all ports open, some actions, and then the command. -/
def showing (ok : Showing → ShowInput → Prop) [∀ s i, Decidable (ok s i)] (actions : List Action)
    (inputs : List ShowInput) : Option Showing :=
  (boot (bootKernel fun _ => true) oneportBoot).bind fun m =>
    (strictRun (strictMachine [100, 300, 500] [700, 800]) Lawful Machine.step m actions).bind fun m =>
      if m.kernel.pcbRunning ≠ 0 then strictRun strictShowing ok Showing.step (.start m) inputs else none

theorem showing_reaches {ok : Showing → ShowInput → Prop} [∀ s i, Decidable (ok s i)] {actions : List Action}
    {inputs : List ShowInput} (ran : showing ok actions inputs = some s) :
    Reaches ShowStarts ok Showing.step s := by
  unfold showing at ran
  obtain ⟨m₀, booted, ran⟩ := Option.bind_eq_some_iff.mp ran
  obtain ⟨m, acted, ran⟩ := Option.bind_eq_some_iff.mp ran
  rw [strictRun_eq (strictMachine_eq _ _)] at acted
  have begins : Booted m₀ := ⟨_, oneportBoot, bootKernel_unbooted _, oneportBoot_fresh, booted⟩
  by_cases busy : m.kernel.pcbRunning ≠ 0
  · rw [if_pos busy, strictRun_eq strictShowing_eq] at ran
    have machine : (Showing.start m).machine = m := by
      unfold Showing.start Showing.arrive
      split <;> rfl
    have start : ShowStarts (.start m) := by
      refine ⟨?_, ?_, ?_⟩
      · rw [machine]
        exact run_reaches (.start begins) acted
      · rw [machine]
        exact busy
      · rw [machine]
    exact run_reaches (.start start) ran
  · rw [if_neg busy] at ran
    cases ran

/-- A WRITE of `comhand`, all output interrupts, and `idle` yields. -/
def writes (size : Nat) : List ShowInput :=
  .acts (.trap (request opWrite com1 1000 (UInt32.ofNat size)) 20 700 0 0) ::
    (.replicate size (.acts (.interrupt 0 .output)) ++ [.acts (.trap (request opIdle 0 0 0) 20 0 0 0)])

/-- A WRITE during which the processor is yielded twice. -/
def writesTwice (size : Nat) : List ShowInput :=
  .acts (.trap (request opWrite com1 1000 (UInt32.ofNat size)) 20 700 0 0) ::
    .acts (.trap (request opIdle 0 0 0) 20 0 0 0) ::
      (.replicate size (.acts (.interrupt 0 .output)) ++ [.acts (.trap (request opIdle 0 0 0) 20 0 0 0)])

/-- A blocked process gets its line while the entry of `idle` is printed, and is shown behind `idle`, with which it
takes turns. -/
theorem show_complete_example : ∃ s : Showing, s.place = .done ∧ s.shown = [300, 500] ∧
    ∀ p ∈ s.machine.live, p ≠ s.comhand → s.shown.count p = 1 := by
  have ran : (showing (fun s i => s.Admits i ∧ s.Undisturbed i)
      [.create [112] .user 9 (some ⟨3, 0, 0⟩) 500 600, .trap (request opIdle 0 0 0) 20 0 0 0,
        .trap (request opIdle 0 0 0) 20 0 0 0, .trap (request opIdle 0 0 0) 20 0 0 0,
        .trap (request opRead com2 1100 5) 20 800 0 0]
      (([16, 4, 17, 6, 20, 1, 17, 5, 18, 6] : List Nat).flatMap writes ++
        .acts (.interrupt 1 (.input 13)) :: writesTwice 2 ++ [.advances] ++
          ([16, 1, 17, 4, 20, 1, 17, 5, 18, 6] : List Nat).flatMap writes ++ writesTwice 2 ++ [.advances])).map
            (fun s => (s.place, s.shown)) = some (.done, [300, 500]) := by
    decide +kernel
  obtain ⟨s, ran, seen⟩ := Option.map_eq_some_iff.mp ran
  obtain ⟨place, shown⟩ := Prod.mk.inj seen
  exact ⟨s, place, shown, (show_complete (showing_reaches ran)).2 place⟩

/-- A process is blocked behind the command while it prints the entry of `idle`, and then gets its line and
is in front of `idle`. -/
theorem show_incomplete : ¬∀ s : Showing, Reaches ShowStarts (fun s i => s.Admits i) Showing.step s →
    s.place = .done → ∀ p ∈ s.machine.live, p ≠ s.comhand → s.shown.count p = 1 := by
  intro always
  have ran : (showing (fun s i => s.Admits i)
      [.create [112] .user 1 (some ⟨3, 0, 0⟩) 500 600, .trap (request opIdle 0 0 0) 20 0 0 0,
        .trap (request opRead com2 1100 5) 20 800 0 0]
      (([16, 4, 17, 6, 20, 1, 17, 5, 18, 6] : List Nat).flatMap writes ++
        .acts (.interrupt 1 (.input 13)) :: writes 2 ++ [.advances])).map
          (fun s => (s.place, s.machine.live, s.comhand, s.shown)) =
        some (.done, [500, 300, 100], 100, [300]) := by
    decide +kernel
  obtain ⟨s, ran, seen⟩ := Option.map_eq_some_iff.mp ran
  simp only [Prod.mk.injEq] at seen
  obtain ⟨place, live, comhand, shown⟩ := seen
  have count := always s (showing_reaches ran) place 500 (by rw [live]; decide) (by rw [comhand]; decide)
  rw [shown] at count
  exact absurd count (by decide)

end Mpx.System

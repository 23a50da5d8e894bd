import Mpx.Command.Numbers
import Mpx.System.Showing

/-! # Show Ready and Show Blocked

`showPcbReadyCommand` and `showPcbBlockedCommand` of `kernel/comhand.c`, on queues that stay as they are. -/

namespace Mpx.Command
open Library.Links Mpx.Process

def bytes (str : String) : List UInt8 := str.toList.map Char.toUInt8

def execValue : ProcExecState → Nat
  | .blocked => 0x00
  | .ready => 0x01
  | .running => 0x02

def dpatchValue : ProcDispatchState → Nat
  | .suspended => 0x00
  | .active => 0x01

def clsValue : ProcClassState → Nat
  | .system => 0x00
  | .user => 0x01

/-- The bit fields of `struct pcb_state`. -/
structure StateBits where
  exec : Fin 4
  dpatch : Fin 2
  cls : Fin 2
  pri : Fin 16
  deriving DecidableEq, Repr

/-- The initialiser `{ exec, dpatch, cls, pri }`: each value goes to the field at its place. -/
def stateBits (exec dpatch cls pri : Nat) : StateBits :=
  ⟨.ofNat 4 exec, .ofNat 2 dpatch, .ofNat 2 cls, .ofNat 16 pri⟩

def bitsOf (state : PcbState) : StateBits :=
  stateBits (execValue state.exec) (dpatchValue state.dpatch) (clsValue state.cls) state.pri

/-- `PSTATE_QUEUE_SELECTOR` on the bit fields. -/
def StateBits.queueSelector (state : StateBits) : Fin 4 :=
  (if state.exec.val ≠ execValue .ready then 1 else 0) + 2 * (if state.dpatch.val ≠ dpatchValue .active then 1 else 0)

def classStr : ProcClassState → List UInt8
  | .system => bytes "System"
  | .user => bytes "User"

def execstateStr : ProcExecState → List UInt8
  | .blocked => bytes "Blocked"
  | .ready => bytes "Ready"
  | .running => bytes "Running"

def dpatchstateStr : ProcDispatchState → List UInt8
  | .suspended => bytes "Suspended"
  | .active => bytes "Active"

structure Entry where
  pcb : Ptr
  texts : List (List UInt8)
  deriving DecidableEq, Repr

def entryOf (s : Procs) (procIter : Ptr) : Entry :=
  let pcb := s.pcbs procIter
  { pcb := procIter
    texts := [bytes "\r\nProcess Name: ", pcb.name, bytes "\r\nProcess Class: ", classStr pcb.state.cls,
      bytes "\r\nProcess Priority: ", itoa pcb.state.pri, bytes "\r\nProcess State: ", execstateStr pcb.state.exec,
      bytes "\r\nProcess Status: ", dpatchstateStr pcb.state.dpatch, bytes "\r\n"] }

def showList (s : Procs) : Nat → Ptr → Option (List Entry)
  | 0, _ => none
  | fuel + 1, procIter =>
    if s.pNext procIter = 0 then some [entryOf s procIter]
    else (showList s fuel (s.pNext procIter)).map (entryOf s procIter :: ·)

def showQueue (s : Procs) (queueCurr : PcbQueue) : Option (List Entry) :=
  if queueCurr.pcbHead ≠ 0 then showList s addressSpace queueCurr.pcbHead else some []

def showQueues (s : Procs) : Nat → StateBits → Option (List Entry)
  | 0, _ => none
  | fuel + 1, i =>
    if i.exec.val ≤ dpatchValue .active then do
      let shown ← showQueue s (s.queues i.queueSelector)
      let rest ← showQueues s fuel { i with exec := i.exec + 1 }
      return shown ++ rest
    else some []

def showPcbReadyCommand (s : Procs) : Option (List Entry) :=
  showQueues s 4 (stateBits 0 (dpatchValue .suspended) (execValue .ready) 0)

def showPcbBlockedCommand (s : Procs) : Option (List Entry) :=
  showQueues s 4 (stateBits 0 (dpatchValue .suspended) (execValue .blocked) 0)

variable {s : Procs} {qs : Fin 4 → List Ptr} {entries : List Entry}

theorem bitsOf_queueSelector (state : PcbState) : (bitsOf state).queueSelector = state.queueSelector := by
  obtain ⟨exec, dpatch, cls, pri⟩ := state
  cases exec <;> cases dpatch <;> rfl

theorem itoa_length {pri : Nat} (small : pri < 10) : (itoa pri).length = (Nat.toDigits 10 pri).length := by
  have each : ∀ n : Fin 10, (itoa n).length = (Nat.toDigits 10 n).length := by decide
  exact each ⟨pri, small⟩

theorem entryOf_sizes {p : Ptr} (pri : (s.state p).pri ≤ pcbProcpriMax) :
    (entryOf s p).texts.map List.length = System.entrySizes (s.pcbs p) := by
  have digits := itoa_length (show (s.state p).pri < 10 from Nat.lt_succ_of_le pri)
  unfold Procs.state at digits
  unfold entryOf System.entrySizes
  simp only [List.map_cons, List.map_nil, digits]
  cases (s.pcbs p).state.cls <;> cases (s.pcbs p).state.exec <;> cases (s.pcbs p).state.dpatch <;> rfl

theorem showList_chain {l : List Ptr} {fuel : Nat} {head : Ptr} (chain : Chain s.pNext 0 head l) (busy : l ≠ [])
    (short : l.length ≤ fuel) : showList s fuel head = some (l.map (entryOf s)) := by
  induction l generalizing fuel head with
  | nil => exact absurd rfl busy
  | cons x l ih =>
    obtain ⟨rfl, -, rest⟩ := chain_cons_iff.mp chain
    cases fuel with
    | zero => simp at short
    | succ fuel =>
      rw [showList]
      by_cases last : l = []
      · rw [if_pos ((chain_single_iff chain).mpr last), last]
        rfl
      · rw [if_neg (mt (chain_single_iff chain).mp last), ih rest last (Nat.le_of_succ_le_succ short)]
        rfl

theorem showQueue_row (Q : Queued s qs) (i : Fin 4) :
    showQueue s (s.queues i) = some ((qs i).map (entryOf s)) := by
  unfold showQueue
  have chain := (Q.queue i).chain
  by_cases empty : qs i = []
  · rw [empty] at chain ⊢
    rw [if_neg (not_not_intro (chain_nil_iff.mp chain))]
    rfl
  · have real : (s.queues i).pcbHead ≠ 0 := by
      intro null
      rw [null] at chain
      exact empty (chain_null chain)
    rw [if_pos real]
    exact showList_chain chain empty (Nat.le_of_lt (Q.short i))

theorem showQueues_step (Q : Queued s qs) {i : StateBits} (goes : i.exec.val ≤ dpatchValue .active) (fuel : Nat) :
    showQueues s (fuel + 1) i =
      (showQueues s fuel { i with exec := i.exec + 1 }).map ((qs i.queueSelector).map (entryOf s) ++ ·) := by
  rw [showQueues, if_pos goes, showQueue_row Q]
  cases showQueues s fuel { i with exec := i.exec + 1 } <;> rfl

/-- Both commands go through the two suspended queues, the blocked one first: their initialisers give the value of
the execution state to the class. -/
theorem showQueues_rows (Q : Queued s qs) (cls : Nat) :
    showQueues s 4 (stateBits 0 (dpatchValue .suspended) cls 0) = some ((qs 3 ++ qs 2).map (entryOf s)) := by
  have blocked : (stateBits 0 (dpatchValue .suspended) cls 0).exec.val ≤ dpatchValue .active := Nat.zero_le _
  have ready : (stateBits 0 (dpatchValue .suspended) cls 0).exec.val + 1 ≤ dpatchValue .active := Nat.le_refl _
  rw [showQueues_step Q blocked, showQueues_step Q ready, showQueues, if_neg (by exact Nat.not_succ_le_self 1)]
  change some ((qs 3).map (entryOf s) ++ ((qs 2).map (entryOf s) ++ [])) = _
  rw [List.append_nil, List.map_append]

/-- The entries are those of the queued PCBs in this execution state, each once. -/
def Reports (s : Procs) (qs : Fin 4 → List Ptr) (exec : ProcExecState) (entries : List Entry) : Prop :=
  (entries.map (·.pcb)).Nodup ∧ (∀ e ∈ entries, e = entryOf s e.pcb) ∧
    ∀ p, p ∈ entries.map (·.pcb) ↔ (∃ i, p ∈ qs i) ∧ (s.state p).exec = exec

/-- The suspended queues are the right ones if a PCB has the execution state exactly in them. -/
theorem reports_rows (Q : Queued s qs) (exec : ProcExecState) :
    Reports s qs exec ((qs 3 ++ qs 2).map (entryOf s)) ↔
      ∀ i, ∀ p ∈ qs i, ((s.state p).exec = exec ↔ i = 3 ∨ i = 2) := by
  have shown : ((qs 3 ++ qs 2).map (entryOf s)).map (·.pcb) = qs 3 ++ qs 2 := by
    rw [List.map_map]
    exact List.map_id _
  have once : (qs 3 ++ qs 2).Nodup := by
    refine List.nodup_append.mpr ⟨Q.unique 3, Q.unique 2, fun a third b second same => ?_⟩
    subst same
    exact absurd (Q.apart third second) (by decide)
  unfold Reports
  rw [shown]
  constructor
  · rintro ⟨-, -, states⟩ i p member
    have listed : (s.state p).exec = exec ↔ p ∈ qs 3 ∨ p ∈ qs 2 := by
      rw [← List.mem_append, states p]
      exact (and_iff_right ⟨i, member⟩).symm
    rw [listed]
    constructor
    · rintro (third | second)
      · exact .inl (Q.apart member third)
      · exact .inr (Q.apart member second)
    · rintro (rfl | rfl)
      · exact .inl member
      · exact .inr member
  · intro states
    refine ⟨once, fun e shown => ?_, fun p => ?_⟩
    · obtain ⟨p, -, rfl⟩ := List.mem_map.mp shown
      rfl
    · rw [List.mem_append]
      constructor
      · rintro (third | second)
        · exact ⟨⟨3, third⟩, (states 3 p third).mpr (.inl rfl)⟩
        · exact ⟨⟨2, second⟩, (states 2 p second).mpr (.inr rfl)⟩
      · rintro ⟨⟨i, member⟩, state⟩
        rcases (states i p member).mp state with rfl | rfl
        · exact .inl member
        · exact .inr member

theorem exec_ready {p : Ptr} {i : Fin 4} (Q : Queued s qs) (member : p ∈ qs i) :
    (s.state p).exec = .ready ↔ i = 0 ∨ i = 2 := by
  have selects := Q.filed i p member
  subst selects
  cases exec : (s.state p).exec <;> cases dpatch : (s.state p).dpatch <;> simp [PcbState.queueSelector, exec, dpatch]

theorem empty_iff {i : Fin 4} : qs i = [] ↔ ∀ p, p ∉ qs i := List.eq_nil_iff_forall_not_mem

theorem ready_rows (Q : Queued s qs) :
    (∀ i, ∀ p ∈ qs i, ((s.state p).exec = .ready ↔ i = 3 ∨ i = 2)) ↔ qs 0 = [] ∧ qs 3 = [] := by
  rw [empty_iff, empty_iff]
  constructor
  · intro states
    refine ⟨fun p first => ?_, fun p third => ?_⟩
    · exact absurd ((states 0 p first).mp ((exec_ready Q first).mpr (.inl rfl))) (by decide)
    · exact absurd ((exec_ready Q third).mp ((states 3 p third).mpr (.inl rfl))) (by decide)
  · rintro ⟨active, blocked⟩ i p member
    rw [exec_ready Q member]
    have notActive : i ≠ 0 := by
      rintro rfl
      exact active p member
    have notBlocked : i ≠ 3 := by
      rintro rfl
      exact blocked p member
    simp [notActive, notBlocked]

theorem blocked_rows (Q : Queued s qs) :
    (∀ i, ∀ p ∈ qs i, ((s.state p).exec = .blocked ↔ i = 3 ∨ i = 2)) ↔
      qs 2 = [] ∧ (∀ p ∈ qs 3, (s.state p).exec = .blocked) ∧ ∀ p ∈ qs 1, (s.state p).exec ≠ .blocked := by
  have ready : ∀ i, i = 0 ∨ i = 2 → ∀ p ∈ qs i, (s.state p).exec ≠ .blocked := by
    intro i which p member blocked
    exact absurd (blocked.symm.trans ((exec_ready Q member).mpr which)) (by decide)
  rw [empty_iff]
  constructor
  · intro states
    refine ⟨fun p second => ?_, fun p third => (states 3 p third).mpr (.inl rfl), fun p first blocked => ?_⟩
    · exact ready 2 (.inr rfl) p second ((states 2 p second).mpr (.inr rfl))
    · exact absurd ((states 1 p first).mp blocked) (by decide)
  · rintro ⟨second, third, first⟩ i p member
    match i with
    | 0 => simp [ready 0 (.inl rfl) p member]
    | 1 => simp [first p member]
    | 2 => exact absurd member (second p)
    | 3 => simp [third p member]

/-- Both commands show the suspended processes, whatever their execution state. -/
theorem showPcb_exact (Q : Queued s qs) :
    ∃ ready blocked, showPcbReadyCommand s = some ready ∧ showPcbBlockedCommand s = some blocked ∧
      (Reports s qs .ready ready ↔ qs 0 = [] ∧ qs 3 = []) ∧
      (Reports s qs .blocked blocked ↔ qs 2 = [] ∧ (∀ p ∈ qs 3, (s.state p).exec = .blocked) ∧
        ∀ p ∈ qs 1, (s.state p).exec ≠ .blocked) :=
  ⟨_, _, showQueues_rows Q _, showQueues_rows Q _, (reports_rows Q .ready).trans (ready_rows Q),
    (reports_rows Q .blocked).trans (blocked_rows Q)⟩

def oneProcess (state : PcbState) : Procs :=
  { pcbs := fun _ => { clearedPcb with name := bytes "proc1", state := state }
    queues := fun i => {
      pcbHead := if i = state.queueSelector then 100 else 0
      pcbTail := if i = state.queueSelector then 100 else 0
      ispriority := decide (i = 0 ∨ i = 2) }
    contexts := fun _ => default
    clock := 0
    enqueued := fun _ => 0 }

theorem oneProcess_queued (state : PcbState) :
    Queued (oneProcess state) fun i => if i = state.queueSelector then [100] else [] := by
  constructor
  case queue =>
    intro i
    unfold oneProcess
    dsimp only
    by_cases own : i = state.queueSelector
    · rw [if_pos own, if_pos own]
      exact ⟨⟨rfl, by decide, rfl, trivial⟩, rfl⟩
    · rw [if_neg own, if_neg own]
      exact ⟨⟨rfl, List.not_mem_nil, trivial⟩, rfl⟩
  case ispriority => exact fun _ => rfl
  case unique =>
    intro i
    split
    · exact List.nodup_singleton _
    · exact List.nodup_nil
  case filed =>
    intro i p member
    split at member
    case isTrue own => exact own.symm
    case isFalse => cases member

/-- Two processes are suspended while they are ready, and one is blocked. -/
def suspendedProcesses : Procs :=
  { pcbs := fun p => { clearedPcb with
      name := bytes "proc1"
      state := if p = 300 then ⟨.blocked, .active, .user, 1⟩ else ⟨.ready, .suspended, .user, 1⟩
      pNext := if p = 100 then 200 else 0 }
    queues := fun i => {
      pcbHead := [0, 300, 100, 0].get i
      pcbTail := [0, 300, 200, 0].get i
      ispriority := decide (i = 0 ∨ i = 2) }
    contexts := fun _ => default
    clock := 0
    enqueued := fun _ => 0 }

def suspendedRows : Fin 4 → List Ptr := [[], [300], [100, 200], []].get

theorem suspendedProcesses_queued : Queued suspendedProcesses suspendedRows := by
  -- `decide` goes through the lists and not through all pointers.
  have filed : ∀ i, (suspendedRows i).all (fun p => (suspendedProcesses.state p).queueSelector = i) = true := by decide
  constructor
  case queue =>
    intro i
    match i with
    | 0 => exact ⟨⟨rfl, List.not_mem_nil, trivial⟩, rfl⟩
    | 1 => exact ⟨⟨rfl, by decide, rfl, trivial⟩, rfl⟩
    | 2 => exact ⟨⟨rfl, by decide, rfl, rfl, trivial⟩, rfl⟩
    | 3 => exact ⟨⟨rfl, List.not_mem_nil, trivial⟩, rfl⟩
  case ispriority => exact fun _ => rfl
  case unique => decide
  case filed => exact fun i p member => of_decide_eq_true (List.all_eq_true.mp (filed i) p member)

theorem showPcb_exact_suspended : ∃ ready blocked, showPcbReadyCommand suspendedProcesses = some ready ∧
    showPcbBlockedCommand suspendedProcesses = some blocked ∧
      Reports suspendedProcesses suspendedRows .ready ready ∧
      ¬Reports suspendedProcesses suspendedRows .blocked blocked := by
  obtain ⟨ready, blocked, ranReady, ranBlocked, isReady, isBlocked⟩ := showPcb_exact suspendedProcesses_queued
  refine ⟨ready, blocked, ranReady, ranBlocked, isReady.mpr (by decide), fun reports => ?_⟩
  exact absurd (isBlocked.mp reports).1 (by decide)

theorem showPcb_not_exact : ¬∀ (s : Procs) (qs : Fin 4 → List Ptr), Queued s qs →
    ∃ ready blocked, showPcbReadyCommand s = some ready ∧ showPcbBlockedCommand s = some blocked ∧
      Reports s qs .ready ready ∧ Reports s qs .blocked blocked := by
  intro always
  have queued := oneProcess_queued ⟨.ready, .active, .user, 1⟩
  obtain ⟨ready, -, ran, -, reports, -⟩ := always _ _ queued
  obtain rfl := Option.some.inj (ran.symm.trans (showQueues_rows queued _))
  have empty := (ready_rows queued).mp ((reports_rows queued .ready).mp reports)
  exact absurd empty.1 (by decide)

end Mpx.Command

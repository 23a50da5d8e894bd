import Mpx.System.Outstanding

/-! # Accepted requests

`serial_schedule_io` refuses a request and changes nothing, or it appends the request to the queue of
one device. `sys_call` blocks the caller in the second case only. -/

namespace Mpx.System
open Function Library.Links Library.Transition Mpx.Process Mpx.Device

/-- The request queues of the four devices, without an iocb in common. -/
structure Linked (k : Kernel) (pend : Fin 4 → List Ptr) : Prop where
  queue : ∀ d, Queue (fun a => (k.iocbs a).pNext) 0 (k.dcb d).iocbQueueHead (k.dcb d).iocbQueueTail (pend d)
  unique : ∀ d, (pend d).Nodup
  apart : ∀ d e a, a ∈ pend d → a ∈ pend e → d = e

/-- One iocb with the request stands behind the others in the queue of the device `d`, and nothing else has
changed in the queues or at the other devices. -/
structure Appended (k k' : Kernel) (pend : Fin 4 → List Ptr) (d : Fin 4) (a : Ptr) (r : Request) : Prop where
  linked : Linked k' (update pend d (pend d ++ [a]))
  request : (k'.iocbs a).request = r
  others : ∀ e, ∀ b ∈ pend e, (k'.iocbs b).request = (k.iocbs b).request
  ports : ∀ e, e ≠ d → k'.ports e = k.ports e

/-- The request that a trap of the running process makes is in the queue of the device. -/
def Waits (k : Kernel) (p : Ptr) (context : Context) (op : IoOp) : Prop :=
  ∃ d l, serialDevno context.ebx = some d ∧ k.requestQueue d = some l ∧
    ∃ a ∈ l, (k.iocbs a).request = ⟨p, op, context.ecx, context.edx⟩

variable {k k' : Kernel} {pend : Fin 4 → List Ptr} {d : Fin 4} {a : Ptr} {dev buffer len : UInt32} {op : IoOp}
  {r : Request} {m m' : Machine} {context : Context} {p : Ptr}

theorem devicesOk_linked (ok : DevicesOk k pend) : Linked k pend :=
  ⟨fun d => (ok.port d).queue, fun d => (ok.port d).unique, ok.apart⟩

theorem linked_append (L : Linked k pend) (fresh : ∀ e, a ∉ pend e)
    (own : Queue (fun b => (k'.iocbs b).pNext) 0 (k'.dcb d).iocbQueueHead (k'.dcb d).iocbQueueTail (pend d ++ [a]))
    (ports : ∀ e, e ≠ d → k'.ports e = k.ports e)
    (links : ∀ e, e ≠ d → ∀ b ∈ pend e, (k'.iocbs b).pNext = (k.iocbs b).pNext) :
    Linked k' (update pend d (pend d ++ [a])) := by
  have filed : ∀ e b, b ∈ update pend d (pend d ++ [a]) e → b ∈ pend e ∨ b = a ∧ e = d := by
    intro e b member
    by_cases same : e = d
    · subst same
      rw [update_self] at member
      exact (List.mem_append.mp member).imp_right fun last => ⟨List.mem_singleton.mp last, rfl⟩
    · rw [update_of_ne same] at member
      exact .inl member
  refine ⟨?_, ?_, ?_⟩
  · intro e
    by_cases same : e = d
    · subst same
      rw [update_self]
      exact own
    · rw [update_of_ne same]
      unfold Kernel.dcb
      rw [ports e same]
      exact queue_congr (L.queue e) (links e same)
  · intro e
    by_cases same : e = d
    · subst same
      rw [update_self]
      exact List.nodup_append.mpr ⟨L.unique e, List.nodup_singleton a, fun b left c right =>
        List.mem_singleton.mp right ▸ fun same => fresh e (same ▸ left)⟩
    · rw [update_of_ne same]
      exact L.unique e
  · intro e f b left right
    rcases filed e b left with old | ⟨new, here⟩
    · rcases filed f b right with old' | ⟨new', _⟩
      · exact L.apart e f b old old'
      · exact (fresh e (new' ▸ old)).elim
    · rcases filed f b right with old' | ⟨_, here'⟩
      · exact (fresh f (new ▸ old')).elim
      · exact here.trans here'.symm

/-- A queue has one content. -/
theorem linked_grows (L : Linked k pend) (L' : Linked k (update pend d (pend d ++ [a]))) : False := by
  have longer := (L'.queue d).chain
  rw [update_self] at longer
  have same := congrArg List.length (chain_unique (L.queue d).chain longer)
  rw [List.length_append, List.length_singleton] at same
  omega

/-! ### `serial_schedule_io` -/

theorem started_appended (L : Linked k pend) (fresh : ∀ e, a ∉ pend e) (real : a ≠ 0)
    (idle : (k.dcb d).iocbQueueHead = 0) (starts : Starts (queueFirst k d a buffer len op) k' d) :
    Appended k k' pend d a ⟨k.pcbRunning, op, buffer, len⟩ := by
  have empty : pend d = [] := (queue_head_null_iff (L.queue d)).mp idle
  have iocbs : k'.iocbs = update k.iocbs a ⟨0, k.pcbRunning, buffer, len, op⟩ := starts.only.iocbs
  have old : ∀ e, ∀ b ∈ pend e, k'.iocbs b = k.iocbs b := by
    intro e b member
    rw [iocbs, update_of_ne]
    exact fun same => fresh e (same ▸ member)
  have new : k'.iocbs a = ⟨0, k.pcbRunning, buffer, len, op⟩ := by
    rw [iocbs, update_self]
  have ports : ∀ e, e ≠ d → k'.ports e = k.ports e := fun e other =>
    (starts.only.ports e other).trans ((queueFirst_step k d a buffer len op).ports e other)
  have dcb : (queueFirst k d a buffer len op).dcb d = { k.dcb d with iocbQueueHead := a, iocbQueueTail := a } :=
    congrArg Port.dcb (queueFirst_port k d a buffer len op)
  refine ⟨linked_append L fresh ?_ ports ?_, congrArg Iocb.request new, ?_, ports⟩
  · rw [starts.head, starts.tail, dcb, empty]
    exact ⟨chain_cons_iff.mpr ⟨rfl, real, chain_nil_iff.mpr (congrArg Iocb.pNext new)⟩, rfl⟩
  · intro e _ b member
    rw [old e b member]
  · intro e b member
    rw [old e b member]

theorem queued_appended (L : Linked k pend) (fresh : ∀ e, a ∉ pend e) (real : a ≠ 0)
    (busy : (k.dcb d).iocbQueueHead ≠ 0) (buffer len : UInt32) (op : IoOp) :
    Appended k (queueLast k d a buffer len op) pend d a ⟨k.pcbRunning, op, buffer, len⟩ := by
  have occupied : pend d ≠ [] := fun empty => busy ((queue_head_null_iff (L.queue d)).mpr empty)
  have last : (k.dcb d).iocbQueueTail ∈ pend d := by
    rw [(L.queue d).tail]
    exact getLastD_mem occupied
  have new : (queueLast k d a buffer len op).iocbs a = ⟨0, k.pcbRunning, buffer, len, op⟩ :=
    queueLast_new buffer len op fun same => fresh d (same ▸ last)
  have old : ∀ e, ∀ b ∈ pend e, (queueLast k d a buffer len op).iocbs b =
      if b = (k.dcb d).iocbQueueTail then { k.iocbs b with pNext := a } else k.iocbs b := by
    intro e b member
    exact queueLast_iocb fun same => fresh e (same ▸ member)
  have ports := (queueLast_step k d a buffer len op).ports
  refine ⟨linked_append L fresh ?_ ports ?_, congrArg Iocb.request new, ?_, ports⟩
  · exact queueLast_queue buffer len op (L.queue d) (L.unique d) occupied real (fresh d)
  · intro e other b member
    rw [old e b member, if_neg]
    intro same
    exact other (L.apart e d b member (same ▸ last))
  · intro e b member
    rw [old e b member]
    split <;> rfl

theorem schedule_appended (L : Linked k pend) (fresh : a = 0 ∨ ∀ e, a ∉ pend e) (dev buffer len : UInt32) (op : IoOp) :
    ∃ k' result, serialScheduleIo k dev buffer len op a = some (k', result) ∧
      (result ≠ none ↔ Refused k dev buffer len a) ∧ (result ≠ none → k' = k) ∧
      (result = none ↔
        ∃ d, serialDevno dev = some d ∧ Appended k k' pend d a ⟨k.pcbRunning, op, buffer, len⟩) := by
  have accepted : ∀ d k', Usable k dev buffer len a d → Appended k k' pend d a ⟨k.pcbRunning, op, buffer, len⟩ →
      ∃ k'' result, some (k', none) = some (k'', result) ∧
        (result ≠ (none : Option SerialError) ↔ Refused k dev buffer len a) ∧ (result ≠ none → k'' = k) ∧
        (result = none ↔
          ∃ d, serialDevno dev = some d ∧ Appended k k'' pend d a ⟨k.pcbRunning, op, buffer, len⟩) := by
    intro d k' usable appended
    refine ⟨k', none, rfl, ?_, fun some => (some rfl).elim, ?_⟩
    · exact ⟨fun some => (some rfl).elim, fun refused => (usable_accepted usable refused).elim⟩
    · exact ⟨fun _ => ⟨d, usable.devno, appended⟩, fun _ => rfl⟩
  have ways := schedule_schedules k dev buffer len op a
  generalize serialScheduleIo k dev buffer len op a = outcome at ways ⊢
  cases ways with
  | refused e refused =>
    refine ⟨k, some e, rfl, ⟨fun _ => refused, fun _ => by simp⟩, fun _ => rfl, ?_⟩
    constructor
    · intro none
      cases none
    · rintro ⟨d, _, appended⟩
      exact (linked_grows L appended.linked).elim
  | started d usable idle =>
    obtain ⟨k', started, starts⟩ :=
      startIo_starts (queueFirst k d a buffer len op) d ⟨k.pcbRunning, op, buffer, len⟩
    rw [started]
    exact accepted d k' usable (started_appended L (fresh.resolve_left usable.real) usable.real idle starts)
  | queued d usable busy =>
    have tail : (k.dcb d).iocbQueueTail ≠ 0 := by
      intro null
      exact busy ((queue_head_null_iff (L.queue d)).mpr ((queue_tail_null_iff (L.queue d)).mp null))
    rw [if_neg tail]
    exact accepted d _ usable (queued_appended L (fresh.resolve_left usable.real) usable.real busy buffer len op)

/-! ### `sys_call` -/

theorem opCode_inj {op op' : IoOp} (same : opCode op = opCode op') : op = op' := by
  cases op <;> cases op' <;> first | rfl | exact absurd same (by decide)

/-- The request of a blocked process is the one of its last trap. -/
theorem blocked_waits {loose live : List Ptr} {qs : Fin 4 → List Ptr} {trapped : Ptr → Option Trap} {t : Trap}
    (S : Sound k loose live qs trapped) (there : p ∈ live) (asleep : Blocked qs p) (found : trapped p = some t)
    (code : t.context.eax = opCode op) : Waits k p t.context op := by
  obtain ⟨⟨pend, ok⟩, _, R, D⟩ := S
  obtain ⟨d, wants⟩ := R.served p asleep
  obtain ⟨j, at_j⟩ := List.mem_iff_getElem?.mp wants
  obtain ⟨t', found', asked⟩ := D.pending d j p at_j
  obtain rfl : t = t' := Option.some.inj (found.symm.trans found')
  obtain ⟨r, accepted, asks⟩ := D.accepted p there t found d _ asked
  have fifo : (k.history d).accepted = (k.history d).retired ++ (pend d).map fun a => (k.iocbs a).request :=
    (ok.port d).accepted
  rw [fifo, List.getElem?_append_right (Nat.le_add_right _ _), Nat.add_sub_cancel_left, List.getElem?_map] at accepted
  obtain ⟨a, at_j, request⟩ := Option.map_eq_some_iff.mp accepted
  refine ⟨d, pend d, asks.dev, requestQueue_ok ok d, a, List.mem_of_getElem? at_j, ?_⟩
  obtain ⟨owner, _, asked_op, buffer, size⟩ := asks
  rw [request, ← owner, opCode_inj (code.symm.trans asked_op), ← buffer, ← size]

theorem waits_blocked {loose live : List Ptr} {qs : Fin 4 → List Ptr} {trapped : Ptr → Option Trap}
    (S : Sound k loose live qs trapped) (waits : Waits k p context op) : Blocked qs p := by
  obtain ⟨⟨pend, ok⟩, _, R, _⟩ := S
  obtain ⟨d, l, _, queue, a, member, request⟩ := waits
  obtain rfl : pend d = l := Option.some.inj ((requestQueue_ok ok d).symm.trans queue)
  exact R.blocked d p ((mem_wanting ok).mpr ⟨a, member, congrArg Request.pcb request⟩)

theorem trap_waits {offset : UInt32} {alloc : Ptr} {freedStack freedPcb : Int} (stands : Standing m)
    (lawful : Lawful m (.trap context offset alloc freedStack freedPcb)) (code : context.eax = opCode op)
    (moved : m.step (.trap context offset alloc freedStack freedPcb) = some m') :
    (m'.kernel.procs.state m.kernel.pcbRunning).exec = .blocked ↔
      Waits m'.kernel m.kernel.pcbRunning context op := by
  have busy : m.kernel.pcbRunning ≠ 0 := by
    cases step_moves moved with
    | trap busy _ => exact busy
  obtain ⟨qs, R⟩ := standing_running stands busy
  obtain ⟨qs', S', runs⟩ := standing_sound (standing_step stands lawful.1 lawful.2 moved)
  obtain ⟨k', outcome, _, same⟩ := trap_standing R lawful.1 moved
  have goes : context.eax ≠ opExit := by
    rw [code]
    cases op <;> decide
  have there : m.kernel.pcbRunning ∈ m'.live := by
    rw [same, settle_live]
    show _ ∈ remaining context.eax m.live m.kernel.pcbRunning
    unfold remaining
    rw [if_neg goes]
    exact R.sound.placed.live_loose List.mem_cons_self
  have found : m'.trapped m.kernel.pcbRunning = some (recorded m.kernel k' context) := by
    rw [same, settle_trapped]
    exact update_self ..
  constructor
  · intro exec
    rcases (S'.placed.members _).mp there with loose | ⟨i, inside⟩
    · have running : m'.kernel.pcbRunning ≠ 0 ∧ m.kernel.pcbRunning = m'.kernel.pcbRunning := by
        split at loose
        · cases loose
        · rename_i busy'
          exact ⟨busy', List.mem_singleton.mp loose⟩
      rw [running.2, (runs running.1).1] at exec
      cases exec
    · have asleep : Blocked qs' m.kernel.pcbRunning := by
        rw [blocked_iff S'.placed inside, exec]
        decide
      exact blocked_waits S' there asleep found code
  · intro waits
    exact blocked_exec S'.placed (waits_blocked S' waits)

/-- A request is refused and changes nothing, or it is appended to the queue of its device; and a system
request blocks its caller if and only if it has been appended. -/
theorem schedule_all_or_nothing :
    (∀ (k : Kernel) (pend : Fin 4 → List Ptr) (dev buffer len : UInt32) (op : IoOp) (alloc : Ptr), Linked k pend →
      (alloc = 0 ∨ ∀ e, alloc ∉ pend e) →
      ∃ k' result, serialScheduleIo k dev buffer len op alloc = some (k', result) ∧
        (result ≠ none ↔ Refused k dev buffer len alloc) ∧ (result ≠ none → k' = k) ∧
        (result = none ↔
          ∃ d, serialDevno dev = some d ∧ Appended k k' pend d alloc ⟨k.pcbRunning, op, buffer, len⟩)) ∧
    ∀ m, Reached m → (∃ pend, Linked m.kernel pend) ∧
      ∀ (context : Context) (offset : UInt32) (alloc : Ptr) (freedStack freedPcb : Int) (op : IoOp) (m' : Machine),
        Lawful m (.trap context offset alloc freedStack freedPcb) → context.eax = opCode op →
        m.step (.trap context offset alloc freedStack freedPcb) = some m' →
        ((m'.kernel.procs.state m.kernel.pcbRunning).exec = .blocked ↔
          Waits m'.kernel m.kernel.pcbRunning context op) := by
  constructor
  · intro k pend dev buffer len op alloc L fresh
    exact schedule_appended L fresh dev buffer len op
  · intro m reached
    have stands := reached_standing reached
    obtain ⟨qs, S, _⟩ := standing_sound stands
    obtain ⟨pend, ok⟩ := S.devices
    refine ⟨⟨pend, devicesOk_linked ok⟩, ?_⟩
    intro context offset alloc freedStack freedPcb op m' lawful code moved
    exact trap_waits stands lawful code moved

/-- The first request of an open port, and `comhand` waiting for a line. -/
theorem schedule_all_or_nothing_example :
    (∃ k', serialScheduleIo (bootKernel fun _ => true) com1 100 5 .read 50 = some (k', none) ∧
      Appended (bootKernel fun _ => true) k' (fun _ => []) 0 50 ⟨0, .read, 100, 5⟩) ∧
    ∃ m m', Reached m ∧ m.step (.trap (request opRead com1 1000 5) 20 700 0 0) = some m' ∧
      Waits m'.kernel 100 (request opRead com1 1000 5) .read := by
  constructor
  · have empty : Linked (bootKernel fun _ => true) fun _ => [] := devicesOk_linked (idle_ok fun _ => bootPort_idle _)
    obtain ⟨k', result, ran, refused, _, appended⟩ := schedule_all_or_nothing.1 (bootKernel fun _ => true) (fun _ => [])
      com1 100 5 .read 50 empty (.inr fun _ => List.not_mem_nil)
    have usable : Usable (bootKernel fun _ => true) com1 100 5 50 0 := ⟨rfl, rfl, by decide, by decide, by decide⟩
    obtain rfl : result = none := not_not.mp fun some => usable_accepted usable (refused.mp some)
    obtain ⟨d, devno, appended⟩ := appended.mp rfl
    obtain rfl : 0 = d := Option.some.inj devno
    exact ⟨k', ran, appended⟩
  · have seen : (oneport Lawful []).map (fun m => (decide (Lawful m (.trap (request opRead com1 1000 5) 20 700 0 0)),
        m.kernel.pcbRunning, (m.step (.trap (request opRead com1 1000 5) 20 700 0 0)).map
          fun m' => (m'.kernel.procs.state 100).exec)) = some (true, 100, some .blocked) := by
      decide +kernel
    obtain ⟨m, ran, seen⟩ := Option.map_eq_some_iff.mp seen
    obtain ⟨lawful, seen⟩ := Prod.mk.inj seen
    obtain ⟨runs, seen⟩ := Prod.mk.inj seen
    obtain ⟨m', moved, exec⟩ := Option.map_eq_some_iff.mp seen
    have reached : Reached m := oneport_reaches ran
    have waits := (schedule_all_or_nothing.2 m reached).2 (request opRead com1 1000 5) 20 700 0 0 .read m'
      (of_decide_eq_true lawful) rfl moved
    rw [runs] at waits
    exact ⟨m, m', reached, moved, waits.mp exec⟩

end Mpx.System

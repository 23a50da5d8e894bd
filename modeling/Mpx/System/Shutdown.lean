import Mpx.System.Accounts
import Mpx.System.Stamps

/-! # Shut Down

`shutdownCommand` takes every process off its queue and frees it, one that waits for a device too. Then
`comhand` exits, and control goes back to `kmain` if no request has been completed by that time. -/

namespace Mpx.System
open Function Library.Links Library.Holdings Library.Transition Mpx.Process Mpx.Device
open Mpx.Heap (Session Call)

section
variable {σ : Type} (free : σ → Procs → Ptr → Option (σ × Int × Int))

/-- The loop of `shutdownCommand` over one queue. `free` answers for `sys_free_mem` in `pcb_free`. -/
def cleanQueue (i : Fin 4) : Nat → σ → Machine → Option (σ × Machine)
  | 0, _, _ => none
  | fuel + 1, s, m =>
    let hdl := (m.kernel.procs.queues i).pcbHead
    if hdl ≠ 0 then do
      let (procs, _) ← pcbRemove m.kernel.procs hdl
      let (s, freedStack, freedPcb) ← free s procs hdl
      let (procs, _) ← pcbFree procs hdl freedStack freedPcb
      cleanQueue i fuel s { m.withProcs procs with live := m.live.filter (· ≠ hdl) }
    else some (s, m)

def cleanQueues : List (Fin 4) → σ → Machine → Option (σ × Machine)
  | [], s, m => some (s, m)
  | i :: rest, s, m => do
    let (s, m) ← cleanQueue free i addressSpace s m
    cleanQueues rest s m

/-- `shutdownCommand` once it is confirmed, up to its `sys_req(EXIT)`. -/
def cleanUp (s : σ) (m : Machine) : Option (σ × Machine) := cleanQueues free [0, 1, 2, 3] s m

end

variable {σ : Type} {free : σ → Procs → Ptr → Option (σ × Int × Int)} {s s' : σ} {m m' m₀ : Machine}
  {qs qs₀ : Fin 4 → List Ptr} {procs procs' procs'' : Procs} {p q : Ptr} {i : Fin 4} {l : List Ptr} {fuel : Nat}

/-! ### One process -/

/-- What one turn of the loop does to the queues and to the other processes. -/
structure Dropped (s s' : Procs) (qs : Fin 4 → List Ptr) (i : Fin 4) (p : Ptr) (l : List Ptr) : Prop where
  queued : Queued s' (update qs i l)
  real : p ≠ 0
  gone : ∀ j, p ∉ update qs i l j
  contexts : s'.contexts = s.contexts
  segments : ∀ q, q ≠ p → (s'.pcbs q).pstackseg = (s.pcbs q).pstackseg
  loose : ∀ q, q ≠ 0 → (∀ j, q ∉ qs j) → s'.pcbs q = s.pcbs q

theorem pcbFree_total (s : Procs) (real : p ≠ 0) (freedStack freedPcb : Int) :
    ∃ r, pcbFree s p freedStack freedPcb = some r := by
  unfold pcbFree
  rw [if_neg real]
  split
  · split
    · exact ⟨_, rfl⟩
    · exact ⟨_, rfl⟩
  · exact ⟨_, rfl⟩

theorem pcbFree_cleared {freedPcb r : Int} (ran : pcbFree procs p 0 freedPcb = some (procs', r)) :
    procs'.pcbs p = clearedPcb := by
  have cleared : (procs.setPcb p clearedPcb).pcbs p = clearedPcb := by
    rw [setPcb_pcb, if_pos rfl]
  unfold pcbFree at ran
  split at ran
  · cases ran
  rw [if_pos rfl] at ran
  split at ran
  · cases ran
    exact cleared
  · cases ran
    exact cleared

theorem pcbFree_contexts {freedStack freedPcb r : Int} (ran : pcbFree procs p freedStack freedPcb = some (procs', r)) :
    procs'.contexts = procs.contexts := by
  unfold pcbFree at ran
  split at ran
  · cases ran
  split at ran
  · split at ran
    · cases ran
      rfl
    · cases ran
      rfl
  · cases ran
    rfl

theorem drop_dropped {freedStack freedPcb r r' : Int} (Q : Queued procs qs) (row : qs i = p :: l)
    (removed : pcbRemove procs p = some (procs', r)) (freed : pcbFree procs' p freedStack freedPcb = some (procs'', r')) :
    Dropped procs procs'' qs i p l := by
  have member : p ∈ qs i := row ▸ List.mem_cons_self
  have real := Q.nonnull member
  obtain ⟨t, removed', Q', _, links⟩ := pcbRemove_queued Q member
  obtain ⟨rfl, rfl⟩ := Prod.mk.inj (Option.some.inj (removed.symm.trans removed'))
  obtain ⟨relinked, _, _⟩ := pcbRemove_relinked removed
  obtain ⟨queues, _, pcbs, _⟩ := free_same freed
  rw [row, List.erase_cons_head] at Q'
  have gone : ∀ j, p ∉ update qs i l j := by
    intro j inside
    by_cases here : j = i
    · subst here
      rw [update_self] at inside
      exact (List.nodup_cons.mp (row ▸ Q.unique j)).1 inside
    · rw [update_of_ne here] at inside
      exact here (Q.apart inside member)
  refine ⟨Q'.congr queues ?_, real, gone, ?_, ?_, ?_⟩
  · intro j q inside
    exact pcbs q fun here => gone j (here ▸ inside)
  · rw [pcbFree_contexts freed]
    exact relinked.contexts
  · intro q other
    rw [pcbs q other]
    exact relinked.pstackseg q
  · intro q nonnull outside
    rw [pcbs q fun here => outside i (here ▸ member)]
    have same := relinked.pcbs q
    rw [← links q nonnull outside] at same
    exact same

/-! ### The loops -/

/-- What holds in front of a turn of the loops and behind it holds when they end. -/
theorem cleanQueue_rule {P : (Fin 4 → List Ptr) → σ → Machine → Prop}
    (queued : ∀ qs s m, P qs s m → Queued m.kernel.procs qs)
    (turn : ∀ qs s m i p l procs r s' freedStack freedPcb procs' r', P qs s m → qs i = p :: l →
      pcbRemove m.kernel.procs p = some (procs, r) → free s procs p = some (s', freedStack, freedPcb) →
        pcbFree procs p freedStack freedPcb = some (procs', r') →
          P (update qs i l) s' { m.withProcs procs' with live := m.live.filter (· ≠ p) })
    (holds : P qs s m) (ran : cleanQueue free i fuel s m = some (s', m')) : P (update qs i []) s' m' := by
  induction fuel generalizing qs s m with
  | zero => cases ran
  | succ fuel ih =>
    have queue := (queued qs s m holds).queue i
    unfold cleanQueue at ran
    dsimp only at ran
    by_cases empty : (m.kernel.procs.queues i).pcbHead = 0
    · rw [if_neg (not_not.mpr empty)] at ran
      obtain ⟨rfl, rfl⟩ := Prod.mk.inj (Option.some.inj ran)
      rw [← (queue_head_null_iff queue).mp empty, update_eq_self]
      exact holds
    · rw [if_pos empty] at ran
      obtain ⟨⟨procs, r⟩, removed, ran⟩ := Option.bind_eq_some_iff.mp ran
      obtain ⟨⟨s₁, freedStack, freedPcb⟩, freed, ran⟩ := Option.bind_eq_some_iff.mp ran
      obtain ⟨⟨procs', r'⟩, ended, ran⟩ := Option.bind_eq_some_iff.mp ran
      have occupied : qs i ≠ [] := fun none => empty ((queue_head_null_iff queue).mpr none)
      obtain ⟨p, l, row⟩ := List.exists_cons_of_ne_nil occupied
      have head : (m.kernel.procs.queues i).pcbHead = p := by
        rw [queue.chain.head, row]
        rfl
      rw [head] at removed freed ended ran
      have after := ih (turn qs s m i p l procs r s₁ freedStack freedPcb procs' r' holds row removed freed ended) ran
      rw [update_idem] at after
      exact after

theorem cleanQueues_rule {P : (Fin 4 → List Ptr) → σ → Machine → Prop}
    (queued : ∀ qs s m, P qs s m → Queued m.kernel.procs qs)
    (turn : ∀ qs s m i p l procs r s' freedStack freedPcb procs' r', P qs s m → qs i = p :: l →
      pcbRemove m.kernel.procs p = some (procs, r) → free s procs p = some (s', freedStack, freedPcb) →
        pcbFree procs p freedStack freedPcb = some (procs', r') →
          P (update qs i l) s' { m.withProcs procs' with live := m.live.filter (· ≠ p) })
    (order : List (Fin 4)) (holds : P qs s m) (ran : cleanQueues free order s m = some (s', m')) :
    P (fun i => if i ∈ order then [] else qs i) s' m' := by
  induction order generalizing qs s m with
  | nil =>
    obtain ⟨rfl, rfl⟩ := Prod.mk.inj (Option.some.inj ran)
    exact holds
  | cons i order ih =>
    obtain ⟨⟨s₁, m₁⟩, first, ran⟩ := Option.bind_eq_some_iff.mp ran
    have after := ih (cleanQueue_rule queued turn holds first) ran
    have same : (fun j => if j ∈ i :: order then [] else qs j) =
        fun j => if j ∈ order then [] else update qs i [] j := by
      funext j
      by_cases here : j = i
      · subst here
        rw [if_pos List.mem_cons_self, update_self, ite_self]
      · rw [update_of_ne here]
        simp only [List.mem_cons, here, false_or]
    rw [same]
    exact after

/-- The loops come to an end as every turn shortens a queue. -/
theorem cleanQueue_total (gives : ∀ s procs p, ∃ r, free s procs p = some r) (Q : Queued m.kernel.procs qs)
    (enough : (qs i).length < fuel) :
    ∃ s' m', cleanQueue free i fuel s m = some (s', m') ∧ Queued m'.kernel.procs (update qs i []) := by
  induction fuel generalizing qs s m with
  | zero => cases enough
  | succ fuel ih =>
    have queue := Q.queue i
    unfold cleanQueue
    dsimp only
    cases row : qs i with
    | nil =>
      have empty : (m.kernel.procs.queues i).pcbHead = 0 := (queue_head_null_iff queue).mpr row
      rw [if_neg (not_not.mpr empty)]
      refine ⟨s, m, rfl, ?_⟩
      rw [← row, update_eq_self]
      exact Q
    | cons p l =>
      have member : p ∈ qs i := row ▸ List.mem_cons_self
      have head : (m.kernel.procs.queues i).pcbHead = p := by
        rw [queue.chain.head, row]
        rfl
      obtain ⟨procs, removed, _⟩ := pcbRemove_queued Q member
      obtain ⟨⟨s₁, freedStack, freedPcb⟩, freed⟩ := gives s procs p
      obtain ⟨⟨procs', r⟩, ended⟩ := pcbFree_total procs (Q.nonnull member) freedStack freedPcb
      have dropped := drop_dropped Q row removed ended
      have shorter : (update qs i l i).length < fuel := by
        rw [row, List.length_cons] at enough
        rw [update_self]
        omega
      obtain ⟨s', m', ran, Q'⟩ := ih (m := { m.withProcs procs' with live := m.live.filter (· ≠ p) }) (s := s₁)
        dropped.queued shorter
      rw [update_idem] at Q'
      rw [head, if_pos (Q.nonnull member), removed]
      refine ⟨s', m', ?_, Q'⟩
      rw [Option.bind_eq_bind, Option.bind_some]
      dsimp only
      rw [freed, Option.bind_eq_bind, Option.bind_some]
      dsimp only
      rw [ended]
      exact ran

theorem cleanQueues_total (gives : ∀ s procs p, ∃ r, free s procs p = some r) (order : List (Fin 4))
    (Q : Queued m.kernel.procs qs) : ∃ s' m', cleanQueues free order s m = some (s', m') := by
  induction order generalizing qs s m with
  | nil => exact ⟨s, m, rfl⟩
  | cons i order ih =>
    obtain ⟨s₁, m₁, first, Q₁⟩ := cleanQueue_total (s := s) gives Q (Q.short i)
    obtain ⟨s', m', ran⟩ := ih (s := s₁) Q₁
    refine ⟨s', m', ?_⟩
    unfold cleanQueues
    rw [first]
    exact ran

/-! ### What the loops leave -/

/-- The heap takes every stack back. -/
def Succeeds (free : σ → Procs → Ptr → Option (σ × Int × Int)) : Prop :=
  ∀ s procs p s' freedStack freedPcb, free s procs p = some (s', freedStack, freedPcb) → freedStack = 0

/-- The processes that were in the queues `qs₀` of `m₀` and are in `qs` no more have been freed. -/
structure Cleaned (free : σ → Procs → Ptr → Option (σ × Int × Int)) (qs₀ : Fin 4 → List Ptr) (m₀ : Machine)
    (qs : Fin 4 → List Ptr) (m : Machine) : Prop where
  start : Queued m₀.kernel.procs qs₀
  queued : Queued m.kernel.procs qs
  within : ∀ i, ∀ p ∈ qs i, p ∈ qs₀ i
  machine : m = { m₀ with kernel := { m₀.kernel with procs := m.kernel.procs }, live := m.live }
  contexts : m.kernel.procs.contexts = m₀.kernel.procs.contexts
  live : ∀ p, p ∈ m.live ↔ p ∈ m₀.live ∧ ((∃ i, p ∈ qs₀ i) → ∃ i, p ∈ qs i)
  loose : ∀ p, p ≠ 0 → (∀ i, p ∉ qs₀ i) → m.kernel.procs.pcbs p = m₀.kernel.procs.pcbs p
  ended : Succeeds free → ∀ p, (∃ i, p ∈ qs₀ i) → (∀ i, p ∉ qs i) → m.kernel.procs.pcbs p = clearedPcb

theorem cleaned_refl (Q : Queued m.kernel.procs qs) : Cleaned free qs m qs m := by
  refine ⟨Q, Q, fun _ _ inside => inside, rfl, rfl, ?_, fun _ _ _ => rfl, ?_⟩
  · intro p
    exact ⟨fun inside => ⟨inside, id⟩, And.left⟩
  · intro _ p inside outside
    obtain ⟨i, inside⟩ := inside
    exact (outside i inside).elim

theorem mem_update_cons {j : Fin 4} (row : qs i = p :: l) (other : q ≠ p) :
    q ∈ update qs i l j ↔ q ∈ qs j := by
  by_cases here : j = i
  · subst here
    rw [update_self, row, List.mem_cons]
    exact ⟨.inr, fun either => either.resolve_left other⟩
  · rw [update_of_ne here]

theorem cleaned_turn {r r' freedStack freedPcb : Int} (C : Cleaned free qs₀ m₀ qs m) (row : qs i = p :: l)
    (removed : pcbRemove m.kernel.procs p = some (procs, r))
    (given : free s procs p = some (s', freedStack, freedPcb))
    (freed : pcbFree procs p freedStack freedPcb = some (procs', r')) :
    Cleaned free qs₀ m₀ (update qs i l) { m.withProcs procs' with live := m.live.filter (· ≠ p) } := by
  have dropped := drop_dropped C.queued row removed freed
  have member : p ∈ qs i := row ▸ List.mem_cons_self
  refine ⟨C.start, dropped.queued, ?_, ?_, dropped.contexts.trans C.contexts, ?_, ?_, ?_⟩
  · intro j q inside
    have other : q ≠ p := fun here => dropped.gone j (here ▸ inside)
    exact C.within j q ((mem_update_cons row other).mp inside)
  · have machine := C.machine
    generalize m.live.filter (· ≠ p) = live
    rw [machine]
    rfl
  · intro q
    show q ∈ m.live.filter (· ≠ p) ↔ _
    rw [List.mem_filter, decide_eq_true_iff, C.live]
    by_cases here : q = p
    · subst here
      constructor
      · intro both
        exact (both.2 rfl).elim
      · rintro ⟨_, queued⟩
        obtain ⟨j, inside⟩ := queued ⟨i, C.within i q member⟩
        exact (dropped.gone j inside).elim
    · simp only [mem_update_cons row here]
      exact and_iff_left here
  · intro q real outside
    rw [← C.loose q real outside]
    exact dropped.loose q real fun j inside => outside j (C.within j q inside)
  · intro succeeds q inside outside
    by_cases here : q = p
    · subst here
      rw [succeeds _ _ _ _ _ _ given] at freed
      exact pcbFree_cleared freed
    · have gone : ∀ j, q ∉ qs j := fun j there => outside j ((mem_update_cons row here).mpr there)
      have real : q ≠ 0 := by
        obtain ⟨j, inside⟩ := inside
        exact C.start.nonnull inside
      rw [← C.ended succeeds q inside gone]
      exact dropped.loose q real gone

theorem cleanUp_cleaned (Q : Queued m.kernel.procs qs) (ran : cleanUp free s m = some (s', m')) :
    Cleaned free qs m (fun _ => []) m' := by
  have every : ∀ i : Fin 4, i ∈ ([0, 1, 2, 3] : List (Fin 4)) := by decide
  have cleaned := cleanQueues_rule (P := fun qs' _ m' => Cleaned free qs m qs' m') (fun _ _ _ => Cleaned.queued)
    (fun _ _ _ _ _ _ _ _ _ _ _ _ _ C row removed given freed => cleaned_turn C row removed given freed)
    [0, 1, 2, 3] (cleaned_refl Q) ran
  have same : (fun i => if i ∈ ([0, 1, 2, 3] : List (Fin 4)) then [] else qs i) = fun _ => [] := by
    funext i
    rw [if_pos (every i)]
  rw [same] at cleaned
  exact cleaned

/-- Nothing but the process that was running is left, while the requests stay. -/
structure Ended (free : σ → Procs → Ptr → Option (σ × Int × Int)) (m₀ : Machine) (pend : Fin 4 → List Ptr)
    (m : Machine) : Prop where
  empty : ∀ i, (m.kernel.procs.queues i).pcbHead = 0
  pcbRunning : m.kernel.pcbRunning = m₀.kernel.pcbRunning
  original : m.kernel.contextOriginal = m₀.kernel.contextOriginal
  live : ∀ p, p ∈ m.live ↔ p = m₀.kernel.pcbRunning
  devices : DevicesOk m.kernel pend
  freed : Succeeds free → ∀ d, ∀ a ∈ pend d, m.kernel.procs.pcbs (m.kernel.iocbs a).pcbRq = clearedPcb

theorem cleaned_ended {pend : Fin 4 → List Ptr} {trapped : Ptr → Option Trap}
    (R : Running m₀.kernel m₀.live qs₀ trapped m₀.kernel.pcbRunning) (D : DevicesOk m₀.kernel pend)
    (C : Cleaned free qs₀ m₀ (fun _ => []) m) : Ended free m₀ pend m := by
  have kernel : m.kernel = { m₀.kernel with procs := m.kernel.procs } := congrArg Machine.kernel C.machine
  refine ⟨?_, ?_, ?_, ?_, ?_, ?_⟩
  · intro i
    exact (queue_head_null_iff (C.queued.queue i)).mpr rfl
  · rw [kernel]
  · rw [kernel]
  · intro p
    rw [C.live, R.sound.placed.members, List.mem_singleton]
    constructor
    · rintro ⟨running | queued, waits⟩
      · exact running
      · obtain ⟨_, inside⟩ := waits queued
        cases inside
    · rintro rfl
      refine ⟨.inl rfl, ?_⟩
      rintro ⟨i, inside⟩
      exact ((R.sound.placed.loose _ List.mem_cons_self).2.2 i inside).elim
  · rw [kernel]
    exact devicesOk_congr D rfl rfl
  · intro succeeds d a inside
    have wants : (m₀.kernel.iocbs a).pcbRq ∈ wanting m₀.kernel d := by
      rw [wanting_pend D]
      exact List.mem_map_of_mem inside
    have iocbs : m.kernel.iocbs = m₀.kernel.iocbs := by
      rw [kernel]
    rw [iocbs]
    refine C.ended succeeds _ ?_ fun _ inside => nomatch inside
    exact (R.sound.requested.blocked d _ wants).elim (fun inside => ⟨1, inside⟩) fun inside => ⟨3, inside⟩

/-! ### The exit of `comhand` -/

/-- Until then only the devices do something, and `comhand` with its own memory. -/
def Action.Passive : Action → Prop
  | .interrupt _ _ | .compute _ _ => True
  | _ => False

instance : (a : Action) → Decidable a.Passive
  | .interrupt .. | .compute .. => .isTrue trivial
  | .trap .. | .poll | .create .. | .delete .. | .suspend _ | .resume _ | .setPriority .. => .isFalse not_false

/-- The device has completed a request that `serial_check_io` has not seen yet. -/
def Finished (k : Kernel) (d : Fin 4) : Prop := (k.dcb d).isOpen = true ∧ (k.dcb d).event = true

instance (k : Kernel) (d : Fin 4) : Decidable (Finished k d) := inferInstanceAs (Decidable (_ ∧ _))

variable {a : Action} {pend : Fin 4 → List Ptr} {k k' : Kernel} {context : Context} {offset : UInt32} {alloc : Ptr}
  {freedStack freedPcb : Int}

theorem ended_step (E : Ended free m₀ pend m) (passive : a.Passive) (moved : m.step a = some m') :
    Ended free m₀ pend m' ∧ m'.live = m.live ∧ m'.kernel.procs.pcbs = m.kernel.procs.pcbs := by
  cases step_moves moved with
  | interrupt ran same =>
    obtain ⟨only, D⟩ := interrupt_devices E.devices ran
    subst same
    refine ⟨⟨?_, only.pcbRunning.trans E.pcbRunning, only.contextOriginal.trans E.original, E.live, D, ?_⟩, rfl, ?_⟩
    · rw [only.procs]
      exact E.empty
    · rw [only.procs, only.iocbs]
      exact E.freed
    · rw [only.procs]
  | compute _ same =>
    subst same
    exact ⟨⟨E.empty, E.pcbRunning, E.original, E.live, devicesOk_congr E.devices rfl rfl, E.freed⟩, rfl, rfl⟩
  | _ => exact passive.elim

theorem ended_run (E : Ended free m₀ pend m) (later : Reaches (· = m) (fun _ a => a.Passive) Machine.step m') :
    Ended free m₀ pend m' ∧ m'.live = m.live ∧ m'.kernel.procs.pcbs = m.kernel.procs.pcbs := by
  induction later with
  | start begins =>
    subst begins
    exact ⟨E, rfl, rfl⟩
  | step _ passive moved ih =>
    obtain ⟨E', live, pcbs⟩ := ih
    obtain ⟨E'', live', pcbs'⟩ := ended_step E' passive moved
    exact ⟨E'', live'.trans live, pcbs'.trans pcbs⟩

theorem checkDevices_quiet (D : DevicesOk k pend) (quiet : ∀ d, ¬Finished k d) (ds : List (Fin 4)) (ready : Bool) :
    checkDevices (ds.map serialDev) k ready = some (k, ready) := by
  induction ds with
  | nil => rfl
  | cons d ds ih =>
    have ways := check_ok D (serialDev d)
    have named := serialDevno_dev d
    generalize outcome : serialCheckIo k (serialDev d) = checked at ways
    cases ways with
    | quiet r idle =>
      obtain ⟨_, rfl⟩ := idle d named
      rw [List.map_cons]
      unfold checkDevices
      rw [outcome, Option.bind_eq_bind, Option.bind_some]
      dsimp only
      rw [show (ready || decide ((0 : Int) ≠ 0)) = ready from Bool.or_false ready]
      exact ih
    | asleep e a l devno isOpen event queue stuck => exact (quiet e ⟨isOpen, event⟩).elim
    | retired e a l procs k₂ devno isOpen event queue woken step D₁ => exact (quiet e ⟨isOpen, event⟩).elim

/-- A request that is completed leads to a process that is no more, and to its null context. -/
theorem wake_cleared {count : UInt32} (cleared : procs.pcbs p = clearedPcb) (empty : (procs.queues 3).pcbHead = 0) :
    wake procs p count = none := by
  unfold wake
  by_cases null : p = 0
  · unfold pcbRemove
    rw [if_pos null]
    rfl
  · have removed : pcbRemove procs p = some (procs, -1) := by
      unfold pcbRemove Procs.state
      rw [if_neg null, cleared]
      exact if_pos empty
    have context : ((procs.setExec p .ready).pcbs p).pctxt = none := by
      unfold Procs.setExec Procs.setState
      rw [setPcb_pcb, if_pos rfl, cleared]
      rfl
    rw [removed, Option.bind_eq_bind, Option.bind_some]
    dsimp only
    rw [context]
    rfl

theorem checkDevices_stuck (D : DevicesOk k pend)
    (freed : ∀ d, ∀ a ∈ pend d, ∀ n, wake k.procs (k.iocbs a).pcbRq n = none) (ds : List (Fin 4)) (ready : Bool)
    (found : ∃ d ∈ ds, Finished k d) : checkDevices (ds.map serialDev) k ready = none := by
  induction ds generalizing ready with
  | nil =>
    obtain ⟨_, inside, _⟩ := found
    cases inside
  | cons d ds ih =>
    have ways := check_ok D (serialDev d)
    have named := serialDevno_dev d
    generalize outcome : serialCheckIo k (serialDev d) = checked at ways
    rw [List.map_cons]
    unfold checkDevices
    cases ways with
    | quiet r idle =>
      have later : ∃ e ∈ ds, Finished k e := by
        obtain ⟨e, inside, finished⟩ := found
        rcases List.mem_cons.mp inside with rfl | behind
        · exact ((idle e named).1 finished).elim
        · exact ⟨e, behind, finished⟩
      rw [outcome]
      exact ih _ later
    | asleep e a l devno isOpen event queue stuck =>
      rw [outcome]
      rfl
    | retired e a l procs k₂ devno isOpen event queue woken step D₁ =>
      rw [freed e a (queue ▸ List.mem_cons_self)] at woken
      cases woken

theorem devicesOk_saved (D : DevicesOk k pend) (context : Context) (offset : UInt32) :
    DevicesOk (saveContext k context offset) pend :=
  devicesOk_congr D rfl rfl

/-- Control is back where `kmain` gave it away, and no process is left. -/
structure Returned (m₀ m : Machine) : Prop where
  pcbRunning : m.kernel.pcbRunning = 0
  live : m.live = []
  entered : m.entered = m₀.kernel.contextOriginal
  original : m.kernel.contextOriginal = none

theorem exitPcb_leaves {r : Int} {temp : CtxPtr} (first : k.contextOriginal = some temp)
    (freed : pcbFree k.procs k.pcbRunning freedStack freedPcb = some (procs', r))
    (empty : (procs'.queues 0).pcbHead = 0) : exitPcb k freedStack freedPcb =
      some ({ k with procs := procs', pcbRunning := 0, contextOriginal := none }, .returned (some temp)) := by
  have idle : ¬readyHead { k with procs := procs' } ≠ 0 := not_not.mpr empty
  unfold exitPcb
  rw [freed, Option.bind_eq_bind, Option.bind_some]
  dsimp only
  rw [if_neg idle, first]
  rfl

theorem ended_exits (E : Ended free m₀ pend m) (busy : m₀.kernel.pcbRunning ≠ 0)
    (original : m₀.kernel.contextOriginal ≠ none) (quiet : ∀ d, ¬Finished m.kernel d) (exits : context.eax = opExit)
    (offset : UInt32) (alloc : Ptr) (freedStack freedPcb : Int) :
    ∃ m', m.step (.trap context offset alloc freedStack freedPcb) = some m' ∧ Returned m₀ m' := by
  have running : m.kernel.pcbRunning ≠ 0 := by
    rw [E.pcbRunning]
    exact busy
  obtain ⟨temp, first⟩ := Option.ne_none_iff_exists'.mp original
  have checked : sysCheckIo (saveContext m.kernel context offset) = some (saveContext m.kernel context offset, false) :=
    checkDevices_quiet (devicesOk_saved E.devices context offset) quiet [0, 1, 2, 3] false
  generalize called : (saveContext m.kernel context offset).procs.setEax (savedAt m.kernel offset) 0 = procs
  have queues : procs.queues = m.kernel.procs.queues := by
    rw [← called]
    rfl
  obtain ⟨⟨procs', r⟩, freed⟩ := pcbFree_total procs running freedStack freedPcb
  have empty : (procs'.queues 0).pcbHead = 0 := by
    rw [(free_same freed).1, queues, E.empty]
  have left := exitPcb_leaves (k := { saveContext m.kernel context offset with procs := procs }) (E.original.trans first)
    freed empty
  have ran : sysCall (saveContext m.kernel context offset) (savedAt m.kernel offset) alloc freedStack freedPcb = _ :=
    sysCall_eq checked
  rw [called, exits] at ran
  refine ⟨_, trap_step running (ran.trans left), ?_⟩
  refine ⟨rfl, ?_, first.symm, rfl⟩
  rw [settle_live]
  show remaining context.eax m.live m.kernel.pcbRunning = []
  rw [remaining, if_pos exits]
  apply List.filter_eq_nil_iff.mpr
  intro p inside
  rw [E.pcbRunning, (E.live p).mp inside, decide_eq_true_iff]
  exact not_not.mpr rfl

theorem ended_stuck (E : Ended free m₀ pend m) (succeeds : Succeeds free) (found : ∃ d, Finished m.kernel d) :
    m.step (.trap context offset alloc freedStack freedPcb) = none := by
  have checked : sysCheckIo (saveContext m.kernel context offset) = none := by
    have every : ∀ d : Fin 4, d ∈ ([0, 1, 2, 3] : List (Fin 4)) := by decide
    have there : ∃ d ∈ ([0, 1, 2, 3] : List (Fin 4)), Finished m.kernel d :=
      found.imp fun d finished => ⟨every d, finished⟩
    refine checkDevices_stuck (devicesOk_saved E.devices context offset) ?_ [0, 1, 2, 3] false there
    intro d a inside n
    exact wake_cleared (E.freed succeeds d a inside) (E.empty 3)
  unfold Machine.step
  dsimp only
  split
  · rfl
  · unfold Machine.trap sysCall
    rw [checked]
    rfl

/-- Where the heap takes every stack back, Shut Down comes to an end and leaves no process but `comhand`. Its exit goes
back to `kmain` if and only if no device has completed a request by then: the request would be one of a process that
has been freed. -/
theorem shutdown_leaves (reached : Reached m₀) (busy : m₀.kernel.pcbRunning ≠ 0)
    (gives : ∀ s procs p, ∃ r, free s procs p = some r) (succeeds : Succeeds free) (s : σ) :
    ∃ s' m₁, cleanUp free s m₀ = some (s', m₁) ∧ (∀ i, queueList m₁.kernel.procs i = some []) ∧
      ∀ m, Reaches (· = m₁) (fun _ a => a.Passive) Machine.step m →
        (∀ p, p ∈ m.live ↔ p = m₀.kernel.pcbRunning) ∧
          ∀ context offset alloc freedStack freedPcb, context.eax = opExit →
            ((m.step (.trap context offset alloc freedStack freedPcb)).isSome ↔ ∀ d, ¬Finished m.kernel d) ∧
              ∀ m' ∈ m.step (.trap context offset alloc freedStack freedPcb), Returned m₀ m' := by
  obtain ⟨qs, R⟩ := standing_running (reached_standing reached) busy
  obtain ⟨pend, D⟩ := R.sound.devices
  have Q := R.sound.placed.queued
  obtain ⟨s', m₁, ran⟩ := cleanQueues_total gives [0, 1, 2, 3] Q (s := s)
  have cleaned := cleanUp_cleaned Q ran
  refine ⟨s', m₁, ran, fun i => queueList_eq cleaned.queued i, ?_⟩
  intro m later
  obtain ⟨E, _⟩ := ended_run (cleaned_ended R D cleaned) later
  refine ⟨E.live, ?_⟩
  intro context offset alloc freedStack freedPcb exits
  by_cases quiet : ∀ d, ¬Finished m.kernel d
  · obtain ⟨m', moved, returned⟩ := ended_exits E busy R.original quiet exits offset alloc freedStack freedPcb
    rw [moved]
    refine ⟨⟨fun _ => quiet, fun _ => rfl⟩, ?_⟩
    rintro _ ⟨⟩
    exact returned
  · have found : ∃ d, Finished m.kernel d := by
      by_contra none
      exact quiet fun d there => none ⟨d, there⟩
    rw [ended_stuck E succeeds found]
    refine ⟨⟨?_, fun calm => (quiet calm).elim⟩, fun _ member => nomatch member⟩
    intro some
    cases some

/-- The idle process waits for its output when Shut Down is confirmed. -/
theorem shutdown_leaves_example : ∃ m₀ m₁ m₂ : Machine, (m₀.kernel.procs.state 300).exec = .blocked ∧
    cleanUp (fun s _ _ => some (s, 0, 0)) () m₀ = some ((), m₁) ∧
      m₁.step (.trap (request opExit 0 0 0) 20 0 0 0) = some m₂ ∧ Returned m₀ m₂ := by
  have ran : (oneport Lawful [.trap (request opWrite com1 1000 2) 20 700 0 0,
      .trap (request opWrite com1 2000 2) 20 800 0 0, .interrupt 0 .output, .interrupt 0 .output, .poll]).bind (fun m =>
        (cleanUp (fun s _ _ => some (s, 0, 0)) () m).map fun r =>
          (m.kernel.pcbRunning, (m.kernel.procs.state 300).exec, decide (∀ d, ¬Finished r.2.kernel d))) =
      some (100, .blocked, true) := by
    decide +kernel
  obtain ⟨m₀, begins, ran⟩ := Option.bind_eq_some_iff.mp ran
  obtain ⟨⟨_, m₁⟩, cleaned, seen⟩ := Option.map_eq_some_iff.mp ran
  simp only [Prod.mk.injEq, decide_eq_true_eq] at seen
  obtain ⟨running, blocked, quiet⟩ := seen
  have busy : m₀.kernel.pcbRunning ≠ 0 := by
    rw [running]
    decide
  have succeeds : Succeeds fun (s : Unit) _ _ => some (s, (0 : Int), (0 : Int)) := by
    rintro s procs p s' freedStack freedPcb ⟨⟩
    rfl
  obtain ⟨_, m, ran, _, leaves⟩ :=
    shutdown_leaves (oneport_reaches begins) busy (fun _ _ _ => ⟨_, rfl⟩) succeeds ()
  obtain ⟨rfl, rfl⟩ := Prod.mk.inj (Option.some.inj (cleaned.symm.trans ran))
  obtain ⟨moves, returned⟩ := (leaves _ (.start rfl)).2 (request opExit 0 0 0) 20 0 0 0 rfl
  obtain ⟨m₂, moved⟩ := Option.isSome_iff_exists.mp (moves.mpr quiet)
  exact ⟨m₀, _, m₂, blocked, cleaned, moved, returned m₂ moved⟩

/-! ### The memory -/

variable {ok : Session → Call → Prop} [∀ s c, Decidable (ok s c)] {hold : Session → Multiset (Nat × Nat) → Prop}
  {u t : Session} {rest : Multiset (Nat × Nat)} {h h' : Host} {base size : Nat}

/-- Every turn of the loops gives back a PCB and its stack. -/
theorem Custody.cleanUp (C : Custody ok hold) (Q : Queued m.kernel.procs qs) (inside : ∀ i, ∀ p ∈ qs i, p ∈ m.live)
    (H : hold u (processMem m.kernel.procs m.live + rest)) (ran : System.cleanUp (pcbFreeMem ok) u m = some (t, m')) :
    hold t (processMem m'.kernel.procs m'.live + rest) := by
  have ran : cleanQueues (pcbFreeMem ok) [0, 1, 2, 3] u m = some (t, m') := ran
  have after := cleanQueues_rule (P := fun qs s m => Queued m.kernel.procs qs ∧
    (∀ i, ∀ p ∈ qs i, p ∈ m.live) ∧ hold s (processMem m.kernel.procs m.live + rest)) (fun _ _ _ => And.left) ?_
    [0, 1, 2, 3] ⟨Q, inside, H⟩ ran
  · exact after.2.2
  · intro qs u m i p l procs r t freedStack freedPcb procs' r' holds row removed given freed
    obtain ⟨Q, inside, H⟩ := holds
    have dropped := drop_dropped Q row removed freed
    have member : p ∈ m.live := inside i p (row ▸ List.mem_cons_self)
    refine ⟨dropped.queued, ?_, ?_⟩
    · intro j q there
      have other : q ≠ p := fun here => dropped.gone j (here ▸ there)
      exact List.mem_filter.mpr ⟨inside j q ((mem_update_cons row other).mp there), decide_eq_true other⟩
    · have stack : stackBlock procs p = stackBlock m.kernel.procs p := by
        unfold stackBlock
        rw [(pcbRemove_relinked removed).1.pstackseg]
      have kept : ∀ q ∈ m.live.filter (· ≠ p), (procs'.pcbs q).pstackseg = (m.kernel.procs.pcbs q).pstackseg :=
        fun q there => dropped.segments q (of_decide_eq_true (List.mem_filter.mp there).2)
      rw [processMem_filter (C.once H) member, Multiset.cons_add, Multiset.cons_add, ← stack] at H
      show hold t (processMem procs' (m.live.filter (· ≠ p)) + rest)
      rw [processMem_congr kept]
      exact C.pcbFree H given

theorem checkDevicesMem_quiet (D : DevicesOk k pend) (quiet : ∀ d, ¬Finished k d) (ds : List (Fin 4)) :
    checkDevicesMem ok (ds.map serialDev) k u = some u := by
  induction ds with
  | nil => rfl
  | cons d ds ih =>
    have ways := check_ok D (serialDev d)
    have named := serialDevno_dev d
    generalize outcome : serialCheckIo k (serialDev d) = checked at ways
    cases ways with
    | quiet r idle =>
      obtain ⟨_, rfl⟩ := idle d named
      rw [List.map_cons]
      unfold checkDevicesMem
      rw [outcome, Option.bind_eq_bind, Option.bind_some]
      dsimp only
      rw [if_neg (by decide)]
      exact ih
    | asleep e a l devno isOpen event queue stuck => exact (quiet e ⟨isOpen, event⟩).elim
    | retired e a l procs k₂ devno isOpen event queue woken step D₁ => exact (quiet e ⟨isOpen, event⟩).elim

/-- The exit of `comhand` gives back the last PCB and the last stack. -/
theorem Custody.leaves (C : Custody ok hold) (E : Ended free m₀ pend m) (quiet : ∀ d, ¬Finished m.kernel d)
    (exits : context.eax = opExit) (H : hold u (processMem m.kernel.procs m.live + rest)) {clients : List (Nat × Nat)}
    (moved : Host.step ok ⟨m, u, clients⟩ (.kernel (.trap context offset alloc freedStack freedPcb)) = some h) :
    hold h.session rest ∧ h.clients = clients := by
  obtain ⟨act, answers, same, _⟩ := Host.step_kernel moved
  refine ⟨?_, same⟩
  have D := devicesOk_saved E.devices context offset
  have checked : sysCheckIo (saveContext m.kernel context offset) = some (saveContext m.kernel context offset, false) :=
    checkDevices_quiet D quiet [0, 1, 2, 3] false
  have checkedMem : sysCheckIoMem ok (saveContext m.kernel context offset) u = some u :=
    checkDevicesMem_quiet D quiet [0, 1, 2, 3]
  unfold answered at answers
  dsimp only at answers
  rw [checked, Option.bind_eq_bind, Option.bind_some] at answers
  dsimp only at answers
  rw [checkedMem, Option.bind_eq_bind, Option.bind_some] at answers
  obtain ⟨⟨t, a⟩, granted, answers⟩ := Option.bind_eq_some_iff.mp answers
  obtain ⟨⟨t', stack, pcb⟩, ended, answers⟩ := Option.bind_eq_some_iff.mp answers
  obtain ⟨rfl, _⟩ := Prod.mk.inj (Option.some.inj answers)
  have idle : ¬WantsIocb (saveContext m.kernel context offset) context := by
    intro wants
    rcases wants.1 with read | write
    · exact absurd (exits.symm.trans read) (by decide)
    · exact absurd (exits.symm.trans write) (by decide)
  unfold sysScheduleIoMem at granted
  rw [if_neg idle] at granted
  obtain ⟨rfl, _⟩ := Prod.mk.inj (Option.some.inj granted)
  have member : (saveContext m.kernel context offset).pcbRunning ∈ m.live := (E.live _).mpr E.pcbRunning
  have H' := C.exits member H ended
  have none : remaining context.eax m.live (saveContext m.kernel context offset).pcbRunning = [] := by
    rw [remaining, if_pos exits]
    apply List.filter_eq_nil_iff.mpr
    intro p inside
    rw [show (saveContext m.kernel context offset).pcbRunning = _ from E.pcbRunning, (E.live p).mp inside,
      decide_eq_true_iff]
    exact not_not.mpr rfl
  rw [none] at H'
  have empty : processMem (saveContext m.kernel context offset).procs [] = 0 := rfl
  rw [empty, zero_add] at H'
  exact H'

/-- After Shut Down nothing is handed out but the iocbs of the requests that were still to be served, and what
`comhand` has allocated by command. -/
theorem shutdown_memory
    (reached : Reaches (Host.Booted BehindCall base size) (fun h e => e.Lawful h) (fun h e => h.step BehindCall e) h)
    (busy : h.machine.kernel.pcbRunning ≠ 0)
    (ran : cleanUp (pcbFreeMem BehindCall) h.session h.machine = some (t, m'))
    (later : Reaches (· = m') (fun _ a => a.Passive) Machine.step m) (quiet : ∀ d, ¬Finished m.kernel d)
    (exits : context.eax = opExit)
    (moved : Host.step BehindCall ⟨m, t, h.clients⟩ (.kernel (.trap context offset alloc freedStack freedPcb)) =
      some h') :
    (h'.session.live : Multiset (Nat × Nat)) =
      requestMem (fun d => (h.machine.kernel.requestQueue d).getD []) + ↑h.clients := by
  have C : Custody BehindCall (Exact Heap.NoneLost base size) := exact_custody behind_regular
  obtain ⟨machine, H⟩ := C.run (fun s starts => exact_starts behind_regular starts) reached
  obtain ⟨qs, R⟩ := standing_running (reached_standing machine) busy
  obtain ⟨pend, D⟩ := R.sound.devices
  have P := R.sound.placed
  have cleaned := cleanUp_cleaned P.queued ran
  obtain ⟨E, live, pcbs⟩ := ended_run (cleaned_ended R D cleaned) later
  unfold Host.held owned at H
  rw [add_assoc] at H
  have H₁ := C.cleanUp P.queued (fun i p inside => P.live_queued inside) H ran
  have kept : processMem m.kernel.procs m.live = processMem m'.kernel.procs m'.live := by
    rw [live]
    apply processMem_congr
    intro q _
    rw [pcbs]
  rw [← kept] at H₁
  obtain ⟨H₂, _⟩ := C.leaves E quiet exits H₁ moved
  exact H₂.2

/-- The output of the idle process has been started, and its iocb stays behind. -/
theorem shutdown_memory_example : ∃ h h' : Host, h'.session.live = [(12540, 20)] ∧
    (h'.session.live : Multiset (Nat × Nat)) =
      requestMem (fun d => (h.machine.kernel.requestQueue d).getD []) + ↑h.clients := by
  have ran : (hosted BehindCall 4096 20000 [.kernel (.trap (request opWrite com1 1000 2) 20 0 0 0),
      .kernel (.trap (request opWrite com1 2000 2) 20 0 0 0), .kernel (.interrupt 0 .output),
      .kernel (.interrupt 0 .output), .kernel .poll]).bind (fun h =>
        (cleanUp (pcbFreeMem BehindCall) h.session h.machine).bind fun r =>
          (Host.step BehindCall ⟨r.2, r.1, h.clients⟩ (.kernel (.trap (request opExit 0 0 0) 20 0 0 0))).map fun h' =>
            (decide (h.machine.kernel.pcbRunning ≠ 0), decide (∀ d, ¬Finished r.2.kernel d), h'.session.live)) =
      some (true, true, [(12540, 20)]) := by
    decide +kernel
  obtain ⟨h, begins, ran⟩ := Option.bind_eq_some_iff.mp ran
  obtain ⟨⟨t, m⟩, cleaned, ran⟩ := Option.bind_eq_some_iff.mp ran
  obtain ⟨h', moved, seen⟩ := Option.map_eq_some_iff.mp ran
  simp only [Prod.mk.injEq, decide_eq_true_eq] at seen
  obtain ⟨busy, quiet, live⟩ := seen
  have reached := hosted_reaches (by decide) (by decide) (by decide) begins
  exact ⟨h, h', live, shutdown_memory reached busy cleaned (.start rfl) quiet rfl moved⟩

end Mpx.System

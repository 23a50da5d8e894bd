import Mathlib.Tactic.Abel
import Mpx.System.Memory

/-! # Who holds the memory

Every block that the heap has handed out is held by the kernel, as a PCB, a stack or an iocb, or by a
process that asked for it. `Custody` is what the heap has to keep to for that, and one step of kernel and
heap together keeps it. -/

namespace Mpx.System
open Function Library.Holdings Library.Transition Mpx.Process Mpx.Device
open Mpx.Heap (Session Call)

/-- `hold s held` relates a heap to what its clients hold of it. -/
structure Custody (ok : Session → Call → Prop) [∀ s c, Decidable (ok s c)]
    (hold : Session → Multiset (Nat × Nat) → Prop) : Prop where
  grant : ∀ {s t n p held}, hold s held → sysAllocMem ok s n = some (t, p) →
    hold t (if p = 0 then held else (p.toNat, n) ::ₘ held)
  free : ∀ {s t r p held}, hold s held → sysFreeMem ok s p = some (t, r) →
    hold t (if r = 0 then held.filter (·.1 ≠ p.toNat) else held)
  -- After a refusal a block may be held by nobody.
  refused : ∀ {s t r p n held e rest}, hold s ((p.toNat, n) ::ₘ held) → sysFreeMem ok s p = some (t, r) → r ≠ 0 →
    hold t (e ::ₘ rest) → hold t rest
  apart : ∀ {s held}, hold s held → (held.map Prod.fst).Nodup

variable {ok : Session → Call → Prop} [∀ s c, Decidable (ok s c)] {hold : Session → Multiset (Nat × Nat) → Prop}
  {s t : Session} {held rest : Multiset (Nat × Nat)} {procs procs' : Procs} {live : List Ptr} {p q : Ptr}
  {pend : Fin 4 → List Ptr} {d : Fin 4} {k k' : Kernel} {a b : Ptr} {outcome : Outcome} {m m' : Machine} {act : Action}

/-! ### Blocks -/

theorem processMem_cons : processMem procs (p :: live) = pcbBlock p ::ₘ stackBlock procs p ::ₘ processMem procs live := by
  unfold processMem
  rw [List.map_cons, List.map_cons, ← Multiset.cons_coe, ← Multiset.cons_coe, Multiset.cons_add, Multiset.add_cons]

theorem processMem_congr (same : ∀ q ∈ live, (procs'.pcbs q).pstackseg = (procs.pcbs q).pstackseg) :
    processMem procs' live = processMem procs live := by
  have kept : live.map (stackBlock procs') = live.map (stackBlock procs) := by
    apply List.map_congr_left
    intro q member
    unfold stackBlock
    rw [same q member]
  unfold processMem
  rw [kept]

theorem processMem_filter (once : live.Nodup) (member : p ∈ live) : processMem procs live =
    pcbBlock p ::ₘ stackBlock procs p ::ₘ processMem procs (live.filter (· ≠ p)) := by
  have perm := List.perm_cons_erase member
  have erased : live.erase p = live.filter (· ≠ p) := by
    rw [List.Nodup.erase_eq_filter once]
    apply List.filter_congr
    intro q _
    rw [decide_not, bne, beq_eq_decide]
  rw [erased] at perm
  have same : processMem procs live = processMem procs (p :: live.filter (· ≠ p)) := by
    unfold processMem
    rw [Multiset.coe_eq_coe.mpr (perm.map pcbBlock), Multiset.coe_eq_coe.mpr (perm.map (stackBlock procs))]
  rw [same, processMem_cons]

/-- One queue changes. -/
theorem requestMem_update (pend : Fin 4 → List Ptr) (d : Fin 4) (l : List Ptr) :
    requestMem (update pend d l) + ↑((pend d).map iocbBlock) = requestMem pend + ↑(l.map iocbBlock) := by
  have split : ∀ f : Fin 4 → List Ptr, requestMem f =
      ↑((f d).map iocbBlock) + ∑ e ∈ Finset.univ.erase d, (↑((f e).map iocbBlock) : Multiset (Nat × Nat)) :=
    fun f => (Finset.add_sum_erase Finset.univ _ (Finset.mem_univ d)).symm
  have others : ∑ e ∈ Finset.univ.erase d, (↑((update pend d l e).map iocbBlock) : Multiset (Nat × Nat)) =
      ∑ e ∈ Finset.univ.erase d, ↑((pend e).map iocbBlock) := by
    apply Finset.sum_congr rfl
    intro e member
    rw [update_of_ne (Finset.ne_of_mem_erase member)]
  rw [split, split pend, others, update_self]
  abel

theorem requestMem_snoc : requestMem (update pend d (pend d ++ [a])) = iocbBlock a ::ₘ requestMem pend := by
  have same := requestMem_update pend d (pend d ++ [a])
  rw [List.map_append, List.map_singleton, ← Multiset.coe_add, ← add_assoc, add_right_comm] at same
  rw [add_right_cancel same, Multiset.coe_singleton, add_comm, Multiset.singleton_add]

theorem requestMem_tail {l : List Ptr} (front : pend d = a :: l) :
    requestMem pend = iocbBlock a ::ₘ requestMem (update pend d l) := by
  have same := requestMem_update pend d l
  rw [front, List.map_cons, ← Multiset.cons_coe, ← Multiset.singleton_add, ← add_assoc] at same
  rw [← add_right_cancel same, add_comm, Multiset.singleton_add]

theorem requestMem_mem (member : a ∈ pend d) : iocbBlock a ∈ requestMem pend := by
  unfold requestMem
  exact Multiset.mem_sum.mpr ⟨d, Finset.mem_univ d, Multiset.mem_coe.mpr (List.mem_map_of_mem member)⟩

theorem owned_eq (D : DevicesOk m.kernel pend) : owned m = processMem m.kernel.procs m.live + requestMem pend := by
  have queues : (fun d => (m.kernel.requestQueue d).getD []) = pend := by
    funext d
    rw [requestQueue_ok D d]
    rfl
  unfold owned
  rw [queues]

/-! ### What a system request leaves to the devices -/

theorem dispatch_devices (h : dispatch k = some (k', outcome)) : k'.ports = k.ports ∧ k'.iocbs = k.iocbs := by
  obtain ⟨⟨procs, result⟩, _, ran⟩ := Option.bind_eq_some_iff.mp h
  obtain rfl := congrArg Prod.fst (Option.some.inj ran)
  exact ⟨rfl, rfl⟩

theorem yieldPcb_devices {contextIn : CtxPtr} (h : yieldPcb k contextIn = some (k', outcome)) :
    k'.ports = k.ports ∧ k'.iocbs = k.iocbs := by
  unfold yieldPcb at h
  dsimp only at h
  generalize original : (if k.contextOriginal = none then { k with contextOriginal := some contextIn } else k) = k₁ at h
  have same : k₁.ports = k.ports ∧ k₁.iocbs = k.iocbs := by
    rw [← original]
    split <;> exact ⟨rfl, rfl⟩
  rw [← same.1, ← same.2]
  split at h
  · obtain ⟨⟨procs, result⟩, _, h⟩ := Option.bind_eq_some_iff.mp h
    dsimp only at h
    split at h
    · obtain ⟨procs', _, h⟩ := Option.bind_eq_some_iff.mp h
      obtain rfl := congrArg Prod.fst (Option.some.inj h)
      exact ⟨rfl, rfl⟩
    · obtain rfl := congrArg Prod.fst (Option.some.inj h)
      exact ⟨rfl, rfl⟩
  · obtain rfl := congrArg Prod.fst (Option.some.inj h)
    exact ⟨rfl, rfl⟩

theorem exitPcb_devices {freedStack freedPcb : Int} (h : exitPcb k freedStack freedPcb = some (k', outcome)) :
    k'.ports = k.ports ∧ k'.iocbs = k.iocbs := by
  obtain ⟨⟨procs, result⟩, _, h⟩ := Option.bind_eq_some_iff.mp h
  dsimp only at h
  split at h
  · have kept := dispatch_devices h
    exact kept
  · split at h
    · obtain rfl := congrArg Prod.fst (Option.some.inj h)
      exact ⟨rfl, rfl⟩
    · obtain rfl := congrArg Prod.fst (Option.some.inj h)
      exact ⟨rfl, rfl⟩

/-- Whatever becomes of the process, the devices are as `serial_schedule_io` leaves them. -/
theorem requestIo_devices {contextIn : CtxPtr} {op : IoOp} (busy : k.pcbRunning ≠ 0)
    (h : requestIo k contextIn op a = some (k', outcome)) :
    ∃ k₁ error, serialScheduleIo k (k.procs.contexts contextIn).ebx (k.procs.contexts contextIn).ecx
        (k.procs.contexts contextIn).edx op a = some (k₁, error) ∧
      k'.ports = k₁.ports ∧ k'.iocbs = k₁.iocbs := by
  unfold requestIo at h
  rw [if_pos busy] at h
  obtain ⟨⟨k₁, error⟩, scheduled, h⟩ := Option.bind_eq_some_iff.mp h
  refine ⟨k₁, error, scheduled, ?_⟩
  dsimp only at h
  split at h
  · obtain rfl := congrArg Prod.fst (Option.some.inj h)
    exact ⟨rfl, rfl⟩
  · obtain ⟨procs, _, h⟩ := Option.bind_eq_some_iff.mp h
    split at h
    · have kept := dispatch_devices h
      exact kept
    · obtain rfl := congrArg Prod.fst (Option.some.inj h)
      exact ⟨rfl, rfl⟩

theorem schedule_accepted {dev buffer len : UInt32} {op : IoOp} {error : Option SerialError}
    (usable : Usable k dev buffer len a d) (h : serialScheduleIo k dev buffer len op a = some (k', error)) :
    error = none := by
  have ways := schedule_schedules k dev buffer len op a
  rw [h] at ways
  generalize outcome : some (k', error) = ran at ways
  cases ways with
  | refused e refused => exact (usable_accepted usable refused).elim
  | started _ _ _ =>
    obtain ⟨k₁, _, same⟩ := Option.map_eq_some_iff.mp outcome.symm
    exact (Prod.mk.inj same).2.symm
  | queued _ _ _ =>
    split at outcome
    · cases outcome
    · cases outcome
      rfl

/-- The memory for an iocb is in a queue afterwards. -/
theorem schedule_requestMem {dev buffer len : UInt32} {op : IoOp} {error : Option SerialError} (D : DevicesOk k pend)
    (fresh : a = 0 ∨ ∀ e, a ∉ pend e) (wanted : a ≠ 0 → ∃ d, Usable k dev buffer len a d)
    (h : serialScheduleIo k dev buffer len op a = some (k', error)) :
    ∃ pend', DevicesOk k' pend' ∧
      requestMem pend' = if a = 0 then requestMem pend else iocbBlock a ::ₘ requestMem pend := by
  have ways := schedule_ok D dev buffer len op fresh
  rw [h] at ways
  generalize outcome : some (k', error) = ran at ways
  cases ways with
  | refused e =>
    obtain ⟨rfl, rfl⟩ := Prod.mk.inj (Option.some.inj outcome)
    refine ⟨pend, D, ?_⟩
    rw [if_pos]
    by_contra real
    obtain ⟨d, usable⟩ := wanted real
    cases schedule_accepted usable h
  | queued d k₂ _ _ _ D' =>
    obtain ⟨rfl, rfl⟩ := Prod.mk.inj (Option.some.inj outcome)
    refine ⟨_, D', ?_⟩
    have real : a ≠ 0 := by
      intro null
      have inside : a ∈ update pend d (pend d ++ [a]) d := by
        rw [update_self]
        exact List.mem_append_right _ List.mem_cons_self
      exact (D'.port d).queue.chain.nonnull (null ▸ inside)
    rw [requestMem_snoc, if_neg real]

/-- What a trap does to the queues of requests. -/
theorem serve_requestMem {qs : Fin 4 → List Ptr} {trapped : Ptr → Option Trap} {r : Ptr} {contextIn : CtxPtr}
    {context : Context} {freedStack freedPcb : Int} (T : Trapping k live qs trapped r contextIn context)
    (D : DevicesOk k pend) (fresh : a = 0 ∨ ∀ e, a ∉ pend e) (wanted : a ≠ 0 → WantsIocb k context)
    (h : serveTrap k contextIn context.eax a freedStack freedPcb = some (k', outcome)) :
    ∃ pend', DevicesOk k' pend' ∧
      requestMem pend' = if a = 0 then requestMem pend else iocbBlock a ::ₘ requestMem pend := by
  have busy : k.pcbRunning ≠ 0 := running_real ⟨T.sound, T.pcbRunning, T.state, T.original⟩
  have requests : ∀ {op : IoOp}, requestIo k contextIn op a = some (k', outcome) → ∃ pend', DevicesOk k' pend' ∧
      requestMem pend' = if a = 0 then requestMem pend else iocbBlock a ::ₘ requestMem pend := by
    intro op h
    obtain ⟨k₁, error, scheduled, ports, iocbs⟩ := requestIo_devices busy h
    rw [T.saved] at scheduled
    have usable : a ≠ 0 → ∃ d, Usable k context.ebx context.ecx context.edx a d := by
      intro real
      obtain ⟨_, buffer, size, isOpen⟩ := wanted real
      obtain ⟨d, devno, isOpen⟩ := (Option.any_eq_true _ _).mp isOpen
      exact ⟨d, devno, isOpen, buffer, size, real⟩
    obtain ⟨pend', D', mem⟩ := schedule_requestMem D fresh usable scheduled
    exact ⟨pend', devicesOk_congr D' ports iocbs, mem⟩
  have quiet : a = 0 → k'.ports = k.ports ∧ k'.iocbs = k.iocbs → ∃ pend', DevicesOk k' pend' ∧
      requestMem pend' = if a = 0 then requestMem pend else iocbBlock a ::ₘ requestMem pend := by
    intro null same
    rw [if_pos null]
    exact ⟨pend, devicesOk_congr D same.1 same.2, rfl⟩
  unfold serveTrap at h
  by_cases read : context.eax = opRead
  · rw [if_pos read] at h
    exact requests h
  rw [if_neg read] at h
  by_cases write : context.eax = opWrite
  · rw [if_pos write] at h
    exact requests h
  rw [if_neg write] at h
  -- Only a request is given memory.
  have null : a = 0 := by
    by_contra real
    exact (wanted real).1.elim read write
  by_cases idle : context.eax = opIdle
  · rw [if_pos idle] at h
    exact quiet null (yieldPcb_devices h)
  rw [if_neg idle] at h
  by_cases exit : context.eax = opExit
  · rw [if_pos exit] at h
    exact quiet null (exitPcb_devices h)
  · rw [if_neg exit] at h
    obtain rfl := congrArg Prod.fst (Option.some.inj h)
    exact quiet null ⟨rfl, rfl⟩

/-! ### The rules -/

namespace Custody

variable (C : Custody ok hold)

include C

/-- Two blocks that are held are at different addresses. -/
theorem other {e f : Nat × Nat} (H : hold s (e ::ₘ held)) (member : f ∈ held) : f.1 ≠ e.1 := by
  have once := C.apart H
  rw [Multiset.map_cons, Multiset.nodup_cons] at once
  intro same
  exact once.1 (same ▸ Multiset.mem_map_of_mem Prod.fst member)

theorem apart_filter {e : Nat × Nat} (H : hold s (e ::ₘ held)) : (e ::ₘ held).filter (·.1 ≠ e.1) = held := by
  rw [Multiset.filter_cons_of_neg (p := fun f => f.1 ≠ e.1) held (not_not.mpr rfl)]
  apply Multiset.filter_eq_self.mpr
  intro f member
  exact C.other H member

theorem release {r : Int} {n : Nat} (H : hold s ((p.toNat, n) ::ₘ held)) (ran : sysFreeMem ok s p = some (t, r)) :
    hold t held := by
  have H' := C.free H ran
  by_cases freed : r = 0
  · rw [if_pos freed, C.apart_filter H] at H'
    exact H'
  · rw [if_neg freed] at H'
    exact C.refused H ran freed H'

/-- No process is there twice. -/
theorem once (H : hold s (processMem procs live + rest)) : live.Nodup := by
  have keys := C.apart H
  unfold processMem at keys
  rw [add_assoc, Multiset.map_add] at keys
  have pcbs := Multiset.nodup_of_le (Multiset.le_add_right _ _) keys
  rw [Multiset.map_coe, Multiset.coe_nodup, List.map_map] at pcbs
  exact pcbs.of_map _

theorem pcbFree {r : Int × Int} (H : hold s (pcbBlock p ::ₘ stackBlock procs p ::ₘ held))
    (ran : pcbFreeMem ok s procs p = some (t, r)) : hold t held := by
  obtain ⟨⟨s₁, freedStack⟩, stack, ran⟩ := Option.bind_eq_some_iff.mp ran
  rw [Multiset.cons_swap] at H
  have H₁ := C.release H stack
  dsimp only at ran
  by_cases freed : freedStack = 0
  · rw [if_pos freed] at ran
    obtain ⟨⟨s₂, freedPcb⟩, pcb, ran⟩ := Option.bind_eq_some_iff.mp ran
    obtain rfl := congrArg Prod.fst (Option.some.inj ran)
    exact C.release H₁ pcb
  · rw [if_neg freed] at ran
    obtain rfl := congrArg Prod.fst (Option.some.inj ran)
    exact C.refused H stack freed H₁

/-- A PCB that gets no stack is freed again. -/
theorem pcbAllocate {pcb stack : Ptr} (H : hold s held) (ran : pcbAllocateMem ok s = some (t, pcb, stack)) :
    hold t (if pcb = 0 ∨ stack = 0 then held
      else (pcb.toNat, pcbSize) ::ₘ (stack.toNat, pcbStackSz.toNat) ::ₘ held) := by
  obtain ⟨⟨s₁, p⟩, first, ran⟩ := Option.bind_eq_some_iff.mp ran
  have H₁ := C.grant H first
  dsimp only at ran
  by_cases null : p = 0
  · rw [if_neg (not_not.mpr null)] at ran
    obtain ⟨rfl, rest⟩ := Prod.mk.inj (Option.some.inj ran)
    obtain ⟨rfl, rfl⟩ := Prod.mk.inj rest
    rw [if_pos null] at H₁
    rw [if_pos (.inl rfl)]
    exact H₁
  rw [if_neg null] at H₁
  rw [if_pos null] at ran
  obtain ⟨⟨s₂, q⟩, second, ran⟩ := Option.bind_eq_some_iff.mp ran
  have H₂ := C.grant H₁ second
  dsimp only at ran
  by_cases none : q = 0
  · rw [if_neg (not_not.mpr none)] at ran
    obtain ⟨⟨s₃, result⟩, freed, ran⟩ := Option.bind_eq_some_iff.mp ran
    obtain ⟨rfl, rest⟩ := Prod.mk.inj (Option.some.inj ran)
    obtain ⟨rfl, rfl⟩ := Prod.mk.inj rest
    rw [if_pos none] at H₂
    rw [if_pos (.inr rfl)]
    exact C.release H₂ freed
  · rw [if_pos none] at ran
    obtain ⟨rfl, rest⟩ := Prod.mk.inj (Option.some.inj ran)
    obtain ⟨rfl, rfl⟩ := Prod.mk.inj rest
    rw [if_neg none, Multiset.cons_swap] at H₂
    rw [if_neg (not_or.mpr ⟨null, none⟩)]
    exact H₂

theorem pcbSetup {name : List UInt8} {pri : Nat} {pcb stack : Ptr} (H : hold s held)
    (ran : pcbSetupMem ok s procs name pri = some (t, pcb, stack)) :
    hold t (if pcb = 0 ∨ stack = 0 then held
      else (pcb.toNat, pcbSize) ::ₘ (stack.toNat, pcbStackSz.toNat) ::ₘ held) := by
  unfold pcbSetupMem at ran
  have refused : ∀ {u : Session × Ptr × Ptr}, some u = some (t, pcb, stack) → u = (s, 0, 0) →
      hold t (if pcb = 0 ∨ stack = 0 then held
        else (pcb.toNat, pcbSize) ::ₘ (stack.toNat, pcbStackSz.toNat) ::ₘ held) := by
    intro u same null
    obtain ⟨rfl, rest⟩ := Prod.mk.inj ((Option.some.inj same).symm.trans null)
    obtain ⟨rfl, rfl⟩ := Prod.mk.inj rest
    rw [if_pos (.inl rfl)]
    exact H
  split at ran
  · obtain ⟨found, _, ran⟩ := Option.bind_eq_some_iff.mp ran
    split at ran
    · exact C.pcbAllocate H ran
    · exact refused ran rfl
  · exact refused ran rfl

/-- `sys_check_io` frees the iocbs that it takes off their queues. -/
theorem checkDevices (ds : List (Fin 4)) {before ready : Bool} (D : DevicesOk k pend)
    (H : hold s (requestMem pend + rest)) (ran : System.checkDevices (ds.map serialDev) k before = some (k', ready))
    (mem : checkDevicesMem ok (ds.map serialDev) k s = some t) :
    ∃ pend', DevicesOk k' pend' ∧ hold t (requestMem pend' + rest) := by
  induction ds generalizing k s pend before with
  | nil =>
    cases ran
    cases mem
    exact ⟨pend, D, H⟩
  | cons d ds ih =>
    obtain ⟨⟨k₁, result⟩, checked, onward⟩ := Option.bind_eq_some_iff.mp ran
    have ways := check_ok D (serialDev d)
    have named := serialDevno_dev d
    have frees : (if result = 1 then (sysFreeMem ok s (headIocb k (serialDev d))).bind fun x =>
        checkDevicesMem ok (ds.map serialDev) k₁ x.1 else checkDevicesMem ok (ds.map serialDev) k₁ s) = some t := by
      obtain ⟨x, checked', mem⟩ := Option.bind_eq_some_iff.mp mem
      obtain rfl := Option.some.inj (checked.symm.trans checked')
      exact mem
    rw [checked] at ways
    generalize outcome : some (k₁, result) = checkedIo at ways
    cases ways with
    | quiet r idle =>
      obtain ⟨rfl, rfl⟩ := Prod.mk.inj (Option.some.inj outcome)
      obtain ⟨_, zero⟩ := idle d named
      rw [if_neg (by rw [zero]; decide)] at frees
      exact ih D H onward frees
    | asleep e a l devno isOpen event queue stuck => cases outcome
    | retired e a l procs k₂ devno isOpen event queue woken step D₁ =>
      obtain ⟨rfl, rfl⟩ := Prod.mk.inj (Option.some.inj outcome)
      obtain rfl : d = e := Option.some.inj (named.symm.trans devno)
      have head : headIocb k (serialDev d) = a := by
        have front := (D.port d).queue.chain.head
        rw [queue] at front
        unfold headIocb
        rw [named]
        exact front
      rw [if_pos rfl, head] at frees
      obtain ⟨⟨s₁, r⟩, freed, frees⟩ := Option.bind_eq_some_iff.mp frees
      rw [requestMem_tail queue, Multiset.cons_add] at H
      exact ih D₁ (C.release H freed) onward frees

theorem iocb {context : Context} (H : hold s held)
    (granted : sysScheduleIoMem ok k context s = some (t, a)) :
    (a ≠ 0 → WantsIocb k context) ∧ hold t (if a = 0 then held else iocbBlock a ::ₘ held) := by
  unfold sysScheduleIoMem at granted
  by_cases wants : WantsIocb k context
  · rw [if_pos wants] at granted
    exact ⟨fun _ => wants, C.grant H granted⟩
  · rw [if_neg wants] at granted
    obtain ⟨rfl, rfl⟩ := Prod.mk.inj (Option.some.inj granted)
    rw [if_pos rfl]
    exact ⟨fun real => (real rfl).elim, H⟩

/-- A process that exits gives its PCB and its stack back. -/
theorem exits {context : Context} {freed : Int × Int} (member : k.pcbRunning ∈ live)
    (H : hold s (processMem k.procs live + rest)) (ended : exitPcbMem ok k context s = some (t, freed)) :
    hold t (processMem k.procs (remaining context.eax live k.pcbRunning) + rest) := by
  unfold exitPcbMem at ended
  unfold remaining
  by_cases exit : context.eax = opExit
  · rw [if_pos exit] at ended
    rw [processMem_filter (C.once H) member, Multiset.cons_add, Multiset.cons_add] at H
    rw [if_pos exit]
    exact C.pcbFree H ended
  · rw [if_neg exit] at ended
    obtain rfl := congrArg Prod.fst (Option.some.inj ended)
    rw [if_neg exit]
    exact H

end Custody

variable {context : Context} {offset : UInt32} {freedStack freedPcb : Int}

theorem trap_kernel (moved : m.step (.trap context offset a freedStack freedPcb) = some m') :
    m.kernel.pcbRunning ≠ 0 ∧ ∃ outcome, sysCall (saveContext m.kernel context offset) (savedAt m.kernel offset) a
        freedStack freedPcb = some (m'.kernel, outcome) ∧
      m'.live = remaining context.eax m.live m.kernel.pcbRunning := by
  cases step_moves moved with
  | trap busy ran =>
    obtain ⟨⟨k', outcome⟩, called, same⟩ := Option.bind_eq_some_iff.mp ran
    rw [← Option.some.inj same, settle_kernel, settle_live]
    exact ⟨busy, outcome, called, rfl⟩

/-- A trap: `sys_check_io` frees iocbs, a request gets one, and EXIT frees the process. -/
theorem Custody.trap (C : Custody ok hold) {a₀ : Ptr} {freedStack₀ freedPcb₀ : Int} (stands : Standing m)
    (H : hold s (owned m + rest))
    (asked : answered ok m s (.trap context offset a₀ freedStack₀ freedPcb₀) =
      some (t, .trap context offset a freedStack freedPcb))
    (moved : m.step (.trap context offset a freedStack freedPcb) = some m') :
    (Action.trap context offset a freedStack freedPcb).Sane m ∧ hold t (owned m' + rest) := by
  obtain ⟨busy, outcome, called, live⟩ := trap_kernel moved
  obtain ⟨qs, R⟩ := standing_running stands busy
  obtain ⟨pend, D⟩ := R.sound.devices
  obtain ⟨k₁, qs₁, ready, checked, checkup, T⟩ := trapping_check R context offset
  obtain ⟨⟨k₂, _⟩, checked', asked⟩ := Option.bind_eq_some_iff.mp asked
  obtain ⟨s₁, freed, asked⟩ := Option.bind_eq_some_iff.mp asked
  obtain ⟨⟨s₂, alloc⟩, granted, asked⟩ := Option.bind_eq_some_iff.mp asked
  obtain ⟨⟨s₃, stack, pcb⟩, ended, asked⟩ := Option.bind_eq_some_iff.mp asked
  obtain ⟨rfl, same⟩ := Prod.mk.inj (Option.some.inj asked)
  injection same with _ _ sameAlloc sameStack samePcb
  subst sameAlloc sameStack samePcb
  obtain ⟨rfl, rfl⟩ := Prod.mk.inj (Option.some.inj (checked.symm.trans checked'))
  have D₀ : DevicesOk (saveContext m.kernel context offset) pend := devicesOk_congr D rfl rfl
  rw [owned_eq D, add_assoc, add_left_comm] at H
  obtain ⟨pend₁, D₁, H₁⟩ := C.checkDevices [0, 1, 2, 3] D₀ H checked freed
  obtain ⟨wanted, H₂⟩ := C.iocb H₁ granted
  have fresh : alloc = 0 ∨ ∀ e, alloc ∉ pend₁ e := by
    by_cases null : alloc = 0
    · exact .inl null
    rw [if_neg null] at H₂
    right
    intro e inside
    exact C.other H₂ (Multiset.mem_add.mpr (.inl (requestMem_mem inside))) rfl
  have sane : (Action.trap context offset alloc stack pcb).Sane m := by
    refine fresh.imp_right ?_
    intro absent result found d l queue
    obtain rfl := Option.some.inj (checked.symm.trans found)
    rw [requestQueue_ok D₁ d] at queue
    obtain rfl := Option.some.inj queue
    exact absent d
  rw [sysCall_eq checked] at called
  obtain ⟨pend', D', mem⟩ := serve_requestMem T (devicesOk_congr D₁ rfl rfl) fresh wanted called
  have H₃ : hold s₂ (requestMem pend' + (processMem m.kernel.procs m.live + rest)) := by
    rw [mem]
    by_cases null : alloc = 0
    · rw [if_pos null] at H₂ ⊢
      exact H₂
    · rw [if_neg null] at H₂ ⊢
      rw [Multiset.cons_add]
      exact H₂
  have member : k₁.pcbRunning ∈ m.live := by
    rw [checkup.pcbRunning]
    exact (R.sound.placed.members _).mpr (.inl List.mem_cons_self)
  have segments : ∀ q, (k₁.procs.pcbs q).pstackseg = (m.kernel.procs.pcbs q).pstackseg := checkup.segments
  rw [add_left_comm, ← processMem_congr fun q _ => segments q] at H₃
  have H₄ := C.exits member H₃ ended
  refine ⟨sane, ?_⟩
  have left : m'.live = remaining context.eax m.live k₁.pcbRunning := by
    rw [live, checkup.pcbRunning]
    rfl
  have kept : ∀ q ∈ m'.live, (m'.kernel.procs.pcbs q).pstackseg = (k₁.procs.pcbs q).pstackseg := by
    intro q inside
    have spared : ¬(Action.trap context offset alloc stack pcb).Touches m q := by
      rintro ⟨exit, running⟩
      rw [live, remaining, if_pos exit, running] at inside
      exact of_decide_eq_true (List.mem_filter.mp inside).2 rfl
    rw [fixed_pstackseg (step_fixed stands moved spared)]
    exact (segments q).symm
  rw [owned_eq D', processMem_congr kept, left, add_assoc]
  exact H₄

/-- Nothing changes hands in a step that moves no process and no request. -/
theorem owned_same (D : DevicesOk m.kernel pend) (D' : DevicesOk m'.kernel pend) (live : m'.live = m.live)
    (segments : ∀ q, (m'.kernel.procs.pcbs q).pstackseg = (m.kernel.procs.pcbs q).pstackseg) : owned m' = owned m := by
  rw [owned_eq D, owned_eq D', live, processMem_congr fun q _ => segments q]

theorem command_owned (D : DevicesOk m.kernel pend) (same : m' = m.withProcs procs)
    (segments : ∀ q, (procs.pcbs q).pstackseg = (m.kernel.procs.pcbs q).pstackseg) : owned m' = owned m := by
  subst same
  exact owned_same D (devicesOk_congr D rfl rfl) rfl segments

theorem Custody.poll (C : Custody ok hold) (stands : Standing m) (H : hold s (owned m + rest))
    (asked : sysCheckIoMem ok m.kernel s = some t) (moved : m.step .poll = some m') : hold t (owned m' + rest) := by
  obtain ⟨qs, S, _⟩ := standing_sound stands
  obtain ⟨pend, D⟩ := S.devices
  cases step_moves moved with
  | @poll result _ ran same =>
    obtain ⟨k', outcome⟩ := result
    have steady := waitIo_steady ran
    obtain ⟨⟨k₁, ready⟩, checked, ran⟩ := Option.bind_eq_some_iff.mp ran
    rw [owned_eq D, add_assoc, add_left_comm] at H
    obtain ⟨pend', D₁, H₁⟩ := C.checkDevices [0, 1, 2, 3] D H checked asked
    have D' : DevicesOk k' pend' := by
      dsimp only at ran
      split at ran
      · exact devicesOk_congr D₁ (dispatch_devices ran).1 (dispatch_devices ran).2
      · obtain rfl := congrArg Prod.fst (Option.some.inj ran)
        exact D₁
    have D'' : DevicesOk m'.kernel pend' := by
      rw [same, settle_kernel]
      exact D'
    rw [owned_eq D'', same, settle_kernel, settle_live, processMem_congr fun q _ => fixed_pstackseg (steady q),
      add_assoc, add_left_comm]
    exact H₁

theorem Custody.create (C : Custody ok hold) {name : List UInt8} {cls : ProcClassState} {pri : Nat}
    {entry : Option Entry} {pcb stack : Ptr} (stands : Standing m) (H : hold s (owned m + rest))
    (asked : pcbSetupMem ok s m.kernel.procs name pri = some (t, pcb, stack)) (given : ¬(pcb = 0 ∨ stack = 0))
    (moved : m.step (.create name cls pri entry pcb stack) = some m') :
    (Action.create name cls pri entry pcb stack).Sane m ∧ hold t (owned m' + rest) := by
  obtain ⟨qs, S, _⟩ := standing_sound stands
  obtain ⟨pend, D⟩ := S.devices
  have H₁ := C.pcbSetup H asked
  rw [if_neg given] at H₁
  rw [owned_eq D] at H₁
  cases step_moves moved with
  | @create _ _ _ _ _ _ procs _ ran same =>
    obtain ⟨_, content, others⟩ := createPcb_fixed ran
    have absent : pcb ∉ m.live := by
      intro inside
      have held : pcbBlock pcb ∈ (stack.toNat, pcbStackSz.toNat) ::ₘ
          (processMem m.kernel.procs m.live + requestMem pend + rest) := by
        refine Multiset.mem_cons_of_mem (Multiset.mem_add.mpr (.inl (Multiset.mem_add.mpr (.inl ?_))))
        exact Multiset.mem_add.mpr (.inl (Multiset.mem_coe.mpr (List.mem_map_of_mem inside)))
      exact C.other H₁ held rfl
    have apart : ∀ q ∈ m.live, (m.kernel.procs.pcbs q).pstackseg ≠ stack := by
      intro q inside same
      rw [Multiset.cons_swap] at H₁
      have held : stackBlock m.kernel.procs q ∈ (pcb.toNat, pcbSize) ::ₘ
          (processMem m.kernel.procs m.live + requestMem pend + rest) := by
        refine Multiset.mem_cons_of_mem (Multiset.mem_add.mpr (.inl (Multiset.mem_add.mpr (.inl ?_))))
        exact Multiset.mem_add.mpr (.inr (Multiset.mem_coe.mpr (List.mem_map_of_mem inside)))
      exact C.other H₁ held (congrArg UInt32.toNat same)
    refine ⟨⟨absent, apart⟩, ?_⟩
    have new : stackBlock procs pcb = (stack.toNat, pcbStackSz.toNat) := by
      unfold stackBlock
      rw [fixed_pstackseg content]
    have kept : ∀ q ∈ m.live, (procs.pcbs q).pstackseg = (m.kernel.procs.pcbs q).pstackseg := by
      intro q inside
      exact fixed_pstackseg (others q fun same => absent (same ▸ inside))
    have D' : DevicesOk m'.kernel pend := by
      rw [same]
      exact devicesOk_congr D rfl rfl
    rw [owned_eq D', same]
    show hold t (processMem procs (pcb :: m.live) + requestMem pend + rest)
    rw [processMem_cons, new, processMem_congr kept, Multiset.cons_add, Multiset.cons_add, Multiset.cons_add,
      Multiset.cons_add]
    exact H₁

theorem deleted_live {loose : List Ptr} {qs : Fin 4 → List Ptr} {trapped : Ptr → Option Trap} {name : List UInt8}
    (S : Sound k loose live qs trapped) (found : deleted k.procs name = some p) : p ∈ live := by
  obtain ⟨f, ran, which⟩ := pcbFind_queued S.placed.queued name
  rw [deleted_eq ran] at found
  split at found
  · rename_i real
    obtain rfl := Option.some.inj found
    exact (S.placed.members f).mpr (.inr (which.resolve_left real.1))
  · cases found

theorem Custody.delete (C : Custody ok hold) {name : List UInt8} {freedStack₀ freedPcb₀ : Int} (stands : Standing m)
    (H : hold s (owned m + rest))
    (asked : answered ok m s (.delete name freedStack₀ freedPcb₀) = some (t, .delete name freedStack freedPcb))
    (moved : m.step (.delete name freedStack freedPcb) = some m') : hold t (owned m' + rest) := by
  obtain ⟨qs, S, _⟩ := standing_sound stands
  obtain ⟨pend, D⟩ := S.devices
  cases step_moves moved with
  | @delete _ _ _ procs _ ran same =>
    have live : m'.live = m.live.filter (some · ≠ deleted m.kernel.procs name) := by
      rw [same]
    have procs' : m'.kernel.procs = procs := by
      rw [same]
      rfl
    have D' : DevicesOk m'.kernel pend := by
      rw [same]
      exact devicesOk_congr D rfl rfl
    have kept : ∀ q ∈ m'.live, (m'.kernel.procs.pcbs q).pstackseg = (m.kernel.procs.pcbs q).pstackseg := by
      intro q inside
      rw [live] at inside
      rw [procs']
      apply fixed_pstackseg
      apply delete_fixed ran
      intro found
      exact of_decide_eq_true (List.mem_filter.mp inside).2 found.symm
    rw [owned_eq D', processMem_congr kept, live]
    rw [owned_eq D] at H
    unfold answered at asked
    dsimp only at asked
    cases found : deleted m.kernel.procs name with
    | none =>
      rw [found] at asked
      obtain rfl := congrArg Prod.fst (Option.some.inj asked)
      rw [List.filter_eq_self.mpr fun q _ => decide_eq_true (Option.some_ne_none q)]
      exact H
    | some p =>
      rw [found] at asked
      obtain ⟨⟨u, freed⟩, freed, asked⟩ := Option.bind_eq_some_iff.mp asked
      obtain rfl := congrArg Prod.fst (Option.some.inj asked)
      have member : p ∈ m.live := deleted_live S found
      have left : m.live.filter (some · ≠ some p) = m.live.filter (· ≠ p) := by
        apply List.filter_congr
        intro q _
        simp
      rw [add_assoc] at H
      rw [processMem_filter (C.once H) member, Multiset.cons_add, Multiset.cons_add] at H
      rw [left, add_assoc]
      exact C.pcbFree H freed

theorem answered_trap {a₀ : Ptr} {freedStack₀ freedPcb₀ : Int}
    (answers : answered ok m s (.trap context offset a₀ freedStack₀ freedPcb₀) = some (t, act)) :
    ∃ a freedStack freedPcb, act = .trap context offset a freedStack freedPcb := by
  obtain ⟨_, _, answers⟩ := Option.bind_eq_some_iff.mp answers
  obtain ⟨_, _, answers⟩ := Option.bind_eq_some_iff.mp answers
  obtain ⟨_, _, answers⟩ := Option.bind_eq_some_iff.mp answers
  obtain ⟨_, _, answers⟩ := Option.bind_eq_some_iff.mp answers
  exact ⟨_, _, _, (Prod.mk.inj (Option.some.inj answers)).2.symm⟩

theorem answered_delete {name : List UInt8} {freedStack₀ freedPcb₀ : Int}
    (answers : answered ok m s (.delete name freedStack₀ freedPcb₀) = some (t, act)) :
    ∃ freedStack freedPcb, act = .delete name freedStack freedPcb := by
  unfold answered at answers
  dsimp only at answers
  split at answers
  · obtain ⟨_, _, answers⟩ := Option.bind_eq_some_iff.mp answers
    exact ⟨_, _, (Prod.mk.inj (Option.some.inj answers)).2.symm⟩
  · exact ⟨_, _, (Prod.mk.inj (Option.some.inj answers)).2.symm⟩

/-- One step of the kernel over its heap is a lawful one, and what it allocates and frees is what the kernel
comes to hold and gives up. -/
theorem Custody.kernel (C : Custody ok hold) {h : Host} {asked : Action} (stands : Standing h.machine)
    (H : hold s (owned h.machine + rest)) (lawful : (Event.kernel asked).Lawful h)
    (answers : answered ok h.machine s asked = some (t, act)) (given : ¬act.Fails)
    (moved : h.machine.step act = some m') : Lawful h.machine act ∧ hold t (owned m' + rest) := by
  obtain ⟨qs, S, _⟩ := standing_sound stands
  obtain ⟨pend, D⟩ := S.devices
  cases asked with
  | trap context offset alloc freedStack freedPcb =>
    obtain ⟨_, _, _, rfl⟩ := answered_trap answers
    obtain ⟨sane, H'⟩ := C.trap stands H answers moved
    exact ⟨⟨sane, trivial⟩, H'⟩
  | poll =>
    obtain ⟨u, asked, same⟩ := Option.bind_eq_some_iff.mp answers
    obtain ⟨rfl, rfl⟩ := Prod.mk.inj (Option.some.inj same)
    exact ⟨⟨trivial, trivial⟩, C.poll stands H asked moved⟩
  | create name cls pri entry pcb stack =>
    obtain ⟨⟨u, pcb, stack⟩, asked, same⟩ := Option.bind_eq_some_iff.mp answers
    obtain ⟨rfl, rfl⟩ := Prod.mk.inj (Option.some.inj same)
    obtain ⟨sane, H'⟩ := C.create stands H asked given moved
    exact ⟨⟨sane, trivial⟩, H'⟩
  | delete name freedStack freedPcb =>
    obtain ⟨_, _, rfl⟩ := answered_delete answers
    exact ⟨⟨trivial, lawful⟩, C.delete stands H answers moved⟩
  | interrupt d i =>
    obtain ⟨rfl, rfl⟩ := Prod.mk.inj (Option.some.inj answers)
    refine ⟨⟨trivial, trivial⟩, ?_⟩
    cases step_moves moved with
    | interrupt ran same =>
      obtain ⟨only, D'⟩ := interrupt_devices D ran
      have moved : DevicesOk m'.kernel pend := by
        rw [same]
        exact D'
      rw [owned_same D moved (by rw [same]) fun q => by rw [same, only.procs]]
      exact H
  | compute contexts buffers =>
    obtain ⟨rfl, rfl⟩ := Prod.mk.inj (Option.some.inj answers)
    refine ⟨⟨trivial, trivial⟩, ?_⟩
    cases step_moves moved with
    | compute _ same =>
      subst same
      exact H
  | suspend name =>
    obtain ⟨rfl, rfl⟩ := Prod.mk.inj (Option.some.inj answers)
    refine ⟨⟨trivial, trivial⟩, ?_⟩
    cases step_moves moved with
    | suspend _ ran same =>
      rw [command_owned D same fun q => suspend_pstackseg ran]
      exact H
  | resume name =>
    obtain ⟨rfl, rfl⟩ := Prod.mk.inj (Option.some.inj answers)
    refine ⟨⟨trivial, trivial⟩, ?_⟩
    cases step_moves moved with
    | resume _ ran same =>
      rw [command_owned D same fun q => resume_pstackseg ran]
      exact H
  | setPriority pcb pri =>
    obtain ⟨rfl, rfl⟩ := Prod.mk.inj (Option.some.inj answers)
    refine ⟨⟨lawful, trivial⟩, ?_⟩
    cases step_moves moved with
    | setPriority _ ran same =>
      rw [command_owned D same fun q => setPriority_pstackseg ran]
      exact H

end Mpx.System

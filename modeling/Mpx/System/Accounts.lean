import Mpx.System.Ownership

/-! # Runs of the kernel with its heap

The kernel over a heap that `initialize_heap` made: the addresses it is given are fresh because the heap
hands no block out twice, so each of its runs is a run of the machine, and the memory of processes and
requests lies apart. -/

namespace Mpx.System
open Function Library.Holdings Library.Transition Mpx.Process Mpx.Device
open Mpx.Heap (Session Call Held RowStep NoneLost Block)

variable {ok : Session → Call → Prop} [∀ s c, Decidable (ok s c)] {hold : Session → Multiset (Nat × Nat) → Prop}
  {s t : Session} {h h' : Host} {e : Event} {base limit size n : Nat} {bs : List Block} {p : Ptr}

/-! ### Steps -/

theorem Host.step_kernel {a : Action} (moved : h.step ok (.kernel a) = some h') :
    ∃ act, answered ok h.machine h.session a = some (h'.session, act) ∧ h'.clients = h.clients ∧
      (act.Fails ∧ h.machine.kernel.pcbRunning ≠ 0 ∧ h'.machine = h.machine ∨
        ¬act.Fails ∧ h.machine.step act = some h'.machine) := by
  obtain ⟨⟨u, act⟩, answers, moved⟩ := Option.bind_eq_some_iff.mp moved
  dsimp only at moved
  by_cases fails : act.Fails
  · rw [if_pos fails] at moved
    by_cases idle : h.machine.kernel.pcbRunning = 0
    · rw [if_pos idle] at moved
      cases moved
    · rw [if_neg idle] at moved
      obtain rfl := Option.some.inj moved
      exact ⟨act, answers, rfl, .inl ⟨fails, idle, rfl⟩⟩
  · rw [if_neg fails] at moved
    obtain ⟨m, ran, same⟩ := Option.bind_eq_some_iff.mp moved
    obtain rfl := Option.some.inj same
    exact ⟨act, answers, rfl, .inr ⟨fails, ran⟩⟩

/-- A step that gets no memory for its process changes nothing. -/
theorem Custody.fails {act : Action} {a : Action} {held : Multiset (Nat × Nat)} {m : Machine} (C : Custody ok hold)
    (H : hold s held) (answers : answered ok m s a = some (t, act)) (fails : act.Fails) : hold t held := by
  cases a with
  | create name cls pri entry pcb stack =>
    obtain ⟨⟨u, pcb, stack⟩, asked, same⟩ := Option.bind_eq_some_iff.mp answers
    obtain ⟨rfl, rfl⟩ := Prod.mk.inj (Option.some.inj same)
    have null : pcb = 0 ∨ stack = 0 := fails
    have H' := C.pcbSetup H asked
    rw [if_pos null] at H'
    exact H'
  | trap context offset alloc freedStack freedPcb =>
    obtain ⟨_, _, _, rfl⟩ := answered_trap answers
    exact fails.elim
  | delete name freedStack freedPcb =>
    obtain ⟨_, _, rfl⟩ := answered_delete answers
    exact fails.elim
  | poll =>
    obtain ⟨u, asked, same⟩ := Option.bind_eq_some_iff.mp answers
    obtain ⟨rfl, rfl⟩ := Prod.mk.inj (Option.some.inj same)
    exact fails.elim
  | interrupt d i =>
    obtain ⟨rfl, rfl⟩ := Prod.mk.inj (Option.some.inj answers)
    exact fails.elim
  | compute contexts buffers =>
    obtain ⟨rfl, rfl⟩ := Prod.mk.inj (Option.some.inj answers)
    exact fails.elim
  | suspend name =>
    obtain ⟨rfl, rfl⟩ := Prod.mk.inj (Option.some.inj answers)
    exact fails.elim
  | resume name =>
    obtain ⟨rfl, rfl⟩ := Prod.mk.inj (Option.some.inj answers)
    exact fails.elim
  | setPriority pcb pri =>
    obtain ⟨rfl, rfl⟩ := Prod.mk.inj (Option.some.inj answers)
    exact fails.elim

/-- A step of the host is a lawful step of the machine or none at all. -/
theorem Custody.step (C : Custody ok hold) (stands : Standing h.machine) (H : hold h.session h.held)
    (lawful : e.Lawful h) (moved : h.step ok e = some h') :
    (h'.machine = h.machine ∨ ∃ a, Lawful h.machine a ∧ h.machine.step a = some h'.machine) ∧
      hold h'.session h'.held := by
  cases e with
  | kernel a =>
    obtain ⟨act, answers, clients, ⟨fails, _, same⟩ | ⟨given, ran⟩⟩ := Host.step_kernel moved
    · refine ⟨.inl same, ?_⟩
      unfold Host.held
      rw [same, clients]
      exact C.fails H answers fails
    · obtain ⟨lawful, H'⟩ := C.kernel stands H lawful answers given ran
      refine ⟨.inr ⟨act, lawful, ran⟩, ?_⟩
      unfold Host.held
      rw [clients]
      exact H'
  | allocate size =>
    unfold Host.step at moved
    dsimp only at moved
    split at moved
    · cases moved
    obtain ⟨⟨u, p⟩, granted, same⟩ := Option.bind_eq_some_iff.mp moved
    obtain rfl := Option.some.inj same
    refine ⟨.inl rfl, ?_⟩
    have H' := C.grant H granted
    show hold u (owned h.machine + ↑(if p = 0 then h.clients else (p.toNat, size) :: h.clients))
    by_cases null : p = 0
    · rw [if_pos null] at H' ⊢
      exact H'
    · rw [if_neg null] at H' ⊢
      rw [← Multiset.cons_coe, Multiset.add_cons]
      exact H'
  | free ptr =>
    unfold Host.step at moved
    dsimp only at moved
    split at moved
    · cases moved
    obtain ⟨⟨u, result⟩, freed, same⟩ := Option.bind_eq_some_iff.mp moved
    obtain rfl := Option.some.inj same
    refine ⟨.inl rfl, ?_⟩
    have H' := C.free H freed
    show hold u (owned h.machine + ↑(if result = 0 then h.clients.filter (·.1 ≠ ptr.toNat) else h.clients))
    by_cases done : result = 0
    · rw [if_pos done] at H' ⊢
      have kept : (owned h.machine).filter (·.1 ≠ ptr.toNat) = owned h.machine := by
        apply Multiset.filter_eq_self.mpr
        intro f member same
        exact lawful (same ▸ Multiset.mem_map_of_mem Prod.fst member)
      rw [Host.held, Multiset.filter_add, kept, Multiset.filter_coe] at H'
      exact H'
    · rw [if_neg done] at H' ⊢
      exact H'

/-! ### Boot -/

theorem checkDevices_idle {k k' : Kernel} {devs : List UInt32} {before ready : Bool}
    (D : DevicesOk k fun _ => []) (ran : checkDevices devs k before = some (k', ready)) : k' = k := by
  induction devs generalizing before with
  | nil =>
    cases ran
    rfl
  | cons dev devs ih =>
    obtain ⟨⟨k₁, result⟩, checked, onward⟩ := Option.bind_eq_some_iff.mp ran
    have ways := check_ok D dev
    rw [checked] at ways
    generalize outcome : some (k₁, result) = checkedIo at ways
    cases ways with
    | quiet r idle =>
      obtain ⟨rfl, rfl⟩ := Prod.mk.inj (Option.some.inj outcome)
      exact ih onward
    | asleep e a l devno isOpen event queue stuck => cases outcome
    | retired e a l procs k₂ devno isOpen event queue woken step D₁ => cases queue

theorem boot_given {k : Kernel} {b : BootInput} {m : Machine} (booted : boot k b = some m) :
    ¬(b.comhandPcb = 0 ∨ b.comhandStack = 0) ∧ ¬(b.idlePcb = 0 ∨ b.idleStack = 0) := by
  obtain ⟨procs₁, made, booted⟩ := Option.bind_eq_some_iff.mp booted
  obtain ⟨procs₂, made', booted⟩ := Option.bind_eq_some_iff.mp booted
  exact ⟨not_or.mpr (createPcb_fixed made).1, not_or.mpr (createPcb_fixed made').1⟩

/-- What `kmain` leaves: the two processes that it made, and no request. -/
theorem boot_owned {k : Kernel} {b : BootInput} {m : Machine} (U : Unbooted k) (idle : b.context.eax = opIdle)
    (apart : b.comhandPcb ≠ b.idlePcb) (booted : boot k b = some m) :
    owned m = {(b.idlePcb.toNat, pcbSize), (b.idleStack.toNat, pcbStackSz.toNat),
      (b.comhandPcb.toNat, pcbSize), (b.comhandStack.toNat, pcbStackSz.toNat)} := by
  obtain ⟨live, comhand, idleFixed⟩ := boot_fixed idle apart booted
  have quiet : DevicesOk m.kernel fun _ => [] := by
    obtain ⟨procs₁, _, booted⟩ := Option.bind_eq_some_iff.mp booted
    obtain ⟨procs₂, _, booted⟩ := Option.bind_eq_some_iff.mp booted
    obtain ⟨⟨k', outcome⟩, called, same⟩ := Option.bind_eq_some_iff.mp booted
    have D : DevicesOk { k with procs := procs₂.setContext ⟨0, b.offset⟩ b.context } fun _ => [] :=
      idle_ok U.ports
    obtain ⟨⟨k₁, ready⟩, checked, called⟩ := Option.bind_eq_some_iff.mp called
    obtain rfl := checkDevices_idle D checked
    have code : ((procs₂.setContext ⟨0, b.offset⟩ b.context).contexts ⟨0, b.offset⟩).eax = opIdle :=
      (congrArg Context.eax (update_self ..)).trans idle
    dsimp only at called
    rw [code, if_neg (by decide), if_neg (by decide), if_pos rfl] at called
    obtain ⟨ports, iocbs⟩ := yieldPcb_devices called
    rw [← Option.some.inj same, settle_kernel]
    exact devicesOk_congr D ports iocbs
  have comhandStack : stackBlock m.kernel.procs b.comhandPcb = (b.comhandStack.toNat, pcbStackSz.toNat) := by
    unfold stackBlock
    rw [fixed_pstackseg comhand]
  have idleStack : stackBlock m.kernel.procs b.idlePcb = (b.idleStack.toNat, pcbStackSz.toNat) := by
    unfold stackBlock
    rw [fixed_pstackseg idleFixed]
  have none : requestMem (fun _ => []) = 0 := by
    unfold requestMem
    exact Finset.sum_eq_zero fun d _ => rfl
  rw [owned_eq quiet, none, add_zero, live, processMem_cons, processMem_cons, idleStack, comhandStack]
  rfl

/-- The four blocks of the boot, and nothing else, are held when it is done. -/
theorem Custody.boot (C : Custody ok hold) (starts : ∀ s, Heap.Starts base size s → hold s 0)
    (booted : h.Booted ok base size) : System.Booted h.machine ∧ hold h.session h.held := by
  obtain ⟨k, b, s, U, begins, idle, booted⟩ := booted
  obtain ⟨⟨s₁, comhandPcb, comhandStack⟩, first, booted⟩ := Option.bind_eq_some_iff.mp booted
  obtain ⟨⟨s₂, idlePcb, idleStack⟩, second, booted⟩ := Option.bind_eq_some_iff.mp booted
  obtain ⟨m, made, same⟩ := Option.bind_eq_some_iff.mp booted
  obtain rfl := Option.some.inj same
  obtain ⟨given, given'⟩ := boot_given made
  have H₁ := C.pcbAllocate (starts s begins) first
  rw [if_neg given] at H₁
  have H₂ := C.pcbAllocate H₁ second
  rw [if_neg given'] at H₂
  have pcbs : comhandPcb ≠ idlePcb := fun same =>
    C.other H₂ (f := (comhandPcb.toNat, pcbSize)) (by simp) (congrArg UInt32.toNat same)
  have segments : comhandStack ≠ idleStack := by
    intro same
    rw [Multiset.cons_swap] at H₂
    exact C.other H₂ (f := (comhandStack.toNat, pcbStackSz.toNat)) (by simp) (congrArg UInt32.toNat same)
  generalize answered : ({ b with
    comhandPcb := comhandPcb, comhandStack := comhandStack, idlePcb := idlePcb, idleStack := idleStack } : BootInput) =
      asked at made
  have owns := boot_owned U (answered ▸ idle) (answered ▸ pcbs) made
  refine ⟨⟨k, asked, U, answered ▸ ⟨pcbs, segments, idle⟩, made⟩, ?_⟩
  unfold Host.held
  rw [owns, ← answered, Multiset.coe_nil, add_zero]
  exact H₂

/-- A run of the kernel with its heap is a run of the machine, and the account is right at its end. -/
theorem Custody.run (C : Custody ok hold) (starts : ∀ s, Heap.Starts base size s → hold s 0)
    (reached : Reaches (Host.Booted ok base size) (fun h e => e.Lawful h) (fun h e => h.step ok e) h) :
    Reached h.machine ∧ hold h.session h.held := by
  refine reaches_invariant (P := fun h : Host => Reached h.machine ∧ hold h.session h.held) ?_ ?_ reached
  · intro h booted
    obtain ⟨begins, H⟩ := C.boot starts booted
    exact ⟨.start begins, H⟩
  · intro h e h' inv lawful moved
    obtain ⟨reached, H⟩ := inv
    obtain ⟨same | ⟨a, lawful, ran⟩, H'⟩ := C.step (reached_standing reached) H lawful moved
    · exact ⟨same ▸ reached, H'⟩
    · exact ⟨.step reached lawful ran, H'⟩

/-! ### The heap keeps the account -/

/-- The calls at which a fit is linked as `allocate_memory` assumes. -/
def FitCall (s : Session) (c : Call) : Prop := c.Valid ∧ c.FitLinked s.heap

instance (s : Session) (c : Call) : Decidable (FitCall s c) := inferInstanceAs (Decidable (_ ∧ _))

/-- A call of the kernel is a call of the session. -/
theorem allocateMem_held (held : Held base limit s bs) (admits : ok s (.allocate n) → FitCall s (.allocate n))
    (ran : sysAllocMem ok s n = some (t, p)) :
    ok s (.allocate n) ∧ ∃ bs', Held base limit t bs' ∧ RowStep s.heap (.allocate n) bs bs' ∧
      t.live = if p = 0 then s.live else (p.toNat, n) :: s.live := by
  unfold sysAllocMem at ran
  by_cases admitted : ok s (.allocate n)
  swap
  · rw [if_neg admitted] at ran
    cases ran
  rw [if_pos admitted] at ran
  obtain ⟨valid, linked⟩ := admits admitted
  obtain ⟨t', bs', moved, row, held'⟩ := Heap.step_held held valid linked
  obtain ⟨⟨heap, ptr⟩, granted, same⟩ := Option.bind_eq_some_iff.mp moved
  obtain ⟨⟨heap', ptr'⟩, granted', ran⟩ := Option.bind_eq_some_iff.mp ran
  obtain ⟨rfl, rfl⟩ := Prod.mk.inj (Option.some.inj (granted.symm.trans granted'))
  obtain ⟨rfl, rfl⟩ := Prod.mk.inj (Option.some.inj ran)
  obtain rfl := Option.some.inj same
  refine ⟨admitted, bs', held', row, ?_⟩
  by_cases null : ptr = 0
  · subst null
    rfl
  · have small : ptr < 2 ^ 32 := by
      have tracks := held'.tracks
      dsimp only at tracks
      rw [if_neg null] at tracks
      obtain ⟨b, member, _, at_b, _⟩ := tracks.backed (ptr, n) List.mem_cons_self
      have bound := held'.layout.payload b.addr (List.mem_map_of_mem member)
      omega
    have word : (UInt32.ofNat ptr).toNat = ptr := UInt32.toNat_ofNat_of_lt' small
    have real : UInt32.ofNat ptr ≠ 0 := by
      intro zero
      rw [zero] at word
      exact null word.symm
    dsimp only
    rw [if_neg null, if_neg real, word]

theorem freeMem_held {r : Int} (held : Held base limit s bs) (ran : sysFreeMem ok s p = some (t, r)) :
    ok s (.free p.toNat) ∧ ∃ bs', Held base limit t bs' ∧ RowStep s.heap (.free p.toNat) bs bs' ∧
      t.live = if r = 0 then s.live.filter (·.1 ≠ p.toNat) else s.live := by
  unfold sysFreeMem at ran
  by_cases admitted : ok s (.free p.toNat)
  swap
  · rw [if_neg admitted] at ran
    cases ran
  rw [if_pos admitted] at ran
  obtain ⟨t', bs', moved, row, held'⟩ := Heap.step_held (c := .free p.toNat) held p.toNat_lt trivial
  obtain ⟨⟨heap, result⟩, freed, same⟩ := Option.bind_eq_some_iff.mp moved
  obtain ⟨⟨heap', result'⟩, freed', ran⟩ := Option.bind_eq_some_iff.mp ran
  obtain ⟨rfl, rfl⟩ := Prod.mk.inj (Option.some.inj (freed.symm.trans freed'))
  obtain ⟨rfl, rfl⟩ := Prod.mk.inj (Option.some.inj ran)
  obtain rfl := Option.some.inj same
  exact ⟨admitted, bs', held', row, rfl⟩

/-- Everything that is held is handed out. -/
def Covered (base size : Nat) (s : Session) (held : Multiset (Nat × Nat)) : Prop :=
  (∃ bs, Held base (base + size) s bs) ∧ Covers s.live held

theorem covered_custody : Custody FitCall (Covered base size) where
  grant := by
    intro s t n p held inv ran
    obtain ⟨⟨bs, H⟩, covers⟩ := inv
    obtain ⟨_, bs', H', _, live⟩ := allocateMem_held H id ran
    refine ⟨⟨bs', H'⟩, ?_⟩
    rw [live]
    by_cases null : p = 0
    · rw [if_pos null, if_pos null]
      exact covers
    · rw [if_neg null, if_neg null]
      exact covers_grant covers
  free := by
    intro s t r p held inv ran
    obtain ⟨⟨bs, H⟩, covers⟩ := inv
    obtain ⟨_, bs', H', _, live⟩ := freeMem_held H ran
    refine ⟨⟨bs', H'⟩, ?_⟩
    rw [live]
    by_cases freed : r = 0
    · rw [if_pos freed, if_pos freed]
      unfold Covers
      rw [← Multiset.filter_coe]
      exact Multiset.filter_le_filter _ covers
    · rw [if_neg freed, if_neg freed]
      exact covers
  refused := fun _ _ _ inv => ⟨inv.1, covers_drop inv.2⟩
  apart := by
    intro s held inv
    obtain ⟨⟨bs, H⟩, covers⟩ := inv
    have keys := Multiset.map_le_map (f := Prod.fst) covers
    rw [Multiset.map_coe] at keys
    exact Multiset.nodup_of_le keys (Multiset.coe_nodup.mpr H.tracks.distinct)

/-- The memory of every process, of every request and of every client lies in the heap, apart from all the
other. -/
theorem memory_apart
    (reached : Reaches (Host.Booted FitCall base size) (fun h e => e.Lawful h) (fun h e => h.step FitCall e) h) :
    Reached h.machine ∧ (∀ e ∈ h.held, base ≤ e.1 ∧ e.1 + e.2 ≤ base + size) ∧
      h.held.Pairwise fun a b => a.1 ≠ b.1 ∧ (a.1 + a.2 ≤ b.1 ∨ b.1 + b.2 ≤ a.1) := by
  have starts : ∀ s, Heap.Starts base size s → Covered base size s 0 := by
    intro s begins
    exact ⟨⟨_, Heap.starts_held begins⟩, Multiset.zero_le _⟩
  obtain ⟨machine, ⟨bs, H⟩, covers⟩ := covered_custody.run starts reached
  obtain ⟨inside, apart⟩ := Heap.held_exclusive H
  refine ⟨machine, fun e member => inside e (covers_mem covers member), ?_⟩
  apply covers_pairwise _ covers apart
  intro a b related
  exact ⟨related.1.symm, related.2.symm⟩

/-- A boot with one open port over a heap, and what follows. -/
def hosted (ok : Session → Call → Prop) [∀ s c, Decidable (ok s c)] (base size : Nat) (events : List Event) :
    Option Host :=
  (Host.boot ok oneportKernel oneportBoot (Heap.startSession base size)).bind fun h =>
    Library.Transition.run (fun h e => e.Lawful h) (fun h e => h.step ok e) h events

theorem hosted_reaches {events : List Event} (positive : 0 < base) (bound : base + size ≤ 2 ^ 32)
    (room : Heap.mcbSize < size) (ran : hosted ok base size events = some h) :
    Reaches (Host.Booted ok base size) (fun h e => e.Lawful h) (fun h e => h.step ok e) h := by
  obtain ⟨h₀, booted, ran⟩ := Option.bind_eq_some_iff.mp ran
  have start : h₀.Booted ok base size :=
    ⟨oneportKernel, oneportBoot, _, bootKernel_unbooted _, Heap.startSession_starts base size positive bound room, rfl,
      booted⟩
  exact run_reaches (.start start) ran

/-- A process is created, `comhand` takes 30 bytes for itself, and then it reads. -/
theorem memory_apart_example : ∃ h : Host, h.machine.live = [12508, 8308, 4108] ∧ h.clients = [(16708, 30)] ∧
    h.held.Pairwise fun a b => a.1 ≠ b.1 ∧ (a.1 + a.2 ≤ b.1 ∨ b.1 + b.2 ≤ a.1) := by
  have ran : (hosted FitCall 4096 20000 [.kernel (.create [112] .user 5 none 0 0), .allocate 30,
      .kernel (.trap (request opRead com1 9000 4) 9 0 0 0)]).map (fun h => (h.machine.live, h.clients)) =
        some ([12508, 8308, 4108], [(16708, 30)]) := by
    decide +kernel
  obtain ⟨h, ran, seen⟩ := Option.map_eq_some_iff.mp ran
  have reached := hosted_reaches (by decide) (by decide) (by decide) ran
  exact ⟨h, congrArg Prod.fst seen, congrArg Prod.snd seen, (memory_apart reached).2.2⟩

/-! ### Nothing is lost -/

/-- A property of the row of blocks under which none of them is lost, and which the calls that are admitted keep. -/
structure Regular (ok : Session → Call → Prop) (P : List Block → Prop) : Prop where
  admits : ∀ s c, ok s c → FitCall s c
  begins : ∀ b : Block, b.kind = .free → P [b]
  keeps : ∀ {base limit s bs c bs'}, Held base limit s bs → RowStep s.heap c bs bs' → ok s c → P bs → P bs'
  found : ∀ {bs}, P bs → NoneLost bs

/-- What is handed out is what is held. -/
def Exact (P : List Block → Prop) (base size : Nat) (s : Session) (held : Multiset (Nat × Nat)) : Prop :=
  (∃ bs, Held base (base + size) s bs ∧ P bs) ∧ (s.live : Multiset (Nat × Nat)) = held

variable {P : List Block → Prop}

theorem exact_custody (R : Regular ok P) : Custody ok (Exact P base size) where
  grant := by
    intro s t n p held inv ran
    obtain ⟨⟨bs, H, regular⟩, exact⟩ := inv
    obtain ⟨admitted, bs', H', row, live⟩ := allocateMem_held H (R.admits _ _) ran
    refine ⟨⟨bs', H', R.keeps H row admitted regular⟩, ?_⟩
    rw [live, ← exact]
    split <;> rfl
  free := by
    intro s t r p held inv ran
    obtain ⟨⟨bs, H, regular⟩, exact⟩ := inv
    obtain ⟨admitted, bs', H', row, live⟩ := freeMem_held H ran
    refine ⟨⟨bs', H', R.keeps H row admitted regular⟩, ?_⟩
    rw [live, ← exact]
    split
    · exact (Multiset.filter_coe _ _).symm
    · rfl
  refused := by
    intro s t r p n held e rest inv ran refused _
    obtain ⟨⟨bs, H, regular⟩, exact⟩ := inv
    have live : p.toNat ∈ s.live.map Prod.fst := by
      have member : (p.toNat, n) ∈ (s.live : Multiset (Nat × Nat)) := exact ▸ Multiset.mem_cons_self _ _
      exact List.mem_map_of_mem (Multiset.mem_coe.mp member)
    obtain ⟨heap, freed⟩ := (Heap.held_freeExact H (R.found regular) p.toNat p.toNat_lt).1 live
    unfold sysFreeMem at ran
    split at ran
    · rw [freed] at ran
      exact (refused (congrArg Prod.snd (Option.some.inj ran)).symm).elim
    · cases ran
  apart := by
    intro s held inv
    obtain ⟨⟨bs, H, _⟩, rfl⟩ := inv
    exact Multiset.coe_nodup.mpr H.tracks.distinct

omit [∀ s c, Decidable (ok s c)] in
theorem exact_starts (R : Regular ok P) (starts : Heap.Starts base size s) : Exact P base size s 0 := by
  refine ⟨⟨_, Heap.starts_held starts, R.begins _ rfl⟩, ?_⟩
  rw [starts.live]
  rfl

/-- The calls at which, besides, the block to hand out does not lie in front of all allocated blocks. -/
def BehindCall (s : Session) (c : Call) : Prop := FitCall s c ∧ c.Behind s.heap

instance (s : Session) (c : Call) : Decidable (BehindCall s c) := inferInstanceAs (Decidable (_ ∧ _))

theorem behind_regular : Regular BehindCall NoneLost where
  admits := fun _ _ admitted => admitted.1
  begins := by
    intro b free c member lost
    rw [List.mem_singleton.mp member, free] at lost
    cases lost
  keeps := fun H row admitted none => Heap.rowStep_noneLost H.layout row admitted.2 none
  found := id

/-- Nothing leaks and nothing is freed twice: what the heap has handed out is, block for block, what processes,
requests and clients hold. -/
theorem memory_exact
    (reached : Reaches (Host.Booted BehindCall base size) (fun h e => e.Lawful h) (fun h e => h.step BehindCall e) h) :
    Reached h.machine ∧ (h.session.live : Multiset (Nat × Nat)) = h.held ∧ Heap.FreeExact h.session := by
  obtain ⟨machine, ⟨bs, H, none⟩, exact⟩ :=
    (exact_custody behind_regular).run (fun s starts => exact_starts behind_regular starts) reached
  exact ⟨machine, exact, Heap.held_freeExact H none⟩

/-- `comhand` reads a line and exits; `idle` is left with its PCB and its stack. -/
theorem memory_exact_example : ∃ h : Host, h.session.live = [(8400, 4096), (8308, 80)] ∧
    (h.session.live : Multiset (Nat × Nat)) = h.held := by
  have ran : (hosted BehindCall 4096 20000 [.kernel (.trap (request opRead com1 9000 4) 9 0 0 0),
      .kernel (.interrupt 0 (.input 97)), .kernel (.interrupt 0 (.input carriageReturn)),
      .kernel (.trap (request opIdle 0 0 0) 9 0 0 0), .kernel (.trap (request opExit 0 0 0) 9 0 0 0)]).map
        (·.session.live) = some [(8400, 4096), (8308, 80)] := by
    decide +kernel
  obtain ⟨h, ran, live⟩ := Option.map_eq_some_iff.mp ran
  have reached := hosted_reaches (by decide) (by decide) (by decide) ran
  exact ⟨h, live, (memory_exact reached).2.1⟩

/-- The calls at which, besides, a block is given back where the free list reaches it. -/
def ReachedCall (s : Session) (c : Call) : Prop := BehindCall s c ∧ c.Reached s.heap

instance (s : Session) (c : Call) : Decidable (ReachedCall s c) := inferInstanceAs (Decidable (_ ∧ _))

theorem reached_regular : Regular ReachedCall Heap.Sound where
  admits := fun _ _ admitted => admitted.1.1
  begins := by
    intro b free
    refine ⟨?_, List.isChain_singleton _⟩
    intro c member
    rw [List.mem_singleton.mp member]
    exact .inl free
  keeps := fun H row admitted sound => Heap.rowStep_sound H.layout row admitted.1.2 admitted.2 sound
  found := by
    intro bs sound b member lost
    rcases sound.linked b member with free | used
    · rw [free] at lost
      cases lost
    · rw [used] at lost
      cases lost

/-- The free blocks are merged, and when no process, no request and no client is left the heap is one free
block again. -/
theorem memory_returned
    (reached : Reaches (Host.Booted ReachedCall base size) (fun h e => e.Lawful h) (fun h e => h.step ReachedCall e) h) :
    Heap.Conserved base size h.session.heap ∧ (h.held = 0 → Heap.Whole base size h.session.heap) := by
  have room : 0 < size := by
    refine reaches_invariant (P := fun _ => 0 < size) ?_ (fun _ _ _ room _ _ => room) reached
    rintro _ ⟨_, _, _, _, starts, _⟩
    have := starts.room
    omega
  obtain ⟨_, ⟨bs, H, sound⟩, exact⟩ :=
    (exact_custody reached_regular).run (fun s starts => exact_starts reached_regular starts) reached
  refine ⟨Heap.sound_conserved H.layout sound, ?_⟩
  intro ended
  apply Heap.sound_whole H.layout sound room
  intro b member used
  have live := H.tracks.known b member used
  rw [ended, Multiset.coe_eq_zero] at exact
  rw [exact] at live
  cases live

/-- `idle` exits when the line that `comhand` waits for is there, and then `comhand` does. -/
theorem memory_returned_example : ∃ h : Host, h.machine.live = [] ∧ Heap.Whole 4096 20000 h.session.heap := by
  have ran : (hosted ReachedCall 4096 20000 [.kernel (.trap (request opRead com1 9000 4) 9 0 0 0),
      .kernel (.interrupt 0 (.input 97)), .kernel (.interrupt 0 (.input carriageReturn)),
      .kernel (.trap (request opExit 0 0 0) 9 0 0 0), .kernel (.trap (request opExit 0 0 0) 9 0 0 0)]).map
        (fun h => (h.machine.live, decide (h.held = 0))) = some ([], true) := by
    decide +kernel
  obtain ⟨h, ran, seen⟩ := Option.map_eq_some_iff.mp ran
  have reached := hosted_reaches (by decide) (by decide) (by decide) ran
  have ended : h.held = 0 := of_decide_eq_true (congrArg Prod.snd seen)
  exact ⟨h, congrArg Prod.fst seen, (memory_returned reached).2 ended⟩

end Mpx.System

import Mpx.System.Commands

/-! # Traps

A trap of the running process, from the saved context to the context that is loaded next, and a turn
of the loop that waits for interrupts. `Settles` lists the ways in which they end. -/

namespace Mpx.System
open Function Library.Links Mpx.Process Mpx.Device

variable {k k' : Kernel} {loose live : List Ptr} {qs : Fin 4 → List Ptr} {trapped : Ptr → Option Trap}
  {p q r : Ptr} {c contextIn : CtxPtr} {t : Trap} {outcome : Outcome}

/-- A loose process may change its own stack, and the buffers. -/
theorem contexts_sound (S : Sound k loose live qs trapped) (member : r ∈ loose) (contexts : CtxPtr → Context)
    (own : ∀ c, c.segment ≠ (k.procs.pcbs r).pstackseg → contexts c = k.procs.contexts c)
    (procs : k'.procs = { k.procs with contexts := contexts }) (ports : k'.ports = k.ports)
    (iocbs : k'.iocbs = k.iocbs) : Sound k' loose live qs trapped := by
  have pcbs : k'.procs.pcbs = k.procs.pcbs := by rw [procs]
  refine sound_congr S ports iocbs ?_ (fun _ => Iff.rfl) (fun _ i inside => ⟨i, inside⟩) ?_
  · rw [procs]
    exact S.placed.congr rfl rfl rfl (fun _ _ => rfl) (fun _ _ => rfl) fun _ _ => rfl
  · intro i q inside c at_c
    rw [pcbs] at at_c
    refine ⟨at_c, ?_⟩
    rw [procs]
    apply own c
    intro same
    obtain ⟨c', at_c', segment⟩ := S.placed.saved i q inside
    obtain rfl : c = c' := Option.some.inj (at_c.symm.trans at_c')
    have equal := S.placed.segments q (S.placed.live_queued inside) r (S.placed.live_loose member)
      (segment.symm.trans same)
    exact S.placed.apart inside (equal ▸ member)

theorem registers_sound (S : Sound k loose live qs trapped) (procs : k'.procs = k.procs)
    (ports : k'.ports = k.ports) (iocbs : k'.iocbs = k.iocbs) : Sound k' loose live qs trapped := by
  refine sound_congr S ports iocbs (procs ▸ S.placed) (fun _ => Iff.rfl) (fun _ i inside => ⟨i, inside⟩) ?_
  intro i q _ c at_c
  rw [procs] at at_c ⊢
  exact ⟨at_c, rfl⟩

/-- `c` holds what the last trap of `p` saved, with its result, and its request is retired. -/
def Resumed (k : Kernel) (trapped : Ptr → Option Trap) (p : Ptr) (c : CtxPtr) : Prop :=
  ∀ t, trapped p = some t → k.procs.contexts c = { t.context with eax := result k t } ∧
    ∀ d n, t.request = some (d, n) → n < (k.history d).retired.length

theorem runs_resumed (S : Sound k loose live qs trapped) (member : p ∈ qs 0) (runs : Runs k k' p c) :
    Resumed k' trapped p c := by
  have same := same_ports runs.ports
  have awake : ¬Blocked qs p := by
    intro asleep
    obtain ⟨i, inside, notReady⟩ := blocked_filed asleep
    exact notReady (S.placed.queued.apart inside member)
  intro t found
  constructor
  · rw [runs.contexts, result_same same]
    exact S.delivered.saved 0 p member t found c runs.pctxt
  · intro d n asks
    rw [same.retired]
    exact S.delivered.done p (S.placed.live_queued member) awake t found d n asks

/-- The running process goes on where it trapped. -/
structure Stays (k : Kernel) (live : List Ptr) (trapped : Ptr → Option Trap) (r : Ptr) (contextIn : CtxPtr)
    (qs : Fin 4 → List Ptr) : Prop where
  sound : Sound k [r] live qs trapped
  pcbRunning : k.pcbRunning = r
  state : (k.procs.state r).exec = .running ∧ (k.procs.state r).dpatch = .active
  original : k.contextOriginal ≠ none
  resumed : ∃ t, trapped r = some t ∧ t.request = none ∧
    k.procs.contexts contextIn = { t.context with eax := 0 }

/-- `p` runs; `r` is the process that has just run, if any. -/
structure Switches (k : Kernel) (live : List Ptr) (trapped : Ptr → Option Trap) (r p : Ptr) (c : CtxPtr)
    (qs : Fin 4 → List Ptr) : Prop where
  sound : Sound k [p] live qs trapped
  pcbRunning : k.pcbRunning = p
  other : p ≠ r
  state : (k.procs.state p).exec = .running ∧ (k.procs.state p).dpatch = .active
  original : k.contextOriginal ≠ none
  resumed : Resumed k trapped p c
  first : ∀ q ∈ qs 0, q ≠ r → Before k.procs p q

/-- No process runs, and none is ready. -/
structure Rests (k : Kernel) (live : List Ptr) (trapped : Ptr → Option Trap) (qs : Fin 4 → List Ptr) : Prop where
  sound : Sound k [] live qs trapped
  pcbRunning : k.pcbRunning = 0
  ready : qs 0 = []

inductive Settles (k : Kernel) (live : List Ptr) (trapped : Ptr → Option Trap) (r : Ptr) (contextIn : CtxPtr) :
    Outcome → Prop
  | stays (qs : Fin 4 → List Ptr) : Stays k live trapped r contextIn qs →
      Settles k live trapped r contextIn (.returned none)
  | switches (qs : Fin 4 → List Ptr) (p : Ptr) (c : CtxPtr) : Switches k live trapped r p c qs →
      Settles k live trapped r contextIn (.returned (some c))
  | waits (qs : Fin 4 → List Ptr) : Rests k live trapped qs → k.contextOriginal ≠ none →
      Settles k live trapped r contextIn .waiting
  | leaves (qs : Fin 4 → List Ptr) (c : CtxPtr) : Rests k live trapped qs → k.contextOriginal = none →
      Settles k live trapped r contextIn (.returned (some c))

theorem dispatch_switches (S : Sound k [] live qs trapped) (ready : qs 0 ≠ []) (original : k.contextOriginal ≠ none)
    (away : r ∉ qs 0) :
    ∃ k' p c qs', dispatch k = some (k', .returned (some c)) ∧ Switches k' live trapped r p c qs' ∧
      k'.ports = k.ports := by
  obtain ⟨k', p, c, rest, row, ran, S', runs, first⟩ := dispatch_sound S ready
  have member : p ∈ qs 0 := row ▸ List.mem_cons_self
  refine ⟨k', p, c, _, ran, ⟨S', runs.pcbRunning, ?_, runs.state, ?_, runs_resumed S member runs, ?_⟩, runs.ports⟩
  · intro same
    exact away (same ▸ member)
  · rw [runs.contextOriginal]
    exact original
  · intro q inside _
    rw [update_self] at inside
    exact first q inside

/-! ### The cases of `sys_call` -/

/-- The running process in a trap, after `sys_check_io`: its context is saved, with 0 for the result. -/
structure Trapping (k : Kernel) (live : List Ptr) (qs : Fin 4 → List Ptr) (trapped : Ptr → Option Trap) (r : Ptr)
    (contextIn : CtxPtr) (context : Context) : Prop where
  sound : Sound k [r] live qs trapped
  pcbRunning : k.pcbRunning = r
  state : (k.procs.state r).exec = .running ∧ (k.procs.state r).dpatch = .active
  original : k.contextOriginal ≠ none
  own : contextIn.segment = (k.procs.pcbs r).pstackseg
  saved : k.procs.contexts contextIn = { context with eax := 0 }

variable {context : Context}

theorem trapping_stays (T : Trapping k live qs trapped r contextIn context) :
    Stays k live (update trapped r (some ⟨context, none⟩)) r contextIn qs := by
  have outside := (T.sound.placed.loose r List.mem_cons_self).2.2
  refine ⟨record_sound T.sound outside _ ?_, T.pcbRunning, T.state, T.original, ?_⟩
  · intro t found
    obtain rfl := Option.some.inj found
    rfl
  · exact ⟨_, update_self .., rfl, T.saved⟩

theorem newRequest_none (same : ∀ d, (k'.history d).accepted = (k.history d).accepted) (dev : UInt32) :
    (serialDevno dev).bind (newRequest k k') = none := by
  cases serialDevno dev with
  | none => rfl
  | some d =>
    show newRequest k k' d = none
    unfold newRequest
    rw [same, if_neg (Nat.lt_irrefl _)]

/-- What the machine records for a trap that leads from `k` to `k'`. -/
def recorded (k k' : Kernel) (context : Context) : Trap :=
  { context := context, request := (serialDevno context.ebx).bind (newRequest k k') }

theorem recorded_plain (same : ∀ d, (k'.history d).accepted = (k.history d).accepted) :
    recorded k k' context = ⟨context, none⟩ := by
  unfold recorded
  rw [newRequest_none same]

theorem yield_settles (T : Trapping k live qs trapped r contextIn context) :
    ∃ k' outcome, yieldPcb k contextIn = some (k', outcome) ∧
      Settles k' live (update trapped r (some (recorded k k' context))) r contextIn outcome := by
  by_cases ready : qs 0 = []
  · have idle : readyHead k = 0 := (readyHead_null T.sound).mpr ready
    refine ⟨k, .returned none, ?_, .stays qs ?_⟩
    · unfold yieldPcb
      rw [if_neg T.original]
      exact if_neg (not_not.mpr idle)
    · rw [recorded_plain fun _ => rfl]
      exact trapping_stays T
  · obtain ⟨k', p, c, qs', member, ran, S', runs, first⟩ :=
      yield_sound (t := ⟨context, none⟩) T.sound T.pcbRunning T.state.2 T.original ready T.own rfl T.saved
    have other : p ≠ r := fun same => T.sound.placed.apart member (same ▸ List.mem_cons_self)
    refine ⟨k', _, ran, .switches qs' p c ?_⟩
    rw [recorded_plain (same_ports runs.ports).accepted]
    refine ⟨S', runs.pcbRunning, other, runs.state, ?_, ?_, first⟩
    · rw [runs.contextOriginal]
      exact T.original
    · intro t found
      rw [update_of_ne other] at found
      exact runs_resumed T.sound member runs t found

theorem recorded_new {d : Fin 4} {a : Request} (dev : serialDevno context.ebx = some d)
    (accepted : (k'.history d).accepted = (k.history d).accepted ++ [a]) :
    recorded k k' context = ⟨context, some (d, (k.history d).accepted.length)⟩ := by
  unfold recorded newRequest
  rw [dev]
  show Trap.mk context (if _ then _ else _) = _
  rw [accepted, List.length_append, List.length_singleton, if_pos (Nat.lt_succ_self _)]

theorem request_settles {op : IoOp} {alloc : Ptr} (T : Trapping k live qs trapped r contextIn context)
    (code : context.eax = opCode op) (fresh : alloc = 0 ∨ ∀ d, ∀ l ∈ k.requestQueue d, alloc ∉ l) :
    ∃ k' outcome, requestIo k contextIn op alloc = some (k', outcome) ∧
      Settles k' live (update trapped r (some (recorded k k' context))) r contextIn outcome := by
  obtain ⟨pend, ok⟩ := T.sound.devices
  obtain rfl := T.pcbRunning
  obtain ⟨real, _, outside⟩ := T.sound.placed.loose k.pcbRunning List.mem_cons_self
  have absent : alloc = 0 ∨ ∀ d, alloc ∉ pend d :=
    fresh.imp_right fun fresh d => fresh d (pend d) (requestQueue_ok ok d)
  have scheduled := schedule_ok ok context.ebx context.ecx context.edx op absent
  unfold requestIo
  rw [if_pos real, T.saved]
  dsimp only
  generalize serialScheduleIo k context.ebx context.ecx context.edx op alloc = result at scheduled
  cases scheduled with
  | refused e =>
    refine ⟨k, .returned none, rfl, .stays qs ?_⟩
    rw [recorded_plain fun _ => rfl]
    exact trapping_stays T
  | queued d k₁ devno isOpen step ok' =>
    have A := accepts_step ok step
    obtain ⟨procs, qs', inserted, S', ready, _⟩ :=
      block_sound (t := ⟨context, some (d, (k.history d).accepted.length)⟩) T.sound ok' A step.procs T.state.2
        T.own ⟨rfl, devno, code, rfl, rfl⟩ rfl T.saved
    have original : k₁.contextOriginal ≠ none := by
      rw [step.contextOriginal]
      exact T.original
    have record : ∀ k', k'.ports = k₁.ports →
        recorded k k' context = ⟨context, some (d, (k.history d).accepted.length)⟩ := by
      intro k' ports
      refine recorded_new devno (a := ⟨k.pcbRunning, op, context.ecx, context.edx⟩) ?_
      unfold Kernel.history
      rw [ports]
      exact A.accepted
    have blocked : pcbInsert ((k₁.procs.setExec k₁.pcbRunning .blocked).setPctxt k₁.pcbRunning (some contextIn))
        k₁.pcbRunning = some procs := by
      rw [step.pcbRunning, setExec_setPctxt]
      exact inserted
    show ∃ k' outcome, ((pcbInsert _ _).bind fun procs =>
      if readyHead { k₁ with procs := procs } ≠ 0 then dispatch { k₁ with procs := procs }
      else some ({ k₁ with procs := procs, pcbRunning := 0 }, .waiting)) = some (k', outcome) ∧ _
    rw [blocked]
    show ∃ k' outcome, (if readyHead { k₁ with procs := procs } ≠ 0 then _ else _) = some (k', outcome) ∧ _
    by_cases quiet : qs' 0 = []
    · have idle : readyHead { k₁ with procs := procs } = 0 := (readyHead_null S').mpr quiet
      rw [if_neg (not_not.mpr idle)]
      refine ⟨_, _, rfl, .waits qs' ⟨?_, rfl, quiet⟩ original⟩
      rw [record { k₁ with procs := procs, pcbRunning := 0 } rfl]
      exact registers_sound S' rfl rfl rfl
    · have busy : readyHead { k₁ with procs := procs } ≠ 0 := fun null => quiet ((readyHead_null S').mp null)
      have away : k.pcbRunning ∉ qs' 0 := by
        rw [ready]
        exact outside 0
      rw [if_pos busy]
      obtain ⟨k', p, c, qs'', ran, switches, ports⟩ := dispatch_switches S' quiet original away
      refine ⟨k', _, ran, .switches qs'' p c ?_⟩
      rw [record k' ports]
      exact switches

theorem exit_settles (T : Trapping k live qs trapped r contextIn context) (freedStack freedPcb : Int) :
    ∃ k' outcome, exitPcb k freedStack freedPcb = some (k', outcome) ∧
      Settles k' (live.filter (· ≠ r)) (update trapped r (some (recorded k k' context))) r contextIn outcome ∧
      (qs 0 = [] → ∃ c, k.contextOriginal = some c ∧ outcome = .returned (some c) ∧
        Rests k' (live.filter (· ≠ r)) (update trapped r (some (recorded k k' context))) qs) ∧
      (qs 0 ≠ [] → k'.pcbRunning ≠ 0) := by
  obtain rfl := T.pcbRunning
  obtain ⟨real, _, outside⟩ := T.sound.placed.loose k.pcbRunning List.mem_cons_self
  obtain ⟨procs, freed, ran, S', _⟩ := free_sound T.sound freedStack freedPcb
  have S' := record_sound S' outside (some ⟨context, none⟩) fun t found => Option.some.inj found ▸ rfl
  unfold exitPcb
  rw [ran]
  show ∃ k' outcome, (if readyHead { k with procs := procs } ≠ 0 then _ else _) = some (k', outcome) ∧ _
  by_cases quiet : qs 0 = []
  · have idle : readyHead { k with procs := procs } = 0 := (readyHead_null S').mpr quiet
    obtain ⟨c, original⟩ := Option.ne_none_iff_exists'.mp T.original
    rw [if_neg (not_not.mpr idle)]
    dsimp only
    rw [original]
    have rests : Rests { k with procs := procs, pcbRunning := 0, contextOriginal := none }
        (live.filter (· ≠ k.pcbRunning)) (update trapped k.pcbRunning (some ⟨context, none⟩)) qs :=
      ⟨registers_sound S' rfl rfl rfl, rfl, quiet⟩
    have plain : recorded k { k with procs := procs, pcbRunning := 0, contextOriginal := none } context =
        ⟨context, none⟩ := recorded_plain (k := k) fun _ => rfl
    refine ⟨_, _, rfl, ?_, ?_, fun busy => (busy quiet).elim⟩
    · rw [plain]
      exact .leaves qs c rests rfl
    · intro _
      rw [plain]
      exact ⟨c, rfl, rfl, rests⟩
  · have busy : readyHead { k with procs := procs } ≠ 0 := fun null => quiet ((readyHead_null S').mp null)
    rw [if_pos busy]
    obtain ⟨k', p, c, qs', ran, switches, ports⟩ := dispatch_switches S' quiet T.original (outside 0)
    have plain : recorded k k' context = ⟨context, none⟩ := recorded_plain (same_ports ports).accepted
    refine ⟨k', _, ran, ?_, fun none => (quiet none).elim, ?_⟩
    · rw [plain]
      exact .switches qs' p c switches
    · intro _
      rw [switches.pcbRunning]
      exact (switches.sound.placed.loose p List.mem_cons_self).1

/-- The other operation codes are answered at once. -/
theorem other_settles (T : Trapping k live qs trapped r contextIn context) :
    Settles k live (update trapped r (some (recorded k k context))) r contextIn (.returned none) := by
  refine .stays qs ?_
  rw [recorded_plain fun _ => rfl]
  exact trapping_stays T

/-! ### The whole of `sys_call` -/

theorem recorded_congr {k₁ : Kernel} (same : ∀ d, (k₁.history d).accepted = (k.history d).accepted) :
    recorded k₁ k' context = recorded k k' context := by
  unfold recorded newRequest
  congr 1
  refine congrArg _ (funext fun d => ?_)
  rw [same]

/-- A process runs: the invariant between the traps. -/
structure Running (k : Kernel) (live : List Ptr) (qs : Fin 4 → List Ptr) (trapped : Ptr → Option Trap) (r : Ptr) :
    Prop where
  sound : Sound k [r] live qs trapped
  pcbRunning : k.pcbRunning = r
  state : (k.procs.state r).exec = .running ∧ (k.procs.state r).dpatch = .active
  original : k.contextOriginal ≠ none

/-- What `sys_call` does to every trap in front of its `switch`. -/
theorem trapping_check (R : Running k live qs trapped r) (context : Context) (offset : UInt32) :
    ∃ k₁ qs₁ ready, sysCheckIo (saveContext k context offset) = some (k₁, ready) ∧
      Checkup (saveContext k context offset) k₁ [r] qs qs₁ [0, 1, 2, 3] ∧
      Trapping { k₁ with procs := k₁.procs.setEax (savedAt k offset) 0 } live qs₁ trapped r (savedAt k offset)
        context := by
  obtain ⟨S, rfl, state, original⟩ := R
  have S₀ : Sound (saveContext k context offset) [k.pcbRunning] live qs trapped := by
    refine contexts_sound S List.mem_cons_self (update k.procs.contexts (savedAt k offset) context) ?_ rfl rfl rfl
    intro c other
    refine update_of_ne ?_ ..
    intro same
    exact other (same ▸ rfl)
  obtain ⟨k₁, qs₁, ready, ran, S₁, checkup, _⟩ := sysCheckIo_sound S₀
  have stack : (k₁.procs.pcbs k.pcbRunning).pstackseg = (savedAt k offset).segment := checkup.segments k.pcbRunning
  have kept : k₁.procs.state k.pcbRunning = k.procs.state k.pcbRunning :=
    checkup.kept k.pcbRunning List.mem_cons_self
  have saved : k₁.procs.contexts (savedAt k offset) = context := by
    rw [checkup.contexts k.pcbRunning List.mem_cons_self (savedAt k offset) rfl]
    exact update_self ..
  have S₂ : Sound { k₁ with procs := k₁.procs.setEax (savedAt k offset) 0 } [k.pcbRunning] live qs₁ trapped := by
    refine contexts_sound S₁ List.mem_cons_self _ ?_ rfl rfl rfl
    intro c other
    refine update_of_ne ?_ ..
    intro same
    exact other (same ▸ stack.symm)
  refine ⟨k₁, qs₁, ready, ran, checkup, S₂, checkup.pcbRunning, ?_, ?_, stack.symm, ?_⟩
  · show (k₁.procs.state k.pcbRunning).exec = _ ∧ (k₁.procs.state k.pcbRunning).dpatch = _
    rw [kept]
    exact state
  · show k₁.contextOriginal ≠ none
    rw [checkup.contextOriginal]
    exact original
  · show update k₁.procs.contexts (savedAt k offset) { k₁.procs.contexts (savedAt k offset) with eax := 0 }
      (savedAt k offset) = _
    rw [update_self, saved]

/-- The processes that are left after a trap of `r` with the operation code `op`. -/
def remaining (op : UInt32) (live : List Ptr) (r : Ptr) : List Ptr :=
  if op = opExit then live.filter (· ≠ r) else live

/-- The `switch` of `sys_call`. -/
def serveTrap (k : Kernel) (contextIn : CtxPtr) (op : UInt32) (alloc : Ptr) (freedStack freedPcb : Int) :
    Option (Kernel × Outcome) :=
  if op = opRead then requestIo k contextIn .read alloc
  else if op = opWrite then requestIo k contextIn .write alloc
  else if op = opIdle then yieldPcb k contextIn
  else if op = opExit then exitPcb k freedStack freedPcb
  else some (k, .returned none)

theorem sysCall_eq {k₁ : Kernel} {ready : Bool} {alloc : Ptr} {freedStack freedPcb : Int} {offset : UInt32}
    (checked : sysCheckIo (saveContext k context offset) = some (k₁, ready)) :
    sysCall (saveContext k context offset) (savedAt k offset) alloc freedStack freedPcb =
      serveTrap { k₁ with procs := k₁.procs.setEax (savedAt k offset) 0 } (savedAt k offset) context.eax alloc
        freedStack freedPcb := by
  have op : ((saveContext k context offset).procs.contexts (savedAt k offset)).eax = context.eax :=
    congrArg Context.eax (update_self ..)
  unfold sysCall
  rw [checked]
  show serveTrap _ _ ((saveContext k context offset).procs.contexts (savedAt k offset)).eax _ _ _ = _
  rw [op]

theorem serve_settles {alloc : Ptr} (T : Trapping k live qs trapped r contextIn context)
    (fresh : alloc = 0 ∨ ∀ d, ∀ l ∈ k.requestQueue d, alloc ∉ l) (freedStack freedPcb : Int) :
    ∃ k' outcome, serveTrap k contextIn context.eax alloc freedStack freedPcb = some (k', outcome) ∧
      Settles k' (remaining context.eax live r) (update trapped r (some (recorded k k' context))) r contextIn
        outcome := by
  unfold serveTrap remaining
  by_cases read : context.eax = opRead
  · rw [if_pos read, if_neg (by rw [read]; decide)]
    exact request_settles T read fresh
  rw [if_neg read]
  by_cases write : context.eax = opWrite
  · rw [if_pos write, if_neg (by rw [write]; decide)]
    exact request_settles T write fresh
  rw [if_neg write]
  by_cases idle : context.eax = opIdle
  · rw [if_pos idle, if_neg (by rw [idle]; decide)]
    exact yield_settles T
  rw [if_neg idle]
  by_cases exit : context.eax = opExit
  · rw [if_pos exit, if_pos exit]
    obtain ⟨k', outcome, ran, settles, _⟩ := exit_settles T freedStack freedPcb
    exact ⟨k', outcome, ran, settles⟩
  · rw [if_neg exit, if_neg exit]
    exact ⟨k, _, rfl, other_settles T⟩

/-- Every trap of a running process comes to an end or to the loop. -/
theorem sysCall_settles {alloc : Ptr} (R : Running k live qs trapped r) (context : Context) (offset : UInt32)
    (fresh : alloc = 0 ∨ ∀ checked ∈ sysCheckIo (saveContext k context offset),
      ∀ d, ∀ l ∈ checked.1.requestQueue d, alloc ∉ l) (freedStack freedPcb : Int) :
    ∃ k' outcome,
      sysCall (saveContext k context offset) (savedAt k offset) alloc freedStack freedPcb = some (k', outcome) ∧
      Settles k' (remaining context.eax live r) (update trapped r (some (recorded k k' context))) r
        (savedAt k offset) outcome := by
  obtain ⟨k₁, qs₁, ready, checked, checkup, T⟩ := trapping_check R context offset
  have fresh : alloc = 0 ∨ ∀ d, ∀ l ∈ k₁.requestQueue d, alloc ∉ l :=
    fresh.imp_right fun fresh => fresh (k₁, ready) checked
  obtain ⟨k', outcome, ran, settles⟩ := serve_settles T fresh freedStack freedPcb
  rw [sysCall_eq checked]
  refine ⟨k', outcome, ran, ?_⟩
  have same : recorded { k₁ with procs := k₁.procs.setEax (savedAt k offset) 0 } k' context =
      recorded k k' context := recorded_congr checkup.accepted
  rw [← same]
  exact settles

theorem dispatch_empty (S : Sound k loose live qs trapped) (quiet : qs 0 = []) : dispatch k = none := by
  have idle : readyHead k = 0 := (readyHead_null S).mpr quiet
  unfold dispatch pcbRemove
  rw [idle, if_pos rfl]
  rfl

/-- A turn of the loop. -/
theorem waitIo_settles (contextIn : CtxPtr) {result : Kernel × Outcome} (S : Sound k [] live qs trapped)
    (pcbRunning : k.pcbRunning = 0)
    (quiet : qs 0 = []) (original : k.contextOriginal ≠ none) (h : waitIo k = some result) :
    Settles result.1 live trapped 0 contextIn result.2 := by
  obtain ⟨k₁, qs₁, ready, checked, S₁, checkup, done⟩ := sysCheckIo_sound S
  have original₁ : k₁.contextOriginal ≠ none := by
    rw [checkup.contextOriginal]
    exact original
  unfold waitIo at h
  rw [checked] at h
  change (if ready = true then dispatch k₁ else some (k₁, .waiting)) = some result at h
  by_cases completed : ready = true
  · rw [if_pos completed] at h
    by_cases empty : qs₁ 0 = []
    · rw [dispatch_empty S₁ empty] at h
      cases h
    · have away : (0 : Ptr) ∉ qs₁ 0 := fun null => S₁.placed.queued.nonnull null rfl
      obtain ⟨k', p, c, qs', ran, switches, _⟩ := dispatch_switches S₁ empty original₁ away
      rw [ran] at h
      obtain rfl := Option.some.inj h
      exact .switches qs' p c switches
  · rw [if_neg completed] at h
    obtain rfl := Option.some.inj h
    have none : ∀ d, ¬Completes k d := fun d completes => completed (done.mpr ⟨d, completes⟩)
    have same : qs₁ 0 = [] := by
      apply List.eq_nil_iff_forall_not_mem.mpr
      intro q inside
      cases (checkup.ready q).mp inside with
      | inl old =>
        rw [quiet] at old
        cases old
      | inr new =>
        obtain ⟨d, _, wakes, _⟩ := new
        exact none d wakes.1
    exact .waits qs₁ ⟨S₁, checkup.pcbRunning.trans pcbRunning, same⟩ original₁

end Mpx.System

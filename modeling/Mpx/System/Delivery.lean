import Mpx.System.Reachable

/-! # What a process gets back

A process goes on with the context of its last trap. Only `eax` has changed: it is 0, or the number of
bytes carried for the very request that the process made. -/

namespace Mpx.System
open Library.Links Library.Transition Mpx.Process Mpx.Device

/-- `p` goes on from its trap `t` in the context at `c`. -/
structure Answered (k : Kernel) (p : Ptr) (t : Trap) (c : CtxPtr) (eax : UInt32) : Prop where
  context : k.procs.contexts c = { t.context with eax := eax }
  idle : t.context.eax = opIdle → eax = 0
  plain : t.request = none → eax = 0
  carried : ∀ d n, t.request = some (d, n) → ∃ r, (k.history d).accepted[n]? = some r ∧ t.Asks p d r ∧
    n < (k.history d).retired.length ∧ eax = UInt32.ofNat ((k.history d).count n)

variable {m m' : Machine} {k : Kernel} {loose live : List Ptr} {qs : Fin 4 → List Ptr}
  {trapped : Ptr → Option Trap} {p r : Ptr} {c contextIn : CtxPtr} {outcome : Outcome} {a : Action} {t : Trap}

theorem opCode_idle (op : IoOp) : opCode op ≠ opIdle := by
  cases op <;> decide

theorem result_plain (none : t.request = none) : result k t = 0 := by
  unfold result
  rw [none]

theorem resumed_answered (D : Delivered k live qs trapped) (member : p ∈ live)
    (resumed : Resumed k trapped p c) (last : trapped p = some t) : Answered k p t c (result k t) := by
  obtain ⟨context, retired⟩ := resumed t last
  have accepted := D.accepted p member t last
  refine ⟨context, ?_, result_plain, ?_⟩
  · intro idle
    cases asks : t.request with
    | none => exact result_plain asks
    | some request =>
      obtain ⟨_, _, asked⟩ := accepted request.1 request.2 asks
      exact (opCode_idle _ (asked.op.symm.trans idle)).elim
  · intro d n asks
    obtain ⟨r, found, asked⟩ := accepted d n asks
    have done := retired d n asks
    refine ⟨r, found, asked, done, ?_⟩
    unfold result
    rw [asks]
    exact if_pos done

theorem settles_answered (settles : Settles k live trapped r contextIn outcome) (busy : k.pcbRunning ≠ 0)
    (last : trapped k.pcbRunning = some t) :
    (outcome = .returned none ∧ k.pcbRunning = r ∧ Answered k k.pcbRunning t contextIn 0) ∨
      ∃ c, outcome = .returned (some c) ∧ Answered k k.pcbRunning t c (result k t) := by
  cases settles with
  | stays qs stays =>
    obtain ⟨t', found, plain, context⟩ := stays.resumed
    rw [stays.pcbRunning, found] at last
    obtain rfl := Option.some.inj last
    refine .inl ⟨rfl, stays.pcbRunning, context, fun _ => rfl, fun _ => rfl, ?_⟩
    intro d n asks
    rw [plain] at asks
    cases asks
  | switches qs p c switches =>
    have member : p ∈ live := switches.sound.placed.live_loose List.mem_cons_self
    rw [switches.pcbRunning] at last ⊢
    exact .inr ⟨c, rfl, resumed_answered switches.sound.delivered member switches.resumed last⟩
  | waits qs rests original => exact (busy rests.pcbRunning).elim
  | leaves qs c rests => exact (busy rests.pcbRunning).elim

/-- Whenever `sys_call` returns to a process, that process is answered. -/
theorem results_delivered (h : Reached m) (lawful : Lawful m a) (calls : a.Calls) (moved : m.step a = some m')
    (busy : m'.kernel.pcbRunning ≠ 0) (last : m'.trapped m'.kernel.pcbRunning = some t) :
    ∃ c eax, m'.entered = some c ∧ Answered m'.kernel m'.kernel.pcbRunning t c eax := by
  rcases step_settles (reached_standing h) lawful moved with
    ⟨_, live, trapped, contextIn, caller, k', outcome, settles, rfl, from_caller⟩ | ⟨quiet, _⟩
  · rw [settle_kernel] at busy last ⊢
    rw [settle_trapped] at last
    rcases settles_answered settles busy last with ⟨rfl, same, answered⟩ | ⟨c, rfl, answered⟩
    · have real : m.kernel.pcbRunning ≠ 0 := same ▸ busy
      exact ⟨contextIn, 0, from_caller.resolve_right real, answered⟩
    · exact ⟨c, _, rfl, answered⟩
  · exact (quiet calls).elim

/-- `comhand` gets the two bytes of its line when `idle` yields. -/
theorem results_delivered_example : ∃ (m' : Machine) (c : CtxPtr), m'.kernel.pcbRunning = 100 ∧
    m'.entered = some c ∧ m'.kernel.procs.contexts c = { request opRead com1 1000 5 with eax := 2 } := by
  have ran : (oneport Lawful [.trap (request opRead com1 1000 5) 20 700 0 0, .interrupt 0 (.input 97),
      .interrupt 0 (.input carriageReturn)]).map (fun m => (m.step (.trap (request opIdle 0 0 0) 20 0 0 0)).map
        fun m' => (m'.kernel.pcbRunning, m'.trapped 100, (m'.kernel.history 0).count 0)) =
          some (some (100, some ⟨request opRead com1 1000 5, some (0, 0)⟩, 2)) := by
    decide +kernel
  obtain ⟨m, ran, seen⟩ := Option.map_eq_some_iff.mp ran
  obtain ⟨m', stepped, found⟩ := Option.map_eq_some_iff.mp seen
  simp only [Prod.mk.injEq] at found
  obtain ⟨running, last, count⟩ := found
  have lawful : Lawful m (.trap (request opIdle 0 0 0) 20 0 0 0) := ⟨Or.inl rfl, trivial⟩
  have busy : m'.kernel.pcbRunning ≠ 0 := by
    rw [running]
    decide
  rw [← running] at last
  obtain ⟨c, eax, entered, answered⟩ :=
    results_delivered (oneport_reaches ran) lawful trivial stepped busy last
  obtain ⟨_, _, _, _, rfl⟩ := answered.carried 0 0 rfl
  refine ⟨m', c, running, entered, ?_⟩
  rw [answered.context, count]
  rfl

end Mpx.System

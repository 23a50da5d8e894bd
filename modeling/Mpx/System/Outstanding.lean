import Mathlib.Data.List.Nodup
import Mpx.System.Reachable

/-! # Outstanding requests

Every request in the queue of a device belongs to a process in a blocked queue, and every process
there has one. The command Delete PCB does not look at the devices and can break this. -/

namespace Mpx.System
open Library.Links Library.Transition Mpx.Process Mpx.Device

/-- `pend` are the four request queues and `qs` the four process queues. -/
structure Matched (k : Kernel) (live : List Ptr) (pend qs : Fin 4 → List Ptr) : Prop where
  requests : ∀ d, k.requestQueue d = some (pend d)
  queues : ∀ i, queueList k.procs i = some (qs i)
  unique : ∀ d, (pend d).Nodup
  owned : ∀ d, ∀ a ∈ pend d, (k.iocbs a).pcbRq ∈ live ∧
    (k.procs.state (k.iocbs a).pcbRq).exec = .blocked ∧ Blocked qs (k.iocbs a).pcbRq
  waiting : ∀ p, Blocked qs p → ∃! x : Fin 4 × Ptr, x.2 ∈ pend x.1 ∧ (k.iocbs x.2).pcbRq = p

variable {m m' : Machine} {k : Kernel} {loose live : List Ptr} {qs : Fin 4 → List Ptr} {trapped : Ptr → Option Trap}
  {d : Fin 4} {p a : Ptr} {pend : Fin 4 → List Ptr}

theorem mem_wanting (ok : DevicesOk k pend) : p ∈ wanting k d ↔ ∃ a ∈ pend d, (k.iocbs a).pcbRq = p := by
  rw [wanting_pend ok]
  exact List.mem_map

theorem blocked_live (P : Placed k.procs loose live qs) (asleep : Blocked qs p) : p ∈ live :=
  asleep.elim P.live_queued P.live_queued

theorem sound_matched (S : Sound k loose live qs trapped) : ∃ pend, Matched k live pend qs := by
  obtain ⟨⟨pend, ok⟩, P, R, _⟩ := S
  refine ⟨pend, requestQueue_ok ok, queueList_eq P.queued, fun d => (ok.port d).unique, ?_, ?_⟩
  · intro d a member
    have asleep := R.blocked d _ ((mem_wanting ok).mpr ⟨a, member, rfl⟩)
    exact ⟨blocked_live P asleep, blocked_exec P asleep, asleep⟩
  · intro p asleep
    obtain ⟨d, wants⟩ := R.served p asleep
    obtain ⟨a, member, owner⟩ := (mem_wanting ok).mp wants
    refine ⟨(d, a), ⟨member, owner⟩, ?_⟩
    rintro ⟨e, b⟩ ⟨there, same⟩
    obtain rfl : e = d := R.apart e d p ((mem_wanting ok).mpr ⟨b, there, same⟩) wants
    have once := R.once e
    rw [wanting_pend ok] at once
    exact congrArg (Prod.mk e) (List.inj_on_of_nodup_map once there member (same.trans owner.symm))

/-! ### Delete PCB -/

variable {name : List UInt8} {freedStack freedPcb : Int}

theorem deleted_blocked (P : Placed k.procs loose live qs) (target : p ∈ deleted k.procs name)
    (exec : (k.procs.state p).exec = .blocked) : Blocked qs p := by
  obtain ⟨found, ran, which⟩ := pcbFind_queued P.queued name
  rw [deleted_eq ran] at target
  by_cases real : found ≠ 0 ∧ (k.procs.state found).cls ≠ .system
  · rw [if_pos real] at target
    obtain rfl := Option.some.inj target
    obtain ⟨i, member⟩ := which.resolve_left real.1
    apply (blocked_iff P member).mpr
    rw [exec]
    decide
  · rw [if_neg real] at target
    cases target

/-- The request of a deleted process stays behind. -/
theorem delete_unmatched (S : Sound m.kernel loose m.live qs m.trapped)
    (moved : m.step (.delete name freedStack freedPcb) = some m') (target : p ∈ deleted m.kernel.procs name)
    (exec : (m.kernel.procs.state p).exec = .blocked) {pend' qs' : Fin 4 → List Ptr} :
    ¬Matched m'.kernel m'.live pend' qs' := by
  obtain ⟨⟨pend, ok⟩, P, R, _⟩ := S
  obtain ⟨d, wants⟩ := R.served p (deleted_blocked P target exec)
  obtain ⟨a, member, owner⟩ := (mem_wanting ok).mp wants
  cases step_moves moved with
  | delete _ _ left =>
  subst left
  intro matched
  have same : pend' d = pend d := Option.some.inj ((matched.requests d).symm.trans (requestQueue_ok ok d))
  have there := (matched.owned d a (same ▸ member)).1
  change (m.kernel.iocbs a).pcbRq ∈ m.live.filter (some · ≠ deleted m.kernel.procs name) at there
  rw [owner, Option.mem_def.mp target] at there
  simp at there

/-- As long as no blocked process is deleted every state matches the requests and the blocked processes,
and a step that deletes one leads to a state that does not. -/
theorem requests_matched (h : Reached m) : (∃ pend qs, Matched m.kernel m.live pend qs) ∧
    ∀ name freedStack freedPcb m', m.step (.delete name freedStack freedPcb) = some m' →
      ((∃ pend qs, Matched m'.kernel m'.live pend qs) ↔
        ∀ p ∈ deleted m.kernel.procs name, (m.kernel.procs.state p).exec ≠ .blocked) := by
  have matched : ∀ {m}, Reached m → ∃ pend qs, Matched m.kernel m.live pend qs := by
    intro m h
    obtain ⟨qs, S, _⟩ := standing_sound (reached_standing h)
    obtain ⟨pend, matched⟩ := sound_matched S
    exact ⟨pend, qs, matched⟩
  refine ⟨matched h, ?_⟩
  intro name freedStack freedPcb m' moved
  constructor
  · rintro ⟨pend, qs, matched'⟩ p target exec
    obtain ⟨_, S, _⟩ := standing_sound (reached_standing h)
    exact delete_unmatched S moved target exec matched'
  · intro spares
    have lawful : Lawful m (.delete name freedStack freedPcb) := ⟨trivial, spares⟩
    exact matched (.step h lawful moved)

/-- `comhand` waits for a line, `idle` for its output behind it. -/
theorem requests_matched_example : ∃ (m : Machine) (pend qs : Fin 4 → List Ptr),
    m.kernel.requestQueue 0 = some [700, 800] ∧ Matched m.kernel m.live pend qs := by
  have ran : (oneport Lawful [.trap (request opRead com1 1000 5) 20 700 0 0,
      .trap (request opWrite com1 1100 3) 20 800 0 0]).map (fun m => m.kernel.requestQueue 0) =
        some (some [700, 800]) := by
    decide +kernel
  obtain ⟨m, ran, seen⟩ := Option.map_eq_some_iff.mp ran
  obtain ⟨⟨pend, qs, matched⟩, _⟩ := requests_matched (oneport_reaches ran)
  exact ⟨m, pend, qs, seen, matched⟩

/-- `comhand` deletes a process that waits for a line: its request stays in the queue of the device. -/
theorem requests_unmatched : ¬∀ m : Machine, Reaches Booted (fun m a => a.Sane m) Machine.step m →
    ∃ pend qs, Matched m.kernel m.live pend qs := by
  have ran : (oneport (fun m a => a.Sane m) [.create [112] .user 1 (some ⟨3, 0, 0⟩) 500 600,
      .trap (request opIdle 0 0 0) 20 0 0 0, .trap (request opRead com1 1000 5) 20 700 0 0,
      .delete [112] 0 0]).map (fun m => (m.kernel.requestQueue 0, (m.kernel.iocbs 700).pcbRq, m.live)) =
        some (some [700], 500, [300, 100]) := by
    decide +kernel
  obtain ⟨m, ran, seen⟩ := Option.map_eq_some_iff.mp ran
  simp only [Prod.mk.injEq] at seen
  obtain ⟨queue, owner, left⟩ := seen
  intro always
  obtain ⟨pend, qs, matched⟩ := always m (oneport_reaches ran)
  have member : 700 ∈ pend 0 := by
    have same : pend 0 = [700] := Option.some.inj ((matched.requests 0).symm.trans queue)
    rw [same]
    exact List.mem_singleton_self 700
  have there := (matched.owned 0 700 member).1
  rw [owner, left] at there
  exact absurd there (by decide)

end Mpx.System

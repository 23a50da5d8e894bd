import Mpx.System.Reachable

/-! # Where every process is

No process is lost, duplicated or misfiled: it runs, or it is in the one queue that its state selects. -/

namespace Mpx.System
open Library.Links Library.Transition Mpx.Process Mpx.Device

/-- The place of `p`, where `qs` are the four process queues. -/
inductive Filed (k : Kernel) (qs : Fin 4 → List Ptr) (p : Ptr) : Prop
  | running : p = k.pcbRunning → (k.procs.state p).exec = .running → (k.procs.state p).dpatch = .active →
      (∀ i, p ∉ qs i) → Filed k qs p
  | queued : p ≠ k.pcbRunning → (k.procs.state p).exec = .ready ∨ (k.procs.state p).exec = .blocked →
      (qs (k.procs.state p).queueSelector).count p = 1 →
      (∀ i, i ≠ (k.procs.state p).queueSelector → p ∉ qs i) → Filed k qs p

variable {m : Machine} {k : Kernel} {live : List Ptr} {qs : Fin 4 → List Ptr} {p : Ptr}

theorem rests_exec {state : PcbState} (rests : state.exec ≠ .running) : state.exec = .ready ∨ state.exec = .blocked := by
  cases exec : state.exec with
  | ready => exact .inl rfl
  | blocked => exact .inr rfl
  | running => exact (rests exec).elim

theorem placed_filed (P : Placed k.procs (if k.pcbRunning = 0 then [] else [k.pcbRunning]) live qs)
    (runs : k.pcbRunning ≠ 0 → (k.procs.state k.pcbRunning).exec = .running ∧
      (k.procs.state k.pcbRunning).dpatch = .active) (member : p ∈ live) : Filed k qs p := by
  rcases (P.members p).mp member with loose | ⟨i, inside⟩
  · have busy : k.pcbRunning ≠ 0 := by
      intro idle
      rw [if_pos idle] at loose
      cases loose
    have outside := (P.loose p loose).2.2
    rw [if_neg busy] at loose
    obtain rfl := List.mem_singleton.mp loose
    exact .running rfl (runs busy).1 (runs busy).2 outside
  · have other : p ≠ k.pcbRunning := by
      intro same
      apply P.apart inside
      have real : k.pcbRunning ≠ 0 := same ▸ P.queued.nonnull inside
      rw [if_neg real]
      exact List.mem_singleton.mpr same
    have filed := P.queued.filed i p inside
    refine .queued other (rests_exec (P.rests i p inside)) ?_ ?_
    · rw [filed]
      exact List.count_eq_one_of_mem (P.queued.unique i) inside
    · rw [filed]
      intro j apart there
      exact apart (P.queued.apart there inside)

/-- In every state every live process is in exactly one place, and nothing else is in a queue. -/
theorem processes_filed (h : Reached m) :
    ∃ qs, (∀ i, queueList m.kernel.procs i = some (qs i)) ∧ (∀ p ∈ m.live, Filed m.kernel qs p) ∧
      (∀ i, ∀ p ∈ qs i, p ∈ m.live) ∧
      ∀ p ∈ m.live, (m.kernel.procs.state p).dpatch = .suspended → p ≠ m.kernel.pcbRunning := by
  obtain ⟨qs, S, runs⟩ := standing_sound (reached_standing h)
  have filed : ∀ p ∈ m.live, Filed m.kernel qs p := fun p member => placed_filed S.placed runs member
  refine ⟨qs, queueList_eq S.placed.queued, filed, fun i p inside => S.placed.live_queued inside, ?_⟩
  intro p member suspended
  cases filed p member with
  | running _ _ active _ =>
    rw [suspended] at active
    cases active
  | queued other _ _ _ => exact other

/-- `comhand` creates a process, suspends it and waits for a line; `idle` runs. -/
theorem processes_filed_example : ∃ (m : Machine) (qs : Fin 4 → List Ptr), m.live = [500, 300, 100] ∧
    m.kernel.pcbRunning = 300 ∧ (∀ i, queueList m.kernel.procs i = some (qs i)) ∧
    ∀ p ∈ m.live, Filed m.kernel qs p := by
  have ran : (oneport Lawful [.create [112] .user 1 (some ⟨3, 0, 0⟩) 500 600, .suspend [112],
      .trap (request opRead com1 1000 5) 20 700 0 0]).map (fun m => (m.live, m.kernel.pcbRunning)) =
        some ([500, 300, 100], 300) := by
    decide +kernel
  obtain ⟨m, ran, seen⟩ := Option.map_eq_some_iff.mp ran
  obtain ⟨qs, queues, filed, _⟩ := processes_filed (oneport_reaches ran)
  exact ⟨m, qs, congrArg Prod.fst seen, congrArg Prod.snd seen, queues, filed⟩

end Mpx.System

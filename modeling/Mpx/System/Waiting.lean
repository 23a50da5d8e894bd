import Mpx.Library.Ranking
import Mpx.System.Stamps

/-! # How long a ready process waits

Among processes of one priority the processor goes round: while a process waits, only those in front of it are
switched to, and each of them once. -/

namespace Mpx.System
open Function Library.Links Library.Transition Library.Ranking Mpx.Process Mpx.Device

/-- Another process is switched to, of no better priority than that of `p`. -/
def Passed (p : Ptr) (m m' : Machine) : Prop :=
  m'.kernel.pcbRunning ≠ m.kernel.pcbRunning ∧ m'.kernel.pcbRunning ≠ 0 ∧
    (m.kernel.procs.state p).pri ≤ (m'.kernel.procs.state m'.kernel.pcbRunning).pri

instance passedDecidable (p : Ptr) (m m' : Machine) : Decidable (Passed p m m') :=
  inferInstanceAs (Decidable (_ ∧ _ ∧ _))

instance touchesDecidable (m : Machine) (p : Ptr) : (a : Action) → Decidable (a.Touches m p)
  | .trap .. | .suspend _ => inferInstanceAs (Decidable (_ ∧ _))
  | .create .. | .delete .. | .resume _ | .setPriority .. => inferInstanceAs (Decidable (_ = _))
  | .poll | .interrupt .. | .compute .. => .isFalse not_false

/-- No command is given for `p`, and it does not run. -/
def Awaits (p : Ptr) (m : Machine) (a : Action) : Prop :=
  Lawful m a ∧ ¬a.Touches m p ∧ ∀ m' ∈ m.step a, m'.kernel.pcbRunning ≠ p

instance awaitsDecidable (p : Ptr) (m : Machine) (a : Action) : Decidable (Awaits p m a) :=
  inferInstanceAs (Decidable (_ ∧ _ ∧ _))

/-- The processes of the priority of `p` that have joined the ready queue before it. -/
def ahead (k : Kernel) (p : Ptr) : List Ptr :=
  ((queueList k.procs 0).getD []).filter fun q =>
    (k.procs.state q).pri = (k.procs.state p).pri ∧ k.procs.enqueued q < k.procs.enqueued p

/-- What a step leaves of the order of the ready queue, seen from `p`. -/
structure Turned (m m' : Machine) (p : Ptr) : Prop where
  stays : m'.kernel.pcbRunning ≠ p → Same m.kernel.procs m'.kernel.procs p
  enters : ∀ q ∈ m'.live, (m'.kernel.procs.state q).queueSelector = 0 ∨
      q = m'.kernel.pcbRunning ∧ q ≠ m.kernel.pcbRunning →
    m.kernel.procs.clock ≤ m'.kernel.procs.enqueued q ∨
      q ∈ m.live ∧ (m.kernel.procs.state q).queueSelector = 0 ∧
        m'.kernel.procs.enqueued q = m.kernel.procs.enqueued q ∧
        (m'.kernel.procs.state q).pri = (m.kernel.procs.state q).pri

variable {m m₀ m' : Machine} {k : Kernel} {a : Action} {p q : Ptr} {s s' : Procs} {n : Nat} {l : List Ptr}

/-! ### One step -/

theorem mem_readied (stands : Standing m) :
    ∃ l, queueList m.kernel.procs 0 = some l ∧ l.Nodup ∧ l.Pairwise (Before m.kernel.procs) ∧
      (∀ q ∈ l, m.kernel.procs.enqueued q < m.kernel.procs.clock) ∧
      ∀ q, q ∈ l ↔ q ∈ m.live ∧ (m.kernel.procs.state q).queueSelector = 0 := by
  obtain ⟨qs, S, runs⟩ := standing_sound stands
  have P := S.placed
  refine ⟨qs 0, queueList_eq P.queued 0, P.queued.unique 0, P.sorted, P.stamped, ?_⟩
  intro q
  constructor
  · intro member
    exact ⟨P.live_queued member, P.queued.filed 0 q member⟩
  · rintro ⟨live, filed⟩
    rcases (P.members q).mp live with loose | ⟨i, member⟩
    · have busy : m.kernel.pcbRunning ≠ 0 := by
        intro idle
        rw [if_pos idle] at loose
        cases loose
      rw [if_neg busy] at loose
      obtain rfl := List.mem_singleton.mp loose
      rw [selector_active, (runs busy).1] at filed
      cases filed.1
    · rw [P.queued.filed i q member] at filed
      exact filed ▸ member

theorem turned_same (own : Same m.kernel.procs m'.kernel.procs p)
    (each : ∀ q, (m'.kernel.procs.state q).queueSelector = 0 → Same m.kernel.procs m'.kernel.procs q)
    (running : m'.kernel.pcbRunning = m.kernel.pcbRunning) (live : ∀ q ∈ m'.live, q ∈ m.live) : Turned m m' p := by
  refine ⟨fun _ => own, ?_⟩
  intro q inside enters
  have filed := enters.resolve_right fun both => both.2 (both.1.trans running)
  have same := each q filed
  rw [same.state] at filed ⊢
  exact .inr ⟨live q inside, filed, same.enqueued, rfl⟩

theorem turned_unchanged (same : m'.kernel.procs = m.kernel.procs) (running : m'.kernel.pcbRunning = m.kernel.pcbRunning)
    (live : ∀ q ∈ m'.live, q ∈ m.live) : Turned m m' p :=
  turned_same (same ▸ same_refl _ p) (fun q _ => same ▸ same_refl _ q) running live

theorem turned_refiled {x : Ptr} (refiled : Refiled m.kernel.procs m'.kernel.procs x) (other : p ≠ x)
    (running : m'.kernel.pcbRunning = m.kernel.pcbRunning) (live : ∀ q ∈ m'.live, q = x ∨ q ∈ m.live) :
    Turned m m' p := by
  refine ⟨fun _ => refiled.others p other, ?_⟩
  intro q inside enters
  have filed := enters.resolve_right fun both => both.2 (both.1.trans running)
  by_cases here : q = x
  · subst here
    exact .inl (refiled.own filed)
  · have same := refiled.others q here
    rw [same.state] at filed ⊢
    exact .inr ⟨(live q inside).resolve_left here, filed, same.enqueued, rfl⟩

theorem turned_served {t : Procs} (woke : Woke m.kernel.procs t)
    (served : Served t m'.kernel.procs m.kernel.pcbRunning m'.kernel.pcbRunning) (real : ∀ q ∈ m'.live, q ≠ 0)
    (live : ∀ q ∈ m'.live, q ∈ m.live) (filed : (m.kernel.procs.state p).queueSelector = 0)
    (other : p ≠ m.kernel.pcbRunning) : Turned m m' p := by
  refine ⟨fun waits => served_waits woke served filed other waits.symm, ?_⟩
  intro q inside enters
  rcases served_enters woke served (real q inside) enters with stamped | ⟨before, enqueued, pri⟩
  · exact .inl stamped
  · exact .inr ⟨live q inside, before, enqueued, pri⟩

theorem save_sound {qs : Fin 4 → List Ptr} (R : Running m.kernel m.live qs m.trapped m.kernel.pcbRunning)
    (context : Context) (offset : UInt32) :
    Sound (saveContext m.kernel context offset) [m.kernel.pcbRunning] m.live qs m.trapped := by
  refine contexts_sound R.sound List.mem_cons_self (update m.kernel.procs.contexts (savedAt m.kernel offset) context) ?_
    rfl rfl rfl
  intro c other
  refine update_of_ne ?_ ..
  intro same
  exact other (same ▸ rfl)

theorem step_turned (stands : Standing m) (lawful : Lawful m a) (moved : m.step a = some m') (live : p ∈ m.live)
    (filed : (m.kernel.procs.state p).queueSelector = 0) (untouched : ¬a.Touches m p) : Turned m m' p := by
  have stands' := standing_step stands lawful.1 lawful.2 moved
  have real : ∀ q ∈ m'.live, q ≠ 0 := fun q inside => live_real stands' inside
  cases step_moves moved with
  | @trap context offset alloc freedStack freedPcb busy ran =>
    obtain ⟨qs, R⟩ := standing_running stands busy
    have older : ∀ q ∈ m'.live, q ∈ m.live := by
      intro q inside
      rw [trap_live ran] at inside
      exact (remaining_iff.mp inside).1
    obtain ⟨⟨k', outcome⟩, called, same⟩ := Option.bind_eq_some_iff.mp ran
    obtain ⟨t, woke, served⟩ := sysCall_served (save_sound R context offset) rfl R.state.1 called
    have kernel : m'.kernel = k' := by rw [← Option.some.inj same, settle_kernel]
    rw [← kernel] at served
    have woke : Woke m.kernel.procs t :=
      ⟨woke.clock, fun q => (woke.each q).imp_left fun same => ⟨same.enqueued, same.state⟩⟩
    refine turned_served woke served real older filed ?_
    intro running
    rw [selector_active, running, R.state.1] at filed
    cases filed.1
  | @poll result waits ran same =>
    have idle : m.kernel.pcbRunning = 0 ∧ ∃ qs, Sound m.kernel [] m.live qs m.trapped := by
      cases stands with
      | running _ _ mode _ => rw [mode] at waits; cases waits
      | left _ mode _ => rw [mode] at waits; cases waits
      | waiting qs _ rests _ => exact ⟨rests.pcbRunning, qs, rests.sound⟩
    obtain ⟨idle, qs, S⟩ := idle
    have ran : waitIo m.kernel = some (result.1, result.2) := ran
    obtain ⟨t, woke, served⟩ := waitIo_served S idle ran
    have kernel : m'.kernel = result.1 := by rw [same, settle_kernel]
    have older : m'.live = m.live := by rw [same, settle_live]
    rw [← kernel, ← idle] at served
    refine turned_served woke served real (fun q inside => older ▸ inside) filed ?_
    rw [idle]
    exact live_real stands live
  | interrupt ran same =>
    obtain ⟨qs, S, _⟩ := standing_sound stands
    have only := (interrupt_sound S ran).2
    subst same
    exact turned_unchanged only.procs only.pcbRunning fun _ inside => inside
  | compute _ same =>
    subst same
    exact turned_same ⟨rfl, rfl⟩ (fun q _ => ⟨rfl, rfl⟩) rfl fun _ inside => inside
  | create _ ran same =>
    have refiled := create_refiled ran
    have other : p ≠ _ := fun here => untouched here.symm
    subst same
    exact turned_refiled refiled other rfl fun q inside => List.mem_cons.mp inside
  | @delete name freedStack freedPcb procs _ ran same =>
    obtain ⟨-, each⟩ := delete_same ran
    subst same
    refine turned_same ((each p).resolve_right fun gone => untouched gone.1) ?_ rfl
      fun q inside => List.mem_of_mem_filter inside
    intro q filed
    apply (each q).resolve_right
    rintro ⟨-, gone⟩
    have ready : (procs.state q).exec = .ready := (selector_active.mp filed).1
    rw [gone] at ready
    cases ready
  | suspend _ ran same =>
    subst same
    rcases suspend_refiled ran with unchanged | ⟨x, found, user, refiled⟩
    · exact turned_unchanged unchanged rfl fun _ inside => inside
    · refine turned_refiled refiled ?_ rfl fun _ inside => .inr inside
      rintro rfl
      exact untouched ⟨found, user⟩
  | resume _ ran same =>
    subst same
    rcases resume_refiled ran with unchanged | ⟨x, found, refiled⟩
    · exact turned_unchanged unchanged rfl fun _ inside => inside
    · refine turned_refiled refiled ?_ rfl fun _ inside => .inr inside
      rintro rfl
      exact untouched found
  | setPriority _ ran same =>
    subst same
    rcases setPriority_refiled ran with unchanged | refiled
    · exact turned_unchanged unchanged rfl fun _ inside => inside
    · refine turned_refiled refiled ?_ rfl fun _ inside => .inr inside
      exact fun here => untouched here.symm

/-! ### Runs -/

theorem mem_ahead (stands : Standing m) : q ∈ ahead m.kernel p ↔
    (q ∈ m.live ∧ (m.kernel.procs.state q).queueSelector = 0) ∧
      (m.kernel.procs.state q).pri = (m.kernel.procs.state p).pri ∧
        m.kernel.procs.enqueued q < m.kernel.procs.enqueued p := by
  obtain ⟨l, row, _, _, _, member⟩ := mem_readied stands
  unfold ahead
  rw [row, Option.getD_some, List.mem_filter, member, decide_eq_true_iff]

theorem ahead_unique (stands : Standing m) (p : Ptr) : (ahead m.kernel p).Nodup := by
  obtain ⟨l, row, unique, _⟩ := mem_readied stands
  unfold ahead
  rw [row, Option.getD_some]
  exact unique.filter _

/-- The process `p` is in the ready queue. -/
structure Readied (m : Machine) (p : Ptr) : Prop where
  reached : Reached m
  live : p ∈ m.live
  filed : (m.kernel.procs.state p).queueSelector = 0

theorem readied_old (ready : Readied m p) : m.kernel.procs.enqueued p < m.kernel.procs.clock := by
  obtain ⟨l, _, _, _, stamped, member⟩ := mem_readied (reached_standing ready.reached)
  exact stamped p ((member p).mpr ⟨ready.live, ready.filed⟩)

theorem readied_step (ready : Readied m p) (awaits : Awaits p m a) (moved : m.step a = some m') :
    Turned m m' p ∧ Same m.kernel.procs m'.kernel.procs p ∧ Readied m' p := by
  obtain ⟨lawful, untouched, waits⟩ := awaits
  have stands := reached_standing ready.reached
  have turned := step_turned stands lawful moved ready.live ready.filed untouched
  have same := turned.stays (waits m' moved)
  have spared : ¬a.Ends m p := by
    intro ends
    apply untouched
    cases a with
    | trap => exact ends
    | delete => exact ends
    | _ => exact ends.elim
  refine ⟨turned, same, .step ready.reached lawful moved, step_stays lawful moved ready.live spared, ?_⟩
  rw [same.state]
  exact ready.filed

/-- A process with an old stamp was ahead before. -/
theorem turned_ahead (ready : Readied m p) (turned : Turned m m' p) (same : Same m.kernel.procs m'.kernel.procs p)
    (inside : q ∈ m'.live) (enters : (m'.kernel.procs.state q).queueSelector = 0 ∨
      q = m'.kernel.pcbRunning ∧ q ≠ m.kernel.pcbRunning)
    (pri : (m'.kernel.procs.state q).pri = (m'.kernel.procs.state p).pri)
    (older : m'.kernel.procs.enqueued q < m'.kernel.procs.enqueued p) : q ∈ ahead m.kernel p := by
  have old := readied_old ready
  rw [same.enqueued] at older
  rw [same.state] at pri
  rcases turned.enters q inside enters with stamped | ⟨live, filed, enqueued, kept⟩
  · omega
  · rw [enqueued] at older
    exact (mem_ahead (reached_standing ready.reached)).mpr ⟨⟨live, filed⟩, kept.symm.trans pri, older⟩

theorem ahead_subset (ready : Readied m p) (awaits : Awaits p m a) (moved : m.step a = some m') :
    ahead m'.kernel p ⊆ ahead m.kernel p := by
  obtain ⟨turned, same, ready'⟩ := readied_step ready awaits moved
  intro q member
  obtain ⟨⟨live, filed⟩, pri, older⟩ := (mem_ahead (reached_standing ready'.reached)).mp member
  exact turned_ahead ready turned same live (.inl filed) pri older

/-- The process that is switched to was the first of those that are ahead. -/
theorem passed_ahead (ready : Readied m p) (awaits : Awaits p m a) (moved : m.step a = some m')
    (passed : Passed p m m') :
    m'.kernel.pcbRunning ∈ ahead m.kernel p ∧ m'.kernel.pcbRunning ∉ ahead m'.kernel p := by
  obtain ⟨turned, same, ready'⟩ := readied_step ready awaits moved
  obtain ⟨switched, busy, better⟩ := passed
  have stands := reached_standing ready.reached
  have stands' := reached_standing ready'.reached
  obtain ⟨qs, R⟩ := standing_running stands' busy
  have running : m'.kernel.pcbRunning ∈ m'.live := R.sound.placed.live_loose List.mem_cons_self
  constructor
  · have other : p ≠ m.kernel.pcbRunning := by
      intro here
      obtain ⟨qs, R⟩ := standing_running stands (here ▸ live_real stands ready.live)
      have filed := ready.filed
      rw [selector_active, here, R.state.1] at filed
      cases filed.1
    obtain ⟨l, row, first⟩ := step_chosen stands awaits.1 moved busy switched
    obtain ⟨l', row', _, _, _, member⟩ := mem_readied stands'
    obtain rfl := Option.some.inj (row.symm.trans row')
    have before := first p ((member p).mpr ⟨ready'.live, ready'.filed⟩) other
    rw [← same.state] at better
    rcases before with worse | ⟨pri, older⟩
    · omega
    · exact turned_ahead ready turned same running (.inr ⟨rfl, switched⟩) pri older
  · intro member
    have filed := ((mem_ahead stands').mp member).1.2
    rw [selector_active, R.state.1] at filed
    cases filed.1

/-- What is ahead of `p` by the stamps stands in front of it in the queue. -/
theorem ahead_front (stands : Standing m) (queue : queueList m.kernel.procs 0 = some l) (inside : p ∈ l) :
    (ahead m.kernel p).length ≤
      (l.takeWhile (· ≠ p)).countP fun q => (m.kernel.procs.state q).pri = (m.kernel.procs.state p).pri := by
  obtain ⟨l', row, unique, sorted, _, member⟩ := mem_readied stands
  obtain rfl := Option.some.inj (queue.symm.trans row)
  rw [List.countP_eq_length_filter]
  apply (ahead_unique stands p).length_le_of_subset
  intro q ready
  obtain ⟨readied, pri, older⟩ := (mem_ahead stands).mp ready
  refine List.mem_filter.mpr ⟨?_, decide_eq_true pri⟩
  obtain ⟨front, back, rfl⟩ := List.append_of_mem inside
  have outside : p ∉ front := fun before => (List.nodup_append.mp unique).2.2 p before p List.mem_cons_self rfl
  have kept : ∀ x ∈ front, decide (x ≠ p) = true :=
    fun x before => decide_eq_true fun here => outside (here ▸ before)
  rw [List.takeWhile_append_of_pos kept]
  apply List.mem_append_left
  rcases List.mem_append.mp ((member q).mpr readied) with before | after
  · exact before
  · have later := (List.pairwise_cons.mp (List.pairwise_append.mp sorted).2.1).1
    rcases List.mem_cons.mp after with rfl | behind
    · omega
    · rcases later q behind with worse | ⟨_, younger⟩
      · omega
      · omega

/-- While a process waits in the ready queue, other processes of its priority or a worse one are switched to no more
often than there are processes of its own priority in front of it. -/
theorem bounded_waiting (reached : Reached m₀) (queue : queueList m₀.kernel.procs 0 = some l) (inside : p ∈ l)
    (run : Turns (· = m₀) (Awaits p) Machine.step (Passed p) n m) :
    n ≤ (l.takeWhile (· ≠ p)).countP fun q => (m₀.kernel.procs.state q).pri = (m₀.kernel.procs.state p).pri := by
  have stands := reached_standing reached
  obtain ⟨l', row, _, _, _, member⟩ := mem_readied stands
  obtain rfl := Option.some.inj (queue.symm.trans row)
  obtain ⟨live, filed⟩ := (member p).mp inside
  have counted : n + (ahead m.kernel p).length ≤
      (l.takeWhile (· ≠ p)).countP fun q => (m₀.kernel.procs.state q).pri = (m₀.kernel.procs.state p).pri := by
    refine turns_rank (fun m => Readied m p) (fun m => (ahead m.kernel p).length) ?_ ?_ ?_ ?_ run
    · rintro m rfl
      exact ⟨⟨reached, live, filed⟩, ahead_front stands queue inside⟩
    · intro m a m' ready awaits moved
      exact (readied_step ready awaits moved).2.2
    · intro m a m' ready awaits moved
      have stands' := reached_standing (readied_step ready awaits moved).2.2.reached
      exact (ahead_unique stands' p).length_le_of_subset (ahead_subset ready awaits moved)
    · intro m a m' ready awaits moved passed
      have stands' := reached_standing (readied_step ready awaits moved).2.2.reached
      obtain ⟨before, gone⟩ := passed_ahead ready awaits moved passed
      exact length_lt_of_subset (ahead_unique stands' p) (ahead_subset ready awaits moved) before gone
  exact Nat.le_trans (Nat.le_add_right _ _) counted

theorem bounded_waiting_example : ∃ m₀ m : Machine, queueList m₀.kernel.procs 0 = some [500, 700, 900, 300] ∧
    m.kernel.pcbRunning = 700 ∧
      2 ≤ (([500, 700, 900, 300] : List Ptr).takeWhile (· ≠ 900)).countP fun q =>
        (m₀.kernel.procs.state q).pri = (m₀.kernel.procs.state 900).pri := by
  have ran : (oneport Lawful [.create [112] .user 1 (some ⟨3, 0, 0⟩) 500 600,
      .create [113] .user 1 (some ⟨3, 0, 0⟩) 700 800, .create [114] .user 1 (some ⟨3, 0, 0⟩) 900 1000]).bind (fun m =>
        (runTurns (Awaits 900) Machine.step (Passed 900) 0 m [.trap (request opRead com1 2000 5) 20 1200 0 0,
          .trap (request opIdle 0 0 0) 20 0 0 0]).map fun r =>
            (queueList m.kernel.procs 0, r.1, r.2.kernel.pcbRunning)) =
      some (some [500, 700, 900, 300], 2, 700) := by
    decide +kernel
  obtain ⟨m₀, begins, ran⟩ := Option.bind_eq_some_iff.mp ran
  obtain ⟨⟨n, m⟩, ran, seen⟩ := Option.map_eq_some_iff.mp ran
  simp only [Prod.mk.injEq] at seen
  obtain ⟨queue, rfl, running⟩ := seen
  exact ⟨m₀, m, queue, running,
    bounded_waiting (oneport_reaches begins) queue (by decide) (runTurns_turns (.start rfl) ran)⟩

end Mpx.System

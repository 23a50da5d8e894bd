/-! # Runs of a deterministic transition system

A step consumes an input and may fail to produce a next state. `ok` says which inputs a state
admits: the reachable states are those of the runs whose every input is admitted. -/

namespace Library.Transition

variable {σ α : Type}

inductive Reaches (start : σ → Prop) (ok : σ → α → Prop) (step : σ → α → Option σ) : σ → Prop where
  | start {s : σ} : start s → Reaches start ok step s
  | step {s t : σ} {a : α} : Reaches start ok step s → ok s a → step s a = some t →
      Reaches start ok step t

variable {start : σ → Prop} {ok : σ → α → Prop} {step : σ → α → Option σ}

theorem reaches_invariant {P : σ → Prop} (initial : ∀ s, start s → P s)
    (preserve : ∀ s a t, P s → ok s a → step s a = some t → P t)
    {s : σ} (h : Reaches start ok step s) : P s := by
  induction h with
  | start begins => exact initial _ begins
  | step _ admitted moved ih => exact preserve _ _ _ ih admitted moved

/-- The state after the inputs in order, if every one is admitted and the system moves. -/
def run (ok : σ → α → Prop) [∀ s a, Decidable (ok s a)] (step : σ → α → Option σ) :
    σ → List α → Option σ
  | s, [] => some s
  | s, a :: rest => if ok s a then (step s a).bind fun t => run ok step t rest else none

theorem run_reaches [∀ s a, Decidable (ok s a)] {s t : σ} {inputs : List α}
    (h : Reaches start ok step s) (ran : run ok step s inputs = some t) :
    Reaches start ok step t := by
  induction inputs generalizing s with
  | nil =>
    cases ran
    exact h
  | cons a rest ih =>
    unfold run at ran
    split at ran
    · rename_i admitted
      obtain ⟨next, moved, ran⟩ := Option.bind_eq_some_iff.mp ran
      exact ih (.step h admitted moved) ran
    · cases ran

end Library.Transition

import Mpx.Library.Transition

/-! # Counting the turns of a run

Some of the steps of a run are turns. A rank that no step raises and that every turn lowers bounds their number. -/

namespace Library.Ranking
open Library.Transition

variable {σ α : Type}

/-- A run in which `n` of the steps are turns. -/
inductive Turns (start : σ → Prop) (ok : σ → α → Prop) (step : σ → α → Option σ) (turn : σ → σ → Prop) :
    Nat → σ → Prop where
  | start {s : σ} : start s → Turns start ok step turn 0 s
  | turn {n : Nat} {s t : σ} {a : α} : Turns start ok step turn n s → ok s a → step s a = some t → turn s t →
      Turns start ok step turn (n + 1) t
  | other {n : Nat} {s t : σ} {a : α} : Turns start ok step turn n s → ok s a → step s a = some t → ¬turn s t →
      Turns start ok step turn n t

variable {start : σ → Prop} {ok : σ → α → Prop} {step : σ → α → Option σ} {turn : σ → σ → Prop} {s t : σ} {n : Nat}

theorem turns_invariant {P : σ → Prop} (initial : ∀ s, start s → P s)
    (preserve : ∀ s a t, P s → ok s a → step s a = some t → P t) (run : Turns start ok step turn n s) : P s := by
  induction run with
  | start begins => exact initial _ begins
  | turn _ admitted moved _ ih => exact preserve _ _ _ ih admitted moved
  | other _ admitted moved _ ih => exact preserve _ _ _ ih admitted moved

/-- What the turns have taken of the rank is not there any more. -/
theorem turns_rank {bound : Nat} (P : σ → Prop) (rank : σ → Nat) (initial : ∀ s, start s → P s ∧ rank s ≤ bound)
    (preserve : ∀ s a t, P s → ok s a → step s a = some t → P t)
    (keeps : ∀ s a t, P s → ok s a → step s a = some t → rank t ≤ rank s)
    (lowers : ∀ s a t, P s → ok s a → step s a = some t → turn s t → rank t < rank s)
    (run : Turns start ok step turn n s) : n + rank s ≤ bound := by
  have inv : ∀ {n s}, Turns start ok step turn n s → P s :=
    fun run => turns_invariant (fun s begins => (initial s begins).1) preserve run
  induction run with
  | start begins =>
    rw [Nat.zero_add]
    exact (initial _ begins).2
  | turn before admitted moved turned ih =>
    have less := lowers _ _ _ (inv before) admitted moved turned
    omega
  | other before admitted moved _ ih =>
    have le := keeps _ _ _ (inv before) admitted moved
    omega

/-- The number of turns and the state after the inputs in order. -/
def runTurns (ok : σ → α → Prop) [∀ s a, Decidable (ok s a)] (step : σ → α → Option σ) (turn : σ → σ → Prop)
    [∀ s t, Decidable (turn s t)] : Nat → σ → List α → Option (Nat × σ)
  | n, s, [] => some (n, s)
  | n, s, a :: rest =>
    if ok s a then (step s a).bind fun t => runTurns ok step turn (if turn s t then n + 1 else n) t rest else none

theorem runTurns_turns [∀ s a, Decidable (ok s a)] [∀ s t, Decidable (turn s t)] {inputs : List α} {m : Nat}
    (h : Turns start ok step turn n s) (ran : runTurns ok step turn n s inputs = some (m, t)) :
    Turns start ok step turn m t := by
  induction inputs generalizing n s with
  | nil =>
    cases ran
    exact h
  | cons a rest ih =>
    unfold runTurns at ran
    split at ran
    · rename_i admitted
      obtain ⟨next, moved, ran⟩ := Option.bind_eq_some_iff.mp ran
      by_cases turned : turn s next
      · rw [if_pos turned] at ran
        exact ih (.turn h admitted moved turned) ran
      · rw [if_neg turned] at ran
        exact ih (.other h admitted moved turned) ran
    · cases ran

/-! ### Ranks that count members -/

theorem length_lt_of_subset {l l' : List α} {x : α} (unique : l'.Nodup) (inside : l' ⊆ l) (member : x ∈ l)
    (gone : x ∉ l') : l'.length < l.length := by
  have distinct : (x :: l').Nodup := List.nodup_cons.mpr ⟨gone, unique⟩
  exact distinct.length_le_of_subset (List.cons_subset.mpr ⟨member, inside⟩)

end Library.Ranking

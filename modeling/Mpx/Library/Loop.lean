/-! # Loops that may stop

A loop of the source as a function of its fuel. Its body may stop the program with an error, and a loop that
runs out of fuel ends with the error `out`. -/

namespace Library.Loop

variable {σ ε : Type}

def loop (out : ε) (test : σ → Bool) (body : σ → Except ε σ) : Nat → σ → Except ε σ
  | 0, _ => .error out
  | fuel + 1, s => if test s then (body s).bind (loop out test body fuel) else .ok s

variable {out e : ε} {test : σ → Bool} {body : σ → Except ε σ} {fuel : Nat} {s t : σ}

theorem loop_exit (exit : test s = false) : loop out test body (fuel + 1) s = .ok s := by
  rw [loop, exit]
  rfl

theorem loop_turn (enter : test s = true) (turn : body s = .ok t) :
    loop out test body (fuel + 1) s = loop out test body fuel t := by
  rw [loop, enter, turn]
  rfl

theorem loop_error (enter : test s = true) (turn : body s = .error e) :
    loop out test body (fuel + 1) s = .error e := by
  rw [loop, enter, turn]
  rfl

/-- With an invariant, and a measure that every turn lowers, a loop ends, unless its body stops the program. -/
theorem loop_ends (out : ε) (test : σ → Bool) (body : σ → Except ε σ) (I : σ → Prop) (Q : ε → Prop) (measure : σ → Nat)
    (turns : ∀ s, I s → test s = true → (∃ t, body s = .ok t ∧ I t ∧ measure t < measure s) ∨
      ∃ e, body s = .error e ∧ Q e)
    (start : I s) :
    (∃ t, (∀ fuel, measure s < fuel → loop out test body fuel s = .ok t) ∧ I t ∧ test t = false) ∨
      ∃ e, (∀ fuel, measure s < fuel → loop out test body fuel s = .error e) ∧ Q e := by
  induction bound : measure s using Nat.strongRecOn generalizing s with
  | _ n ih =>
    subst bound
    cases enter : test s with
    | false =>
      refine .inl ⟨s, fun fuel enough => ?_, start, enter⟩
      obtain ⟨fuel, rfl⟩ := Nat.exists_eq_succ_of_ne_zero (Nat.ne_zero_of_lt enough)
      exact loop_exit enter
    | true =>
      rcases turns s start enter with ⟨t, turn, kept, lower⟩ | ⟨e, turn, stopped⟩
      · have longer : ∀ r, (∀ fuel, measure t < fuel → loop out test body fuel t = r) →
            ∀ fuel, measure s < fuel → loop out test body fuel s = r := by
          intro r rest fuel enough
          obtain ⟨fuel, rfl⟩ := Nat.exists_eq_succ_of_ne_zero (Nat.ne_zero_of_lt enough)
          exact (loop_turn enter turn).trans (rest fuel (by omega))
        rcases ih _ lower kept rfl with ⟨u, rest, last⟩ | ⟨e, rest, stopped⟩
        · exact .inl ⟨u, longer _ rest, last⟩
        · exact .inr ⟨e, longer _ rest, stopped⟩
      · refine .inr ⟨e, fun fuel enough => ?_, stopped⟩
        obtain ⟨fuel, rfl⟩ := Nat.exists_eq_succ_of_ne_zero (Nat.ne_zero_of_lt enough)
        exact loop_error enter turn

end Library.Loop

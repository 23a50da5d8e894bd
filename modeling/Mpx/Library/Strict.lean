import Mathlib.Logic.Function.Basic
import Mpx.Library.Transition

/-! # Strict evaluation

The kernel evaluates by need, and a state of functions that are updated again and again soon costs more to
look into than it should. Here a continuation is given a value only after it has been computed. -/

namespace Library.Strict
open Function Library.Transition

variable {β κ ν σ α : Type}

def strictNat (n : Nat) (f : Nat → β) : β :=
  match n with
  | 0 => f 0
  | n + 1 => f (n + 1)

def strictBool (b : Bool) (f : Bool → β) : β :=
  match b with
  | true => f true
  | false => f false

def strictWord (x : UInt32) (f : UInt32 → β) : β := strictNat x.toNat fun n => f (UInt32.ofNat n)

def strictList (strict : ν → (ν → β) → β) : List ν → (List ν → β) → β
  | [], f => f []
  | value :: rest, f => strict value fun value => strictList strict rest fun rest => f (value :: rest)

/-- A function with its values at the keys. -/
def strictAt [DecidableEq κ] (strict : ν → (ν → β) → β) : List κ → (κ → ν) → ((κ → ν) → β) → β
  | [], g, f => f g
  | key :: rest, g, f => strict (g key) fun value => strictAt strict rest (update g key value) f

/-- A run that computes each state before it goes on. -/
def strictRun (strict : σ → (σ → Option σ) → Option σ) (ok : σ → α → Prop) [∀ s a, Decidable (ok s a)]
    (step : σ → α → Option σ) : σ → List α → Option σ
  | s, [] => some s
  | s, a :: rest =>
    if ok s a then (step s a).bind fun t => strict t fun t => strictRun strict ok step t rest else none

@[simp] theorem strictNat_eq (n : Nat) (f : Nat → β) : strictNat n f = f n := by
  cases n <;> rfl

@[simp] theorem strictBool_eq (b : Bool) (f : Bool → β) : strictBool b f = f b := by
  cases b <;> rfl

@[simp] theorem strictWord_eq (x : UInt32) (f : UInt32 → β) : strictWord x f = f x := by
  unfold strictWord
  rw [strictNat_eq, UInt32.ofNat_toNat]

theorem strictList_eq {strict : ν → (ν → β) → β} (same : ∀ value f, strict value f = f value) (l : List ν)
    (f : List ν → β) : strictList strict l f = f l := by
  induction l generalizing f with
  | nil => rfl
  | cons value rest ih =>
    unfold strictList
    rw [same, ih]

theorem strictAt_eq [DecidableEq κ] {strict : ν → (ν → β) → β} (same : ∀ value f, strict value f = f value)
    (keys : List κ) (g : κ → ν) (f : (κ → ν) → β) : strictAt strict keys g f = f g := by
  induction keys generalizing g with
  | nil => rfl
  | cons key rest ih =>
    unfold strictAt
    rw [same, ih, update_eq_self]

theorem strictRun_eq {strict : σ → (σ → Option σ) → Option σ} (same : ∀ s f, strict s f = f s)
    {ok : σ → α → Prop} [∀ s a, Decidable (ok s a)] {step : σ → α → Option σ} (s : σ) (inputs : List α) :
    strictRun strict ok step s inputs = run ok step s inputs := by
  induction inputs generalizing s with
  | nil => rfl
  | cons a rest ih =>
    unfold strictRun run
    simp only [same, ih]

end Library.Strict

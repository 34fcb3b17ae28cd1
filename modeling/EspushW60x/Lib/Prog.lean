/-!
# State-passing programs

A program over states `σ` with results in `α` is a function from the state
before to the result and the state after. This module has the monad, the rules
by which a run is computed (`run_bind`, `run_pure`, `run_ite`), the embedding of
a program over one component of the state (`Prog.zoom`), and guarded repetition:
`Prog.repeatWhile` performs a step up to `n` times and stops when the step
reports failure.

`MayEnd` is for programs whose model goes on where the language gives no meaning:
it has the modelled end of a run that is defined, and every end of one that is not.
-/

namespace Lib

/-- A program over states `σ` with results in `α`. -/
def Prog (σ α : Type) : Type := σ → α × σ

namespace Prog

variable {σ τ α β : Type}

instance : Monad (Prog σ) where
  pure a := fun s => (a, s)
  bind x f := fun s => f (x s).1 (x s).2

/-- The result and the state after a run from `s`. -/
def run (x : Prog σ α) (s : σ) : α × σ := x s

/-- A program that only updates the state. -/
def modify (f : σ → σ) : Prog σ Unit := fun s => ((), f s)

/-- A program that only reads the state. -/
def read (f : σ → α) : Prog σ α := fun s => (f s, s)

/-- A program over one component of the state; the rest of it is unchanged. -/
def zoom (get : σ → τ) (set : τ → σ → σ) (x : Prog τ α) : Prog σ α :=
  fun s => ((x (get s)).1, set (x (get s)).2 s)

-- The rules are proved `by rfl`, not by the term `rfl`: `simp` then rewrites
-- inside the condition of an `if` together with its `Decidable` instance.

@[simp] theorem run_bind (x : Prog σ α) (f : α → Prog σ β) (s : σ) :
    (x >>= f).run s = (f (x.run s).1).run (x.run s).2 := by rfl

@[simp] theorem run_pure (a : α) (s : σ) : (pure a : Prog σ α).run s = (a, s) := by rfl

@[simp] theorem run_modify (f : σ → σ) (s : σ) : (modify f).run s = ((), f s) := by rfl

@[simp] theorem run_read (f : σ → α) (s : σ) : (read f).run s = (f s, s) := by rfl

@[simp] theorem run_ite (c : Prop) [Decidable c] (x y : Prog σ α) (s : σ) :
    (if c then x else y).run s = if c then x.run s else y.run s := by
  split <;> rfl

/-! ## Guarded repetition -/

/-- Perform `step` up to `n` times from `a`, each time from the value the last
one returned, and stop when it reports `false`. -/
def repeatWhile (step : α → Prog σ (Bool × α)) : Nat → α → Prog σ (Bool × α)
  | 0, a => pure (true, a)
  | n + 1, a => do
    let r ← step a
    if r.1 then repeatWhile step n r.2 else return r

@[simp] theorem run_repeatWhile_zero (step : α → Prog σ (Bool × α)) (a : α) (s : σ) :
    (repeatWhile step 0 a).run s = ((true, a), s) := by rfl

theorem run_repeatWhile_succ (step : α → Prog σ (Bool × α)) (n : Nat) (a : α) (s : σ) :
    (repeatWhile step (n + 1) a).run s =
      if ((step a).run s).1.1 then (repeatWhile step n ((step a).run s).1.2).run ((step a).run s).2
      else (step a).run s := by
  simp only [repeatWhile, run_bind, run_ite, run_pure]

/-- Invariant rule. `I k` holds after `k` steps when it holds at the start and
every step that reports success takes `I k` to `I (k + 1)`. -/
theorem repeatWhile_invariant (step : α → Prog σ (Bool × α)) (I : Nat → α → σ → Prop)
    (hstep : ∀ k a s, I k a s → ((step a).run s).1.1 = true →
      I (k + 1) ((step a).run s).1.2 ((step a).run s).2)
    {n k : Nat} {a : α} {s : σ} (h0 : I k a s)
    (hok : ((repeatWhile step n a).run s).1.1 = true) :
    I (k + n) ((repeatWhile step n a).run s).1.2 ((repeatWhile step n a).run s).2 := by
  induction n generalizing k a s with
  | zero => exact h0
  | succ n ih =>
    rw [run_repeatWhile_succ] at hok ⊢
    split at hok
    next hs =>
      rw [if_pos hs]
      have h := ih (hstep k a s h0 hs) hok
      rwa [Nat.add_right_comm] at h
    next hs => exact absurd hok hs

/-- A repetition goes on in `I`, or the step that reported failure led to `J`. -/
theorem repeatWhile_ends (step : α → Prog σ (Bool × α)) {I J : α → σ → Prop}
    (hgo : ∀ a s, I a s → ((step a).run s).1.1 = true → I ((step a).run s).1.2 ((step a).run s).2)
    (hend : ∀ a s, I a s → ((step a).run s).1.1 = false → J ((step a).run s).1.2 ((step a).run s).2)
    (n : Nat) {a : α} {s : σ} (h : I a s) :
    I ((repeatWhile step n a).run s).1.2 ((repeatWhile step n a).run s).2 ∨
      J ((repeatWhile step n a).run s).1.2 ((repeatWhile step n a).run s).2 := by
  induction n generalizing a s with
  | zero => exact .inl h
  | succ n ih =>
    rw [run_repeatWhile_succ]
    split
    next hs => exact ih (hgo a s h hs)
    next hs => exact .inr (hend a s h (Bool.eq_false_iff.mpr hs))

/-- A repetition of `n + 1` steps is one of `n` steps and one more. -/
theorem run_repeatWhile_add_one (step : α → Prog σ (Bool × α)) (n : Nat) (a : α) (s : σ) :
    (repeatWhile step (n + 1) a).run s =
      if ((repeatWhile step n a).run s).1.1 then
        (step ((repeatWhile step n a).run s).1.2).run ((repeatWhile step n a).run s).2
      else (repeatWhile step n a).run s := by
  induction n generalizing a s with
  | zero =>
    rw [run_repeatWhile_succ]
    split
    next h =>
      have he : ((step a).run s) = ((true, ((step a).run s).1.2), ((step a).run s).2) := by
        rw [← h]
      simpa using he.symm
    next => simp_all
  | succ n ih =>
    rw [run_repeatWhile_succ step (n + 1) a s, run_repeatWhile_succ step n a s]
    by_cases h : ((step a).run s).1.1 = true
    · simp only [h, if_true]
      exact ih _ _
    · simp [h]

end Prog

/-! ## Undefined runs -/

/-- The ends that a run with the modelled end `r` may have: `r` when it is defined, and
any otherwise. -/
inductive MayEnd {ρ : Type} (isDefined : Prop) (r : ρ) : ρ → Prop
  | modelled : isDefined → MayEnd isDefined r r
  | unknown (r' : ρ) : ¬ isDefined → MayEnd isDefined r r'

namespace MayEnd

variable {ρ : Type} {isDefined : Prop} {r r' : ρ}

/-- The modelled end is always one of them. -/
theorem self : MayEnd isDefined r r := by
  by_cases h : isDefined
  · exact .modelled h
  · exact .unknown r h

theorem eq_of_isDefined (h : MayEnd isDefined r r') (hdef : isDefined) : r' = r := by
  cases h with
  | modelled => rfl
  | unknown _ hno => exact absurd hdef hno

/-- A property that not every end has is had by all ends exactly when the run is defined
and its modelled end has it. -/
theorem forall_iff {P : ρ → Prop} (hP : ∃ x, ¬ P x) :
    (∀ x, MayEnd isDefined r x → P x) ↔ isDefined ∧ P r := by
  constructor
  · intro h
    refine ⟨Classical.byContradiction fun hno => ?_, h r self⟩
    obtain ⟨x, hx⟩ := hP
    exact hx (h x (.unknown x hno))
  · rintro ⟨hdef, hr⟩ x hx
    rw [hx.eq_of_isDefined hdef]
    exact hr

end MayEnd

end Lib

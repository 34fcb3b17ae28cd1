import EspushW60x.Lib.Prog

/-!
# A thread and its interrupt

A `Thread` is a program cut into atomic steps. An `Interrupt` may run its handler
between any two of them, and any number of times, while the state enables it. The
interleavings from a state are what `Reaches` relates.

`Safe safe t Q s` says that in every interleaving of `t` from `s` the handler runs in
states with `safe` only, and that `Q` holds when `t` ends. Its rules follow the shape of
`t`. An assertion that is to hold between two steps must be `Guarded`: the handler keeps
it, and it implies `safe`.

Results:
* `run_bind`, `run_atomic`: without the interrupt a thread is a state-passing program;
* `Safe.bind`, `safe_atomic`, `safe_of_keeps`, `safe_of_off`: the rules.
-/

namespace Lib

/-- A program over states `σ` with results in `α`, as a tree of atomic steps. -/
inductive Thread (σ : Type) (α : Type) : Type 1
  | pure (a : α)
  | step {β : Type} (p : Prog σ β) (next : β → Thread σ α)

namespace Thread

variable {σ α β γ : Type}

def bind : Thread σ α → (α → Thread σ β) → Thread σ β
  | .pure a, f => f a
  | .step p next, f => .step p fun b => (next b).bind f

instance : Monad (Thread σ) where
  pure := .pure
  bind := bind

/-- One atomic step. -/
def atomic (p : Prog σ β) : Thread σ β := .step p .pure

instance : MonadLift (Prog σ) (Thread σ) where
  monadLift := atomic

/-- The result and the state after a run that is not interrupted. -/
def run : Thread σ α → σ → α × σ
  | .pure a, s => (a, s)
  | .step p next, s => (next (p.run s).1).run (p.run s).2

@[simp] theorem run_pure (a : α) (s : σ) : (Pure.pure a : Thread σ α).run s = (a, s) := by rfl

@[simp] theorem run_atomic (p : Prog σ β) (s : σ) : (liftM p : Thread σ β).run s = p.run s := by rfl

@[simp] theorem run_bind (t : Thread σ α) (f : α → Thread σ β) (s : σ) :
    (t >>= f).run s = (f (t.run s).1).run (t.run s).2 := by
  induction t generalizing s with
  | pure a => rfl
  | step p next ih => exact ih _ _

@[simp] theorem run_ite (c : Prop) [Decidable c] (x y : Thread σ α) (s : σ) :
    (if c then x else y).run s = if c then x.run s else y.run s := by
  split <;> rfl

end Thread

/-! ## Interleavings -/

/-- A handler that may run while the state enables it. -/
structure Interrupt (σ : Type) where
  enabled : σ → Prop
  handler : Prog σ Unit

/-- The handler does not run. -/
def Interrupt.Off {σ : Type} (i : Interrupt σ) (s : σ) : Prop := ¬ i.enabled s

namespace Thread

variable {σ α β γ : Type}

/-- `Reaches i t s t' s'`: in some interleaving of `t` with `i` from `s`, the steps of
`t'` are left in the state `s'`. -/
inductive Reaches (i : Interrupt σ) (t : Thread σ α) (s : σ) : Thread σ α → σ → Prop
  | start : Reaches i t s t s
  | own {β : Type} {p : Prog σ β} {next : β → Thread σ α} {s' : σ} :
      Reaches i t s (.step p next) s' → Reaches i t s (next (p.run s').1) (p.run s').2
  | interrupt {t' : Thread σ α} {s' : σ} :
      Reaches i t s t' s' → i.enabled s' → Reaches i t s t' (i.handler.run s').2

/-- What is left, and the state, after up to `n` steps that are not interrupted. -/
def steps : Nat → Thread σ α → σ → Thread σ α × σ
  | n + 1, .step p next, s => steps n (next (p.run s).1) (p.run s).2
  | _, t, s => (t, s)

theorem Reaches.steps {i : Interrupt σ} {t₀ t : Thread σ α} {s₀ s : σ} (h : Reaches i t₀ s₀ t s)
    (n : Nat) : Reaches i t₀ s₀ (t.steps n s).1 (t.steps n s).2 := by
  induction n generalizing t s with
  | zero => cases t <;> exact h
  | succ n ih =>
    cases t with
    | pure a => exact h
    | step p next => exact ih h.own

/-- The handler runs in states with `safe` only, and `Q` holds at the end. -/
def Safe (i : Interrupt σ) (safe : σ → Prop) (t : Thread σ α) (Q : α → σ → Prop) (s : σ) : Prop :=
  ∀ t' s', Reaches i t s t' s' → (i.enabled s' → safe s') ∧ ∀ a, t' = .pure a → Q a s'

/-- An assertion that may hold between two steps. -/
structure Guarded (i : Interrupt σ) (safe : σ → Prop) (P : σ → Prop) : Prop where
  stable : ∀ s, P s → i.enabled s → P (i.handler.run s).2
  safe : ∀ s, P s → i.enabled s → safe s

/-- Every step of `t` keeps `P`, and the result has `R`. What is known of the result of
a step may be used for the steps after it. -/
inductive Keeps (P : σ → Prop) : Thread σ α → (α → Prop) → Prop
  | pure {a : α} {R : α → Prop} : R a → Keeps P (.pure a) R
  | step {β : Type} {p : Prog σ β} {next : β → Thread σ α} {R : α → Prop} (S : β → Prop) :
      (∀ s, P s → P (p.run s).2 ∧ S (p.run s).1) → (∀ b, S b → Keeps P (next b) R) →
      Keeps P (.step p next) R

namespace Keeps

variable {P : σ → Prop}

theorem bind {t : Thread σ α} {f : α → Thread σ β} {S : α → Prop} {R : β → Prop}
    (ht : Keeps P t S) (hf : ∀ a, S a → Keeps P (f a) R) : Keeps P (t >>= f) R := by
  induction ht with
  | pure ha => exact hf _ ha
  | step S' hp _ ih => exact .step S' hp fun b hb => ih b hb hf

theorem atomic {p : Prog σ β} {R : β → Prop} (h : ∀ s, P s → P (p.run s).2 ∧ R (p.run s).1) :
    Keeps P (liftM p : Thread σ β) R :=
  .step R h fun _ => .pure

theorem ite {c : Prop} [Decidable c] {x y : Thread σ α} {R : α → Prop} (hx : c → Keeps P x R)
    (hy : ¬ c → Keeps P y R) : Keeps P (if c then x else y) R := by
  split
  next h => exact hx h
  next h => exact hy h

end Keeps

/-! ## The rules -/

section Rules

variable {i : Interrupt σ} {safe : σ → Prop}

/-- An interleaving of a sequence ends in its first part, or has finished it. -/
theorem Reaches.of_bind {t : Thread σ α} {f : α → Thread σ β} {s s' : σ} {u : Thread σ β}
    (h : Reaches i (t >>= f) s u s') :
    (∃ t', Reaches i t s t' s' ∧ u = t' >>= f) ∨
      ∃ a s₁, Reaches i t s (.pure a) s₁ ∧ Reaches i (f a) s₁ u s' := by
  induction h with
  | start => exact .inl ⟨t, .start, rfl⟩
  | @own _ p next s' _ ih =>
    rcases ih with ⟨t', hr, heq⟩ | ⟨a, s₁, hr, hf⟩
    · cases t' with
      | pure a =>
        -- the first part is done: this is the first step of the second
        refine .inr ⟨a, s', hr, ?_⟩
        have hstart : Reaches i (f a) s' (.step p next) s' := by
          rw [heq]
          exact .start
        exact hstart.own
      | step q cont =>
        cases heq
        exact .inl ⟨_, hr.own, rfl⟩
    · exact .inr ⟨a, s₁, hr, hf.own⟩
  | interrupt _ hen ih =>
    rcases ih with ⟨t', hr, heq⟩ | ⟨a, s₁, hr, hf⟩
    · exact .inl ⟨t', hr.interrupt hen, heq⟩
    · exact .inr ⟨a, s₁, hr, hf.interrupt hen⟩

theorem Safe.bind {t : Thread σ α} {f : α → Thread σ β} {R : α → σ → Prop} {Q : β → σ → Prop}
    {s : σ} (ht : Safe i safe t R s) (hf : ∀ a s', R a s' → Safe i safe (f a) Q s') :
    Safe i safe (t >>= f) Q s := by
  intro u s' hr
  rcases hr.of_bind with ⟨t', ht', heq⟩ | ⟨a, s₁, ht', hf'⟩
  · refine ⟨(ht _ _ ht').1, fun b hb => ?_⟩
    cases t' with
    | pure a => exact (hf a s' ((ht _ _ ht').2 a rfl) _ _ .start).2 b (heq.symm.trans hb)
    | step =>
      rw [heq] at hb
      cases hb
  · exact hf a s₁ ((ht _ _ ht').2 a rfl) _ _ hf'

theorem Safe.mono {t : Thread σ α} {R Q : α → σ → Prop} {s : σ} (ht : Safe i safe t R s)
    (h : ∀ a s', R a s' → Q a s') : Safe i safe t Q s :=
  fun _ _ hr => ⟨(ht _ _ hr).1, fun a ha => h a _ ((ht _ _ hr).2 a ha)⟩

/-- Steps that keep a guarded assertion. -/
theorem safe_of_keeps {P : σ → Prop} {t : Thread σ α} {R : α → Prop} {s : σ}
    (hP : Guarded i safe P) (ht : Keeps P t R) (hs : P s) :
    Safe i safe t (fun a s' => P s' ∧ R a) s := by
  have hinv : ∀ t' s', Reaches i t s t' s' → P s' ∧ Keeps P t' R := by
    intro t' s' hr
    induction hr with
    | start => exact ⟨hs, ht⟩
    | own _ ih =>
      obtain ⟨hs', hk⟩ := ih
      cases hk with
      | step S hp hnext => exact ⟨(hp _ hs').1, hnext _ (hp _ hs').2⟩
    | interrupt _ hen ih => exact ⟨hP.stable _ ih.1 hen, ih.2⟩
  intro t' s' hr
  obtain ⟨hs', hk⟩ := hinv t' s' hr
  refine ⟨hP.safe _ hs', ?_⟩
  rintro a rfl
  cases hk with
  | pure ha => exact ⟨hs', ha⟩

/-- One step from one guarded assertion to another. -/
theorem safe_atomic {P : σ → Prop} {p : Prog σ β} {Q : β → σ → Prop} {s : σ}
    (hP : Guarded i safe P) (hQ : ∀ b, Guarded i safe (Q b))
    (hp : ∀ s, P s → Q (p.run s).1 (p.run s).2) (hs : P s) :
    Safe i safe (liftM p : Thread σ β) Q s := by
  have hinv : ∀ t' s', Reaches i (liftM p : Thread σ β) s t' s' →
      (t' = liftM p ∧ P s') ∨ ∃ b, t' = .pure b ∧ Q b s' := by
    intro t' s' hr
    induction hr with
    | start => exact .inl ⟨rfl, hs⟩
    | own _ ih =>
      rcases ih with ⟨heq, hs'⟩ | ⟨b, heq, _⟩
      · cases heq
        exact .inr ⟨_, rfl, hp _ hs'⟩
      · cases heq
    | interrupt _ hen ih =>
      rcases ih with ⟨heq, hs'⟩ | ⟨b, heq, hs'⟩
      · exact .inl ⟨heq, hP.stable _ hs' hen⟩
      · exact .inr ⟨b, heq, (hQ b).stable _ hs' hen⟩
  intro t' s' hr
  rcases hinv t' s' hr with ⟨rfl, hs'⟩ | ⟨b, rfl, hs'⟩
  · exact ⟨hP.safe _ hs', fun _ h => by cases h⟩
  · refine ⟨(hQ b).safe _ hs', ?_⟩
    rintro a ha
    cases ha
    exact hs'

theorem guarded_off : Guarded i safe i.Off :=
  ⟨fun _ hoff hen => absurd hen hoff, fun _ hoff hen => absurd hen hoff⟩

/-- Steps that never enable the interrupt run as if alone. -/
theorem safe_of_off {t : Thread σ α} {s : σ} (ht : Keeps i.Off t fun _ => True) (hs : i.Off s) :
    Safe i safe t (fun a s' => t.run s = (a, s') ∧ i.Off s') s := by
  have hinv : ∀ t' s', Reaches i t s t' s' →
      i.Off s' ∧ Keeps i.Off t' (fun _ => True) ∧ t.run s = t'.run s' := by
    intro t' s' hr
    induction hr with
    | start => exact ⟨hs, ht, rfl⟩
    | own _ ih =>
      obtain ⟨hs', hk, hrun⟩ := ih
      cases hk with
      | step S hp hnext => exact ⟨(hp _ hs').1, hnext _ (hp _ hs').2, hrun⟩
    | interrupt _ hen ih => exact absurd hen ih.1
  intro t' s' hr
  obtain ⟨hs', _, hrun⟩ := hinv t' s' hr
  refine ⟨fun hen => absurd hen hs', ?_⟩
  rintro a rfl
  exact ⟨hrun, hs'⟩

/-- One step that may enable the interrupt. -/
theorem safe_atomic_of_off {p : Prog σ β} {Q : β → σ → Prop} {s : σ}
    (hQ : ∀ b, Guarded i safe (Q b)) (hs : i.Off s) (hp : Q (p.run s).1 (p.run s).2) :
    Safe i safe (liftM p : Thread σ β) Q s := by
  have hP : Guarded i safe (· = s) := by
    constructor
    · rintro _ rfl hen
      exact absurd hen hs
    · rintro _ rfl hen
      exact absurd hen hs
  refine safe_atomic hP hQ ?_ rfl
  rintro _ rfl
  exact hp

end Rules

end Thread

end Lib

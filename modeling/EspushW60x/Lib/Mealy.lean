/-!
# Machines with outputs

A machine reads inputs one after another; at each of them it makes a step and puts out a
list.

Results:
* `outputs_eq_nil`: a machine that stays where it puts nothing out;
* `outputs_eq_of_simulation`: two machines that go on side by side put out the same.
-/

namespace Lib.Mealy

variable {σ τ α β : Type}

/-- A step: the state after an input, and what is put out. -/
abbrev Step (σ α β : Type) := σ → α → σ × List β

/-- All that is put out. -/
def outputs (step : Step σ α β) : σ → List α → List β
  | _, [] => []
  | s, a :: as => (step s a).2 ++ outputs step (step s a).1 as

/-- Nothing is put out in the states that have `I`, and no input leads out of them. -/
theorem outputs_eq_nil {step : Step σ α β} {I : σ → Prop} {A : α → Prop}
    (hstep : ∀ s a, I s → A a → (step s a).2 = [] ∧ I (step s a).1) {s : σ} (h : I s)
    {as : List α} (has : ∀ a ∈ as, A a) : outputs step s as = [] := by
  induction as generalizing s with
  | nil => rfl
  | cons a as ih =>
    obtain ⟨hnone, hkeep⟩ := hstep s a h (has a List.mem_cons_self)
    rw [outputs, hnone, ih hkeep fun b hb => has b (List.mem_cons_of_mem a hb)]
    rfl

/-- Related states put out the same at an input and its image, and lead to related ones. -/
theorem outputs_eq_of_simulation {α' : Type} (step : Step σ α β) (step' : Step τ α' β) (f : α → α')
    {R : σ → τ → Prop} {A : α → Prop}
    (hstep : ∀ s t a, R s t → A a →
      (step s a).2 = (step' t (f a)).2 ∧ R (step s a).1 (step' t (f a)).1)
    {s : σ} {t : τ} (h : R s t) {as : List α} (has : ∀ a ∈ as, A a) :
    outputs step s as = outputs step' t (as.map f) := by
  induction as generalizing s t with
  | nil => rfl
  | cons a as ih =>
    obtain ⟨hsame, hkeep⟩ := hstep s t a h (has a List.mem_cons_self)
    rw [List.map_cons, outputs, outputs, hsame,
      ih hkeep fun b hb => has b (List.mem_cons_of_mem a hb)]

/-! ## One machine behind another -/

/-- The outputs of the first machine are the inputs of the second. -/
def comp (first : σ → α → σ × β) {γ : Type} (second : Step τ β γ) : Step (σ × τ) α γ :=
  fun s a =>
    let r := first s.1 a
    let q := second s.2 r.2
    ((r.1, q.1), q.2)

/-- One output at each input. -/
def signal (first : σ → α → σ × β) : σ → List α → List β
  | _, [] => []
  | s, a :: as => (first s a).2 :: signal first (first s a).1 as

theorem outputs_comp (first : σ → α → σ × β) {γ : Type} (second : Step τ β γ) (s : σ) (t : τ)
    (as : List α) : outputs (comp first second) (s, t) as = outputs second t (signal first s as) := by
  induction as generalizing s t with
  | nil => rfl
  | cons a as ih =>
    rw [signal, outputs, outputs, ← ih]
    rfl

end Lib.Mealy

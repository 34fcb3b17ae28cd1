import EspushW60x.Lib.Prog

/-!
# Programs under a power supply

A program over states `σ` that may stop at any of its steps, for good. What it did
before is in the state that is left; a result there is only when it ran to its end.
-/

namespace Lib

/-- A program over states `σ` with results in `α`. The result is `none` when the
program stopped on the way. -/
def Powered (σ α : Type) : Type := σ → Option α × σ

namespace Powered

variable {σ τ α β : Type}

instance : Monad (Powered σ) where
  pure a := fun s => (some a, s)
  bind x f := fun s =>
    match x s with
    | (some a, s') => f a s'
    | (none, s') => (none, s')

def run (x : Powered σ α) (s : σ) : Option α × σ := x s

/-- The program goes no further. -/
def stop : Powered σ α := fun s => (none, s)

def modify (f : σ → σ) : Powered σ Unit := fun s => (some (), f s)

def read (f : σ → α) : Powered σ α := fun s => (some (f s), s)

/-- A program over one component of the state; the rest of it is unchanged. -/
def zoom (get : σ → τ) (set : τ → σ → σ) (x : Powered τ α) : Powered σ α :=
  fun s => ((x (get s)).1, set (x (get s)).2 s)

/-- A program that never stops. -/
instance : MonadLift (Prog σ) (Powered σ) where
  monadLift x := fun s => (some (x.run s).1, (x.run s).2)

theorem run_bind (x : Powered σ α) (f : α → Powered σ β) (s : σ) :
    (x >>= f).run s =
      match x.run s with
      | (some a, s') => (f a).run s'
      | (none, s') => (none, s') := by rfl

/-- The first program ran to its end. -/
theorem run_bind_some {x : Powered σ α} {s s' : σ} {a : α} (h : x.run s = (some a, s'))
    (f : α → Powered σ β) : (x >>= f).run s = (f a).run s' := by
  rw [run_bind, h]

/-- The first program stopped. -/
theorem run_bind_none {x : Powered σ α} {s s' : σ} (h : x.run s = (none, s'))
    (f : α → Powered σ β) : (x >>= f).run s = (none, s') := by
  rw [run_bind, h]

@[simp] theorem run_pure (a : α) (s : σ) : (pure a : Powered σ α).run s = (some a, s) := by rfl

@[simp] theorem run_stop (s : σ) : (stop : Powered σ α).run s = (none, s) := by rfl

@[simp] theorem run_modify (f : σ → σ) (s : σ) : (modify f).run s = (some (), f s) := by rfl

@[simp] theorem run_read (f : σ → α) (s : σ) : (read f).run s = (some (f s), s) := by rfl

@[simp] theorem run_modify_bind (f : σ → σ) (g : Unit → Powered σ β) (s : σ) :
    (modify f >>= g).run s = (g ()).run (f s) := by rfl

@[simp] theorem run_read_bind (f : σ → α) (g : α → Powered σ β) (s : σ) :
    (read f >>= g).run s = (g (f s)).run s := by rfl

@[simp] theorem run_pure_bind (a : α) (f : α → Powered σ β) (s : σ) :
    (pure a >>= f).run s = (f a).run s := by rfl

@[simp] theorem run_liftProg (x : Prog σ α) (s : σ) :
    (liftM x : Powered σ α).run s = (some (x.run s).1, (x.run s).2) := by rfl

@[simp] theorem run_liftProg_bind (x : Prog σ α) (f : α → Powered σ β) (s : σ) :
    ((liftM x : Powered σ α) >>= f).run s = (f (x.run s).1).run (x.run s).2 := by rfl

@[simp] theorem run_ite (c : Prop) [Decidable c] (x y : Powered σ α) (s : σ) :
    (if c then x else y).run s = if c then x.run s else y.run s := by
  split <;> rfl

end Powered

end Lib

/-!
# A bounded queue

A queue is a window on the sequence of all that was ever put in: what was taken out
is a prefix of it. A queue of capacity `cap` takes an offer whole or not at all.
-/

namespace Lib

variable {α : Type}

structure Queue (α : Type) where
  accepted : List α
  dropped : Nat
  dropped_le : dropped ≤ accepted.length

namespace Queue

def empty : Queue α := ⟨[], 0, Nat.le_refl 0⟩

/-- What was accepted and not yet dropped. -/
def items (q : Queue α) : List α := q.accepted.drop q.dropped

/-- Put `xs` in. -/
def put (q : Queue α) (xs : List α) : Queue α where
  accepted := q.accepted ++ xs
  dropped := q.dropped
  dropped_le := by
    rw [List.length_append]
    exact Nat.le_add_right_of_le q.dropped_le

/-- Take `n` elements out, or as many as there are. -/
def take (q : Queue α) (n : Nat) : Queue α where
  accepted := q.accepted
  dropped := min (q.dropped + n) q.accepted.length
  dropped_le := Nat.min_le_right _ _

theorem items_put (q : Queue α) (xs : List α) : (q.put xs).items = q.items ++ xs :=
  List.drop_append_of_le_length q.dropped_le

theorem items_take (q : Queue α) (n : Nat) : (q.take n).items = q.items.drop n := by
  show q.accepted.drop (min _ _) = (q.accepted.drop q.dropped).drop n
  rw [List.drop_drop]
  rcases Nat.le_total (q.dropped + n) q.accepted.length with h | h
  · rw [Nat.min_eq_left h]
  · rw [Nat.min_eq_right h, List.drop_length, List.drop_of_length_le h]

inductive Op (α : Type)
  | offer (xs : List α)
  | take (n : Nat)

/-- A queue of capacity `cap` rejects the operation. -/
def Rejects (cap : Nat) (q : Queue α) : Op α → Prop
  | .offer xs => cap < q.items.length + xs.length
  | .take _ => False

instance (cap : Nat) (q : Queue α) (op : Op α) : Decidable (q.Rejects cap op) := by
  cases op <;> unfold Rejects <;> infer_instance

/-- An operation on a queue of capacity `cap`. An offer that is rejected changes nothing. -/
def step (cap : Nat) (q : Queue α) : Op α → Queue α
  | .offer xs => if q.Rejects cap (.offer xs) then q else q.put xs
  | .take n => q.take n

theorem items_step_offer (cap : Nat) (q : Queue α) (xs : List α) :
    (q.step cap (.offer xs)).items =
      if q.Rejects cap (.offer xs) then q.items else q.items ++ xs := by
  show (if q.Rejects cap (.offer xs) then q else q.put xs).items = _
  split
  · rfl
  · exact items_put q xs

end Queue

end Lib

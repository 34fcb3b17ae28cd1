/-!
# A server that takes one customer per slot

`arrived j` customers have arrived by the end of slot `j`. In each slot the
server takes one waiting customer, if there is one. `served arrived j` is the
number taken in the first `j` slots. The recursion has a closed form: it is the
smallest of the values `arrived i + (j - i)` over the slots `i ≤ j`
(`le_served_iff`, `exists_served_eq`). So every customer is served at the end
exactly when no final stretch of slots brings more customers than it has slots
(`served_eq_total_iff`).
-/

namespace Lib

/-- The number of customers taken in the first `j` slots. -/
def served (arrived : Nat → Nat) : Nat → Nat
  | 0 => 0
  | j + 1 =>
    if served arrived j < arrived (j + 1) then served arrived j + 1 else served arrived j

variable {arrived : Nat → Nat}

theorem served_le_arrived (hmono : ∀ j, arrived j ≤ arrived (j + 1)) (j : Nat) :
    served arrived j ≤ arrived j := by
  induction j with
  | zero => exact Nat.zero_le _
  | succ j ih =>
    have := hmono j
    unfold served
    split <;> omega

/-- The server is never ahead of any slot's arrivals by more than the slots since. -/
theorem served_le (hmono : ∀ j, arrived j ≤ arrived (j + 1)) {i j : Nat} (hij : i ≤ j) :
    served arrived j ≤ arrived i + (j - i) := by
  induction j with
  | zero =>
    obtain rfl : i = 0 := Nat.le_zero.mp hij
    exact Nat.zero_le _
  | succ j ih =>
    rcases Nat.le_succ_iff.mp hij with h | rfl
    · have := ih h
      unfold served
      split <;> omega
    · exact Nat.le_trans (served_le_arrived hmono (j + 1)) (Nat.le_add_right _ _)

/-- Some slot attains the bound of `served_le`. -/
theorem exists_served_eq (hzero : arrived 0 = 0) (hmono : ∀ j, arrived j ≤ arrived (j + 1))
    (j : Nat) : ∃ i, i ≤ j ∧ served arrived j = arrived i + (j - i) := by
  induction j with
  | zero => exact ⟨0, Nat.le_refl 0, by simp [served, hzero]⟩
  | succ j ih =>
    obtain ⟨i, hi, he⟩ := ih
    by_cases h : served arrived j < arrived (j + 1)
    · refine ⟨i, Nat.le_succ_of_le hi, ?_⟩
      rw [served, if_pos h]
      omega
    · have h1 := served_le_arrived hmono j
      have h2 := hmono j
      refine ⟨j + 1, Nat.le_refl _, ?_⟩
      rw [served, if_neg h]
      omega

/-- Closed form of `served`, as a lower bound. -/
theorem le_served_iff (hzero : arrived 0 = 0) (hmono : ∀ j, arrived j ≤ arrived (j + 1))
    {j k : Nat} : k ≤ served arrived j ↔ ∀ i, i ≤ j → k ≤ arrived i + (j - i) := by
  constructor
  · intro h i hi
    exact Nat.le_trans h (served_le hmono hi)
  · intro h
    obtain ⟨i, hi, he⟩ := exists_served_eq hzero hmono j
    rw [he]
    exact h i hi

/-- All `n` customers are served after `j` slots exactly when every final
stretch of slots has at least as many slots as customers still to arrive. -/
theorem served_eq_total_iff (hzero : arrived 0 = 0) (hmono : ∀ j, arrived j ≤ arrived (j + 1))
    {j n : Nat} (hn : arrived j = n) :
    served arrived j = n ↔ ∀ i, i ≤ j → n ≤ arrived i + (j - i) := by
  rw [← le_served_iff hzero hmono]
  have := served_le_arrived hmono j
  omega

end Lib

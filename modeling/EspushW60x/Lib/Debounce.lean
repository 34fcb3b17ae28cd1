import EspushW60x.Lib.Mealy

/-!
# Debouncing by counting

A signal follows its samples when `n` of them differed from it. The samples need not come
one after another: one that agrees with the signal does not start the count again.

Results:
* `signal_scattered`: samples that differ now and then add up;
* `signal_constant`, `signal_change`: samples that agree, and samples that differ in a row.
-/

namespace Lib

/-- The signal, and how many samples differed from it since it changed. -/
structure Debounce where
  level : Bool
  count : Nat
deriving DecidableEq

namespace Debounce

/-- A sample, and the signal after it. -/
def next (n : Nat) (d : Debounce) (b : Bool) : Debounce × Bool :=
  if b = d.level then (d, d.level)
  else if n ≤ d.count + 1 then (⟨b, 0⟩, b)
  else (⟨d.level, d.count + 1⟩, d.level)

section

variable {n k : Nat} {d : Debounce} {b : Bool}

theorem next_same (h : b = d.level) : next n d b = (d, d.level) := if_pos h

theorem next_settles (h : b ≠ d.level) (hcount : n ≤ d.count + 1) : next n d b = (⟨b, 0⟩, b) := by
  rw [next, if_neg h, if_pos hcount]

theorem next_waits (h : b ≠ d.level) (hcount : d.count + 1 < n) :
    next n d b = (⟨d.level, d.count + 1⟩, d.level) := by
  rw [next, if_neg h, if_neg (Nat.not_le.mpr hcount)]

end

section

variable {n c : Nat} {b : Bool}

/-- The signal stays where it is until `n` samples differed, wherever they stand. -/
theorem signal_scattered (as bs : List Bool) (h : c + as.count (!b) < n) :
    Mealy.signal (next n) ⟨b, c⟩ (as ++ bs) =
      List.replicate as.length b ++ Mealy.signal (next n) ⟨b, c + as.count (!b)⟩ bs := by
  induction as generalizing c with
  | nil => rfl
  | cons a as ih =>
    rw [List.cons_append, Mealy.signal, List.length_cons, List.replicate_succ]
    by_cases hsame : a = b
    · have hcount : (a :: as).count (!b) = as.count (!b) := List.count_cons_of_ne (by simp [hsame])
      rw [hcount] at h ⊢
      rw [next_same hsame, ih h]
      rfl
    · obtain rfl : a = !b := by cases a <;> cases b <;> simp_all
      rw [List.count_cons_self] at h ⊢
      have hwait : next n ⟨b, c⟩ (!b) = (⟨b, c + 1⟩, b) := next_waits hsame (show c + 1 < n by omega)
      rw [hwait, ih (by omega), Nat.add_assoc, Nat.add_comm 1]
      rfl

/-- The last of the samples that differ. -/
theorem signal_settles (h : n ≤ c + 1) (bs : List Bool) :
    Mealy.signal (next n) ⟨b, c⟩ ((!b) :: bs) = (!b) :: Mealy.signal (next n) ⟨!b, 0⟩ bs := by
  rw [Mealy.signal, next_settles (by simp) h]

/-- The signal stays where it is while the samples agree with it. -/
theorem signal_constant (hn : 0 < n) (k : Nat) (bs : List Bool) :
    Mealy.signal (next n) ⟨b, 0⟩ (List.replicate k b ++ bs) =
      List.replicate k b ++ Mealy.signal (next n) ⟨b, 0⟩ bs := by
  have hnone : (List.replicate k b).count (!b) = 0 := by
    rw [List.count_eq_zero]
    intro hmem
    exact absurd (List.eq_of_mem_replicate hmem) (by simp)
  have h := signal_scattered (c := 0) (b := b) (List.replicate k b) bs (by rw [hnone]; exact hn)
  rwa [hnone, List.length_replicate] at h

/-- The signal follows the last of `n + 1` samples that differ in a row. -/
theorem signal_change (n k : Nat) (b : Bool) (bs : List Bool) :
    Mealy.signal (next (n + 1)) ⟨b, 0⟩ (List.replicate (n + 1 + k) (!b) ++ bs) =
      List.replicate n b ++ (List.replicate (k + 1) (!b) ++ Mealy.signal (next (n + 1)) ⟨!b, 0⟩ bs) := by
  have hall : (List.replicate n (!b)).count (!b) = n := List.count_replicate_self
  have hsplit : List.replicate (n + 1 + k) (!b) ++ bs =
      List.replicate n (!b) ++ ((!b) :: (List.replicate k (!b) ++ bs)) := by
    rw [show n + 1 + k = n + (k + 1) by omega, ← List.replicate_append_replicate,
      List.replicate_succ, List.append_assoc]
    rfl
  rw [hsplit, signal_scattered _ _ (by rw [hall]; omega), hall, List.length_replicate, Nat.zero_add,
    signal_settles (Nat.le_refl _), signal_constant (Nat.succ_pos n), List.replicate_succ]
  rfl

end

end Debounce

end Lib

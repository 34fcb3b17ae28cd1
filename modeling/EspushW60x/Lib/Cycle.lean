/-!
# A two-phase signal

A signal is high for `a` ticks, then low for `b` ticks, and so on. Its state is the
phase and the number of ticks spent in it, which is below the length of the phase.

Results:
* `position_next`: a tick moves the signal on by one place in its period;
* `high_after`: after `n` ticks the signal is high exactly when `n` modulo the
  period is below `a`.
-/

namespace Lib

structure Cycle (a b : Nat) where
  high : Bool
  tick : Nat
  tick_lt : tick < if high then a else b

namespace Cycle

variable {a b : Nat}

/-- The first tick of the high phase. -/
def start (ha : 0 < a) : Cycle a b := ⟨true, 0, ha⟩

/-- One tick: the phase goes on, or the other one starts. -/
def next (ha : 0 < a) (hb : 0 < b) (c : Cycle a b) : Cycle a b :=
  if h : c.tick + 1 < if c.high then a else b then ⟨c.high, c.tick + 1, h⟩
  else ⟨!c.high, 0, by cases c.high <;> assumption⟩

def after (ha : 0 < a) (hb : 0 < b) : Nat → Cycle a b
  | 0 => start ha
  | n + 1 => (after ha hb n).next ha hb

/-- The place in the period of `a + b` ticks. -/
def position (c : Cycle a b) : Nat := if c.high then c.tick else a + c.tick

theorem high_iff_position (c : Cycle a b) : c.high = true ↔ c.position < a := by
  have h := c.tick_lt
  unfold position
  cases hc : c.high with
  | true =>
    rw [hc] at h
    exact iff_of_true rfl h
  | false => exact iff_of_false Bool.false_ne_true (Nat.not_lt.mpr (Nat.le_add_right _ _))

/-- The phase goes on. -/
theorem next_of_lt (ha : 0 < a) (hb : 0 < b) {c : Cycle a b}
    (h : c.tick + 1 < if c.high then a else b) :
    (c.next ha hb).high = c.high ∧ (c.next ha hb).tick = c.tick + 1 := by
  rw [next, dif_pos h]
  exact ⟨rfl, rfl⟩

/-- The other phase starts. -/
theorem next_of_le (ha : 0 < a) (hb : 0 < b) {c : Cycle a b}
    (h : (if c.high then a else b) ≤ c.tick + 1) :
    (c.next ha hb).high = !c.high ∧ (c.next ha hb).tick = 0 := by
  rw [next, dif_neg (Nat.not_lt.mpr h)]
  exact ⟨rfl, rfl⟩

theorem position_next (ha : 0 < a) (hb : 0 < b) (c : Cycle a b) :
    (c.next ha hb).position = (c.position + 1) % (a + b) := by
  have h := c.tick_lt
  rcases Nat.lt_or_ge (c.tick + 1) (if c.high then a else b) with hgo | hstop
  · obtain ⟨hhigh, htick⟩ := next_of_lt ha hb hgo
    rw [position, position, hhigh, htick]
    cases hc : c.high with
    | true =>
      rw [hc] at hgo
      exact (Nat.mod_eq_of_lt (Nat.lt_add_right b hgo)).symm
    | false =>
      rw [hc] at hgo
      exact (Nat.mod_eq_of_lt (Nat.add_lt_add_left hgo a)).symm
  · obtain ⟨hhigh, htick⟩ := next_of_le ha hb hstop
    rw [position, position, hhigh, htick]
    cases hc : c.high with
    | true =>
      rw [hc] at h hstop
      have hend : c.tick + 1 = a := Nat.le_antisymm h hstop
      show a + 0 = (c.tick + 1) % (a + b)
      rw [hend, Nat.mod_eq_of_lt (Nat.lt_add_of_pos_right hb), Nat.add_zero]
    | false =>
      rw [hc] at h hstop
      have hend : c.tick + 1 = b := Nat.le_antisymm h hstop
      show 0 = (a + c.tick + 1) % (a + b)
      rw [Nat.add_assoc, hend, Nat.mod_self]

theorem position_after (ha : 0 < a) (hb : 0 < b) (n : Nat) :
    (after ha hb n).position = n % (a + b) := by
  induction n with
  | zero => exact (Nat.zero_mod _).symm
  | succ n ih => rw [after, position_next, ih, Nat.mod_add_mod]

/-- After `n` ticks the signal is high exactly when `n` modulo the period is below `a`. -/
theorem high_after (ha : 0 < a) (hb : 0 < b) (n : Nat) :
    (after ha hb n).high = true ↔ n % (a + b) < a := by
  rw [high_iff_position, position_after]

end Cycle

end Lib

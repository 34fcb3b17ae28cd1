import EspushW60x.Lib.Hex

/-!
# Decimal text

The digits of a number, and the number of a text that begins with digits.

Results:
* `read_text`: what was written is read back, whatever follows it;
* `text_ne_nil`, `isDigit_text`, `length_text_mono`: what the text looks like.
-/

namespace Lib.Decimal

/-- `0` to `9`. -/
def IsDigit (c : UInt8) : Prop := 48 ≤ c ∧ c ≤ 57

instance (c : UInt8) : Decidable (IsDigit c) := inferInstanceAs (Decidable (_ ∧ _))

/-- The digit of a number below 10. -/
def digit (n : Nat) : UInt8 := UInt8.ofNat (48 + n)

/-- The digits of a number, the highest first. -/
def text (n : Nat) : List UInt8 := if n < 10 then [digit n] else text (n / 10) ++ [digit (n % 10)]

/-- The number that begins with `acc` and goes on with the digits of the text, up to the
first character that is none. -/
def read : List UInt8 → Nat → Nat
  | [], acc => acc
  | c :: rest, acc => if IsDigit c then read rest (acc * 10 + (c.toNat - 48)) else acc

theorem digit_spec {n : Nat} (h : n < 10) : IsDigit (digit n) ∧ (digit n).toNat - 48 = n := by
  have hall : ∀ n, n < 10 → IsDigit (digit n) ∧ (digit n).toNat - 48 = n := by decide
  exact hall n h

theorem isDigit_text (n : Nat) : ∀ c ∈ text n, IsDigit c := by
  induction n using text.induct with
  | case1 n h =>
    rw [text, if_pos h]
    intro c hc
    rw [List.mem_singleton.mp hc]
    exact (digit_spec h).1
  | case2 n h ih =>
    rw [text, if_neg h]
    intro c hc
    rcases List.mem_append.mp hc with hc | hc
    · exact ih c hc
    · rw [List.mem_singleton.mp hc]
      exact (digit_spec (Nat.mod_lt n (by decide))).1

theorem text_ne_nil (n : Nat) : text n ≠ [] := by
  rw [text]
  split <;> simp

/-- A larger number has as many digits or more. -/
theorem length_text_mono {m n : Nat} (h : m ≤ n) : (text m).length ≤ (text n).length := by
  induction n using text.induct generalizing m with
  | case1 n hn =>
    have hm : m < 10 := Nat.lt_of_le_of_lt h hn
    rw [text.eq_1 m, text.eq_1 n, if_pos hm, if_pos hn]
    exact Nat.le_refl 1
  | case2 n hn ih =>
    rw [text.eq_1 m, text.eq_1 n, if_neg hn]
    split
    · rw [List.length_append]
      exact Nat.le_add_left 1 _
    · rw [List.length_append, List.length_append]
      exact Nat.add_le_add_right (ih (Nat.div_le_div_right h)) 1

theorem read_cons {c : UInt8} (h : IsDigit c) (rest : List UInt8) (acc : Nat) :
    read (c :: rest) acc = read rest (acc * 10 + (c.toNat - 48)) := if_pos h

/-- The digits that were written are read, and the reading goes on behind them. -/
theorem read_append (n : Nat) (rest : List UInt8) : read (text n ++ rest) 0 = read rest n := by
  induction n using text.induct generalizing rest with
  | case1 n h =>
    rw [text, if_pos h, List.singleton_append, read_cons (digit_spec h).1, (digit_spec h).2,
      Nat.zero_mul, Nat.zero_add]
  | case2 n h ih =>
    have hlast := digit_spec (Nat.mod_lt n (show 0 < 10 by decide))
    have hn : n / 10 * 10 + n % 10 = n := by omega
    rw [text, if_neg h, List.append_assoc, ih, List.singleton_append, read_cons hlast.1, hlast.2, hn]

theorem read_text (n : Nat) : read (text n) 0 = n := by
  have h := read_append n []
  rwa [List.append_nil] at h

end Lib.Decimal

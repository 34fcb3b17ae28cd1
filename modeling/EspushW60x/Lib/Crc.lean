/-!
# Reflected cyclic redundancy checks

A register of `w` bits is shifted right, and the polynomial `p` is added whenever a
one falls out. A byte is added to the low end of the register and shifted through.

Results:
* `feedByte_eq_table`: a byte at a time with a table of 256 words;
* `feed_inj`: a register can be traced back through any text;
* `feed_ne_of_burst`: two texts that differ only inside a window no wider than the
  register leave different registers.
-/

namespace Lib.Crc

section

variable {w : Nat}

/-! ## One bit -/

/-- Shift one bit out of the register. -/
def shift (p c : BitVec w) : BitVec w := if c.getLsbD 0 then (c >>> 1) ^^^ p else c >>> 1

/-- Shift `n` bits out of the register. -/
def shifts (p : BitVec w) : Nat → BitVec w → BitVec w
  | 0, c => c
  | n + 1, c => shifts p n (shift p c)

theorem shift_xor (p c d : BitVec w) : shift p (c ^^^ d) = shift p c ^^^ shift p d := by
  have hcancel : ∀ x y : BitVec w, x ^^^ p ^^^ (y ^^^ p) = x ^^^ y := by
    intro x y
    rw [BitVec.xor_assoc x p, ← BitVec.xor_assoc p y, BitVec.xor_comm p y, BitVec.xor_assoc y,
      BitVec.xor_self, BitVec.xor_zero]
  unfold shift
  rw [BitVec.getLsbD_xor, BitVec.ushiftRight_xor_distrib]
  cases c.getLsbD 0 with
  | false =>
    cases d.getLsbD 0 with
    | false => rfl
    | true => exact BitVec.xor_assoc _ _ _
  | true =>
    cases d.getLsbD 0 with
    | false =>
      show _ ^^^ _ ^^^ p = (c >>> 1 ^^^ p) ^^^ d >>> 1
      rw [BitVec.xor_assoc, BitVec.xor_comm (d >>> 1) p, ← BitVec.xor_assoc]
    | true => exact (hcancel _ _).symm

theorem shifts_xor (p : BitVec w) (n : Nat) (c d : BitVec w) :
    shifts p n (c ^^^ d) = shifts p n c ^^^ shifts p n d := by
  induction n generalizing c d with
  | zero => rfl
  | succ n ih => rw [shifts, shift_xor, ih, shifts, shifts]

/-- A register whose low bits are clear moves down by them. -/
theorem shifts_of_low_clear (p : BitVec w) (n : Nat) {c : BitVec w}
    (h : ∀ i, i < n → c.getLsbD i = false) : shifts p n c = c >>> n := by
  induction n generalizing c with
  | zero => simp [shifts]
  | succ n ih =>
    have hshift : shift p c = c >>> 1 := by
      simp [shift, h 0 (Nat.succ_pos n)]
    have hlow : ∀ i, i < n → (c >>> 1).getLsbD i = false := by
      intro i hi
      rw [BitVec.getLsbD_ushiftRight]
      exact h (1 + i) (by omega)
    rw [shifts, hshift, ih hlow, ← BitVec.shiftRight_add, Nat.add_comm]

/-- The top bit of the register says whether the polynomial was added, when it has its
top bit set. -/
theorem shift_inj {p c d : BitVec w} (hp : p.msb = true) (h : shift p c = shift p d) : c = d := by
  have hmsb : ∀ x : BitVec w, (shift p x).msb = x.getLsbD 0 := by
    intro x
    have hx : (x >>> 1).msb = false := by
      simp [BitVec.msb_ushiftRight]
    unfold shift
    cases x.getLsbD 0 with
    | false => exact hx
    | true =>
      show (_ ^^^ p).msb = true
      rw [BitVec.msb_xor, hx, hp]
      rfl
  have hlow : c.getLsbD 0 = d.getLsbD 0 := by rw [← hmsb c, ← hmsb d, h]
  have hhigh : c >>> 1 = d >>> 1 := by
    unfold shift at h
    rw [hlow] at h
    cases hd : d.getLsbD 0 with
    | false =>
      rw [hd] at h
      exact h
    | true =>
      rw [hd] at h
      exact (BitVec.xor_left_inj _).mp h
  apply BitVec.eq_of_getLsbD_eq
  intro i _
  cases i with
  | zero => exact hlow
  | succ i =>
    have hi := congrArg (fun x : BitVec w => x.getLsbD i) hhigh
    simpa only [BitVec.getLsbD_ushiftRight, Nat.add_comm 1 i] using hi

theorem shifts_inj {p : BitVec w} (hp : p.msb = true) (n : Nat) {c d : BitVec w}
    (h : shifts p n c = shifts p n d) : c = d := by
  induction n generalizing c d with
  | zero => exact h
  | succ n ih => exact shift_inj hp (ih h)

/-! ## One byte -/

/-- A byte at the low end of a register. -/
def low (w : Nat) (b : UInt8) : BitVec w := b.toBitVec.setWidth w

def feedByte (p c : BitVec w) (b : UInt8) : BitVec w := shifts p 8 (c ^^^ low w b)

/-- The register after the bytes `bs`. -/
def feed (p c : BitVec w) (bs : List UInt8) : BitVec w := bs.foldl (feedByte p) c

theorem feed_append (p c : BitVec w) (as bs : List UInt8) :
    feed p c (as ++ bs) = feed p (feed p c as) bs :=
  List.foldl_append

theorem getLsbD_low (b : UInt8) (i : Nat) : (low w b).getLsbD i = (decide (i < w) && b.toBitVec.getLsbD i) := by
  rw [low, BitVec.getLsbD_setWidth]

/-- The low byte of the register is looked up, the rest of it moves down. -/
theorem feedByte_eq_table (p c : BitVec w) (b : UInt8) :
    feedByte p c b = shifts p 8 ((c ^^^ low w b) &&& low w 0xFF) ^^^ (c >>> 8) := by
  have hff : ∀ i, (0xFF : UInt8).toBitVec.getLsbD i = decide (i < 8) := by
    intro i
    by_cases hi : i < 8
    · have hall : ∀ i, i < 8 → (0xFF : UInt8).toBitVec.getLsbD i = true := by decide
      rw [hall i hi, decide_eq_true hi]
    · rw [BitVec.getLsbD_of_ge _ _ (Nat.not_lt.mp hi), decide_eq_false hi]
  have hsplit : c ^^^ low w b =
      ((c ^^^ low w b) &&& low w 0xFF) ^^^ ((c ^^^ low w b) &&& ~~~ low w 0xFF) := by
    apply BitVec.eq_of_getLsbD_eq
    intro i hi
    simp only [BitVec.getLsbD_xor, BitVec.getLsbD_and, BitVec.getLsbD_not, getLsbD_low, hi, hff]
    cases decide (i < 8) <;> simp
  have hclear : ∀ i, i < 8 → ((c ^^^ low w b) &&& ~~~ low w 0xFF).getLsbD i = false := by
    intro i hi
    simp only [BitVec.getLsbD_and, BitVec.getLsbD_not, getLsbD_low, hff, hi]
    cases decide (i < w) <;> simp
  have hrest : ((c ^^^ low w b) &&& ~~~ low w 0xFF) >>> 8 = c >>> 8 := by
    apply BitVec.eq_of_getLsbD_eq
    intro i hi
    have hb : b.toBitVec.getLsbD (8 + i) = false := BitVec.getLsbD_of_ge _ _ (Nat.le_add_right 8 i)
    simp only [BitVec.getLsbD_ushiftRight, BitVec.getLsbD_and, BitVec.getLsbD_xor,
      BitVec.getLsbD_not, getLsbD_low, hff, hb, Nat.not_lt.mpr (Nat.le_add_right 8 i)]
    by_cases hw : 8 + i < w
    · simp [hw]
    · simp [hw, BitVec.getLsbD_of_ge c (8 + i) (Nat.not_lt.mp hw)]
  rw [feedByte, hsplit, shifts_xor, shifts_of_low_clear p 8 hclear, hrest, ← hsplit]

theorem feedByte_inj {p c d : BitVec w} (hp : p.msb = true) {b : UInt8}
    (h : feedByte p c b = feedByte p d b) : c = d :=
  (BitVec.xor_left_inj _).mp (shifts_inj hp 8 h)

/-- A register can be traced back through any text. -/
theorem feed_inj {p c d : BitVec w} (hp : p.msb = true) {bs : List UInt8}
    (h : feed p c bs = feed p d bs) : c = d := by
  induction bs generalizing c d with
  | nil => exact h
  | cons b bs ih => exact feedByte_inj hp (ih h)

/-! ## Bursts -/

/-- Only the low `n` bits are set. -/
def Below (n : Nat) (c : BitVec w) : Prop := ∀ i, n ≤ i → c.getLsbD i = false

theorem Below.mono {c : BitVec w} {n k : Nat} (h : Below n c) (hle : n ≤ k) : Below k c :=
  fun i hi => h i (Nat.le_trans hle hi)

theorem Below.xor {c d : BitVec w} {n : Nat} (hc : Below n c) (hd : Below n d) :
    Below n (c ^^^ d) := by
  intro i hi
  rw [BitVec.getLsbD_xor, hc i hi, hd i hi]
  rfl

theorem below_low (b : UInt8) : Below 8 (low w b) := by
  intro i hi
  rw [low, BitVec.getLsbD_setWidth, BitVec.getLsbD_of_ge _ i hi, Bool.and_false]

theorem Below.shiftLeft {v : BitVec w} {n : Nat} (h : Below n v) : Below (n + 8) (v <<< 8) := by
  intro i hi
  rw [BitVec.getLsbD_shiftLeft, h (i - 8) (by omega), Bool.and_false]

/-- Eight shifts that end in a small number pushed eight zeros out. -/
theorem eq_shiftLeft_of_shifts {p u : BitVec w} (hp : p.msb = true) {n : Nat} (hn : n + 8 ≤ w)
    (h : Below n (shifts p 8 u)) : u = shifts p 8 u <<< 8 := by
  generalize hv : shifts p 8 u = v at h
  have hlow : ∀ i, i < 8 → (v <<< 8).getLsbD i = false := by
    intro i hi
    simp [BitVec.getLsbD_shiftLeft, hi]
  have hback : v <<< 8 >>> 8 = v := by
    apply BitVec.eq_of_getLsbD_eq
    intro i hi
    rw [BitVec.getLsbD_ushiftRight, BitVec.getLsbD_shiftLeft]
    by_cases hfit : 8 + i < w
    · simp [hfit]
    · rw [h i (by omega)]
      simp [hfit]
  refine shifts_inj hp 8 ?_
  rw [hv, shifts_of_low_clear p 8 hlow, hback]

/-- Registers that two texts of `n` bytes lead to one register differ in their low `n`
bytes only. -/
theorem xor_below_of_feed_eq {p c d : BitVec w} (hp : p.msb = true) {xs ys : List UInt8}
    (hlen : xs.length = ys.length) (hw : 8 * xs.length ≤ w) (h : feed p c xs = feed p d ys) :
    Below (8 * xs.length) (c ^^^ d) := by
  induction xs generalizing c d ys with
  | nil =>
    obtain rfl := List.eq_nil_of_length_eq_zero hlen.symm
    obtain rfl : c = d := h
    intro i _
    simp
  | cons x xs ih =>
    obtain _ | ⟨y, ys⟩ := ys
    · cases hlen
    · rw [List.length_cons] at hw
      have hrest := ih (Nat.succ.inj hlen) (by omega) h
      rw [feedByte, feedByte, ← shifts_xor] at hrest
      have hu := Below.shiftLeft hrest
      rw [← eq_shiftLeft_of_shifts hp (by omega) hrest] at hu
      have hlow := ((below_low x).xor (below_low (w := w) y)).mono
        (show 8 ≤ 8 * xs.length + 8 by omega)
      have hcd : c ^^^ d = (c ^^^ low w x ^^^ (d ^^^ low w y)) ^^^ (low w x ^^^ low w y) := by
        apply BitVec.eq_of_getLsbD_eq
        intro i _
        simp only [BitVec.getLsbD_xor]
        cases c.getLsbD i <;> cases d.getLsbD i <;> cases (low w x).getLsbD i <;>
          cases (low w y).getLsbD i <;> rfl
      rw [hcd, List.length_cons]
      exact hu.xor hlow

/-- No two texts that are no wider than the register lead from one register to one. -/
theorem eq_of_feed_eq {p c : BitVec w} (hp : p.msb = true) {xs ys : List UInt8}
    (hlen : xs.length = ys.length) (hw : 8 * xs.length ≤ w) (h : feed p c xs = feed p c ys) :
    xs = ys := by
  induction xs generalizing c ys with
  | nil => exact (List.eq_nil_of_length_eq_zero hlen.symm).symm
  | cons x xs ih =>
    obtain _ | ⟨y, ys⟩ := ys
    · cases hlen
    · rw [List.length_cons] at hw
      have hlt := xor_below_of_feed_eq hp (Nat.succ.inj hlen) (by omega) h
      rw [feedByte, feedByte, ← shifts_xor] at hlt
      have hu := eq_shiftLeft_of_shifts hp (by omega) hlt
      -- the two bytes differ in low bits, and a shifted number has none
      have hxy : x = y := by
        apply UInt8.toBitVec_inj.mp
        apply BitVec.eq_of_getLsbD_eq
        intro i hi
        have hbit := congrArg (fun b : BitVec w => b.getLsbD i) hu
        simp only [BitVec.getLsbD_xor, BitVec.getLsbD_shiftLeft, getLsbD_low, hi,
          show i < w by omega, decide_true, Bool.not_true, Bool.and_false, Bool.false_and,
          Bool.true_and] at hbit
        revert hbit
        cases c.getLsbD i <;> cases x.toBitVec.getLsbD i <;> cases y.toBitVec.getLsbD i <;> simp
      subst hxy
      rw [ih (Nat.succ.inj hlen) (by omega) h]

/-- Texts that differ only inside a window no wider than the register leave different
registers. -/
theorem feed_ne_of_burst {p c : BitVec w} (hp : p.msb = true) {xs ys : List UInt8}
    (hlen : xs.length = ys.length) (hw : 8 * xs.length ≤ w) (hne : xs ≠ ys)
    (as bs : List UInt8) : feed p c (as ++ xs ++ bs) ≠ feed p c (as ++ ys ++ bs) := by
  intro h
  simp only [feed_append] at h
  exact hne (eq_of_feed_eq hp hlen hw (feed_inj hp h))

end

end Lib.Crc

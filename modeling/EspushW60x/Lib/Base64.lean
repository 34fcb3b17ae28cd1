import EspushW60x.Lib.Hex

/-!
# Base64 text

Three bytes are four characters of six bits each; a text that does not come out even is
padded with equal signs.

Results:
* `value_digit`: the character of a value below 64 is read back;
* `join_three`, `join_two`, `join_one`: the four values of a group are its bytes;
* `length_encode`, `encode_ne_zero`: what the text looks like.
-/

namespace Lib.Base64

/-- The character for a value below 64. -/
def digit (n : UInt8) : UInt8 :=
  if n < 26 then 65 + n
  else if n < 52 then 71 + n
  else if n < 62 then n - 4
  else if n = 62 then 43
  else 47

/-- The value of a character; 0 for one that has none. -/
def value (c : UInt8) : UInt8 :=
  if 65 ≤ c ∧ c ≤ 90 then c - 65
  else if 97 ≤ c ∧ c ≤ 122 then c - 71
  else if 48 ≤ c ∧ c ≤ 57 then c + 4
  else if c = 43 then 62
  else if c = 47 then 63
  else 0

/-- The equal sign. -/
def pad : UInt8 := 61

def encode : List UInt8 → List UInt8
  | [] => []
  | [a] => [digit (a >>> 2), digit ((a &&& 0x03) <<< 4), pad, pad]
  | [a, b] =>
    [digit (a >>> 2), digit ((a &&& 0x03) <<< 4 ||| b >>> 4), digit ((b &&& 0x0F) <<< 2), pad]
  | a :: b :: c :: rest =>
    digit (a >>> 2) :: digit ((a &&& 0x03) <<< 4 ||| b >>> 4) ::
      digit ((b &&& 0x0F) <<< 2 ||| c >>> 6) :: digit (c &&& 0x3F) :: encode rest

/-- The number of four values. -/
def join (a b c d : UInt8) : Nat :=
  a.toNat * 0x40000 + b.toNat * 0x1000 + c.toNat * 0x40 + d.toNat

/-! ## Characters -/

/-- A value is read back, and its character is neither a pad nor a NUL. -/
theorem value_digit {n : UInt8} (h : n < 64) :
    value (digit n) = n ∧ digit n ≠ pad ∧ digit n ≠ 0 := by
  have hall : ∀ n : UInt8, n < 64 → value (digit n) = n ∧ digit n ≠ pad ∧ digit n ≠ 0 :=
    Hex.forall_uint8 (by decide +kernel)
  exact hall n h

/-- The parts of a byte. -/
theorem parts (a : UInt8) :
    ((a >>> 2).toNat = a.toNat / 4 ∧ ((a &&& 0x03) <<< 4).toNat = (a.toNat % 4) <<< 4) ∧
      ((a >>> 4).toNat = a.toNat / 16 ∧ ((a &&& 0x0F) <<< 2).toNat = (a.toNat % 16) <<< 2) ∧
      (a >>> 6).toNat = a.toNat / 64 ∧ (a &&& 0x3F).toNat = a.toNat % 64 := by
  have hall : ∀ a : UInt8,
      ((a >>> 2).toNat = a.toNat / 4 ∧ ((a &&& 0x03) <<< 4).toNat = (a.toNat % 4) <<< 4) ∧
        ((a >>> 4).toNat = a.toNat / 16 ∧ ((a &&& 0x0F) <<< 2).toNat = (a.toNat % 16) <<< 2) ∧
        (a >>> 6).toNat = a.toNat / 64 ∧ (a &&& 0x3F).toNat = a.toNat % 64 :=
    Hex.forall_uint8 (by decide +kernel)
  exact hall a

/-- Bits that are put behind zeros. -/
theorem toNat_or {a b : UInt8} {n i : Nat} (ha : a.toNat = n <<< i) (hb : b.toNat < 1 <<< i) :
    (a ||| b).toNat = n <<< i + b.toNat := by
  rw [Nat.shiftLeft_eq, Nat.one_mul] at hb
  rw [UInt8.toNat_or, ha, Nat.shiftLeft_eq, Nat.mul_comm, Nat.two_pow_add_eq_or_of_lt hb]

/-- The four values of three bytes, each below 64. -/
theorem sextets (a b c : UInt8) :
    (a >>> 2 < 64 ∧ (a >>> 2).toNat = a.toNat / 4) ∧
      ((a &&& 0x03) <<< 4 ||| b >>> 4 < 64 ∧
        ((a &&& 0x03) <<< 4 ||| b >>> 4).toNat = a.toNat % 4 * 16 + b.toNat / 16) ∧
      ((b &&& 0x0F) <<< 2 ||| c >>> 6 < 64 ∧
        ((b &&& 0x0F) <<< 2 ||| c >>> 6).toNat = b.toNat % 16 * 4 + c.toNat / 64) ∧
      (c &&& 0x3F < 64 ∧ (c &&& 0x3F).toNat = c.toNat % 64) := by
  obtain ⟨⟨ha2, ha4⟩, _⟩ := parts a
  obtain ⟨_, ⟨hb4, hb2⟩, _⟩ := parts b
  obtain ⟨_, _, hc6, hc⟩ := parts c
  have ha := a.toNat_lt
  have hb := b.toNat_lt
  have hc' := c.toNat_lt
  have hsecond := toNat_or ha4 (b := b >>> 4) (by rw [hb4]; omega)
  have hthird := toNat_or hb2 (b := c >>> 6) (by rw [hc6]; omega)
  rw [hb4, Nat.shiftLeft_eq] at hsecond
  rw [hc6, Nat.shiftLeft_eq] at hthird
  have h64 : (64 : UInt8).toNat = 64 := rfl
  refine ⟨⟨?_, ha2⟩, ⟨?_, hsecond⟩, ⟨?_, hthird⟩, ?_, hc⟩
  all_goals
    rw [UInt8.lt_iff_toNat_lt, h64]
    omega

theorem join_three (a b c : UInt8) :
    join (a >>> 2) ((a &&& 0x03) <<< 4 ||| b >>> 4) ((b &&& 0x0F) <<< 2 ||| c >>> 6) (c &&& 0x3F) =
      a.toNat * 0x10000 + b.toNat * 0x100 + c.toNat := by
  obtain ⟨⟨_, h0⟩, ⟨_, h1⟩, ⟨_, h2⟩, _, h3⟩ := sextets a b c
  rw [join, h0, h1, h2, h3]
  omega

/-- Two bytes are three with a zero. -/
theorem join_two (a b : UInt8) :
    join (a >>> 2) ((a &&& 0x03) <<< 4 ||| b >>> 4) ((b &&& 0x0F) <<< 2) 0 =
      a.toNat * 0x10000 + b.toNat * 0x100 := by
  have h := join_three a b 0
  rw [show (0 : UInt8) >>> 6 = 0 from rfl, show (0 : UInt8) &&& 0x3F = 0 from rfl, UInt8.or_zero,
    UInt8.toNat_zero, Nat.add_zero] at h
  exact h

theorem join_one (a : UInt8) :
    join (a >>> 2) ((a &&& 0x03) <<< 4) 0 0 = a.toNat * 0x10000 := by
  have h := join_two a 0
  rw [show (0 : UInt8) >>> 4 = 0 from rfl, show ((0 : UInt8) &&& 0x0F) <<< 2 = 0 from rfl,
    UInt8.or_zero, UInt8.toNat_zero, Nat.zero_mul, Nat.add_zero] at h
  exact h

/-! ## Texts -/

theorem length_encode (bs : List UInt8) : (encode bs).length = (bs.length + 2) / 3 * 4 := by
  induction bs using encode.induct with
  | case1 => simp [encode]
  | case2 a => simp [encode]
  | case3 a b => simp [encode]
  | case4 a b c rest ih =>
    rw [encode]
    simp only [List.length_cons]
    omega

theorem encode_ne_zero (bs : List UInt8) : ∀ c ∈ encode bs, c ≠ 0 := by
  have hpad : pad ≠ 0 := by decide
  induction bs using encode.induct with
  | case1 => simp [encode]
  | case2 a =>
    obtain ⟨⟨h0, _⟩, ⟨h1, _⟩, _⟩ := sextets a 0 0
    rw [show (0 : UInt8) >>> 4 = 0 from rfl, UInt8.or_zero] at h1
    simp only [encode, List.forall_mem_cons]
    exact ⟨(value_digit h0).2.2, (value_digit h1).2.2, hpad, hpad, fun _ h => by cases h⟩
  | case3 a b =>
    obtain ⟨⟨h0, _⟩, ⟨h1, _⟩, ⟨h2, _⟩, _⟩ := sextets a b 0
    rw [show (0 : UInt8) >>> 6 = 0 from rfl, UInt8.or_zero] at h2
    simp only [encode, List.forall_mem_cons]
    exact ⟨(value_digit h0).2.2, (value_digit h1).2.2, (value_digit h2).2.2, hpad,
      fun _ h => by cases h⟩
  | case4 a b c rest ih =>
    obtain ⟨⟨h0, _⟩, ⟨h1, _⟩, ⟨h2, _⟩, h3, _⟩ := sextets a b c
    simp only [encode, List.forall_mem_cons]
    exact ⟨(value_digit h0).2.2, (value_digit h1).2.2, (value_digit h2).2.2, (value_digit h3).2.2,
      ih⟩

end Lib.Base64

/-!
# Hexadecimal text

A byte is written as two upper-case digits, high half first; a text of digits of
either case is read back two at a time.

Results:
* `decode_encode`: what was written is read back;
* `encode_of_decode`: what was read is written again in upper case;
* `decode_isSome_iff`: the texts that can be read.
-/

namespace Lib.Hex

/-- The digit of a number below 16. -/
def digit (n : UInt8) : UInt8 := if n < 10 then 48 + n else 55 + n

/-- The number that a digit stands for. -/
def value (c : UInt8) : Option UInt8 :=
  if 48 ≤ c ∧ c ≤ 57 then some (c - 48)
  else if 65 ≤ c ∧ c ≤ 70 then some (c - 55)
  else if 97 ≤ c ∧ c ≤ 102 then some (c - 87)
  else none

/-- `0` to `9`, `A` to `F`, `a` to `f`. -/
def IsDigit (c : UInt8) : Prop :=
  (48 ≤ c ∧ c ≤ 57) ∨ (65 ≤ c ∧ c ≤ 70) ∨ (97 ≤ c ∧ c ≤ 102)

instance (c : UInt8) : Decidable (IsDigit c) := inferInstanceAs (Decidable (_ ∨ _ ∨ _))

/-- The upper-case form of a letter; other characters are left alone. -/
def upper (c : UInt8) : UInt8 := if 97 ≤ c ∧ c ≤ 122 then c - 32 else c

/-- The two digits of a byte. -/
def pair (b : UInt8) : List UInt8 := [digit (b >>> 4), digit (b &&& 0x0F)]

def encode (bs : List UInt8) : List UInt8 := bs.flatMap pair

def decode : List UInt8 → Option (List UInt8)
  | [] => some []
  | [_] => none
  | a :: b :: rest => do
    let x ← value a
    let y ← value b
    let bs ← decode rest
    return (x <<< 4 ||| y) :: bs

/-! ## One digit -/

-- A fact about one character is checked at all 256 of them.
theorem forall_uint8 {P : UInt8 → Prop} (h : ∀ n, n < 256 → P (UInt8.ofNat n)) : ∀ c, P c := by
  intro c
  have hc := h c.toNat c.toNat_lt
  rwa [UInt8.ofNat_toNat] at hc

theorem isSome_value : ∀ c, (value c).isSome = decide (IsDigit c) :=
  forall_uint8 (by decide +kernel)

/-- The two digits of a byte read back as its halves. -/
theorem value_pair : ∀ b : UInt8,
    value (digit (b >>> 4)) = some (b >>> 4) ∧ value (digit (b &&& 0x0F)) = some (b &&& 0x0F) ∧
      (b >>> 4) <<< 4 ||| (b &&& 0x0F) = b :=
  forall_uint8 (by decide +kernel)

/-- A value is below 16, and its digit is the one it was read from, in upper case. -/
theorem digit_value (c : UInt8) : ∀ x ∈ value c, x < 16 ∧ digit x = upper c := by
  have hall : ∀ c, (value c).all (fun x => x < 16 ∧ digit x = upper c) = true :=
    forall_uint8 (by decide +kernel)
  intro x hx
  have hc := hall c
  rw [Option.mem_def.mp hx] at hc
  exact of_decide_eq_true hc

theorem halves_of_lt {x y : UInt8} (hx : x < 16) (hy : y < 16) :
    (x <<< 4 ||| y) >>> 4 = x ∧ (x <<< 4 ||| y) &&& 0x0F = y := by
  have h : ∀ n, n < 16 → ∀ k, k < 16 →
      (UInt8.ofNat n <<< 4 ||| UInt8.ofNat k) >>> 4 = UInt8.ofNat n ∧
        (UInt8.ofNat n <<< 4 ||| UInt8.ofNat k) &&& 0x0F = UInt8.ofNat k := by
    decide +kernel
  have hxy := h x.toNat hx y.toNat hy
  rwa [UInt8.ofNat_toNat, UInt8.ofNat_toNat] at hxy

/-- No digit is a NUL. -/
theorem pair_ne_zero (b : UInt8) : ∀ c ∈ pair b, c ≠ 0 := by
  have hall : ∀ b : UInt8, digit (b >>> 4) ≠ 0 ∧ digit (b &&& 0x0F) ≠ 0 :=
    forall_uint8 (by decide +kernel)
  intro c hc
  rcases List.mem_cons.mp hc with rfl | hc
  · exact (hall b).1
  · rw [List.mem_singleton.mp hc]
    exact (hall b).2

/-! ## Texts -/

@[simp] theorem encode_nil : encode [] = [] := by rfl

@[simp] theorem encode_cons (b : UInt8) (bs : List UInt8) : encode (b :: bs) = pair b ++ encode bs := by
  simp [encode]

@[simp] theorem length_encode (bs : List UInt8) : (encode bs).length = 2 * bs.length := by
  induction bs with
  | nil => rfl
  | cons b bs ih =>
    rw [encode_cons, List.length_append, ih, List.length_cons]
    show 2 + 2 * bs.length = _
    omega

theorem encode_ne_zero (bs : List UInt8) : ∀ c ∈ encode bs, c ≠ 0 := by
  intro c hc
  obtain ⟨b, _, hcb⟩ := List.mem_flatMap.mp hc
  exact pair_ne_zero b c hcb

/-- A text of two digits and more. -/
theorem decode_cons_cons {a b : UInt8} {rest bs : List UInt8} :
    decode (a :: b :: rest) = some bs ↔
      ∃ x ∈ value a, ∃ y ∈ value b, ∃ bs' ∈ decode rest, (x <<< 4 ||| y) :: bs' = bs := by
  simp [decode, Option.bind_eq_some_iff]

theorem decode_encode (bs : List UInt8) : decode (encode bs) = some bs := by
  induction bs with
  | nil => rfl
  | cons b bs ih =>
    obtain ⟨hhigh, hlow, hbyte⟩ := value_pair b
    rw [encode_cons]
    exact decode_cons_cons.mpr ⟨_, hhigh, _, hlow, bs, ih, by rw [hbyte]⟩

theorem encode_of_decode {s bs : List UInt8} (h : decode s = some bs) : encode bs = s.map upper := by
  induction s using decode.induct generalizing bs with
  | case1 =>
    cases h
    rfl
  | case2 c => cases h
  | case3 a b rest ih =>
    obtain ⟨x, hx, y, hy, bs', hbs', rfl⟩ := decode_cons_cons.mp h
    obtain ⟨hx16, hdx⟩ := digit_value a x hx
    obtain ⟨hy16, hdy⟩ := digit_value b y hy
    obtain ⟨hhigh, hlow⟩ := halves_of_lt hx16 hy16
    rw [encode_cons, pair, hhigh, hlow, hdx, hdy, ih hbs']
    rfl

theorem length_of_decode {s bs : List UInt8} (h : decode s = some bs) : s.length = 2 * bs.length := by
  rw [← length_encode, encode_of_decode h, List.length_map]

/-- The texts that can be read: an even number of digits. -/
theorem decode_isSome_iff (s : List UInt8) :
    (decode s).isSome = true ↔ s.length % 2 = 0 ∧ ∀ c ∈ s, IsDigit c := by
  induction s using decode.induct with
  | case1 => simp [decode]
  | case2 c => simp [decode]
  | case3 a b rest ih =>
    have ha : (value a).isSome = true ↔ IsDigit a := by rw [isSome_value, decide_eq_true_iff]
    have hb : (value b).isSome = true ↔ IsDigit b := by rw [isSome_value, decide_eq_true_iff]
    have hlen : (a :: b :: rest).length % 2 = rest.length % 2 := by
      simp only [List.length_cons]
      omega
    have hsome : (decode (a :: b :: rest)).isSome = true ↔
        (value a).isSome = true ∧ (value b).isSome = true ∧ (decode rest).isSome = true := by
      simp only [Option.isSome_iff_exists, decode_cons_cons]
      constructor
      · rintro ⟨_, x, hx, y, hy, bs, hbs, _⟩
        exact ⟨⟨x, hx⟩, ⟨y, hy⟩, ⟨bs, hbs⟩⟩
      · rintro ⟨⟨x, hx⟩, ⟨y, hy⟩, ⟨bs, hbs⟩⟩
        exact ⟨_, x, hx, y, hy, bs, hbs, rfl⟩
    rw [hsome, ha, hb, ih, hlen]
    simp only [List.forall_mem_cons]
    constructor
    · rintro ⟨ha, hb, heven, hrest⟩
      exact ⟨heven, ha, hb, hrest⟩
    · rintro ⟨heven, ha, hb, hrest⟩
      exact ⟨ha, hb, heven, hrest⟩

end Lib.Hex

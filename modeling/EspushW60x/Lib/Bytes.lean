/-!
# Bytes in memory

`patch m off bs` is the memory `m` after the symbols `bs` were stored from the
offset `off` on. What lies outside `m` is not stored. `be16` and `ofBe16` are the
big-endian 16-bit codec, `be32` the big-endian 32-bit encoder, `le32` and `ofLe32`
the little-endian 32-bit codec.
-/

namespace Lib

/-! ## Stores -/

section Patch

variable {α : Type}

/-- The memory `m` after `bs` was stored at `off`. -/
def patch (m : List α) (off : Nat) (bs : List α) : List α :=
  (m.take off ++ bs ++ m.drop (off + bs.length)).take m.length

@[simp] theorem length_patch (m : List α) (off : Nat) (bs : List α) :
    (patch m off bs).length = m.length := by
  simp only [patch, List.length_take, List.length_append, List.length_drop]
  omega

/-- A store does not change what lies before it. -/
theorem take_patch_of_le {m : List α} {n off : Nat} (bs : List α) (h : n ≤ off) :
    (patch m off bs).take n = m.take n := by
  by_cases hn : n ≤ m.length
  · have hlen : n ≤ (m.take off).length := by rw [List.length_take]; omega
    rw [patch, List.take_take, Nat.min_eq_left hn, List.append_assoc,
      List.take_append_of_le_length hlen, List.take_take, Nat.min_eq_left h]
  · have hm : m.length ≤ off := by omega
    rw [patch, List.take_of_length_le (l := m) hm, List.append_assoc,
      List.take_left' rfl]

/-- The memory up to the end of a store that lies inside it. -/
theorem take_patch {m bs : List α} {off : Nat} (h : off + bs.length ≤ m.length) :
    (patch m off bs).take (off + bs.length) = m.take off ++ bs := by
  have hlen : (m.take off ++ bs).length = off + bs.length := by
    rw [List.length_append, List.length_take]
    omega
  rw [patch, List.take_take, Nat.min_eq_left h, ← hlen, List.take_left' rfl]

/-- The head of a store at the start. -/
theorem take_patch_zero {m bs : List α} {n : Nat} (hbs : n ≤ bs.length) (hm : n ≤ m.length) :
    (patch m 0 bs).take n = bs.take n := by
  rw [patch, List.take_zero, List.nil_append, List.take_take, Nat.min_eq_left hm,
    List.take_append_of_le_length hbs]

/-- A store that fills the memory from `off` on. -/
theorem patch_eq_append {m bs : List α} {off : Nat} (h : off + bs.length = m.length) :
    patch m off bs = m.take off ++ bs := by
  have hp := take_patch (Nat.le_of_eq h)
  rwa [h, List.take_of_length_le (Nat.le_of_eq (length_patch m off bs))] at hp

/-- The memory after a store that lies inside it. -/
theorem patch_eq {m bs : List α} {off : Nat} (h : off + bs.length ≤ m.length) :
    patch m off bs = m.take off ++ bs ++ m.drop (off + bs.length) := by
  rw [patch, List.take_of_length_le]
  simp only [List.length_append, List.length_take, List.length_drop]
  omega

/-- A store does not change what lies behind it. -/
theorem drop_patch {n off : Nat} (m : List α) {bs : List α} (h : off + bs.length ≤ n) :
    (patch m off bs).drop n = m.drop n := by
  by_cases hfit : off + bs.length ≤ m.length
  · have hlen : (m.take off ++ bs).length = off + bs.length := by
      rw [List.length_append, List.length_take, Nat.min_eq_left (Nat.le_of_add_right_le hfit)]
    obtain ⟨k, rfl⟩ := Nat.exists_eq_add_of_le h
    rw [patch_eq hfit, ← hlen, ← List.drop_drop, List.drop_left, hlen, List.drop_drop]
  · rw [List.drop_of_length_le (by rw [length_patch]; omega), List.drop_of_length_le (by omega)]

/-- The memory after a store, place by place. -/
theorem getElem?_patch {m bs : List α} {off : Nat} (h : off + bs.length ≤ m.length) (i : Nat) :
    (patch m off bs)[i]? = if off ≤ i ∧ i < off + bs.length then bs[i - off]? else m[i]? := by
  have htake : (m.take off).length = off := by
    rw [List.length_take]
    omega
  rw [patch_eq h, List.append_assoc]
  obtain hbefore | hge := Nat.lt_or_ge i off
  · rw [List.getElem?_append_left (by omega), List.getElem?_take_of_lt hbefore, if_neg (by omega)]
  · rw [List.getElem?_append_right (by omega), htake]
    obtain hin | hbehind := Nat.lt_or_ge i (off + bs.length)
    · rw [List.getElem?_append_left (by omega), if_pos ⟨hge, hin⟩]
    · rw [List.getElem?_append_right (by omega), List.getElem?_drop, if_neg (by omega),
        show off + bs.length + (i - off - bs.length) = i by omega]

/-- Two stores next to each other are one. -/
theorem patch_patch {m xs ys : List α} {off : Nat} (h : off + xs.length + ys.length ≤ m.length) :
    patch (patch m off xs) (off + xs.length) ys = patch m off (xs ++ ys) := by
  have hxs : off + xs.length ≤ m.length := Nat.le_of_add_right_le h
  have hall : off + (xs ++ ys).length ≤ m.length := by
    rw [List.length_append]
    omega
  rw [patch_eq (by rw [length_patch]; exact h), take_patch hxs, drop_patch m (Nat.le_add_right _ _),
    patch_eq hall, List.length_append, Nat.add_assoc]
  simp only [List.append_assoc]

/-- Two stores, the second where the first ends. -/
theorem patch_patch_at {m xs ys : List α} {off next : Nat} (hnext : next = off + xs.length)
    (h : next + ys.length ≤ m.length) : patch (patch m off xs) next ys = patch m off (xs ++ ys) := by
  subst hnext
  exact patch_patch h

/-- Two stores from the start on, one behind the other. -/
theorem take_patch_patch {m xs ys : List α} (h : xs.length + ys.length ≤ m.length) :
    (patch (patch m 0 xs) xs.length ys).take (xs.length + ys.length) = xs ++ ys := by
  have hfit : 0 + (xs ++ ys).length ≤ m.length := by
    rw [Nat.zero_add, List.length_append]
    exact h
  have hboth : patch (patch m 0 xs) (0 + xs.length) ys = patch m 0 (xs ++ ys) :=
    patch_patch (by omega)
  have hhead := take_patch hfit
  rw [Nat.zero_add] at hboth hhead
  rw [hboth, ← List.length_append, hhead, List.take_zero, List.nil_append]

/-- A store over a part of the memory. -/
theorem patch_replace {pre old new post : List α} {off : Nat} (hoff : off = pre.length)
    (h : old.length = new.length) : patch (pre ++ (old ++ post)) off new = pre ++ (new ++ post) := by
  subst hoff
  have hfit : pre.length + new.length ≤ (pre ++ (old ++ post)).length := by
    simp only [List.length_append]
    omega
  rw [patch_eq hfit, List.take_left' rfl, ← List.drop_drop, List.drop_left' rfl,
    List.drop_left' h, List.append_assoc]

/-- A store past the end changes nothing. -/
theorem patch_of_length_le {m : List α} {off : Nat} (bs : List α) (h : m.length ≤ off) :
    patch m off bs = m := by
  rw [patch, List.take_of_length_le h, List.append_assoc, List.take_left' rfl]

end Patch

theorem ne_zero_of_all {bs : List UInt8} (h : (bs.all fun b => decide (b ≠ 0)) = true) :
    ∀ b ∈ bs, b ≠ 0 :=
  fun b hb => of_decide_eq_true (List.all_eq_true.mp h b hb)

/-! ## Big-endian numbers -/

/-- The byte at an offset; `0` past the end. -/
def byteAt (bs : List UInt8) (i : Nat) : UInt8 := bs.getD i 0

/-- The two bytes of `n` as a big-endian 16-bit number; higher bits are cut off. -/
def be16 (n : Nat) : List UInt8 := [UInt8.ofNat (n / 256), UInt8.ofNat n]

/-- The big-endian 16-bit number in the first two bytes. -/
def ofBe16 (bs : List UInt8) : Nat := (byteAt bs 0).toNat * 256 + (byteAt bs 1).toNat

/-- The four bytes of `n` as a big-endian 32-bit number. -/
def be32 (n : Nat) : List UInt8 := be16 (n / 65536) ++ be16 n

@[simp] theorem length_be16 (n : Nat) : (be16 n).length = 2 := by rfl

@[simp] theorem length_be32 (n : Nat) : (be32 n).length = 4 := by rfl

theorem ofBe16_lt (bs : List UInt8) : ofBe16 bs < 65536 := by
  have h0 := (byteAt bs 0).toNat_lt
  have h1 := (byteAt bs 1).toNat_lt
  unfold ofBe16
  omega

theorem byteAt_append_of_lt {s : List UInt8} {i : Nat} (t : List UInt8) (h : i < s.length) :
    byteAt (s ++ t) i = byteAt s i := by
  simp [byteAt, List.getElem?_append_left h]

theorem ofBe16_append {s : List UInt8} (t : List UInt8) (h : 2 ≤ s.length) :
    ofBe16 (s ++ t) = ofBe16 s := by
  rw [ofBe16, ofBe16, byteAt_append_of_lt t (by omega), byteAt_append_of_lt t (by omega)]

theorem ofBe16_take {bs : List UInt8} {n : Nat} (h : 2 ≤ n) : ofBe16 (bs.take n) = ofBe16 bs := by
  have h0 : byteAt (bs.take n) 0 = byteAt bs 0 := by
    simp [byteAt, show 0 < n by omega]
  have h1 : byteAt (bs.take n) 1 = byteAt bs 1 := by
    simp [byteAt, show 1 < n by omega]
  rw [ofBe16, ofBe16, h0, h1]

/-- Decoding what was encoded gives the number back modulo `2 ^ 16`. -/
theorem ofBe16_be16_append (n : Nat) (t : List UInt8) : ofBe16 (be16 n ++ t) = n % 65536 := by
  simp only [ofBe16, be16, byteAt, List.cons_append, List.nil_append, List.getD_cons_zero,
    List.getD_cons_succ, UInt8.toNat_ofNat']
  omega

theorem ofBe16_be16 {n : Nat} (h : n < 65536) : ofBe16 (be16 n) = n := by
  have hnum := ofBe16_be16_append n []
  rwa [List.append_nil, Nat.mod_eq_of_lt h] at hnum

/-- Encoding what was decoded gives the two bytes back. -/
theorem be16_ofBe16 (bs : List UInt8) : be16 (ofBe16 bs) = [byteAt bs 0, byteAt bs 1] := by
  have h0 := (byteAt bs 0).toNat_lt
  have h1 := (byteAt bs 1).toNat_lt
  have hdiv : ofBe16 bs / 256 = (byteAt bs 0).toNat := by
    unfold ofBe16
    omega
  have hmod : ofBe16 bs % 256 = (byteAt bs 1).toNat := by
    unfold ofBe16
    omega
  simp only [be16, List.cons.injEq, and_true]
  constructor
  · rw [hdiv, UInt8.ofNat_toNat]
  · apply UInt8.toNat_inj.mp
    rw [UInt8.toNat_ofNat', hmod]

/-! ## Little-endian numbers -/

/-- The four bytes of `n` as a little-endian 32-bit number; higher bits are cut off. -/
def le32 (n : Nat) : List UInt8 :=
  [UInt8.ofNat n, UInt8.ofNat (n / 256), UInt8.ofNat (n / 65536), UInt8.ofNat (n / 16777216)]

/-- The little-endian 32-bit number in the first four bytes. -/
def ofLe32 (bs : List UInt8) : Nat :=
  (byteAt bs 0).toNat + (byteAt bs 1).toNat * 256 + (byteAt bs 2).toNat * 65536 +
    (byteAt bs 3).toNat * 16777216

@[simp] theorem length_le32 (n : Nat) : (le32 n).length = 4 := by rfl

theorem ofLe32_append {s : List UInt8} (t : List UInt8) (h : 4 ≤ s.length) :
    ofLe32 (s ++ t) = ofLe32 s := by
  rw [ofLe32, ofLe32, byteAt_append_of_lt t (by omega), byteAt_append_of_lt t (by omega),
    byteAt_append_of_lt t (by omega), byteAt_append_of_lt t (by omega)]

theorem ofLe32_take {bs : List UInt8} {n : Nat} (h : 4 ≤ n) : ofLe32 (bs.take n) = ofLe32 bs := by
  have hbyte : ∀ i, i < 4 → byteAt (bs.take n) i = byteAt bs i := by
    intro i hi
    simp [byteAt, show i < n by omega]
  rw [ofLe32, ofLe32, hbyte 0 (by decide), hbyte 1 (by decide), hbyte 2 (by decide),
    hbyte 3 (by decide)]

/-- A store behind a word does not change it. -/
theorem ofLe32_drop_patch_of_le {m : List UInt8} {off i : Nat} (bs : List UInt8) (h : i + 4 ≤ off) :
    ofLe32 ((patch m off bs).drop i) = ofLe32 (m.drop i) := by
  have htake : ofLe32 (((patch m off bs).drop i).take 4) = ofLe32 ((patch m off bs).drop i) :=
    ofLe32_take (Nat.le_refl 4)
  rw [← htake, List.take_drop, take_patch_of_le bs (by omega), ← List.take_drop,
    ofLe32_take (Nat.le_refl 4)]

/-- Decoding what was encoded gives the number back modulo `2 ^ 32`. -/
theorem ofLe32_le32_append (n : Nat) (t : List UInt8) : ofLe32 (le32 n ++ t) = n % 0x100000000 := by
  simp only [ofLe32, le32, byteAt, List.cons_append, List.nil_append, List.getD_cons_zero,
    List.getD_cons_succ, UInt8.toNat_ofNat']
  omega

theorem ofLe32_le32 (n : Nat) : ofLe32 (le32 n) = n % 0x100000000 := by
  rw [← ofLe32_le32_append n [], List.append_nil]

theorem le32_mod (n : Nat) : le32 (n % 0x100000000) = le32 n := by
  have hbyte : ∀ a b : Nat, a % 256 = b % 256 → UInt8.ofNat a = UInt8.ofNat b := by
    intro a b h
    apply UInt8.toNat_inj.mp
    rw [UInt8.toNat_ofNat', UInt8.toNat_ofNat']
    exact h
  rw [le32, le32, hbyte (n % 0x100000000) n (by omega), hbyte (n % 0x100000000 / 256) (n / 256) (by omega),
    hbyte (n % 0x100000000 / 65536) (n / 65536) (by omega),
    hbyte (n % 0x100000000 / 16777216) (n / 16777216) (by omega)]

/-- Encoding what was decoded gives the four bytes back. -/
theorem le32_ofLe32 {bs : List UInt8} (h : bs.length = 4) : le32 (ofLe32 bs) = bs := by
  match bs, h with
  | [a, b, c, d], _ =>
    have ha := a.toNat_lt
    have hb := b.toNat_lt
    have hc := c.toNat_lt
    have hd := d.toNat_lt
    have hn : ofLe32 [a, b, c, d] = a.toNat + b.toNat * 256 + c.toNat * 65536 +
        d.toNat * 16777216 := by rfl
    have hbyte : ∀ (x : UInt8) (n : Nat), n % 256 = x.toNat → UInt8.ofNat n = x := by
      intro x n hx
      apply UInt8.toNat_inj.mp
      rw [UInt8.toNat_ofNat']
      exact hx
    rw [le32, hn, hbyte a _ (by omega), hbyte b _ (by omega), hbyte c _ (by omega),
      hbyte d _ (by omega)]

end Lib

import EspushW60x.Lib.Bytes

/-!
# Names with references

A name is a list of labels. In a message every label stands behind its length, and a zero
byte stands behind the last one. In place of its last labels, or of all of them, a name may
have a reference to where these stand already.

Results:
* `Spells.mono`: a name stays what it is when more of the message is known;
* `spells_append`, `spells_encode`: labels that are written out;
* `Spells.tail`: the rest of a name behind labels that are written out;
* `boundary_of_drop`: where a length can be found among plain labels;
* `Spells.unique`: there is one name at a place;
* `Spells.jumps_le`, `Spells.stop_le`: how many references a name can have, and its size.
-/

namespace Lib.Names

abbrev Label := List UInt8

/-- A message, as far as it is known. -/
abbrev Message := Nat → Option UInt8

/-! ## Bytes in a message -/

/-- The bytes stand at `off`. -/
def Stands (msg : Message) (off : Nat) (bs : List UInt8) : Prop :=
  ∀ i, i < bs.length → msg (off + i) = bs[i]?

/-- What is known of the one is so in the other. -/
def Extends (msg msg' : Message) : Prop := ∀ i b, msg i = some b → msg' i = some b

theorem Extends.refl (msg : Message) : Extends msg msg := fun _ _ h => h

theorem Extends.trans {a b c : Message} (h : Extends a b) (h' : Extends b c) : Extends a c :=
  fun i x hx => h' i x (h i x hx)

section

variable {msg msg' : Message} {off : Nat} {b : UInt8} {as bs : List UInt8}

theorem stands_nil : Stands msg off [] := fun i hi => absurd hi (Nat.not_lt_zero i)

theorem stands_append :
    Stands msg off (as ++ bs) ↔ Stands msg off as ∧ Stands msg (off + as.length) bs := by
  constructor
  · intro h
    refine ⟨fun i hi => ?_, fun i hi => ?_⟩
    · have hall := h i (by rw [List.length_append]; omega)
      rwa [List.getElem?_append_left hi] at hall
    · have hall := h (as.length + i) (by rw [List.length_append]; omega)
      rw [List.getElem?_append_right (Nat.le_add_right _ _), Nat.add_sub_cancel_left] at hall
      rw [Nat.add_assoc]
      exact hall
  · rintro ⟨has, hbs⟩ i hi
    obtain hlt | hge := Nat.lt_or_ge i as.length
    · rw [List.getElem?_append_left hlt]
      exact has i hlt
    · obtain ⟨k, rfl⟩ := Nat.exists_eq_add_of_le hge
      rw [List.length_append] at hi
      rw [List.getElem?_append_right hge, Nat.add_sub_cancel_left, ← Nat.add_assoc]
      exact hbs k (by omega)

theorem stands_cons : Stands msg off (b :: bs) ↔ msg off = some b ∧ Stands msg (off + 1) bs := by
  have happend := @stands_append msg off [b] bs
  rw [List.singleton_append, List.length_singleton] at happend
  rw [happend]
  refine and_congr_left fun _ => ⟨fun h => h 0 Nat.zero_lt_one, fun h i hi => ?_⟩
  obtain rfl : i = 0 := Nat.lt_one_iff.mp hi
  exact h

theorem Stands.mono (h : Stands msg off bs) (hmore : Extends msg msg') : Stands msg' off bs := by
  intro i hi
  rw [List.getElem?_eq_getElem hi]
  exact hmore _ _ ((h i hi).trans (List.getElem?_eq_getElem hi))

/-- The message with other bytes at `off`. -/
def put (msg : Message) (off : Nat) (bs : List UInt8) : Message := fun i =>
  if off ≤ i ∧ i < off + bs.length then bs[i - off]? else msg i

theorem stands_put (msg : Message) (off : Nat) (bs : List UInt8) : Stands (put msg off bs) off bs := by
  intro i hi
  rw [put, if_pos (by omega), Nat.add_sub_cancel_left]

theorem put_nil (msg : Message) (off : Nat) : put msg off [] = msg := by
  funext i
  exact if_neg (by rw [List.length_nil]; omega)

/-- Bytes where nothing was known. -/
theorem extends_put (hfree : ∀ i, off ≤ i → i < off + bs.length → msg i = none) :
    Extends msg (put msg off bs) := by
  intro i b h
  rw [put, if_neg]
  · exact h
  · rintro ⟨hge, hlt⟩
    rw [hfree i hge hlt] at h
    cases h

theorem extends_put_patch {m : List UInt8} (h : Extends msg (fun i => m[i]?))
    (hfit : off + bs.length ≤ m.length) : Extends (put msg off bs) (fun i => (patch m off bs)[i]?) := by
  intro i b hb
  dsimp only
  rw [getElem?_patch hfit]
  rw [put] at hb
  split at hb
  · rename_i hin
    rw [if_pos hin]
    exact hb
  · rename_i hout
    rw [if_neg hout]
    exact h i b hb

/-- Bytes of one length at one place are the same. -/
theorem Stands.eq (h : Stands msg off as) (h' : Stands msg off bs) (hlen : as.length = bs.length) :
    as = bs := by
  refine List.ext_getElem? fun i => ?_
  obtain hlt | hge := Nat.lt_or_ge i as.length
  · rw [← h i hlt, h' i (hlen ▸ hlt)]
  · rw [List.getElem?_eq_none hge, List.getElem?_eq_none (hlen ▸ hge)]

end

/-! ## Names -/

/-- Labels that are written out. -/
def labels : List Label → List UInt8
  | [] => []
  | l :: ls => UInt8.ofNat l.length :: (l ++ labels ls)

/-- A name without references. -/
def encode (ls : List Label) : List UInt8 := labels ls ++ [0]

/-- A reference to the place `t`. -/
def reference (t : Nat) : List UInt8 := be16 (0xC000 + t)

/-- A label that can be told from a reference and from the end. -/
def Label.Valid (l : Label) : Prop := l ≠ [] ∧ l.length < 64

/-- At `off` the message has the name `ls`, in which `jumps` references are followed; what
comes behind it begins at `stop`. -/
inductive Spells (msg : Message) (Ref : Nat → Nat → Prop) : Nat → List Label → Nat → Nat → Prop
  | root {off : Nat} (zero : msg off = some 0) : Spells msg Ref off [] 0 (off + 1)
  | label {off jumps stop : Nat} {l : Label} {ls : List Label} (valid : l.Valid)
      (stands : Stands msg off (UInt8.ofNat l.length :: l))
      (rest : Spells msg Ref (off + (l.length + 1)) ls jumps stop) : Spells msg Ref off (l :: ls) jumps stop
  | jump {off t jumps stop : Nat} {ls : List Label} (lt : t < 0x4000) (ref : Ref off t)
      (stands : Stands msg off (reference t)) (rest : Spells msg Ref t ls jumps stop) :
      Spells msg Ref off ls (jumps + 1) (off + 2)

/-- A reference to a label, not to another reference or to the end. -/
def ToLabel (msg : Message) (t : Nat) : Prop := ∃ n, 0 < n ∧ n < 64 ∧ msg t = some (UInt8.ofNat n)

@[simp] theorem labels_nil : labels [] = [] := rfl

@[simp] theorem length_labels_cons (l : Label) (ls : List Label) :
    (labels (l :: ls)).length = l.length + 1 + (labels ls).length := by
  simp [labels]
  omega

theorem labels_append (as bs : List Label) : labels (as ++ bs) = labels as ++ labels bs := by
  induction as with
  | nil => rfl
  | cons l as ih => simp [labels, ih]

theorem encode_append (as bs : List Label) : encode (as ++ bs) = labels as ++ encode bs := by
  rw [encode, labels_append, List.append_assoc]
  rfl

theorem encode_cons (l : Label) (ls : List Label) :
    encode (l :: ls) = UInt8.ofNat l.length :: (l ++ encode ls) := by
  simp [encode, labels]

@[simp] theorem length_encode (ls : List Label) : (encode ls).length = (labels ls).length + 1 := by
  simp [encode]

@[simp] theorem length_reference (t : Nat) : (reference t).length = 2 := rfl

theorem ofNat_inj {m n : Nat} (hm : m < 256) (hn : n < 256) (h : UInt8.ofNat m = UInt8.ofNat n) :
    m = n := by
  have hnat := congrArg UInt8.toNat h
  rwa [UInt8.toNat_ofNat', UInt8.toNat_ofNat', Nat.mod_eq_of_lt hm, Nat.mod_eq_of_lt hn] at hnat

theorem reference_injective {t t' : Nat} (ht : t < 0x4000) (ht' : t' < 0x4000)
    (h : reference t = reference t') : t = t' := by
  have hnum := congrArg (fun bs => ofBe16 (bs ++ [])) h
  simp only [reference, ofBe16_be16_append] at hnum
  omega

theorem encode_injective {as bs : List Label} (ha : ∀ l ∈ as, l.Valid) (hb : ∀ l ∈ bs, l.Valid)
    (h : encode as = encode bs) : as = bs := by
  have hpos {l : Label} (hl : l.Valid) : 0 < l.length := List.length_pos_iff.mpr hl.1
  induction as generalizing bs with
  | nil =>
    cases bs with
    | nil => rfl
    | cons k bs =>
      rw [encode_cons] at h
      have hk := hb k List.mem_cons_self
      have hzero := ofNat_inj (by decide) (Nat.lt_trans hk.2 (by decide)) (List.cons.inj h).1
      exact absurd hzero (Nat.ne_of_lt (hpos hk))
  | cons l as ih =>
    have hl := ha l List.mem_cons_self
    cases bs with
    | nil =>
      rw [encode_cons] at h
      have hzero := ofNat_inj (Nat.lt_trans hl.2 (by decide)) (by decide) (List.cons.inj h).1
      exact absurd hzero (Nat.ne_of_gt (hpos hl))
    | cons k bs =>
      have hk := hb k List.mem_cons_self
      rw [encode_cons, encode_cons] at h
      obtain ⟨hlen, htext⟩ := List.cons.inj h
      obtain ⟨rfl, hrest⟩ := List.append_inj htext
        (ofNat_inj (Nat.lt_trans hl.2 (by decide)) (Nat.lt_trans hk.2 (by decide)) hlen)
      rw [ih (fun x hx => ha x (List.mem_cons_of_mem l hx)) (fun x hx => hb x (List.mem_cons_of_mem l hx))
        hrest]

section

variable {msg msg' : Message} {Ref Ref' : Nat → Nat → Prop} {off jumps stop : Nat} {ls : List Label}

theorem Spells.mono (h : Spells msg Ref off ls jumps stop) (hmore : Extends msg msg')
    (href : ∀ off t, Ref off t → Stands msg off (reference t) → Ref' off t) :
    Spells msg' Ref' off ls jumps stop := by
  induction h with
  | root zero => exact .root (hmore _ _ zero)
  | label valid stands _ ih => exact .label valid (stands.mono hmore) ih
  | jump lt ref stands _ ih => exact .jump lt (href _ _ ref stands) (stands.mono hmore) ih

theorem Spells.known (h : Spells msg Ref off ls jumps stop) : ∃ b, msg off = some b := by
  cases h with
  | root zero => exact ⟨_, zero⟩
  | label _ stands _ => exact ⟨_, (stands_cons.mp stands).1⟩
  | jump _ _ stands _ => exact ⟨_, (stands_cons.mp stands).1⟩

theorem Spells.valid (h : Spells msg Ref off ls jumps stop) : ∀ l ∈ ls, l.Valid := by
  induction h with
  | root _ => exact fun _ h => absurd h List.not_mem_nil
  | label valid _ _ ih => exact List.forall_mem_cons.mpr ⟨valid, ih⟩
  | jump _ _ _ _ ih => exact ih

/-- Labels that are written out, and a name behind them. -/
theorem spells_append {as : List Label} (hvalid : ∀ l ∈ as, l.Valid) (h : Stands msg off (labels as))
    (hrest : Spells msg Ref (off + (labels as).length) ls jumps stop) :
    Spells msg Ref off (as ++ ls) jumps stop := by
  induction as generalizing off with
  | nil => exact hrest
  | cons l as ih =>
    obtain ⟨hl, has⟩ := List.forall_mem_cons.mp hvalid
    have hsplit : labels (l :: as) = (UInt8.ofNat l.length :: l) ++ labels as := rfl
    rw [hsplit, stands_append] at h
    rw [length_labels_cons, ← Nat.add_assoc] at hrest
    exact .label hl h.1 (ih has h.2 hrest)

theorem spells_encode (hvalid : ∀ l ∈ ls, l.Valid) (h : Stands msg off (encode ls)) :
    Spells msg Ref off ls 0 (off + (encode ls).length) := by
  rw [encode, stands_append, stands_cons] at h
  have hroot : Spells msg Ref (off + (labels ls).length) [] 0 (off + (labels ls).length + 1) := .root h.2.1
  have hname := spells_append hvalid h.1 hroot
  rw [List.append_nil] at hname
  rw [length_encode]
  exact hname

/-- Behind labels that are written out, and not behind a reference, there is the rest. -/
theorem Spells.tail {as bs : List Label} (h : Spells msg Ref off (as ++ bs) jumps stop)
    (hbefore : off + (labels as).length + 2 < stop) :
    Spells msg Ref (off + (labels as).length) bs jumps stop := by
  induction as generalizing off with
  | nil => exact h
  | cons l as ih =>
    rw [length_labels_cons, ← Nat.add_assoc] at hbefore ⊢
    cases h with
    | label _ _ rest => exact ih rest hbefore
    | jump _ _ _ _ => omega

/-! ## Where a length can be found -/

/-- A label whose text has no byte that is the length of a label. -/
structure Label.Plain (IsLength : Nat → Prop) (l : Label) : Prop where
  valid : l.Valid
  length : IsLength l.length
  text : ∀ b ∈ l, ¬ IsLength b.toNat

/-- Among plain labels, a length stands only before a label. -/
theorem boundary_of_drop {IsLength : Nat → Prop} {n k : Nat} {bs : List UInt8}
    (hplain : ∀ l ∈ ls, l.Plain IsLength) (hk : IsLength k) (hlt : k < 64)
    (h : (encode ls).drop n = UInt8.ofNat k :: bs) :
    ∃ as rest, ls = as ++ rest ∧ (labels as).length = n := by
  have hk256 : k < 256 := Nat.lt_trans hlt (by decide)
  induction ls generalizing n with
  | nil =>
    cases n with
    | zero => exact ⟨[], [], rfl, rfl⟩
    | succ n => cases h.symm.trans (List.drop_of_length_le (by simp [encode]))
  | cons l ls ih =>
    obtain ⟨hl, hls⟩ := List.forall_mem_cons.mp hplain
    cases n with
    | zero => exact ⟨[], l :: ls, rfl, rfl⟩
    | succ n =>
      rw [encode_cons, List.drop_succ_cons] at h
      obtain hin | hbehind := Nat.lt_or_ge n l.length
      · rw [List.drop_append_of_le_length (Nat.le_of_lt hin), List.drop_eq_getElem_cons hin] at h
        have hbyte : l[n] = UInt8.ofNat k := (List.cons.inj h).1
        refine absurd ?_ (hl.text _ (List.getElem_mem hin))
        rw [hbyte, UInt8.toNat_ofNat', Nat.mod_eq_of_lt hk256]
        exact hk
      · obtain ⟨m, rfl⟩ := Nat.exists_eq_add_of_le hbehind
        rw [← List.drop_drop, List.drop_left] at h
        obtain ⟨as, rest, rfl, hlen⟩ := ih hls h
        refine ⟨l :: as, rest, rfl, ?_⟩
        rw [length_labels_cons, hlen]
        omega

/-! ## References to labels -/

theorem not_toLabel_of_reference {t : Nat} (h : Stands msg off (reference t)) (hlt : t < 0x4000) :
    ¬ ToLabel msg off := by
  rintro ⟨n, _, hn, hbyte⟩
  have hhigh := (stands_cons.mp h).1
  rw [hbyte] at hhigh
  have heq := ofNat_inj (Nat.lt_trans hn (by decide)) (show (0xC000 + t) / 256 < 256 by omega)
    (Option.some.inj hhigh)
  omega

theorem not_toLabel_of_zero (h : msg off = some 0) : ¬ ToLabel msg off := by
  rintro ⟨n, hpos, hlt, hbyte⟩
  rw [h] at hbyte
  exact absurd (ofNat_inj (by decide) (Nat.lt_trans hlt (by decide)) (Option.some.inj hbyte))
    (Nat.ne_of_lt hpos)

theorem toLabel_of_stands {l : Label} (hl : l.Valid) (h : Stands msg off (UInt8.ofNat l.length :: l)) :
    ToLabel msg off :=
  ⟨l.length, List.length_pos_iff.mpr hl.1, hl.2, (stands_cons.mp h).1⟩

/-- There is one name at a place. -/
theorem Spells.unique (h : Spells msg Ref off ls jumps stop) {ls' : List Label} {jumps' stop' : Nat}
    (h' : Spells msg Ref' off ls' jumps' stop') : ls' = ls ∧ jumps' = jumps ∧ stop' = stop := by
  induction h generalizing ls' jumps' stop' with
  | root zero =>
    cases h' with
    | root _ => exact ⟨rfl, rfl, rfl⟩
    | label valid stands _ => exact absurd (toLabel_of_stands valid stands) (not_toLabel_of_zero zero)
    | @jump _ t _ _ _ lt _ stands _ =>
      have hhigh := (stands_cons.mp stands).1
      rw [zero] at hhigh
      have heq := ofNat_inj (m := 0) (by decide) (show (0xC000 + t) / 256 < 256 by omega)
        (Option.some.inj hhigh)
      omega
  | @label off _ _ l ls valid stands _ ih =>
    cases h' with
    | root zero => exact absurd (toLabel_of_stands valid stands) (not_toLabel_of_zero zero)
    | @label _ _ _ l' ls' valid' stands' rest' =>
      have hlen : l'.length = l.length := by
        have hbyte := (stands_cons.mp stands).1
        rw [(stands_cons.mp stands').1] at hbyte
        exact ofNat_inj (Nat.lt_trans valid'.2 (by decide)) (Nat.lt_trans valid.2 (by decide))
          (Option.some.inj hbyte)
      obtain rfl : l' = l := (stands_cons.mp stands').2.eq (stands_cons.mp stands).2 hlen
      obtain ⟨rfl, rfl, rfl⟩ := ih rest'
      exact ⟨rfl, rfl, rfl⟩
    | jump lt _ stands' _ =>
      exact absurd (toLabel_of_stands valid stands) (not_toLabel_of_reference stands' lt)
  | @jump off t _ _ _ lt _ stands _ ih =>
    cases h' with
    | root zero =>
      have hhigh := (stands_cons.mp stands).1
      rw [zero] at hhigh
      have heq := ofNat_inj (m := 0) (by decide) (show (0xC000 + t) / 256 < 256 by omega)
        (Option.some.inj hhigh)
      omega
    | label valid stands' _ =>
      exact absurd (toLabel_of_stands valid stands') (not_toLabel_of_reference stands lt)
    | @jump _ t' _ _ _ lt' _ stands' rest' =>
      obtain rfl : t' = t := reference_injective lt' lt (stands'.eq stands rfl)
      obtain ⟨rfl, rfl, rfl⟩ := ih rest'
      exact ⟨rfl, rfl, rfl⟩

/-- A name has at most as many references as labels, and fewer when it begins with a label. -/
theorem Spells.jumps_le (h : Spells msg Ref off ls jumps stop) (href : ∀ off t, Ref off t → ToLabel msg t) :
    jumps ≤ ls.length ∧ (ToLabel msg off → jumps + 1 ≤ ls.length) := by
  induction h with
  | root zero =>
    exact ⟨Nat.le_refl 0, fun hto => absurd hto (not_toLabel_of_zero zero)⟩
  | label _ _ _ ih => exact ⟨Nat.le_succ_of_le ih.1, fun _ => Nat.succ_le_succ ih.1⟩
  | jump lt ref stands _ ih =>
    exact ⟨ih.2 (href _ _ ref), fun hto => absurd hto (not_toLabel_of_reference stands lt)⟩

/-- A name takes at most the room that it takes without references. -/
theorem Spells.stop_le (h : Spells msg Ref off ls jumps stop) (href : ∀ off t, Ref off t → ToLabel msg t) :
    off < stop ∧ stop ≤ off + (encode ls).length := by
  induction h with
  | root _ => exact ⟨Nat.lt_succ_self _, Nat.le_refl _⟩
  | label _ _ _ ih =>
    rw [length_encode] at ih ⊢
    rw [length_labels_cons]
    omega
  | @jump _ t _ _ ls lt ref _ rest ih =>
    have hne : ls ≠ [] := by
      rintro rfl
      exact absurd ((rest.jumps_le href).2 (href _ _ ref)) (Nat.not_succ_le_zero _)
    obtain ⟨l, ls, rfl⟩ := List.exists_cons_of_ne_nil hne
    rw [length_encode, length_labels_cons]
    omega

end

end Lib.Names

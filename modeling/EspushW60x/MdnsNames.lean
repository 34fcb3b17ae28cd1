import EspushW60x.Mdns

/-!
# The names in a packet

`Lib.Names` says what a name in a message is. `mdns_readname` reads those of a packet that
have at most five jumps and 256 bytes, and no others.

Results:
* `readname_steps`: the steps of `mdns_readname` do not run out;
* `readname_iff`: what `mdns_readname` accepts, and what it makes of it.
-/

namespace EspushW60x

open Lib Names

/-- What `pbuf_get_at` sees of a packet: a zero behind its end. -/
def seen (p : Bytes) : Names.Message := fun i => (p ++ [0])[i]?

/-- The jumps that are made in a packet. -/
def JumpsTo (p : Bytes) (off t : Nat) : Prop := off + 1 < p.length ∧ sizeofDnsHdr ≤ t ∧ t < p.length

namespace MdnsLemmas

section

variable {p : Bytes} {i : Nat}

theorem seen_eq (h : i ≤ p.length) : seen p i = some (byteAt p i) := by
  obtain hlt | rfl := Nat.lt_or_eq_of_le h
  · simp [seen, byteAt, List.getElem?_append_left hlt, hlt]
  · simp [seen, byteAt]

theorem le_of_seen {b : UInt8} (h : seen p i = some b) : i ≤ p.length := by
  obtain ⟨hlt, _⟩ := List.getElem?_eq_some_iff.mp h
  rw [List.length_append, List.length_singleton] at hlt
  exact Nat.le_of_lt_succ hlt

theorem extends_seen {msg : Names.Message} (h : Extends msg fun i => p[i]?) : Extends msg (seen p) := by
  intro j b hb
  obtain ⟨hlt, _⟩ := List.getElem?_eq_some_iff.mp (h j b hb)
  rw [seen, List.getElem?_append_left hlt]
  exact h j b hb

theorem seen_byte (h : i ≤ p.length) {b : UInt8} : seen p i = some b ↔ byteAt p i = b := by
  rw [seen_eq h, Option.some.injEq]

theorem and_c0_iff : ∀ c, c < 256 → (c &&& 0xC0 = 0xC0 ↔ 192 ≤ c) := by decide +kernel

theorem and_3f : ∀ c, c < 256 → 192 ≤ c → c &&& 0x3F = c - 192 := by decide +kernel

theorem and_ff : ∀ c, c < 256 → c &&& 0xFF = c := by decide +kernel

theorem addLabel_eq {domain : MdnsDomain} {label : Bytes} (hlen : label.length ≤ mdnsLabelMaxlen)
    (hfit : label.length + domain.name.length < mdnsDomainMaxlen)
    (hroom : 0 < label.length → 1 + label.length + domain.name.length < mdnsDomainMaxlen) :
    mdnsDomainAddLabel domain label =
      some { domain with name := domain.name ++ UInt8.ofNat label.length :: label } := by
  rw [mdnsDomainAddLabel, if_neg (Nat.not_lt.mpr hlen),
    if_neg fun h => Nat.not_le.mpr (hroom h.1) h.2, if_neg]
  rintro ⟨hzero, hlt⟩
  omega

/-- What a label adds to a name. -/
theorem length_addLabel {domain d : MdnsDomain} {label : Bytes}
    (h : mdnsDomainAddLabel domain label = some d) (hpos : 0 < label.length) :
    d.name.length = domain.name.length + (label.length + 1) ∧ d.name.length < mdnsDomainMaxlen := by
  rw [mdnsDomainAddLabel] at h
  split at h
  · cases h
  split at h
  · cases h
  rename_i hroom
  split at h
  · cases h
  obtain rfl := Option.some.inj h
  have hlen : (domain.name ++ UInt8.ofNat label.length :: label).length =
      domain.name.length + (label.length + 1) := by
    rw [List.length_append, List.length_cons]
  refine ⟨hlen, ?_⟩
  show (domain.name ++ UInt8.ofNat label.length :: label).length < _
  omega

theorem two_mul_length_le (ls : List Label) (h : ∀ l ∈ ls, l.Valid) : 2 * ls.length ≤ (labels ls).length := by
  induction ls with
  | nil => exact Nat.zero_le _
  | cons l ls ih =>
    obtain ⟨hl, hls⟩ := List.forall_mem_cons.mp h
    have hpos : 0 < l.length := List.length_pos_iff.mpr hl.1
    have hrest := ih hls
    rw [length_labels_cons, List.length_cons]
    omega

variable [Lwip]

/-- Bytes inside of the packet are copied as they are. -/
theorem stands_seen {l : Bytes} (h : i + l.length ≤ p.length) :
    Stands (seen p) i l ↔ pbufCopyPartial p l.length i = l := by
  have hbyte : ∀ k, k < l.length → seen p (i + k) = (pbufCopyPartial p l.length i)[k]? := by
    intro k hk
    rw [seen, List.getElem?_append_left (by omega), Lwip.copy_bytes, List.getElem?_take_of_lt hk,
      List.getElem?_drop]
  have hlen : (pbufCopyPartial p l.length i).length = l.length := by
    rw [Lwip.copy_bytes, List.length_take, List.length_drop]
    omega
  constructor
  · intro hl
    refine List.ext_getElem? fun k => ?_
    obtain hlt | hge := Nat.lt_or_ge k l.length
    · rw [← hbyte k hlt, hl k hlt]
    · rw [List.getElem?_eq_none (by rw [hlen]; exact hge), List.getElem?_eq_none hge]
  · intro hl k hk
    rw [hbyte k hk, hl]

theorem pbufGetAt_lt (p : Bytes) (i : Nat) : pbufGetAt p i < 256 := by
  rw [Lwip.get_byte]
  exact (byteAt p i).toNat_lt

/-- The offset that a jump goes to. -/
theorem jumpaddr_eq (h : 192 ≤ pbufGetAt p i) :
    (pbufGetAt p i &&& 0x3F) <<< 8 ||| (pbufGetAt p (i + 1) &&& 0xFF) =
      (pbufGetAt p i - 192) * 256 + pbufGetAt p (i + 1) := by
  have hlow := pbufGetAt_lt p (i + 1)
  rw [and_3f _ (pbufGetAt_lt p i) h, and_ff _ hlow, ← Nat.shiftLeft_add_eq_or_of_lt hlow,
    Nat.shiftLeft_eq]

theorem seen_reference {t : Nat} (hlt : t < 0x4000) (hin : i + 1 < p.length) :
    Stands (seen p) i (reference t) ↔
      192 ≤ pbufGetAt p i ∧ (pbufGetAt p i - 192) * 256 + pbufGetAt p (i + 1) = t := by
  have hhigh := pbufGetAt_lt p i
  have hlow := pbufGetAt_lt p (i + 1)
  rw [reference, be16, stands_cons, stands_cons, seen_byte (by omega), seen_byte (by omega),
    ← UInt8.toNat_inj, ← UInt8.toNat_inj, UInt8.toNat_ofNat', UInt8.toNat_ofNat']
  rw [Lwip.get_byte] at hhigh hlow ⊢
  rw [Lwip.get_byte]
  constructor
  · rintro ⟨h0, h1, _⟩
    omega
  · rintro ⟨h0, h1⟩
    refine ⟨?_, ?_, stands_nil⟩ <;> omega

end

section

variable [Lwip] {p : Bytes}

theorem spells_of_loop {steps offset depth stop : Nat} {domain d : MdnsDomain} (hoff : offset ≤ p.length)
    (h : mdnsReadnameLoop p steps offset domain depth = some (stop, d)) :
    ∃ ls jumps, Spells (seen p) (JumpsTo p) offset ls jumps stop ∧ depth + jumps ≤ 5 ∧
      domain.name.length + (encode ls).length ≤ 256 ∧
      d = { domain with name := domain.name ++ encode ls } := by
  induction steps generalizing offset domain depth stop d with
  | zero => cases h
  | succ steps ih =>
    have hc := pbufGetAt_lt p offset
    simp only [mdnsReadnameLoop, and_c0_iff _ hc] at h
    split at h
    · cases h
    rename_i hdepth
    split at h
    · -- a jump
      rename_i hjump
      rw [jumpaddr_eq hjump] at h
      split at h
      · cases h
      rename_i hin
      split at h
      · rename_i hto
        split at h
        · cases h
        rename_i stop' d' hrest
        obtain ⟨rfl, rfl⟩ := Prod.mk.inj (Option.some.inj h)
        obtain ⟨ls, jumps, hspells, hjumps, hroom, rfl⟩ := ih (Nat.le_of_lt hto.2) hrest
        have hlt : (pbufGetAt p offset - 192) * 256 + pbufGetAt p (offset + 1) < 0x4000 := by
          have hlow := pbufGetAt_lt p (offset + 1)
          omega
        refine ⟨ls, jumps + 1, ?_, by omega, hroom, rfl⟩
        exact .jump hlt ⟨Nat.not_le.mp hin, hto⟩
          ((seen_reference hlt (Nat.not_le.mp hin)).mpr ⟨hjump, rfl⟩) hspells
      · cases h
    · split at h
      · rename_i hjump hlen
        split at h
        · cases h
        rename_i hfit
        split at h
        · cases h
        rename_i hcopy
        have hcopied : (pbufCopyPartial p (pbufGetAt p offset) (offset + 1)).length =
            pbufGetAt p offset := Decidable.not_not.mp hcopy
        split at h
        · cases h
        rename_i d' hadd
        generalize hlabel : pbufCopyPartial p (pbufGetAt p offset) (offset + 1) = label at hcopied hadd
        rw [mdnsDomainAddLabel] at hadd
        split at hadd
        · cases hadd
        split at hadd
        · cases hadd
        rename_i hroom
        split at hadd
        · cases hadd
        obtain rfl := Option.some.inj hadd
        have hbyte : seen p offset = some (UInt8.ofNat label.length) := by
          rw [seen_byte hoff, hcopied, Lwip.get_byte, UInt8.ofNat_toNat]
        split at h
        · -- the end
          rename_i hzero
          obtain ⟨rfl, rfl⟩ := Prod.mk.inj (Option.some.inj h)
          rw [hzero] at hcopied
          obtain rfl := List.eq_nil_of_length_eq_zero hcopied
          refine ⟨[], 0, .root hbyte, by omega, ?_, rfl⟩
          rw [mdnsDomainMaxlen] at hfit
          show _ + 1 ≤ 256
          omega
        · -- a label
          rename_i hpos
          have hin : offset + 1 + label.length ≤ p.length := by
            have hlength := congrArg List.length hlabel
            rw [Lwip.copy_bytes, List.length_take, List.length_drop, hcopied] at hlength
            omega
          rw [← hcopied] at h hlabel
          obtain ⟨ls, jumps, hspells, hjumps, hroom', rfl⟩ := ih hin h
          have hvalid : Label.Valid label := by
            refine ⟨?_, ?_⟩
            · rintro rfl
              exact hpos hcopied.symm
            · rw [hcopied]
              exact Nat.lt_succ_of_le hlen
          have htext : Stands (seen p) (offset + 1) label := (stands_seen hin).mpr hlabel
          refine ⟨label :: ls, jumps, ?_, hjumps, ?_, ?_⟩
          · refine .label hvalid (stands_cons.mpr ⟨hbyte, htext⟩) ?_
            rwa [Nat.add_comm label.length, ← Nat.add_assoc]
          · rw [List.length_append, List.length_cons] at hroom'
            rw [length_encode] at hroom' ⊢
            rw [length_labels_cons]
            omega
          · rw [encode_cons, List.append_assoc]
            rfl
      · cases h

theorem loop_of_spells {steps offset depth jumps stop : Nat} {ls : List Label} {domain : MdnsDomain}
    (h : Spells (seen p) (JumpsTo p) offset ls jumps stop) (hsteps : ls.length + jumps < steps)
    (hjumps : depth + jumps ≤ 5) (hroom : domain.name.length + (encode ls).length ≤ 256) :
    mdnsReadnameLoop p steps offset domain depth =
      some (stop, { domain with name := domain.name ++ encode ls }) := by
  induction h generalizing steps depth domain with
  -- the loop takes a step for each label and each jump, and one for the end
  | @root off zero =>
    obtain ⟨steps, rfl⟩ : ∃ k, steps = k + 1 := ⟨steps - 1, by omega⟩
    have hbyte := (seen_byte (le_of_seen zero)).mp zero
    have hc : pbufGetAt p off = 0 := by
      rw [Lwip.get_byte, hbyte]
      rfl
    have hfit : domain.name.length < mdnsDomainMaxlen := hroom
    have hadd : mdnsDomainAddLabel domain [] = some { domain with name := domain.name ++ [0] } :=
      addLabel_eq (Nat.zero_le _) (by rw [List.length_nil, Nat.zero_add]; exact hfit)
        (fun h => absurd h (Nat.lt_irrefl 0))
    have hcopy : pbufCopyPartial p 0 (off + 1) = [] := by
      rw [Lwip.copy_bytes, List.take_zero]
    rw [mdnsReadnameLoop, if_neg (by omega)]
    simp only [hc, hcopy, hadd, List.length_nil, ne_eq, not_true_eq_false, if_false, Nat.zero_le,
      if_true, Nat.zero_add]
    rw [if_neg (by decide), if_neg (Nat.not_le.mpr hfit)]
    rfl
  | @label off jumps stop l ls valid stands rest ih =>
    obtain ⟨steps, rfl⟩ : ∃ k, steps = k + 1 := ⟨steps - 1, by omega⟩
    obtain ⟨hbyte, htext⟩ := stands_cons.mp stands
    have hl : l.length < 256 := Nat.lt_trans valid.2 (by decide)
    have hpos : 0 < l.length := List.length_pos_iff.mpr valid.1
    have hin : off + (l.length + 1) ≤ p.length := by
      obtain ⟨_, hknown⟩ := rest.known
      exact le_of_seen hknown
    have hc : pbufGetAt p off = l.length := by
      rw [Lwip.get_byte, (seen_byte (le_of_seen hbyte)).mp hbyte, UInt8.toNat_ofNat', Nat.mod_eq_of_lt hl]
    have hcopy : pbufCopyPartial p l.length (off + 1) = l := (stands_seen (by omega)).mp htext
    rw [length_encode, length_labels_cons] at hroom
    have hlow : l.length ≤ mdnsLabelMaxlen := Nat.le_of_lt_succ valid.2
    have hc0 : l.length < 192 := Nat.lt_trans valid.2 (by decide)
    have hadd : mdnsDomainAddLabel domain l =
        some { domain with name := domain.name ++ UInt8.ofNat l.length :: l } :=
      addLabel_eq hlow (by rw [mdnsDomainMaxlen]; omega) (fun _ => by rw [mdnsDomainMaxlen]; omega)
    rw [mdnsReadnameLoop, if_neg (by omega)]
    simp only [hc, hcopy, hadd, and_c0_iff _ hl, ne_eq, not_true_eq_false, if_false]
    rw [if_neg (Nat.not_le.mpr hc0), if_pos hlow, if_neg (by rw [mdnsDomainMaxlen]; omega),
      if_neg (Nat.ne_of_gt hpos)]
    have hnext : off + 1 + l.length = off + (l.length + 1) := by omega
    rw [hnext, ih (by rw [List.length_cons] at hsteps; omega) hjumps]
    · rw [encode_cons, List.append_assoc]
      rfl
    · rw [List.length_append, List.length_cons, length_encode]
      omega
  | @jump off t jumps stop ls lt ref stands rest ih =>
    obtain ⟨steps, rfl⟩ : ∃ k, steps = k + 1 := ⟨steps - 1, by omega⟩
    obtain ⟨hjump, haddr⟩ := (seen_reference lt ref.1).mp stands
    rw [mdnsReadnameLoop, if_neg (by omega)]
    simp only [and_c0_iff _ (pbufGetAt_lt p off)]
    rw [if_pos hjump, if_neg (Nat.not_le.mpr ref.1), jumpaddr_eq hjump, haddr, if_pos ref.2,
      ih (by omega) (by omega) hroom]

/-- Every label takes two bytes of the name at least, and no more than six jumps are made:
with steps for these, more steps do not change the result. -/
theorem loop_add_steps (k : Nat) {steps offset depth : Nat} {domain : MdnsDomain}
    (hsteps : mdnsDomainMaxlen - domain.name.length + 2 * (6 - depth) + 2 ≤ 2 * steps) :
    mdnsReadnameLoop p (steps + k) offset domain depth =
      mdnsReadnameLoop p steps offset domain depth := by
  induction steps generalizing offset domain depth with
  | zero => omega
  | succ steps ih =>
    rw [Nat.add_right_comm, mdnsReadnameLoop, mdnsReadnameLoop]
    by_cases hdepth : 5 < depth
    · rw [if_pos hdepth, if_pos hdepth]
    · have hjump (jumpaddr : Nat) : mdnsReadnameLoop p (steps + k) jumpaddr domain (depth + 1) =
          mdnsReadnameLoop p steps jumpaddr domain (depth + 1) := ih (by omega)
      rw [if_neg hdepth, if_neg hdepth]
      simp only [hjump]
      by_cases hcopy : (pbufCopyPartial p (pbufGetAt p offset) (offset + 1)).length =
          pbufGetAt p offset
      · cases hadd : mdnsDomainAddLabel domain
            (pbufCopyPartial p (pbufGetAt p offset) (offset + 1)) with
        | none => rfl
        | some d =>
          by_cases hzero : pbufGetAt p offset = 0
          · simp only [hzero, if_true]
          · obtain ⟨hlen, hmax⟩ := length_addLabel hadd (by omega)
            have hlabel (next : Nat) : mdnsReadnameLoop p (steps + k) next d depth =
                mdnsReadnameLoop p steps next d depth := ih (by omega)
            simp only [hlabel]
      · simp only [ne_eq, hcopy, not_false_eq_true, if_true]

theorem readname_steps (p : Bytes) (offset : Nat) {steps : Nat} (h : readnameSteps ≤ steps) :
    mdnsReadnameLoop p steps offset .empty 0 = mdnsReadname p offset := by
  obtain ⟨k, rfl⟩ := Nat.exists_eq_add_of_le h
  exact loop_add_steps k (by decide)

theorem spells_of_readname {offset stop : Nat} {domain : MdnsDomain} (hoff : offset ≤ p.length)
    (h : mdnsReadname p offset = some (stop, domain)) :
    ∃ ls jumps, Spells (seen p) (JumpsTo p) offset ls jumps stop ∧ jumps ≤ 5 ∧
      (encode ls).length ≤ 256 ∧ domain = ⟨encode ls, false⟩ := by
  obtain ⟨ls, jumps, hspells, hjumps, hroom, rfl⟩ := spells_of_loop hoff h
  rw [Nat.zero_add] at hjumps
  exact ⟨ls, jumps, hspells, hjumps, by simpa [MdnsDomain.empty] using hroom, rfl⟩

theorem readname_of_spells {offset jumps stop : Nat} {ls : List Label}
    (h : Spells (seen p) (JumpsTo p) offset ls jumps stop) (hjumps : jumps ≤ 5)
    (hroom : (encode ls).length ≤ 256) : mdnsReadname p offset = some (stop, ⟨encode ls, false⟩) := by
  have hmany := two_mul_length_le ls h.valid
  rw [length_encode] at hroom
  refine loop_of_spells h (by rw [readnameSteps]; omega) (by omega) ?_
  rw [length_encode]
  exact Nat.le_trans (Nat.le_of_eq (Nat.zero_add _)) hroom

end

end MdnsLemmas

open MdnsLemmas

/-- `mdns_readname` ends within its steps: more of them do not change the result. It accepts
the names with at most five jumps that take up to 256 bytes without them, and returns the
name without jumps and the offset behind it. A name that is cut off at the end of the
packet counts as ended. -/
theorem readname_iff [Lwip] (p : Bytes) (offset : Nat) (hoff : offset ≤ p.length) :
    (∀ steps, readnameSteps ≤ steps →
      mdnsReadnameLoop p steps offset .empty 0 = mdnsReadname p offset) ∧
    ∀ (stop : Nat) (domain : MdnsDomain), mdnsReadname p offset = some (stop, domain) ↔
      ∃ ls jumps, Spells (seen p) (JumpsTo p) offset ls jumps stop ∧ jumps ≤ 5 ∧
        (encode ls).length ≤ 256 ∧ domain = ⟨encode ls, false⟩ := by
  refine ⟨fun steps h => readname_steps p offset h, fun stop domain => ?_⟩
  constructor
  · exact spells_of_readname hoff
  · rintro ⟨ls, jumps, hspells, hjumps, hroom, rfl⟩
    exact readname_of_spells hspells hjumps hroom

section

open scoped Lwip

/-- The name `a` behind a header, and a jump to it. -/
theorem readname_iff_jump :
    ∃ ls jumps, Spells (seen (List.replicate 12 0 ++ [1, 0x61, 0, 0xC0, 12]))
      (JumpsTo (List.replicate 12 0 ++ [1, 0x61, 0, 0xC0, 12])) 15 ls jumps 17 ∧ jumps ≤ 5 ∧
        (encode ls).length ≤ 256 ∧ (⟨[1, 0x61, 0], false⟩ : MdnsDomain) = ⟨encode ls, false⟩ :=
  ((readname_iff _ 15 (by decide)).2 17 ⟨[1, 0x61, 0], false⟩).mp (by decide)

end

end EspushW60x

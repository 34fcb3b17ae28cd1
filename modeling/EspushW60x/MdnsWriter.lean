import EspushW60x.MdnsNames

/-!
# Names that are written with jumps

What is known of a packet that is built is a message that grows. A name is written as its
first labels and a jump to a place where the others stand; `Named` says that a name can be
found at an offset, and `Built` that the packet has what is known.

Results:
* `writeDomain_spells`: `mdns_write_domain` writes the name that it is given.
-/

namespace EspushW60x

open Lib Names

/-- A jump goes to a label behind the header. -/
def RefTo (msg : Names.Message) (_ t : Nat) : Prop := sizeofDnsHdr ≤ t ∧ ToLabel msg t

/-- How many names have the last label of `ls`. -/
def alike (ls : List Label) (names : List (List Label)) : Nat :=
  names.countP fun n => n.getLast? = ls.getLast?

/-- A name that the compression copes with. Its jumps are told apart from its text by the
lengths of labels. -/
structure Compressible (IsLength : Nat → Prop) (ls : List Label) : Prop where
  plain : ∀ l ∈ ls, l.Plain IsLength
  size : (encode ls).length ≤ 255

/-- At `o` there is a name; it has fewer jumps than there are names with its last label. -/
def Named (IsLength : Nat → Prop) (written : List (List Label)) (msg : Names.Message) (o : Nat) : Prop :=
  ∃ ls jumps stop, Spells msg (RefTo msg) o ls jumps stop ∧ Compressible IsLength ls ∧
    jumps < alike ls written ∧ sizeofDnsHdr ≤ o

/-- The packet has what is known, and that ends at the write offset. -/
structure Built (out : MdnsOutpacket) (p : Outbuf) (msg : Names.Message) : Prop where
  start : sizeofDnsHdr ≤ out.writeOffset
  size : out.writeOffset ≤ outpacketSize
  pbuf : out.pbuf = some p
  stored : Extends msg (fun i => p.val[i]?)
  below : ∀ i b, msg i = some b → i < out.writeOffset

/-- The state of a packet between two fields. -/
structure Laid (IsLength : Nat → Prop) (written : List (List Label)) (out : MdnsOutpacket)
    (msg : Names.Message) : Prop where
  built : ∃ p, Built out p msg
  names : ∀ o ∈ out.domainOffsets, Named IsLength written msg o

namespace MdnsLemmas

/-! ## What grows -/

section

variable {msg msg' : Names.Message} {out out' : MdnsOutpacket} {p : Outbuf} {bs : Bytes}
variable {IsLength : Nat → Prop} {written : List (List Label)}

theorem toLabel_mono {t : Nat} (h : ToLabel msg t) (hmore : Extends msg msg') : ToLabel msg' t := by
  obtain ⟨n, hpos, hlt, hbyte⟩ := h
  exact ⟨n, hpos, hlt, hmore _ _ hbyte⟩

theorem spells_more {off jumps stop : Nat} {ls : List Label}
    (h : Spells msg (RefTo msg) off ls jumps stop) (hmore : Extends msg msg') :
    Spells msg' (RefTo msg') off ls jumps stop :=
  h.mono hmore fun _ _ href _ => ⟨href.1, toLabel_mono href.2 hmore⟩

theorem alike_append (ls : List Label) (names more : List (List Label)) :
    alike ls (names ++ more) = alike ls names + alike ls more := List.countP_append

theorem alike_self (ls : List Label) (names : List (List Label)) :
    alike ls (names ++ [ls]) = alike ls names + 1 := by
  rw [alike_append]
  simp [alike]

theorem named_more {o : Nat} (h : Named IsLength written msg o) (hmore : Extends msg msg')
    (more : List (List Label)) : Named IsLength (written ++ more) msg' o := by
  obtain ⟨ls, jumps, stop, hspells, hname, hjumps, ho⟩ := h
  refine ⟨ls, jumps, stop, spells_more hspells hmore, hname, ?_, ho⟩
  rw [alike_append]
  omega

theorem extends_of_same (h : Built out p msg) (hsame : ∀ i, i < out.writeOffset → msg' i = msg i) :
    Extends msg msg' := fun i b hb => (hsame i (h.below i b hb)).trans hb

theorem put_same (msg : Names.Message) (off : Nat) (bs : Bytes) :
    ∀ i, i < off → put msg off bs i = msg i := by
  intro i hi
  exact if_neg (by omega)

variable [Lwip]

/-- Bytes at the write offset. -/
theorem built_takeAt (h : Built out p msg) (hlt : out.writeOffset < outpacketSize)
    (hfit : out.writeOffset + bs.length ≤ outpacketSize) :
    ∃ q, takeAt out bs =
        .ok { out with pbuf := some q, writeOffset := out.writeOffset + bs.length } ∧
      Built { out with pbuf := some q, writeOffset := out.writeOffset + bs.length } q
        (put msg out.writeOffset bs) := by
  have hlen : p.val.length = outpacketSize := p.property
  have hroom : out.writeOffset < p.val.length ∧ out.writeOffset + bs.length ≤ p.val.length := by omega
  refine ⟨⟨patch p.val out.writeOffset bs, (length_patch _ _ _).trans hlen⟩, ?_, ?_⟩
  · rw [takeAt, h.pbuf]
    dsimp only
    rw [Lwip.take_all _ _ _ hroom.1 hroom.2]
  · refine ⟨Nat.le_add_right_of_le h.start, hfit, rfl, extends_put_patch h.stored hroom.2, ?_⟩
    intro i b hb
    rw [put] at hb
    split at hb
    · rename_i hin
      exact hin.2
    · exact Nat.lt_add_right _ (h.below i b hb)

end

/-! ## Compression -/

section

variable {msg : Names.Message} {IsLength : Nat → Prop} {written : List (List Label)}

theorem compressFrom_end {target domain : Bytes} {targetLen steps writelen : Nat}
    (h : domain.length ≤ writelen) : compressFrom target domain targetLen steps writelen = none := by
  cases steps with
  | zero => rfl
  | succ steps => rw [compressFrom, if_pos h]

theorem byteAt_encode (as bs : List Label) :
    byteAt (encode (as ++ bs)) (labels as).length = byteAt (encode bs) 0 := by
  rw [encode_append, byteAt, byteAt, List.getD_eq_getElem?_getD, List.getD_eq_getElem?_getD,
    List.getElem?_append_right (Nat.le_refl _), Nat.sub_self]

/-- A match is at the border of a label of the name, and so are the bytes that it matches. -/
theorem compressFrom_sound {target : Bytes} {ls as bs : List Label} {targetLen steps w tp : Nat}
    (hls : ls = as ++ bs) (hname : Compressible IsLength ls) (htarget : target.length ≤ 255)
    (h : compressFrom target (encode ls) targetLen steps (labels as).length = some (w, tp)) :
    ∃ as' bs', ls = as' ++ bs' ∧ bs' ≠ [] ∧ w = (labels as').length ∧ target.drop tp = encode bs' ∧
      tp + 2 < targetLen := by
  induction steps generalizing as bs with
  | zero => cases h
  | succ steps ih =>
    have hsize := hname.size
    have hlen : (encode ls).length = (labels as).length + (encode bs).length := by
      rw [hls, encode_append, List.length_append]
    have hdomainlen : ((encode ls).length - (labels as).length) % 0x100 = (encode bs).length := by omega
    have hdrop : (encode ls).drop (labels as).length = encode bs := by
      rw [hls, encode_append, List.drop_left]
    rw [compressFrom, hdomainlen, hdrop] at h
    dsimp only at h
    have htargetpos : (target.length - (encode bs).length) % 0x100 = target.length - (encode bs).length := by
      omega
    rw [htargetpos, List.take_length] at h
    split at h
    · cases h
    split at h
    · cases h
    rename_i hbeyond
    split at h
    · rename_i hmatch
      obtain ⟨hle, hgt, heq⟩ := hmatch
      obtain ⟨rfl, rfl⟩ := Prod.mk.inj (Option.some.inj h)
      refine ⟨as, bs, hls, ?_, rfl, ?_, ?_⟩
      · rintro rfl
        exact absurd hgt (by decide)
      · have hshort : (target.drop (target.length - (encode bs).length)).length ≤ (encode bs).length := by
          rw [List.length_drop]
          omega
        exact (List.take_of_length_le hshort).symm.trans heq.symm
      · exact Nat.not_le.mp fun h => hbeyond ⟨hle, hgt, h⟩
    -- no match here: the loop goes on behind the next label, or it is at the end
    · cases bs with
      | nil =>
        have hzero : byteAt (encode ls) (labels as).length = 0 := by
          rw [hls, byteAt_encode]
          rfl
        have hone : (encode ([] : List Label)).length = 1 := rfl
        rw [hzero, compressFrom_end] at h
        · cases h
        · show (encode ls).length ≤ ((labels as).length + 1 + 0) % 0x100
          omega
      | cons l bs =>
        have hl : l.length < 64 := (hname.plain l (by rw [hls]; simp)).valid.2
        have hbyte : (byteAt (encode ls) (labels as).length).toNat = l.length := by
          rw [hls, byteAt_encode, encode_cons]
          show (UInt8.ofNat l.length).toNat = _
          rw [UInt8.toNat_ofNat', Nat.mod_eq_of_lt (Nat.lt_trans hl (by decide))]
        have hnext : ((labels as).length + 1 + l.length) % 0x100 = (labels (as ++ [l])).length := by
          rw [length_encode (l :: bs), length_labels_cons] at hlen
          rw [labels_append, List.length_append, length_labels_cons]
          simp only [labels_nil, List.length_nil]
          omega
        rw [hbyte, hnext] at h
        exact ih (by rw [hls, List.append_assoc]; rfl) h

theorem getLast?_of_append {as bs : List Label} (h : bs ≠ []) : (as ++ bs).getLast? = bs.getLast? := by
  rw [List.getLast?_append, List.getLast?_eq_some_getLast h, Option.some_or]

theorem alike_congr {ls ls' : List Label} (h : ls.getLast? = ls'.getLast?) (names : List (List Label)) :
    alike ls names = alike ls' names := by
  rw [alike, alike, h]

variable [Lwip]

/-- What `mdns_compress_domain` returns when it found the last labels in an earlier name. -/
theorem compressDomain_sound {out : MdnsOutpacket} {p : Outbuf} {o w j : Nat} {ls : List Label}
    {skip : Bool} (hbuilt : Built out p msg) (ho : Named IsLength written msg o)
    (hname : Compressible IsLength ls)
    (h : mdnsCompressDomain p.val o ⟨encode ls, skip⟩ = (w, j)) (hw : w < (encode ls).length) :
    ∃ as bs jumps stop, ls = as ++ bs ∧ w = (labels as).length ∧
      Spells msg (RefTo msg) j bs jumps stop ∧ RefTo msg 0 j ∧ j < out.writeOffset ∧
      bs ≠ [] ∧ jumps < alike ls written := by
  obtain ⟨tls, jumps, stop, hspells, htname, hjumps, hlow⟩ := ho
  have hlen : p.val.length = outpacketSize := p.property
  rw [mdnsCompressDomain] at h
  split at h
  · obtain ⟨rfl, _⟩ := Prod.mk.inj h
    exact absurd hw (Nat.lt_irrefl _)
  rename_i targetEnd target hread
  have hin : o ≤ p.val.length := by
    obtain ⟨b, hb⟩ := hspells.known
    have hlt := hbuilt.below o b hb
    have hsize := hbuilt.size
    omega
  obtain ⟨ls', jumps', hread', _, _, rfl⟩ := spells_of_readname hin hread
  have hlift : Spells (seen p.val) (fun _ _ => True) o tls jumps stop :=
    hspells.mono (extends_seen hbuilt.stored) fun _ _ _ _ => trivial
  obtain ⟨rfl, rfl, rfl⟩ := hlift.unique hread'
  split at h
  · obtain ⟨rfl, _⟩ := Prod.mk.inj h
    exact absurd hw (Nat.lt_irrefl _)
  rename_i w' tp hfound
  obtain ⟨rfl, rfl⟩ := Prod.mk.inj h
  obtain ⟨as, bs, hls, hbs, hw', htail, hbefore⟩ :=
    compressFrom_sound (List.nil_append ls).symm hname htname.size hfound
  -- the match begins with the length of a label, so it is at the border of one
  have hspan := hspells.stop_le fun _ _ h => h.2
  have hsize := htname.size
  have htargetLen : (targetEnd - o) % 0x100 = targetEnd - o := by omega
  rw [htargetLen] at hbefore
  obtain ⟨l, bs, rfl⟩ := List.exists_cons_of_ne_nil hbs
  have hl := hname.plain l (by rw [hls]; simp)
  rw [encode_cons] at htail
  obtain ⟨as', rest, rfl, htp⟩ := boundary_of_drop htname.plain hl.length hl.valid.2 htail
  have hrest : rest = l :: bs := by
    refine encode_injective (fun x hx => (htname.plain x (List.mem_append_right _ hx)).valid) ?_ ?_
    · exact fun x hx => (hname.plain x (by rw [hls]; exact List.mem_append_right _ hx)).valid
    · rw [encode_cons, ← htail, encode_append, ← htp, List.drop_left]
  subst hrest
  -- it is before the jump of the target, so that the packet has the same labels there
  have htailSpells : Spells msg (RefTo msg) (o + tp) (l :: bs) jumps' targetEnd := by
    rw [← htp]
    exact hspells.tail (by omega)
  have hto : ToLabel msg (o + tp) := by
    cases htailSpells with
    | label valid stands _ => exact toLabel_of_stands valid stands
    | jump _ _ _ _ => omega
  have hlast : ls.getLast? = (as' ++ l :: bs).getLast? := by
    rw [hls, getLast?_of_append hbs, getLast?_of_append hbs]
  refine ⟨as, l :: bs, jumps', targetEnd, hls, hw', htailSpells, ⟨Nat.le_add_right_of_le hlow, hto⟩, ?_,
    hbs, ?_⟩
  · obtain ⟨n, _, _, hbyte⟩ := hto
    exact hbuilt.below _ _ hbyte
  · rw [alike_congr hlast]
    exact hjumps

theorem chooseJump_cases (p : Bytes) (domain : MdnsDomain) (offsets : List Nat) (best : Nat × Nat) :
    chooseJump p domain offsets best = best ∨
      (∃ o ∈ offsets, mdnsCompressDomain p o domain = chooseJump p domain offsets best) ∧
        (chooseJump p domain offsets best).1 < best.1 := by
  induction offsets generalizing best with
  | nil => exact .inl rfl
  | cons o offsets ih =>
    rw [chooseJump]
    by_cases hbetter : (mdnsCompressDomain p o domain).1 < best.1
    · rw [if_pos hbetter]
      obtain heq | ⟨⟨o', hmem, ho'⟩, hlt⟩ := ih (mdnsCompressDomain p o domain)
      · rw [heq]
        exact .inr ⟨⟨o, List.mem_cons_self, rfl⟩, hbetter⟩
      · exact .inr ⟨⟨o', List.mem_cons_of_mem o hmem, ho'⟩, Nat.lt_trans hlt hbetter⟩
    · rw [if_neg hbetter]
      obtain heq | ⟨⟨o', hmem, ho'⟩, hlt⟩ := ih best
      · exact .inl heq
      · exact .inr ⟨⟨o', List.mem_cons_of_mem o hmem, ho'⟩, hlt⟩

end

/-! ## Writing a name -/

section

variable {msg : Names.Message} {out : MdnsOutpacket} {p : Outbuf} {IsLength : Nat → Prop}
variable {written : List (List Label)}

theorem jump_eq_reference {j : Nat} (h : j < 0x4000) : be16 (0xC000 ||| j) = reference j := by
  have hor := Nat.shiftLeft_add_eq_or_of_lt (i := 14) h 3
  have hbits : 3 <<< 14 = 0xC000 := rfl
  rw [hbits] at hor
  rw [reference, hor]

variable [Lwip]

theorem writePart_built (h : Built out p msg) (part : Bytes)
    (hfit : out.writeOffset + part.length ≤ outpacketSize) :
    ∃ q out', writePart out part = .ok out' ∧ Built out' q (put msg out.writeOffset part) ∧
      out'.writeOffset = out.writeOffset + part.length ∧
      ∀ o ∈ out'.domainOffsets, o ∈ out.domainOffsets ∨ o = out.writeOffset := by
  by_cases hpart : part = []
  · subst hpart
    refine ⟨p, out, if_pos rfl, ?_, rfl, fun o ho => .inl ho⟩
    rw [put_nil]
    exact h
  · have hpos : ¬ part.length = 0 := fun h => hpart (List.eq_nil_of_length_eq_zero h)
    obtain ⟨q, htake, hbuilt⟩ := built_takeAt h (by omega) hfit
    refine ⟨q,
      { pbuf := some q
        writeOffset := out.writeOffset + part.length
        domainOffsets :=
          if out.domainOffsets.length < numDomainOffsets then out.domainOffsets ++ [out.writeOffset]
          else out.domainOffsets },
      ?_, ⟨hbuilt.start, hbuilt.size, rfl, hbuilt.stored, hbuilt.below⟩, rfl, ?_⟩
    · rw [writePart, if_neg hpos, htake]
    · intro o ho
      dsimp only at ho
      split at ho
      · rcases List.mem_append.mp ho with hold | hnew
        · exact .inl hold
        · exact .inr (List.mem_singleton.mp hnew)
      · exact .inl ho

/-- A name that is written out. -/
theorem laid_whole (h : Laid IsLength written out msg) {ls : List Label} (hname : Compressible IsLength ls)
    (hfit : out.writeOffset + (encode ls).length ≤ outpacketSize) :
    ∃ out' msg', writePart out (encode ls) = .ok out' ∧ Laid IsLength (written ++ [ls]) out' msg' ∧
      (∀ i, i < out.writeOffset → msg' i = msg i) ∧
      Spells msg' (RefTo msg') out.writeOffset ls 0 out'.writeOffset ∧
      out'.writeOffset = out.writeOffset + (encode ls).length := by
  obtain ⟨p, hbuilt⟩ := h.built
  obtain ⟨q, out', hrun, hbuilt', hoffset, hold⟩ := writePart_built hbuilt _ hfit
  have hsame := put_same msg out.writeOffset (encode ls)
  have hspells : Spells (put msg out.writeOffset (encode ls)) (RefTo (put msg out.writeOffset (encode ls)))
      out.writeOffset ls 0 out'.writeOffset := by
    rw [hoffset]
    exact spells_encode (fun l hl => (hname.plain l hl).valid) (stands_put _ _ _)
  refine ⟨out', _, hrun, ⟨⟨q, hbuilt'⟩, fun o ho => ?_⟩, hsame, hspells, hoffset⟩
  rcases hold o ho with hbefore | rfl
  · exact named_more (h.names o hbefore) (extends_of_same hbuilt hsame) _
  · refine ⟨ls, 0, _, hspells, hname, ?_, hbuilt.start⟩
    rw [alike_self]
    exact Nat.succ_pos _

/-- A name whose last labels are a jump to `j`. -/
theorem laid_jump (h : Laid IsLength written out msg) {as bs : List Label} {j jumps stop : Nat}
    (hname : Compressible IsLength (as ++ bs)) (hspells : Spells msg (RefTo msg) j bs jumps stop)
    (href : RefTo msg 0 j) (hj : j < out.writeOffset) (hjumps : jumps < alike (as ++ bs) written)
    (hfit : out.writeOffset + ((labels as).length + 2) ≤ outpacketSize) :
    ∃ out1 out' msg', writePart out (labels as) = .ok out1 ∧ takeAt out1 (reference j) = .ok out' ∧
      Laid IsLength (written ++ [as ++ bs]) out' msg' ∧
      (∀ i, i < out.writeOffset → msg' i = msg i) ∧
      Spells msg' (RefTo msg') out.writeOffset (as ++ bs) (jumps + 1) out'.writeOffset ∧
      out'.writeOffset = out.writeOffset + ((labels as).length + 2) := by
  obtain ⟨p, hbuilt⟩ := h.built
  obtain ⟨q, out1, hrun, hbuilt1, hoffset, hold⟩ :=
    writePart_built hbuilt (labels as) (by omega)
  have hroom : out1.writeOffset + (reference j).length ≤ outpacketSize := by
    rw [hoffset, length_reference]
    omega
  obtain ⟨q', htake, hbuilt'⟩ := built_takeAt hbuilt1 (by omega) hroom
  have hsame1 := put_same msg out.writeOffset (labels as)
  have hsame2 := put_same (put msg out.writeOffset (labels as)) out1.writeOffset (reference j)
  have hmore1 := extends_of_same hbuilt hsame1
  have hmore2 := extends_of_same hbuilt1 hsame2
  have hmore := hmore1.trans hmore2
  have hlt : j < 0x4000 := by
    have hsize := hbuilt.size
    rw [outpacketSize] at hsize
    omega
  have hvalid : ∀ l ∈ as, l.Valid := fun l hl => (hname.plain l (List.mem_append_left _ hl)).valid
  have hrest := Spells.jump hlt ⟨href.1, toLabel_mono href.2 hmore⟩ (stands_put _ _ _)
    (spells_more hspells hmore)
  have hwhole : Spells (put (put msg out.writeOffset (labels as)) out1.writeOffset (reference j))
      (RefTo (put (put msg out.writeOffset (labels as)) out1.writeOffset (reference j)))
      out.writeOffset (as ++ bs) (jumps + 1) (out1.writeOffset + 2) := by
    refine spells_append hvalid ((stands_put msg out.writeOffset (labels as)).mono hmore2) ?_
    rw [← hoffset]
    exact hrest
  have hstop : out1.writeOffset + (reference j).length = out.writeOffset + ((labels as).length + 2) := by
    rw [hoffset, length_reference]
    omega
  refine ⟨out1, _, _, hrun, htake, ⟨⟨q', hbuilt'⟩, fun o ho => ?_⟩, fun i hi => ?_, ?_, hstop⟩
  · rcases hold o ho with hbefore | rfl
    · exact named_more (h.names o hbefore) hmore _
    · refine ⟨as ++ bs, jumps + 1, _, hwhole, hname, ?_, hbuilt.start⟩
      rw [alike_self]
      exact Nat.succ_lt_succ hjumps
  · rw [hsame2 i (by omega), hsame1 i hi]
  · exact hwhole

/-- What is chosen for a name: to write it out, or to write its first labels and to jump. -/
theorem chosen_cases (h : Laid IsLength written out msg) (hbuilt : Built out p msg) {ls : List Label}
    (hname : Compressible IsLength ls) (skip : Bool) :
    chooseJump p.val ⟨encode ls, skip⟩ out.domainOffsets ((encode ls).length, 0) = ((encode ls).length, 0) ∨
      ∃ as bs j jumps stop, ls = as ++ bs ∧
        chooseJump p.val ⟨encode ls, skip⟩ out.domainOffsets ((encode ls).length, 0) =
          ((labels as).length, j) ∧
        Spells msg (RefTo msg) j bs jumps stop ∧ RefTo msg 0 j ∧ j < out.writeOffset ∧ bs ≠ [] ∧
        jumps < alike ls written := by
  obtain hnone | ⟨⟨o, ho, hcompress⟩, hlt⟩ :=
    chooseJump_cases p.val ⟨encode ls, skip⟩ out.domainOffsets ((encode ls).length, 0)
  · exact .inl hnone
  · generalize chooseJump p.val ⟨encode ls, skip⟩ out.domainOffsets ((encode ls).length, 0) = best at *
    obtain ⟨w, j⟩ := best
    obtain ⟨as, bs, jumps, stop, hls, rfl, hspells, href, hj, hbs, hjumps⟩ :=
      compressDomain_sound hbuilt (h.names o ho) hname hcompress hlt
    exact .inr ⟨as, bs, j, jumps, stop, hls, rfl, hspells, href, hj, hbs, hjumps⟩

/-- A name for which no jump is chosen. -/
theorem writeDomain_whole (h : Laid IsLength written out msg) (hbuilt : Built out p msg) {ls : List Label}
    (hname : Compressible IsLength ls) (skip : Bool)
    (hbest : (if skip then ((encode ls).length, 0)
      else chooseJump p.val ⟨encode ls, skip⟩ out.domainOffsets ((encode ls).length, 0)) = ((encode ls).length, 0))
    (hfit : out.writeOffset + (encode ls).length ≤ outpacketSize) :
    ∃ out' msg', mdnsWriteDomain out ⟨encode ls, skip⟩ = .ok out' ∧
      Laid IsLength (written ++ [ls]) out' msg' ∧ (∀ i, i < out.writeOffset → msg' i = msg i) ∧
      Spells msg' (RefTo msg') out.writeOffset ls 0 out'.writeOffset ∧
      out'.writeOffset = out.writeOffset + (encode ls).length := by
  obtain ⟨out', msg', hrun, hlaid, hsame, hspells, hoffset⟩ := laid_whole h hname hfit
  refine ⟨out', msg', ?_, hlaid, hsame, hspells, hoffset⟩
  rw [mdnsWriteDomain, hbuilt.pbuf]
  dsimp only
  rw [hbest]
  dsimp only
  rw [List.take_length, hrun]
  rfl

/-- `mdns_write_domain` writes the name, in at most the room that it takes without jumps. -/
theorem writeDomain_spells (h : Laid IsLength written out msg) {ls : List Label}
    (hname : Compressible IsLength ls) (skip : Bool)
    (hfit : out.writeOffset + (encode ls).length ≤ outpacketSize) :
    ∃ out' msg' jumps, mdnsWriteDomain out ⟨encode ls, skip⟩ = .ok out' ∧
      Laid IsLength (written ++ [ls]) out' msg' ∧ (∀ i, i < out.writeOffset → msg' i = msg i) ∧
      Spells msg' (RefTo msg') out.writeOffset ls jumps out'.writeOffset ∧ jumps ≤ alike ls written ∧
      out'.writeOffset ≤ out.writeOffset + (encode ls).length := by
  obtain ⟨p, hbuilt⟩ := h.built
  cases skip with
  | true =>
    obtain ⟨out', msg', hrun, hlaid, hsame, hspells, hoffset⟩ := writeDomain_whole h hbuilt hname true rfl hfit
    exact ⟨out', msg', 0, hrun, hlaid, hsame, hspells, Nat.zero_le _, Nat.le_of_eq hoffset⟩
  | false =>
    obtain hnone | ⟨as, bs, j, jumps, stop, rfl, hbest, hspells, href, hj, hbs, hjumps⟩ :=
      chosen_cases h hbuilt hname false
    · obtain ⟨out', msg', hrun, hlaid, hsame, hspells, hoffset⟩ :=
        writeDomain_whole h hbuilt hname false hnone hfit
      exact ⟨out', msg', 0, hrun, hlaid, hsame, hspells, Nat.zero_le _, Nat.le_of_eq hoffset⟩
    -- the jump takes two bytes, and what it replaces three at least: a label and the end
    · have hroom : (labels as).length + 2 ≤ (encode (as ++ bs)).length := by
        obtain ⟨l, bs, rfl⟩ := List.exists_cons_of_ne_nil hbs
        have hl := (hname.plain l (by simp)).valid.1
        have hpos : 0 < l.length := List.length_pos_iff.mpr hl
        rw [encode_append, List.length_append, length_encode, length_labels_cons]
        omega
      obtain ⟨out1, out', msg', hrun, htake, hlaid, hsame, hspells', hoffset⟩ :=
        laid_jump h hname hspells href hj hjumps (by omega)
      have hlow : j ≠ 0 := by
        have hheader := href.1
        rw [sizeofDnsHdr] at hheader
        omega
      have hlt : j < 0x4000 := by
        have hsize := hbuilt.size
        rw [outpacketSize] at hsize
        omega
      refine ⟨out', msg', jumps + 1, ?_, hlaid, hsame, hspells', hjumps, by omega⟩
      rw [mdnsWriteDomain, hbuilt.pbuf]
      simp only [Bool.false_eq_true, if_false]
      rw [hbest]
      dsimp only
      have htaken : (encode (as ++ bs)).take (labels as).length = labels as := by
        rw [encode_append, List.take_left]
      rw [htaken, hrun]
      dsimp only
      rw [if_neg hlow, jump_eq_reference hlt, htake]

end

end MdnsLemmas

end EspushW60x

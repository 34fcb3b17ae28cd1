import EspushW60x.MdnsQuery
import EspushW60x.MdnsReplies

/-!
# Queries are answered readably

A name that the responder answers to is one of its own but for the case of letters. So a
question that is repeated in a reply to a legacy query can be read, whatever the query was.

Results:
* `answer_is_heard`: the packet that is sent on a query is read as the records of the reply,
  behind the question of a legacy query.
-/

namespace EspushW60x

open Lib Names

/-- What a reply repeats of a query: the question of a legacy one, without its flag. -/
def repeatedQuestion [Lwip] (reply : MdnsReply) (pkt : MdnsPacket) : List (MdnsRrInfo × Bool) :=
  if reply.legacyQuery then
    match mdnsReadQuestion pkt with
    | none => []
    | some ((rr, _), _) => [(rr, false)]
  else []

namespace MdnsLemmas

/-! ## Names that are equal but for their case -/

theorem sameLetter_printable {c1 c2 : UInt8} (h : sameLetter c1 c2 = true) (h2 : 32 ≤ c2.toNat) :
    32 ≤ c1.toNat := by
  rw [sameLetter, decide_eq_true_eq] at h
  obtain rfl | ⟨hlow, _, _⟩ := h
  · exact h2
  · have hall : ∀ n, n < 256 → 97 ≤ n ||| 0x20 → 32 ≤ n := by decide +kernel
    have hor : 97 ≤ c1.toNat ||| 0x20 := by
      rw [UInt8.le_iff_toNat_le, UInt8.toNat_or] at hlow
      exact hlow
    exact hall _ c1.toNat_lt hor

/-- A text that is equal to a printable one is printable. -/
theorem sameText_printable {l l' rest rest' : Bytes} (hlen : l.length = l'.length)
    (hprint : ∀ b ∈ l', 32 ≤ b.toNat) (h : sameText (l ++ rest) (l' ++ rest') l.length = true) :
    ∀ b ∈ l, 32 ≤ b.toNat := by
  induction l generalizing l' with
  | nil => exact fun b hb => absurd hb List.not_mem_nil
  | cons c l ih =>
    cases l' with
    | nil => cases hlen
    | cons c' l' =>
      obtain ⟨hc', hrest⟩ := List.forall_mem_cons.mp hprint
      have hstep : (sameLetter c c' && (c = 0 || sameText (l ++ rest) (l' ++ rest') l.length)) = true := h
      rw [Bool.and_eq_true, Bool.or_eq_true, decide_eq_true_eq] at hstep
      have hc := sameLetter_printable hstep.1 hc'
      refine List.forall_mem_cons.mpr ⟨hc, ih (Nat.succ.inj hlen) hrest (hstep.2.resolve_left ?_)⟩
      rintro rfl
      exact absurd hc (by decide)

theorem byteAt_encode_cons (l : Label) (ls : List Label) :
    byteAt (encode (l :: ls)) 0 = UInt8.ofNat l.length := by
  rw [encode_cons]
  rfl

theorem drop_encode_cons (l : Label) (ls : List Label) :
    (encode (l :: ls)).drop (1 + l.length) = encode ls := by
  rw [encode_cons, Nat.add_comm, List.drop_succ_cons, List.drop_left]

theorem ofNat_length_ne_zero {l : Label} (h : l.Valid) : UInt8.ofNat l.length ≠ 0 := by
  intro hzero
  have hnum : l.length = 0 := ofNat_inj (Nat.lt_trans h.2 (by decide)) (by decide) hzero
  exact h.1 (List.length_eq_zero_iff.mp hnum)

theorem toNat_ofNat_length {l : Label} (h : l.Valid) : (UInt8.ofNat l.length).toNat = l.length :=
  UInt8.toNat_ofNat_of_lt' (Nat.lt_trans h.2 (by decide))

/-- Equal names have labels of the same lengths, and printable text. -/
theorem labels_of_eqFrom [Lwip] {steps : Nat} {ls ls' : List Label} (hvalid : ∀ l ∈ ls, l.Valid)
    (hprint : ∀ l ∈ ls', PrintableLabel l) (hsteps : ls.length < steps)
    (h : domainEqFrom steps (encode ls) (encode ls') = true) :
    ls.map List.length = ls'.map List.length ∧ ∀ l ∈ ls, ∀ b ∈ l, 32 ≤ b.toNat := by
  induction ls generalizing steps ls' with
  | nil =>
    cases ls' with
    | nil => exact ⟨rfl, fun l hl => absurd hl List.not_mem_nil⟩
    | cons l' ls' =>
      -- the end of one name and a label of the other differ in their first byte
      exfalso
      obtain ⟨steps, rfl⟩ := Nat.exists_eq_succ_of_ne_zero (Nat.ne_of_gt hsteps)
      have hl' := ofNat_length_ne_zero (hprint l' List.mem_cons_self).valid
      have hzero : byteAt (encode []) 0 = 0 := rfl
      rw [domainEqFrom, byteAt_encode_cons, hzero] at h
      simp [encode, hl'.symm] at h
  | cons l ls ih =>
    obtain ⟨hl, hls⟩ := List.forall_mem_cons.mp hvalid
    obtain ⟨steps, rfl⟩ := Nat.exists_eq_succ_of_ne_zero (Nat.ne_of_gt (Nat.lt_of_le_of_lt (Nat.zero_le _) hsteps))
    have hne := ofNat_length_ne_zero hl
    have hnil : encode (l :: ls) ≠ [] := by
      rw [encode_cons]
      exact List.cons_ne_nil _ _
    cases ls' with
    | nil =>
      exfalso
      have hzero : byteAt (encode []) 0 = 0 := rfl
      rw [domainEqFrom, byteAt_encode_cons, hzero] at h
      simp [hne, hnil] at h
    | cons l' ls' =>
      -- two labels: their lengths are the same, and so is their text but for its case
      obtain ⟨hl', hls'⟩ := List.forall_mem_cons.mp hprint
      have hne' := ofNat_length_ne_zero hl'.valid
      rw [domainEqFrom, byteAt_encode_cons, byteAt_encode_cons] at h
      rw [if_pos ⟨hne, hne'⟩] at h
      split at h
      · cases h
      rename_i hsame
      have hlen : l.length = l'.length :=
        ofNat_inj (Nat.lt_trans hl.2 (by decide)) (Nat.lt_trans hl'.valid.2 (by decide)) (Decidable.not_not.mp hsame)
      split at h
      · rename_i htext
        rw [toNat_ofNat_length hl] at htext h
        rw [drop_encode_cons, hlen, drop_encode_cons] at h
        rw [encode_cons, encode_cons, List.drop_succ_cons, List.drop_succ_cons, List.drop_zero,
          List.drop_zero] at htext
        have hprint' : ∀ b ∈ l', 32 ≤ b.toNat := fun b hb => Nat.not_lt.mp (hl'.text b hb)
        obtain ⟨hlens, hall⟩ := ih hls hls' (Nat.lt_of_succ_lt_succ hsteps) h
        refine ⟨by rw [List.map_cons, List.map_cons, hlen, hlens], List.forall_mem_cons.mpr ⟨?_, hall⟩⟩
        rw [Lwip.strnicmp_text] at htext
        exact sameText_printable hlen hprint' htext
      · cases h

/-! ## Names that are asked for -/

/-- A name with which a question can be repeated. -/
def Repeatable (ls : List Label) : Prop := Compressible (· < 32) ls ∧ ShortOrOutside ls

/-- A name that is equal to one of the responder. -/
theorem repeatable_of_eq [Lwip] {ls ls' : List Label} {skip : Bool} (hvalid : ∀ l ∈ ls, l.Valid)
    (hprint : ∀ l ∈ ls', PrintableLabel l) (hlen : ls'.length ≤ 6)
    (hlast : ls'.length ≤ 5 ∨ ∃ l, ls'.getLast? = some l ∧ l.length ≠ 5)
    (h : mdnsDomainEq ⟨encode ls, skip⟩ ⟨encode ls', false⟩ = true) : Repeatable ls := by
  rw [mdnsDomainEq, Bool.and_eq_true] at h
  have hsteps : ls.length < (encode ls).length + 1 := by
    have hmany := two_mul_length_le ls hvalid
    rw [length_encode]
    omega
  obtain ⟨hlens, htext⟩ := labels_of_eqFrom hvalid hprint hsteps h.2
  have hcount : ls.length = ls'.length := by
    rw [← List.length_map (f := List.length), hlens, List.length_map]
  refine ⟨compressible_short (fun l hl => ⟨hvalid l hl, ?_, fun b hb => Nat.not_lt.mpr (htext l hl b hb)⟩)
    (hcount ▸ hlen), ?_⟩
  · have hmem : l.length ∈ ls'.map List.length := hlens ▸ List.mem_map_of_mem hl
    obtain ⟨l', hl', hsame⟩ := List.mem_map.mp hmem
    rw [← hsame]
    exact (hprint l' hl').length
  · refine hlast.imp (fun hshort => hcount ▸ hshort) fun ⟨l', hl', hne⟩ hlocal => hne ?_
    have hlasts := congrArg List.getLast? hlens
    rw [List.getLast?_map, List.getLast?_map, hlocal, hl'] at hlasts
    exact (Option.some.inj hlasts).symm

theorem repeatable_of_local [Lwip] {ls ls' : List Label} {skip : Bool} (hvalid : ∀ l ∈ ls, l.Valid)
    (hlocal : LocalName ls') (h : mdnsDomainEq ⟨encode ls, skip⟩ ⟨encode ls', false⟩ = true) : Repeatable ls :=
  repeatable_of_eq hvalid hlocal.printable (Nat.le_succ_of_le hlocal.length) (Or.inl hlocal.length) h

theorem ne_zero_of_or {a b : Nat} (h : a ||| b ≠ 0) : a ≠ 0 ∨ b ≠ 0 := by
  obtain rfl | ha := Decidable.em (a = 0)
  · rw [Nat.zero_or] at h
    exact Or.inr h
  · exact Or.inl ha

theorem of_ite_ne_zero {c : Bool} {n : Nat} (h : (if c then n else 0) ≠ 0) : c = true := by
  cases c with
  | false => exact absurd rfl h
  | true => rfl

section

variable [Lwip] {rr : MdnsRrInfo} {ls : List Label} (hdomain : rr.domain = ⟨encode ls, false⟩)
variable (hvalid : ∀ l ∈ ls, l.Valid)
include hdomain hvalid

theorem repeatable_of_checkHost {mdns : MdnsHost} (h : mdns.WellNamed) (hasks : checkHost mdns rr ≠ 0) :
    Repeatable ls := by
  rw [checkHost] at hasks
  split at hasks
  · exact absurd rfl hasks
  rw [hdomain, buildReverseV4Domain_eq h, buildHostDomain_eq h] at hasks
  obtain hptr | ha := ne_zero_of_or hasks
  · have hcheck := of_ite_ne_zero hptr
    rw [Bool.and_eq_true] at hcheck
    refine repeatable_of_eq hvalid (printable_reverse _) (Nat.le_of_eq (length_reverseName h))
      (Or.inr ⟨ascii "arpa", ?_, by decide⟩) hcheck.2
    rw [reverseName, List.getLast?_append]
    rfl
  · have hcheck := of_ite_ne_zero ha
    rw [Bool.and_eq_true, Bool.and_eq_true] at hcheck
    exact repeatable_of_local hvalid (localName_host h) hcheck.1.1

theorem repeatable_of_checkService {service : MdnsService} (h : service.WellNamed)
    (hasks : checkService service rr ≠ 0) : Repeatable ls := by
  rw [checkService] at hasks
  split at hasks
  · exact absurd rfl hasks
  rw [hdomain, buildDnssdDomain_eq, (buildServiceDomain_eq h).1, (buildServiceDomain_eq h).2] at hasks
  obtain hptr | hinstance := ne_zero_of_or hasks
  · obtain htype | hname := ne_zero_of_or hptr
    · have hcheck := of_ite_ne_zero htype
      rw [Bool.and_eq_true] at hcheck
      exact repeatable_of_local hvalid localName_dnssd hcheck.1
    · have hcheck := of_ite_ne_zero hname
      rw [Bool.and_eq_true] at hcheck
      exact repeatable_of_local hvalid (localName_type h) hcheck.1
  · have hname : mdnsDomainEq ⟨encode ls, false⟩ ⟨encode (instanceName service), false⟩ = true := by
      split at hinstance
      · assumption
      · exact absurd rfl hinstance
    exact repeatable_of_local hvalid (localName_instance h) hname

end

theorem ofBe16_lt (bs : Bytes) : ofBe16 bs < 0x10000 := by
  have hhigh := (byteAt bs 0).toNat_lt
  have hlow := (byteAt bs 1).toNat_lt
  rw [ofBe16]
  omega

/-- A question that was read. -/
theorem name_of_readQuestion [Lwip] {pkt pkt' : MdnsPacket} {rr : MdnsRrInfo} {unicast : Bool}
    (h : mdnsReadQuestion pkt = some ((rr, unicast), pkt')) :
    ∃ ls, (∀ l ∈ ls, l.Valid) ∧ rr.domain = ⟨encode ls, false⟩ ∧ rr.type < 0x10000 ∧ rr.klass < 0x8000 := by
  rw [mdnsReadQuestion] at h
  split at h
  · cases h
  rename_i hin
  split at h
  · cases h
  simp only [mdnsReadRrInfo, Option.bind_eq_bind, Option.bind_eq_some_iff, Option.pure_def, Option.some.injEq,
    Prod.mk.injEq] at h
  obtain ⟨⟨info, pkt1⟩, ⟨⟨stop, domain⟩, hname, ⟨type, pkt2⟩, _, ⟨klass, pkt3⟩, _, rfl, rfl⟩, ⟨rfl, _⟩, _⟩ := h
  obtain ⟨ls, jumps, hspells, _, _, rfl⟩ := spells_of_readname (Nat.not_lt.mp hin) hname
  refine ⟨ls, hspells.valid, rfl, ofBe16_lt _, ?_⟩
  show ofBe16 klass &&& 0x7FFF < 0x8000
  rw [and_7fff]
  exact Nat.mod_lt _ (by decide)

/-! ## Replies without bits -/

theorem asked_eq_false_iff {reply : MdnsReply} :
    reply.asked = false ↔ reply.hostReplies = 0 ∧ ∀ replies ∈ reply.servReplies, replies = 0 := by
  rw [MdnsReply.asked, decide_eq_false_iff_not, not_or, Decidable.not_not]
  refine and_congr_right fun _ => ⟨fun h replies hmem => ?_, fun h ⟨replies, hmem, hne⟩ => hne (h replies hmem)⟩
  exact Decidable.not_not.mp fun hne => h ⟨replies, hmem, hne⟩

theorem init_not_asked (mdns : MdnsHost) (sourcePort questions txId : Nat) :
    (mdnsInitOutpacket mdns sourcePort questions txId).asked = false :=
  asked_eq_false_iff.mpr ⟨rfl, fun _ hmem => List.eq_of_mem_replicate hmem⟩

theorem anyOf_zero (bits : Nat) : anyOf 0 bits = false := by
  rw [anyOf, Nat.zero_and]
  rfl

section

variable {mdns : MdnsHost} {reply : MdnsReply}

theorem replies_of_usedSlots {slot : MdnsService × Nat} (h : slot ∈ usedSlots mdns reply) :
    slot.2 ∈ reply.servReplies := by
  obtain ⟨⟨service, replies⟩, hmem, hsome⟩ := List.mem_filterMap.mp h
  obtain ⟨s, _, rfl⟩ := Option.map_eq_some_iff.mp hsome
  exact (List.of_mem_zip hmem).2

/-- Changed bits were changed by `f` or are as they were. -/
theorem mem_mapServices {f : MdnsService → Nat → Nat} {replies' : Nat}
    (h : replies' ∈ reply.mapServices mdns f) :
    ∃ replies ∈ reply.servReplies,
      replies' = replies ∨ ∃ service, some service ∈ mdns.services ∧ replies' = f service replies := by
  rw [MdnsReply.mapServices, ← List.map_uncurry_zip_eq_zipWith, List.mem_map] at h
  obtain ⟨⟨service, replies⟩, hmem, rfl⟩ := h
  obtain ⟨hservice, hreplies⟩ := List.of_mem_zip hmem
  refine ⟨replies, hreplies, ?_⟩
  cases service with
  | none => exact Or.inl rfl
  | some s => exact Or.inr ⟨s, hservice, rfl⟩

theorem not_sent_of_not_asked [Lwip] (alloc : Option Outbuf) (h : reply.asked = false)
    (hnew : reply.outpkt = ⟨none, 0, []⟩) : mdnsSendOutpacket mdns reply alloc = none := by
  obtain ⟨hhost, hserv⟩ := asked_eq_false_iff.mp h
  have hanswers : replyAnswers mdns reply = [] := by
    have hservice : ∀ slot ∈ usedSlots mdns reply, serviceAnswers mdns reply slot.1 slot.2 = [] := by
      intro slot hslot
      simp [serviceAnswers, hserv _ (replies_of_usedSlots hslot), anyOf_zero]
    rw [replyAnswers, hostAnswers, hhost, List.flatMap_eq_nil_iff.mpr hservice]
    simp [anyOf_zero]
  have hadditional : replyAdditional mdns reply = [] := by
    refine List.flatMap_eq_nil_iff.mpr fun slot hslot => ?_
    simp [serviceAdditional, hserv _ (replies_of_usedSlots hslot), hhost, anyOf_zero]
  rw [mdnsSendOutpacket, hanswers, hadditional, hnew]
  rfl

end

/-! ## Reading a query -/

section

variable [Lwip] {alloc : Option Outbuf} {mdns : MdnsHost}

theorem dropKnownHost_zero (p : Bytes) (ans : MdnsAnswer) : dropKnownHost p ans mdns 0 = 0 := by
  rw [dropKnownHost]
  exact if_neg fun h => h.1 (Nat.zero_and _)

theorem dropKnownService_zero (p : Bytes) (ans : MdnsAnswer) (service : MdnsService) :
    dropKnownService p ans mdns service 0 = 0 := by
  rw [dropKnownService]
  exact if_neg fun h => h.1 (Nat.zero_and _)

theorem know_not_asked {reply : MdnsReply} (p : Bytes) (ans : MdnsAnswer) (h : reply.asked = false) :
    (reply.know mdns p ans).asked = false := by
  obtain ⟨hhost, hserv⟩ := asked_eq_false_iff.mp h
  refine asked_eq_false_iff.mpr ⟨?_, fun replies' hmem => ?_⟩
  · show dropKnownHost p ans mdns reply.hostReplies = 0
    rw [hhost, dropKnownHost_zero]
  · obtain ⟨replies, hreplies, rfl | ⟨service, _, rfl⟩⟩ := mem_mapServices hmem
    · exact hserv _ hreplies
    · rw [hserv _ hreplies, dropKnownService_zero]

/-- Known answers only clear bits. -/
theorem readKnown_keeps {n : Nat} {pkt : MdnsPacket} {reply reply' : MdnsReply}
    (h : readKnown mdns n pkt reply = some reply') :
    reply'.outpkt = reply.outpkt ∧ reply'.legacyQuery = reply.legacyQuery ∧
      (reply.asked = false → reply'.asked = false) := by
  induction n generalizing pkt reply with
  | zero =>
    obtain rfl := Option.some.inj h
    exact ⟨rfl, rfl, id⟩
  | succ n ih =>
    rw [readKnown] at h
    split at h
    · cases h
    split at h
    · exact ih h
    · obtain ⟨hout, hlegacy, hasked⟩ := ih h
      exact ⟨hout, hlegacy, fun hnot => hasked (know_not_asked _ _ hnot)⟩

theorem readQuery_multicast {n : Nat} {pkt pkt' : MdnsPacket} {reply reply' : MdnsReply}
    (hlegacy : reply.legacyQuery = false) (h : readQuery alloc mdns n pkt reply = some (reply', pkt')) :
    reply'.outpkt = reply.outpkt ∧ reply'.legacyQuery = false := by
  induction n generalizing pkt reply with
  | zero =>
    obtain ⟨rfl, _⟩ := Prod.mk.inj (Option.some.inj h)
    exact ⟨rfl, hlegacy⟩
  | succ n ih =>
    rw [readQuery] at h
    split at h
    · cases h
    rename_i rr _ pkt1 _
    have hask : (reply.ask mdns rr).legacyQuery = false := hlegacy
    dsimp only at h
    rw [hask, Bool.and_false, if_neg Bool.false_ne_true] at h
    obtain ⟨hout, hlegacy'⟩ := ih hask h
    exact ⟨hout, hlegacy'⟩

/-- A question that asks for something has a name of the responder. -/
theorem repeatable_of_asked {reply : MdnsReply} (hmdns : mdns.WellNamed) (hstart : reply.asked = false)
    {rr : MdnsRrInfo} {ls : List Label} (hdomain : rr.domain = ⟨encode ls, false⟩)
    (hvalid : ∀ l ∈ ls, l.Valid) (h : (reply.ask mdns rr).asked = true) : Repeatable ls := by
  obtain ⟨hhost, hserv⟩ := asked_eq_false_iff.mp hstart
  rw [MdnsReply.asked, decide_eq_true_eq] at h
  obtain hbits | ⟨replies', hmem, hne⟩ := h
  · refine repeatable_of_checkHost hdomain hvalid hmdns fun hzero => hbits ?_
    show reply.hostReplies ||| checkHost mdns rr = 0
    rw [hhost, hzero]
    rfl
  · obtain ⟨replies, hreplies, rfl | ⟨service, hservice, rfl⟩⟩ := mem_mapServices hmem
    · exact absurd (hserv _ hreplies) hne
    · rw [hserv _ hreplies, Nat.zero_or] at hne
      exact repeatable_of_checkService hdomain hvalid (hmdns.services service hservice) hne

/-- The only question of a legacy query is repeated when it asks for something. -/
theorem readQuery_legacy (hmdns : mdns.WellNamed) {pkt pkt' : MdnsPacket} {reply reply' : MdnsReply}
    (hlegacy : reply.legacyQuery = true) (hstart : reply.asked = false) (hnew : reply.outpkt = ⟨none, 0, []⟩)
    (h : readQuery alloc mdns 1 pkt reply = some (reply', pkt')) :
    reply'.legacyQuery = true ∧ (reply'.asked = false ∧ reply'.outpkt = ⟨none, 0, []⟩ ∨
      ∃ q : Heading, q.Fits (· < 32) ∧ ShortOrOutside q.name ∧
        addQuestions alloc ⟨none, 0, []⟩ [q] = .ok reply'.outpkt ∧
        ∃ unicast pkt1, mdnsReadQuestion pkt = some ((⟨q.domain, q.type, q.klass⟩, unicast), pkt1) ∧
          q.flag = false) := by
  rw [readQuery] at h
  split at h
  · cases h
  rename_i rr unicast pkt1 hread
  have hask : (reply.ask mdns rr).legacyQuery = true := hlegacy
  have hout : (reply.ask mdns rr).outpkt = ⟨none, 0, []⟩ := hnew
  dsimp only at h
  rw [hask, Bool.and_true, hout] at h
  split at h
  -- something is asked for, and the question goes into the packet
  · rename_i hasked
    split at h
    · cases h
    rename_i outpkt hadd
    obtain ⟨rfl, _⟩ := Prod.mk.inj (Option.some.inj h)
    obtain ⟨ls, hvalid, hdomain, htype, hklass⟩ := name_of_readQuestion hread
    obtain ⟨hname, hshort⟩ := repeatable_of_asked hmdns hstart hdomain hvalid hasked
    refine ⟨rfl, Or.inr ⟨⟨ls, rr.type, rr.klass, false⟩, ⟨hname, htype, hklass⟩, hshort, ?_,
      unicast, pkt1, ?_, rfl⟩⟩
    · have hquestion : mdnsAddQuestion alloc ⟨none, 0, []⟩ ⟨encode ls, false⟩ rr.type rr.klass false =
          .ok outpkt := by
        rw [← hdomain]
        exact hadd
      rw [addQuestions, Heading.domain, hquestion]
      rfl
    · have hrr : (⟨⟨encode ls, false⟩, rr.type, rr.klass⟩ : MdnsRrInfo) = rr := by rw [← hdomain]
      rw [hread, Heading.domain, hrr]
  · rename_i hasked
    obtain ⟨rfl, _⟩ := Prod.mk.inj (Option.some.inj h)
    exact ⟨hask, Or.inl ⟨Bool.eq_false_iff.mpr hasked, hout⟩⟩

/-- A reply before it is built: it has the question of a legacy query, or nothing is asked. -/
theorem queryReply_ready (hmdns : mdns.WellNamed) {sourcePort txId : Nat} {pkt : MdnsPacket} {reply : MdnsReply}
    (h : queryReply alloc mdns sourcePort txId pkt = some reply) :
    reply.asked = false ∧ reply.outpkt = ⟨none, 0, []⟩ ∨
      ∃ qs : List Heading, (∀ q ∈ qs, q.Fits (· < 32) ∧ ShortOrOutside q.name) ∧
        addQuestions alloc ⟨none, 0, []⟩ qs = .ok reply.outpkt ∧
        qs.length = (if reply.legacyQuery then 1 else 0) ∧
        (qs.map fun q => (⟨q.domain, q.type, q.klass⟩, q.flag)) = repeatedQuestion reply pkt := by
  rw [queryReply] at h
  split at h
  · cases h
  rename_i reply1 pkt1 hread
  obtain ⟨hout, hlegacy, hasked⟩ := readKnown_keeps h
  rw [repeatedQuestion, hout, hlegacy]
  have hstart := init_not_asked mdns sourcePort pkt.questionsLeft txId
  cases hkind : (mdnsInitOutpacket mdns sourcePort pkt.questionsLeft txId).legacyQuery with
  | false =>
    -- the packet is still empty, whatever was asked
    obtain ⟨hout1, hlegacy1⟩ := readQuery_multicast hkind hread
    rw [hout1, hlegacy1]
    exact Or.inr ⟨[], fun q hq => absurd hq List.not_mem_nil, rfl, rfl, rfl⟩
  | true =>
    have hone : pkt.questionsLeft = 1 := (of_decide_eq_true hkind).2
    rw [hone] at hread hkind hstart
    obtain ⟨hlegacy1, hquiet | ⟨q, hfits, hshort, hadd, unicast, _, hquestion, hflag⟩⟩ :=
      readQuery_legacy hmdns hkind hstart rfl hread
    · exact Or.inl ⟨hasked hquiet.1, hquiet.2⟩
    · rw [hlegacy1, hquestion]
      refine Or.inr ⟨[q], List.forall_mem_singleton.mpr ⟨hfits, hshort⟩, hadd, rfl, ?_⟩
      rw [List.map_singleton, hflag]
      rfl

end

end MdnsLemmas

open MdnsLemmas

/-- Whatever query comes in, from whatever port: if a packet is sent on it, then it is read,
by a responder that hears it, as the records of the reply. Before them stands the question
of a legacy query. -/
theorem answer_is_heard [Lwip] (alloc : Option Outbuf) (mdns : MdnsHost) (hmdns : mdns.WellNamed)
    (sourcePort : Nat) (p packet : Bytes) (hsend : mdnsRecvQuery alloc mdns sourcePort p = some packet) :
    ∃ flags1 pkt reply as, recvPacket p = some (flags1, pkt) ∧
      queryReply alloc mdns sourcePort (ofBe16 p) pkt = some reply ∧
      mdnsRecv packet = some (repeatedQuestion reply pkt, as) ∧
      as.length = (replyAnswers mdns reply ++ replyAdditional mdns reply).length ∧
      ∀ x ∈ (replyAnswers mdns reply ++ replyAdditional mdns reply).zip as, x.1.HeardAs packet x.2 := by
  rw [mdnsRecvQuery] at hsend
  split at hsend
  · cases hsend
  rename_i flags1 pkt hpacket
  split at hsend
  · cases hsend
  rw [mdnsHandleQuestion] at hsend
  split at hsend
  · cases hsend
  rename_i reply hreply
  obtain ⟨hquiet, hnew⟩ | ⟨qs, hqs, hquestions, hlegacy, hrepeated⟩ := queryReply_ready hmdns hreply
  -- nothing was asked for: there are no records, and no packet for them
  · rw [not_sent_of_not_asked alloc hquiet hnew] at hsend
    cases hsend
  · obtain ⟨as, hrecv, hlen, hall⟩ :=
      reply_is_heard alloc mdns hmdns reply qs hqs hquestions hlegacy packet hsend
    rw [hrepeated] at hrecv
    exact ⟨flags1, pkt, reply, as, hpacket, hreply, hrecv, hlen, hall⟩

/-- A query for the address of the board. -/
def addressQuery : Bytes :=
  be16 0x1234 ++ [0, 0] ++ be16 1 ++ be16 0 ++ be16 0 ++ be16 0 ++ encode [ascii "Lighter", ascii "local"] ++
    be16 dnsRrtypeA ++ be16 dnsRrclassIn

section

open scoped Lwip

/-- It comes from another port, so that it is a legacy query. -/
theorem answer_is_heard_address :
    ∃ packet, mdnsRecvQuery (some blankPacket) lighter 40000 addressQuery = some packet ∧
      ∃ flags1 pkt reply as, recvPacket addressQuery = some (flags1, pkt) ∧
        queryReply (some blankPacket) lighter 40000 (ofBe16 addressQuery) pkt = some reply ∧
        mdnsRecv packet = some (repeatedQuestion reply pkt, as) ∧
        as.length = (replyAnswers lighter reply ++ replyAdditional lighter reply).length ∧
        ∀ x ∈ (replyAnswers lighter reply ++ replyAdditional lighter reply).zip as, x.1.HeardAs packet x.2 := by
  have hsent : (mdnsRecvQuery (some blankPacket) lighter 40000 addressQuery).isSome = true := by
    decide +kernel
  obtain ⟨packet, hsend⟩ := Option.isSome_iff_exists.mp hsent
  exact ⟨packet, hsend,
    answer_is_heard (some blankPacket) lighter wellNamed_lighter 40000 addressQuery packet hsend⟩

end

end EspushW60x

import EspushW60x.MdnsResponder

/-!
# Replies are heard

Every name of the responder but the one for the reverse lookup ends in `local` and has at
most four labels, so the jumps in a reply are few and every record of it is read.

Results:
* `reply_is_heard`: what `mdns_send_outpacket` sends is read by `mdns_recv` as the records
  that the reply is to hold.
* `announce_is_heard`: so is an announcement.
-/

namespace EspushW60x

open Lib Names

/-- A label of printable text, shorter than 32 bytes. -/
abbrev PrintableLabel (l : Bytes) : Prop := Label.Plain (· < 32) l

structure MdnsService.WellNamed (s : MdnsService) : Prop where
  name : PrintableLabel s.name
  service : PrintableLabel s.service
  dnsTtl : s.dnsTtl < 0x100000000

structure MdnsHost.WellNamed (mdns : MdnsHost) : Prop where
  name : PrintableLabel mdns.name
  services : ∀ service, some service ∈ mdns.services → service.WellNamed
  dnsTtl : mdns.dnsTtl < 0x100000000
  ip4Addr : mdns.ip4Addr.length = 4

/-- The answer says what the record says. -/
structure MdnsRecord.HeardAs [Lwip] (packet : Bytes) (r : MdnsRecord) (a : MdnsAnswer) : Prop where
  info : a.info = ⟨r.domain, r.type, r.klass⟩
  flag : a.cacheFlush = r.cacheFlush
  ttl : a.ttl = r.ttl
  buf : pbufCopyPartial packet (r.buf.getD []).length a.rdOffset = r.buf.getD []
  noTarget : r.answerDomain = none → a.rdLength = (r.buf.getD []).length
  target : ∀ d, r.answerDomain = some d →
    mdnsReadname packet (a.rdOffset + (r.buf.getD []).length) =
      some (a.rdOffset + a.rdLength, ⟨d.name, false⟩)

namespace MdnsLemmas

/-! ## Names -/

theorem printable_digits {n : Nat} (h : n < 256) : PrintableLabel (Decimal.text n) := by
  have hlen : (Decimal.text n).length ≤ 3 := by
    have hmono := Decimal.length_text_mono (Nat.le_of_lt_succ h)
    have h255 : (Decimal.text 255).length = 3 := by simp [Decimal.text]
    omega
  refine ⟨⟨Decimal.text_ne_nil n, by omega⟩, by omega, fun b hb => Nat.not_lt.mpr ?_⟩
  have hdigit : 48 ≤ b.toNat := UInt8.le_iff_toNat_le.mp (Decimal.isDigit_text n b hb).1
  omega

theorem length_encode_le {ls : List Label} (h : ∀ l ∈ ls, PrintableLabel l) :
    (encode ls).length ≤ 32 * ls.length + 1 := by
  induction ls with
  | nil => exact Nat.le_refl _
  | cons l ls ih =>
    obtain ⟨hl, hls⟩ := List.forall_mem_cons.mp h
    have hlen : l.length < 32 := hl.length
    have hrest := ih hls
    rw [encode_cons, List.length_cons, List.length_append, List.length_cons]
    omega

theorem compressible_short {ls : List Label} (h : ∀ l ∈ ls, PrintableLabel l) (hlen : ls.length ≤ 6) :
    Compressible (· < 32) ls := by
  have hsize := length_encode_le h
  exact ⟨h, by omega⟩

/-- Labels that fit, and the end of the name. -/
theorem addLabels_eq {ls : List Label} (hvalid : ∀ l ∈ ls, l.Valid) (domain : MdnsDomain)
    (hsize : domain.name.length + (encode ls).length ≤ 255) :
    addLabels domain (ls ++ [[]]) = { domain with name := domain.name ++ encode ls } := by
  induction ls generalizing domain with
  | nil =>
    have hlen : (encode []).length = 1 := rfl
    rw [hlen] at hsize
    have hadd : mdnsDomainAddLabel domain [] = some { domain with name := domain.name ++ [0] } :=
      addLabel_eq (Nat.zero_le _) (by rw [mdnsDomainMaxlen, List.length_nil]; omega)
        fun h => absurd h (Nat.lt_irrefl 0)
    rw [List.nil_append, addLabels, hadd]
    rfl
  | cons l ls ih =>
    obtain ⟨hl, hls⟩ := List.forall_mem_cons.mp hvalid
    rw [encode_cons, List.length_cons, List.length_append] at hsize
    have hadd : mdnsDomainAddLabel domain l =
        some { domain with name := domain.name ++ UInt8.ofNat l.length :: l } :=
      addLabel_eq (Nat.le_of_lt_succ hl.2) (by rw [mdnsDomainMaxlen]; omega)
        fun _ => by rw [mdnsDomainMaxlen]; omega
    rw [List.cons_append, addLabels, hadd]
    dsimp only
    rw [ih hls]
    · rw [encode_cons, List.append_assoc, List.cons_append]
    · rw [List.length_append, List.length_cons]
      omega

theorem addLabels_printable {ls : List Label} (h : ∀ l ∈ ls, PrintableLabel l) (hlen : ls.length ≤ 6) :
    addLabels .empty (ls ++ [[]]) = ⟨encode ls, false⟩ :=
  addLabels_eq (fun l hl => (h l hl).valid) .empty (by
    have hsize := (compressible_short h hlen).size
    rw [MdnsDomain.empty, List.length_nil]
    omega)

def hostName (mdns : MdnsHost) : List Label := [mdns.name, ascii "local"]

def dnssdName : List Label := [ascii "_services", ascii "_dns-sd", ascii "_udp", ascii "local"]

def typeName (service : MdnsService) : List Label :=
  [service.service, dnssdProtos service.proto, ascii "local"]

def instanceName (service : MdnsService) : List Label := service.name :: typeName service

def reverseName [Lwip] (addr : Bytes) : List Label :=
  addr.reverse.map lwipItoa ++ [ascii "in-addr", ascii "arpa"]

/-- A name under `local`. -/
structure LocalName (ls : List Label) : Prop where
  printable : ∀ l ∈ ls, PrintableLabel l
  length : ls.length ≤ 5
  last : ls.getLast? = some (ascii "local")

theorem printable_proto (proto : DnssdProto) : PrintableLabel (dnssdProtos proto) := by
  cases proto <;> exact plain_of_isPrintable (by decide)

theorem printable_local : PrintableLabel (ascii "local") := plain_of_isPrintable (by decide)

theorem localName_host {mdns : MdnsHost} (h : mdns.WellNamed) : LocalName (hostName mdns) := by
  refine ⟨?_, by simp [hostName], rfl⟩
  exact List.forall_mem_cons.mpr ⟨h.name, List.forall_mem_singleton.mpr printable_local⟩

theorem localName_dnssd : LocalName dnssdName := by
  refine ⟨?_, by simp [dnssdName], rfl⟩
  simp only [dnssdName, List.forall_mem_cons]
  exact ⟨plain_of_isPrintable (by decide), plain_of_isPrintable (by decide), plain_of_isPrintable (by decide),
    printable_local, fun l hl => absurd hl List.not_mem_nil⟩

section

variable {service : MdnsService} (h : service.WellNamed)
include h

theorem localName_type : LocalName (typeName service) := by
  refine ⟨?_, by simp [typeName], rfl⟩
  simp only [typeName, List.forall_mem_cons]
  exact ⟨h.service, printable_proto _, printable_local, fun l hl => absurd hl List.not_mem_nil⟩

theorem localName_instance : LocalName (instanceName service) := by
  refine ⟨?_, by simp [instanceName, typeName], rfl⟩
  exact List.forall_mem_cons.mpr ⟨h.name, (localName_type h).printable⟩

theorem buildServiceDomain_eq :
    mdnsBuildServiceDomain service false = ⟨encode (typeName service), false⟩ ∧
      mdnsBuildServiceDomain service true = ⟨encode (instanceName service), false⟩ :=
  ⟨addLabels_printable (localName_type h).printable (by simp [typeName]),
    addLabels_printable (localName_instance h).printable (by simp [instanceName, typeName])⟩

end

theorem buildDnssdDomain_eq : mdnsBuildDnssdDomain = ⟨encode dnssdName, false⟩ :=
  addLabels_printable localName_dnssd.printable (by simp [dnssdName])

theorem printable_reverse [Lwip] (addr : Bytes) : ∀ l ∈ reverseName addr, PrintableLabel l := by
  intro l hl
  rw [reverseName, List.mem_append, List.mem_map] at hl
  obtain ⟨b, _, rfl⟩ | hl := hl
  · rw [Lwip.itoa_decimal]
    exact printable_digits b.toNat_lt
  · simp only [List.mem_cons, List.not_mem_nil, or_false] at hl
    obtain rfl | rfl := hl <;> exact plain_of_isPrintable (by decide)

section

variable {mdns : MdnsHost} (h : mdns.WellNamed)
include h

theorem buildHostDomain_eq : mdnsBuildHostDomain mdns = ⟨encode (hostName mdns), false⟩ :=
  addLabels_printable (localName_host h).printable (by simp [hostName])

variable [Lwip]

theorem length_reverseName : (reverseName mdns.ip4Addr).length = 6 := by
  rw [reverseName, List.length_append, List.length_map, List.length_reverse, h.ip4Addr]
  rfl

theorem buildReverseV4Domain_eq :
    mdnsBuildReverseV4Domain mdns.ip4Addr = ⟨encode (reverseName mdns.ip4Addr), false⟩ := by
  have hlabels : mdns.ip4Addr.reverse.map lwipItoa ++ [ascii "in-addr", ascii "arpa", []] =
      reverseName mdns.ip4Addr ++ [[]] := by
    rw [reverseName, List.append_assoc]
    rfl
  rw [mdnsBuildReverseV4Domain, hlabels]
  exact addLabels_printable (printable_reverse _) (Nat.le_of_eq (length_reverseName h))

end

/-! ## Records -/

/-- A record whose names are under `local`. -/
def IsLocal (m : MdnsRecord) : Prop :=
  ∃ r : Record, m = r.toMdns ∧ r.Fits (· < 32) ∧ ∀ ls ∈ r.names, LocalName ls

theorem LocalName.compressible {ls : List Label} (h : LocalName ls) : Compressible (· < 32) ls :=
  compressible_short h.printable (Nat.le_succ_of_le h.length)

theorem isLocal_of_names {name : List Label} (hname : LocalName name) (type : Nat) (htype : type < 0x10000)
    (flag : Bool) {ttl : Nat} (httl : ttl < 0x100000000) (buf : Option Bytes)
    {target : Option (List Label × Bool)} (htarget : ∀ t, target = some t → LocalName t.1) :
    IsLocal (Record.toMdns ⟨⟨name, type, dnsRrclassIn, flag⟩, ttl, buf, target⟩) := by
  have hklass : dnsRrclassIn < 0x8000 := by decide
  refine ⟨_, rfl, ⟨⟨hname.compressible, htype, hklass⟩, httl, fun t ht => (htarget t ht).compressible⟩, ?_⟩
  refine List.forall_mem_cons.mpr ⟨hname, fun ls hls => ?_⟩
  obtain ⟨t, ht, rfl⟩ := Option.map_eq_some_iff.mp (Option.mem_toList.mp hls)
  exact htarget t ht

theorem localName_target {ls : List Label} (skip : Bool) (h : LocalName ls) :
    ∀ t, some (ls, skip) = some t → LocalName t.1 := by
  rintro t ht
  obtain rfl := Option.some.inj ht
  exact h

theorem localName_noTarget : ∀ t : List Label × Bool, none = some t → LocalName t.1 := by
  rintro t ht
  cases ht

section

variable {mdns : MdnsHost} (reply : MdnsReply) (h : mdns.WellNamed)
include h

theorem isLocal_a : IsLocal (mdnsAddAAnswer mdns reply) := by
  rw [mdnsAddAAnswer, buildHostDomain_eq h]
  exact isLocal_of_names (localName_host h) dnsRrtypeA (by decide) reply.cacheFlush h.dnsTtl
    (some mdns.ip4Addr) localName_noTarget

theorem isLocal_srv {service : MdnsService} (hs : service.WellNamed) :
    IsLocal (mdnsAddSrvAnswer mdns reply service) := by
  rw [mdnsAddSrvAnswer, buildHostDomain_eq h, (buildServiceDomain_eq hs).2]
  exact isLocal_of_names (localName_instance hs) dnsRrtypeSrv (by decide) reply.cacheFlush hs.dnsTtl
    (some (be16 0 ++ be16 0 ++ be16 service.port)) (localName_target reply.legacyQuery (localName_host h))

end

section

variable {service : MdnsService} (hs : service.WellNamed)
include hs

theorem isLocal_servicetypePtr : IsLocal (mdnsAddServicetypePtrAnswer service) := by
  rw [mdnsAddServicetypePtrAnswer, buildDnssdDomain_eq, (buildServiceDomain_eq hs).1]
  exact isLocal_of_names localName_dnssd dnsRrtypePtr (by decide) false hs.dnsTtl none
    (localName_target false (localName_type hs))

theorem isLocal_servicenamePtr : IsLocal (mdnsAddServicenamePtrAnswer service) := by
  rw [mdnsAddServicenamePtrAnswer, (buildServiceDomain_eq hs).1, (buildServiceDomain_eq hs).2]
  exact isLocal_of_names (localName_type hs) dnsRrtypePtr (by decide) false hs.dnsTtl none
    (localName_target false (localName_instance hs))

theorem isLocal_txt (reply : MdnsReply) : IsLocal (mdnsAddTxtAnswer reply service) := by
  rw [mdnsAddTxtAnswer, (buildServiceDomain_eq hs).2]
  exact isLocal_of_names (localName_instance hs) dnsRrtypeTxt (by decide) reply.cacheFlush hs.dnsTtl
    (some (mdnsPrepareTxtdata service).name) localName_noTarget

end

theorem mem_ite_nil {α : Type} {c : Bool} {x y : α} (h : x ∈ if c then [y] else []) : x = y := by
  cases c with
  | false => cases h
  | true => exact List.mem_singleton.mp h

theorem mem_nil_ite {α : Type} {c : Bool} {x y : α} (h : x ∈ if c then [] else [y]) : x = y := by
  cases c with
  | false => exact List.mem_singleton.mp h
  | true => cases h

section

variable {mdns : MdnsHost} (reply : MdnsReply) (h : mdns.WellNamed)
include h

theorem isLocal_serviceAnswers {service : MdnsService} (hs : service.WellNamed) (replies : Nat) :
    ∀ m ∈ serviceAnswers mdns reply service replies, IsLocal m := by
  intro m hm
  rw [serviceAnswers, List.mem_append, List.mem_append, List.mem_append] at hm
  obtain ((hm | hm) | hm) | hm := hm <;> obtain rfl := mem_ite_nil hm
  · exact isLocal_servicetypePtr hs
  · exact isLocal_servicenamePtr hs
  · exact isLocal_srv reply h hs
  · exact isLocal_txt hs reply

theorem isLocal_serviceAdditional {service : MdnsService} (hs : service.WellNamed) (replies : Nat) :
    ∀ m ∈ serviceAdditional mdns reply service replies, IsLocal m := by
  intro m hm
  rw [serviceAdditional, List.mem_append] at hm
  obtain hm | hm := hm
  · split at hm
    · obtain hm | hm := List.mem_append.mp hm <;> obtain rfl := mem_nil_ite hm
      · exact isLocal_srv reply h hs
      · exact isLocal_txt hs reply
    · cases hm
  · split at hm
    · obtain rfl := mem_nil_ite hm
      exact isLocal_a reply h
    · cases hm

theorem wellNamed_of_mem {slot : MdnsService × Nat} (hslot : slot ∈ usedSlots mdns reply) :
    slot.1.WellNamed := by
  obtain ⟨⟨service, replies⟩, hmem, hsome⟩ := List.mem_filterMap.mp hslot
  obtain ⟨s, rfl, rfl⟩ := Option.map_eq_some_iff.mp hsome
  exact h.services s (List.of_mem_zip hmem).1

theorem isLocal_services : ∀ m ∈ ((usedSlots mdns reply).flatMap fun slot =>
    serviceAnswers mdns reply slot.1 slot.2) ++ replyAdditional mdns reply, IsLocal m := by
  intro m hm
  obtain hm | hm := List.mem_append.mp hm <;> obtain ⟨slot, hslot, hm⟩ := List.mem_flatMap.mp hm
  · exact isLocal_serviceAnswers reply h (wellNamed_of_mem reply h hslot) slot.2 m hm
  · exact isLocal_serviceAdditional reply h (wellNamed_of_mem reply h hslot) slot.2 m hm

end

/-- Local records, and their names. -/
theorem records_of_local {ms : List MdnsRecord} (h : ∀ m ∈ ms, IsLocal m) :
    ∃ rs : List Record, ms = rs.map Record.toMdns ∧ (∀ r ∈ rs, r.Fits (· < 32)) ∧
      ∀ ls ∈ rs.flatMap Record.names, LocalName ls := by
  induction ms with
  | nil =>
    exact ⟨[], rfl, fun _ hr => absurd hr List.not_mem_nil, fun _ hls => absurd hls List.not_mem_nil⟩
  | cons m ms ih =>
    obtain ⟨hm, hms⟩ := List.forall_mem_cons.mp h
    obtain ⟨r, rfl, hfits, hnames⟩ := hm
    obtain ⟨rs, rfl, hallFit, hallNames⟩ := ih hms
    refine ⟨r :: rs, rfl, List.forall_mem_cons.mpr ⟨hfits, hallFit⟩, fun ls hls => ?_⟩
    rw [List.flatMap_cons, List.mem_append] at hls
    exact hls.elim (hnames ls) (hallNames ls)

/-! ## Few names are not under `local` -/

/-- How many names do not end in `local`. -/
def outside (names : List (List Label)) : Nat := names.countP fun n => n.getLast? ≠ some (ascii "local")

theorem outside_append (as bs : List (List Label)) : outside (as ++ bs) = outside as + outside bs :=
  List.countP_append

theorem outside_of_local {names : List (List Label)} (h : ∀ ls ∈ names, LocalName ls) : outside names = 0 := by
  refine List.countP_eq_zero.mpr fun ls hls => ?_
  rw [decide_eq_true_eq]
  exact not_not_intro (h ls hls).last

/-- A name that needs few jumps, or that has few names like it. -/
def ShortOrOutside (ls : List Label) : Prop := ls.length ≤ 5 ∨ ls.getLast? ≠ some (ascii "local")

theorem shallow_of_outside {names : List (List Label)} (h : ∀ ls ∈ names, ShortOrOutside ls)
    (hfew : outside names ≤ 6) : Shallow names := by
  intro ls hls
  refine (h ls hls).imp_right fun hlast => Nat.le_trans (List.countP_mono_left fun n _ hn => ?_) hfew
  rw [decide_eq_true_eq] at hn ⊢
  rw [hn]
  exact hlast

/-- Records that can be read, of which at most `n` names are not under `local`. -/
def Sound (ms : List MdnsRecord) (n : Nat) : Prop :=
  ∃ rs : List Record, ms = rs.map Record.toMdns ∧ (∀ r ∈ rs, r.Fits (· < 32)) ∧
    (∀ ls ∈ rs.flatMap Record.names, ShortOrOutside ls) ∧ outside (rs.flatMap Record.names) ≤ n

theorem sound_nil (n : Nat) : Sound [] n :=
  ⟨[], rfl, fun _ hr => absurd hr List.not_mem_nil, fun _ hls => absurd hls List.not_mem_nil, Nat.zero_le n⟩

theorem sound_append {ms ms' : List MdnsRecord} {n n' : Nat} (h : Sound ms n) (h' : Sound ms' n') :
    Sound (ms ++ ms') (n + n') := by
  obtain ⟨rs, rfl, hfits, hnames, hcount⟩ := h
  obtain ⟨rs', rfl, hfits', hnames', hcount'⟩ := h'
  refine ⟨rs ++ rs', List.map_append.symm, fun r hr => ?_, fun ls hls => ?_, ?_⟩
  · exact (List.mem_append.mp hr).elim (hfits r) (hfits' r)
  · rw [List.flatMap_append, List.mem_append] at hls
    exact hls.elim (hnames ls) (hnames' ls)
  · rw [List.flatMap_append, outside_append]
    exact Nat.add_le_add hcount hcount'

theorem sound_of_local {ms : List MdnsRecord} (h : ∀ m ∈ ms, IsLocal m) : Sound ms 0 := by
  obtain ⟨rs, hms, hfits, hnames⟩ := records_of_local h
  exact ⟨rs, hms, hfits, fun ls hls => Or.inl (hnames ls hls).length, Nat.le_of_eq (outside_of_local hnames)⟩

theorem sound_ite {m : MdnsRecord} {n : Nat} (c : Bool) (h : Sound [m] n) : Sound (if c then [m] else []) n := by
  cases c with
  | false => exact sound_nil n
  | true => exact h

section

variable [Lwip] {mdns : MdnsHost} (reply : MdnsReply) (h : mdns.WellNamed)
include h

/-- The record for the reverse lookup. -/
theorem sound_hostv4Ptr : Sound [mdnsAddHostv4PtrAnswer mdns reply] 1 := by
  have hlocal := localName_host h
  have hreverse : Compressible (· < 32) (reverseName mdns.ip4Addr) :=
    compressible_short (printable_reverse _) (Nat.le_of_eq (length_reverseName h))
  have harpa : (reverseName mdns.ip4Addr).getLast? = some (ascii "arpa") := by
    rw [reverseName, List.getLast?_append]
    rfl
  -- it has six labels, but no other name of the responder ends like it
  have hlast : (reverseName mdns.ip4Addr).getLast? ≠ some (ascii "local") := by
    rw [harpa]
    decide
  have hptr : dnsRrtypePtr < 0x10000 ∧ dnsRrclassIn < 0x8000 := by decide
  let r : Record := ⟨⟨reverseName mdns.ip4Addr, dnsRrtypePtr, dnsRrclassIn, reply.cacheFlush⟩, mdns.dnsTtl,
    none, some (hostName mdns, false)⟩
  have hnames : [r].flatMap Record.names = [reverseName mdns.ip4Addr, hostName mdns] := rfl
  refine ⟨[r], ?_, List.forall_mem_singleton.mpr ⟨⟨hreverse, hptr.1, hptr.2⟩, h.dnsTtl, fun t ht => ?_⟩, ?_, ?_⟩
  · rw [mdnsAddHostv4PtrAnswer, buildHostDomain_eq h, buildReverseV4Domain_eq h]
    rfl
  · exact (localName_target false hlocal t ht).compressible
  · rw [hnames]
    exact List.forall_mem_cons.mpr ⟨Or.inr hlast, List.forall_mem_singleton.mpr (Or.inl hlocal.length)⟩
  · have hsplit := outside_append [reverseName mdns.ip4Addr] [hostName mdns]
    rw [outside_of_local (List.forall_mem_singleton.mpr hlocal)] at hsplit
    rw [hnames]
    exact Nat.le_trans (Nat.le_of_eq hsplit) List.countP_le_length

theorem sound_reply : Sound (replyAnswers mdns reply ++ replyAdditional mdns reply) 1 := by
  rw [replyAnswers, hostAnswers, List.append_assoc, List.append_assoc]
  have ha := sound_ite (anyOf reply.hostReplies replyHostA)
    (sound_of_local (List.forall_mem_singleton.mpr (isLocal_a reply h)))
  have hptr := sound_ite (anyOf reply.hostReplies replyHostPtrV4) (sound_hostv4Ptr reply h)
  have hsound := sound_append ha (sound_append hptr (sound_of_local (isLocal_services reply h)))
  rwa [Nat.zero_add] at hsound

end

/-! ## The packet -/

theorem addRecords_eq [Lwip] (alloc : Option Outbuf) (outpkt : MdnsOutpacket) (rs : List Record) :
    addRecords alloc outpkt (rs.map Record.toMdns) = addAnswers alloc outpkt rs := by
  induction rs generalizing outpkt with
  | nil => rfl
  | cons r rs ih =>
    rw [List.map_cons, addRecords, addAnswers]
    cases mdnsAddAnswer alloc outpkt r.toMdns with
    | error outpkt => rfl
    | ok outpkt => exact ih outpkt

theorem recordsAt_length {msg : Names.Message} {names : List (List Label)} {rs : List Record} {off next : Nat}
    (h : RecordsAt msg names rs off next) : off + rs.length ≤ next := by
  induction rs generalizing off with
  | nil => exact Nat.le_of_eq h.symm
  | cons r rs ih =>
    obtain ⟨stop, n, hrecord, hrest⟩ := h
    obtain ⟨s, ⟨jumps, hspells, _⟩, _, _, hstop⟩ := hrecord.heading
    have hspan := (hspells.stop_le fun _ _ h => h.2).1
    have hle := ih hrest
    rw [List.length_cons]
    omega

/-- The header is where it was put. -/
theorem header_finishPacket [Lwip] {out : MdnsOutpacket} {msg : Names.Message} {IsLength : Nat → Prop}
    {written : List (List Label)} (h : Laid IsLength written out msg) {hdr : Bytes}
    (hhdr : hdr.length = sizeofDnsHdr) : pbufCopyPartial (finishPacket out hdr) sizeofDnsHdr 0 = hdr := by
  obtain ⟨p, hbuilt⟩ := h.built
  have hsize : sizeofDnsHdr ≤ p.val.length := by
    rw [p.property]
    decide
  rw [Lwip.copy_bytes, List.drop_zero, finishPacket, hbuilt.pbuf]
  dsimp only
  rw [List.take_take, Nat.min_eq_left hbuilt.start, take_patch_zero (Nat.le_of_eq hhdr.symm) hsize, ← hhdr,
    List.take_length]

/-- A response with this header is read as one. -/
theorem recv_of_header [Lwip] {p : Bytes} {hdr : DnsHdr}
    (hcopy : pbufCopyPartial p sizeofDnsHdr 0 = hdr.toBytes)
    (hflags : hdr.flags1 = dnsFlag1Response ||| dnsFlag1Authorative) (hauth : hdr.numauthrr = 0)
    (hquestions : hdr.numquestions < 65536) (hanswers : hdr.numanswers + hdr.numextrarr < 65536) :
    mdnsRecv p =
      mdnsHandleResponse ⟨p, sizeofDnsHdr, hdr.numquestions, hdr.numanswers + hdr.numextrarr⟩ := by
  have hflagsByte : (byteAt hdr.toBytes 2).toNat = 0x84 := by
    show (UInt8.ofNat hdr.flags1).toNat = 0x84
    rw [hflags]
    rfl
  have hq : ofBe16 (hdr.toBytes.drop 4) = hdr.numquestions := by
    have hnum := ofBe16_be16_append hdr.numquestions
      (be16 hdr.numanswers ++ be16 hdr.numauthrr ++ be16 hdr.numextrarr)
    rwa [Nat.mod_eq_of_lt hquestions] at hnum
  have ha : ofBe16 (hdr.toBytes.drop 6) = hdr.numanswers := by
    have hnum := ofBe16_be16_append hdr.numanswers (be16 hdr.numauthrr ++ be16 hdr.numextrarr)
    rwa [Nat.mod_eq_of_lt (by omega)] at hnum
  have hn : ofBe16 (hdr.toBytes.drop 8) = 0 := by
    have hnum := ofBe16_be16_append hdr.numauthrr (be16 hdr.numextrarr)
    have hzero : hdr.numauthrr % 65536 = 0 := by omega
    rwa [hzero] at hnum
  have he : ofBe16 (hdr.toBytes.drop 10) = hdr.numextrarr := ofBe16_be16 (by omega)
  have hlen : ¬ hdr.toBytes.length < sizeofDnsHdr := Nat.lt_irrefl 12
  have hopcode : ¬ dnsHdrGetOpcode 0x84 ≠ 0 := by decide
  have hresponse : 0x84 &&& dnsFlag1Response ≠ 0 := by decide
  have hpacket : recvPacket p =
      some (0x84, ⟨p, sizeofDnsHdr, hdr.numquestions, hdr.numanswers + hdr.numextrarr⟩) := by
    rw [recvPacket, hcopy]
    dsimp only
    rw [if_neg hlen, hflagsByte, if_neg hopcode, hq, ha, hn, he, Nat.add_zero, Nat.mod_eq_of_lt hanswers]
  rw [mdnsRecv, hpacket]
  exact if_pos hresponse

theorem heardAs_of_readAs [Lwip] {packet : Bytes} {r : Record} {a : MdnsAnswer} (h : r.ReadAs packet a) :
    r.toMdns.HeardAs packet a where
  info := h.info
  flag := h.flag
  ttl := h.ttl
  buf := h.buf
  noTarget hnone := h.noTarget (Option.map_eq_none_iff.mp hnone)
  target d hd := by
    obtain ⟨t, ht, rfl⟩ := Option.map_eq_some_iff.mp hd
    exact h.target t ht

end MdnsLemmas

open MdnsLemmas

/-- Whatever the responder sends for a host is read, by a responder that hears it, as the
question that is answered, if it is repeated, and the records the reply is to hold. -/
theorem reply_is_heard [Lwip] (alloc : Option Outbuf) (mdns : MdnsHost) (hmdns : mdns.WellNamed)
    (reply : MdnsReply) (qs : List Heading) (hqs : ∀ q ∈ qs, q.Fits (· < 32) ∧ ShortOrOutside q.name)
    (hquestions : addQuestions alloc ⟨none, 0, []⟩ qs = .ok reply.outpkt)
    (hlegacy : qs.length = if reply.legacyQuery then 1 else 0) (packet : Bytes)
    (hsend : mdnsSendOutpacket mdns reply alloc = some packet) :
    ∃ as, mdnsRecv packet = some (qs.map fun q => (⟨q.domain, q.type, q.klass⟩, q.flag), as) ∧
      as.length = (replyAnswers mdns reply ++ replyAdditional mdns reply).length ∧
      ∀ x ∈ (replyAnswers mdns reply ++ replyAdditional mdns reply).zip as, x.1.HeardAs packet x.2 := by
  obtain ⟨rs, hms, hfits, hnames, hfew⟩ := sound_reply reply hmdns
  have hqsLen : qs.length ≤ 1 := by
    rw [hlegacy]
    split <;> omega
  have hshallow : Shallow (qs.map Heading.name ++ rs.flatMap Record.names) := by
    refine shallow_of_outside (fun ls hls => ?_) ?_
    · rcases List.mem_append.mp hls with hls | hls
      · obtain ⟨q, hq, rfl⟩ := List.mem_map.mp hls
        exact (hqs q hq).2
      · exact hnames ls hls
    · have hle : outside (qs.map Heading.name) ≤ (qs.map Heading.name).length := List.countP_le_length
      rw [List.length_map] at hle
      rw [outside_append]
      omega
  -- what is sent was built from the questions and the records
  rw [mdnsSendOutpacket, hms, addRecords_eq] at hsend
  split at hsend
  · cases hsend
  rename_i out hadd
  split at hsend
  · cases hsend
  rename_i p hbuf
  obtain rfl := Option.some.inj hsend
  have hrun : buildPacket alloc qs rs = .ok out := by
    rw [buildPacket, hquestions]
    exact hadd
  have hsome : out.pbuf ≠ none := by
    rw [hbuf]
    exact Option.some_ne_none p
  obtain ⟨msg, mid, hlaid, hfree, hqsAt, hrsAt⟩ := laid_buildPacket (fun q hq => (hqs q hq).1) hfits hrun hsome
  have hhdr : (replyHdr mdns reply).toBytes.length = sizeofDnsHdr := rfl
  obtain ⟨hknown, _⟩ := extends_finishPacket hlaid hfree hhdr
  have hnext := lt_of_laid hlaid
  have hcount : (replyAnswers mdns reply).length + (replyAdditional mdns reply).length = rs.length := by
    rw [← List.length_append, hms, List.length_map]
  have hbound := recordsAt_length hrsAt
  -- the header says how many there are, and they are read one after the other
  obtain ⟨as, hreads, hasLen, hall, _⟩ := readAnswers_of_recordsAt hknown hshallow hfits
    (fun r hr ls hls => List.mem_append_right _ (List.mem_flatMap.mpr ⟨r, hr, hls⟩)) hnext hrsAt
  have hqsCount : (replyHdr mdns reply).numquestions = qs.length := hlegacy.symm
  have hrsCount : (replyHdr mdns reply).numanswers + (replyHdr mdns reply).numextrarr = rs.length := hcount
  have hrecv := recv_of_header (header_finishPacket hlaid hhdr) rfl rfl (by omega) (by omega)
  refine ⟨as, ?_, ?_, ?_⟩
  · rw [hrecv, hqsCount, hrsCount, mdnsHandleResponse,
      readQuestions_of_questionsAt hknown hshallow (fun q hq => (hqs q hq).1)
        (fun q hq => List.mem_append_left _ (List.mem_map_of_mem hq)) hqsAt]
    dsimp only
    rw [hreads]
  · rw [hms, List.length_map, hasLen]
  · rw [hms, List.zip_map_left]
    intro x hx
    obtain ⟨y, hy, rfl⟩ := List.mem_map.mp hx
    exact heardAs_of_readAs (hall y hy)

/-- The records of an announcement: the address and its name, and four for every service. -/
def announced [Lwip] (mdns : MdnsHost) : List MdnsRecord :=
  [mdnsAddAAnswer mdns (mdnsAnnounce mdns), mdnsAddHostv4PtrAnswer mdns (mdnsAnnounce mdns)] ++
    (mdns.services.filterMap id).flatMap fun service =>
      [mdnsAddServicetypePtrAnswer service, mdnsAddServicenamePtrAnswer service,
        mdnsAddSrvAnswer mdns (mdnsAnnounce mdns) service, mdnsAddTxtAnswer (mdnsAnnounce mdns) service]

namespace MdnsLemmas

theorem usedSlots_announce (mdns : MdnsHost) :
    usedSlots mdns (mdnsAnnounce mdns) = (mdns.services.filterMap id).map fun service => (service, 0xF0) := by
  rw [usedSlots, mdnsAnnounce]
  induction mdns.services with
  | nil => rfl
  | cons slot slots ih =>
    rw [List.map_cons, List.zip_cons_cons]
    cases slot with
    | none => exact ih
    | some service => exact congrArg ((service, 0xF0) :: ·) ih

/-- All bits of a service, and the ones of the host. -/
theorem anyOf_announced : anyOf 0xF0 replyServiceTypePtr = true ∧ anyOf 0xF0 replyServiceNamePtr = true ∧
    anyOf 0xF0 replyServiceSrv = true ∧ anyOf 0xF0 replyServiceTxt = true ∧ anyOf 3 replyHostA = true ∧
    anyOf 3 replyHostPtrV4 = true := by
  decide

/-- Everything is asked for, so nothing is additional. -/
theorem records_of_announce [Lwip] {mdns : MdnsHost} (haddr : mdns.ip4Addr ≠ [0, 0, 0, 0]) :
    replyAnswers mdns (mdnsAnnounce mdns) ++ replyAdditional mdns (mdnsAnnounce mdns) = announced mdns := by
  have hbits : (mdnsAnnounce mdns).hostReplies = 3 := if_neg haddr
  obtain ⟨htype, hname, hsrv, htxt, ha, hptr⟩ := anyOf_announced
  have hhost : hostAnswers mdns (mdnsAnnounce mdns) =
      [mdnsAddAAnswer mdns (mdnsAnnounce mdns), mdnsAddHostv4PtrAnswer mdns (mdnsAnnounce mdns)] := by
    rw [hostAnswers, hbits, if_pos ha, if_pos hptr]
    rfl
  have hnone : replyAdditional mdns (mdnsAnnounce mdns) = [] := by
    rw [replyAdditional, usedSlots_announce]
    refine List.flatMap_eq_nil_iff.mpr fun slot hslot => ?_
    obtain ⟨service, _, rfl⟩ := List.mem_map.mp hslot
    rw [serviceAdditional, hbits]
    simp only [hname, hsrv, htxt, ha, if_true, List.append_nil, ite_self]
  have hservice : ∀ service, serviceAnswers mdns (mdnsAnnounce mdns) service 0xF0 =
      [mdnsAddServicetypePtrAnswer service, mdnsAddServicenamePtrAnswer service,
        mdnsAddSrvAnswer mdns (mdnsAnnounce mdns) service, mdnsAddTxtAnswer (mdnsAnnounce mdns) service] := by
    intro service
    rw [serviceAnswers, if_pos htype, if_pos hname, if_pos hsrv, if_pos htxt]
    rfl
  rw [hnone, List.append_nil, replyAnswers, hhost, usedSlots_announce, List.flatMap_map, announced]
  simp only [hservice]

end MdnsLemmas

/-- An announcement of a host with an address is read as what is announced. -/
theorem announce_is_heard [Lwip] (alloc : Option Outbuf) (mdns : MdnsHost) (hmdns : mdns.WellNamed)
    (haddr : mdns.ip4Addr ≠ [0, 0, 0, 0]) (packet : Bytes)
    (hsend : mdnsSendOutpacket mdns (mdnsAnnounce mdns) alloc = some packet) :
    ∃ as, mdnsRecv packet = some ([], as) ∧ as.length = (announced mdns).length ∧
      ∀ x ∈ (announced mdns).zip as, x.1.HeardAs packet x.2 := by
  obtain ⟨as, hrecv, hlen, hall⟩ := reply_is_heard alloc mdns hmdns (mdnsAnnounce mdns) []
    (fun q hq => absurd hq List.not_mem_nil) rfl rfl packet hsend
  rw [records_of_announce haddr] at hlen hall
  exact ⟨as, hrecv, hlen, hall⟩

/-- The host of the board and its service. -/
def lighter : MdnsHost :=
  ⟨ascii "lighter", [some ⟨ascii "lighter", ascii "_espush", [ascii "path=/"], 3600, .tcp, 80⟩], 64,
    [192, 168, 1, 30]⟩

theorem MdnsLemmas.wellNamed_lighter : lighter.WellNamed := by
  refine ⟨plain_of_isPrintable (by decide), fun service hservice => ?_, by decide, rfl⟩
  obtain rfl := Option.some.inj (List.mem_singleton.mp hservice)
  exact ⟨plain_of_isPrintable (by decide), plain_of_isPrintable (by decide), by decide⟩

section

open scoped Lwip

theorem announce_is_heard_lighter :
    ∃ packet, mdnsSendOutpacket lighter (mdnsAnnounce lighter) (some blankPacket) = some packet ∧
      ∃ as, mdnsRecv packet = some ([], as) ∧ as.length = 6 ∧
        ∀ x ∈ (announced lighter).zip as, x.1.HeardAs packet x.2 := by
  have hsent : (mdnsSendOutpacket lighter (mdnsAnnounce lighter) (some blankPacket)).isSome = true := by
    decide +kernel
  obtain ⟨packet, hsend⟩ := Option.isSome_iff_exists.mp hsent
  exact ⟨packet, hsend,
    announce_is_heard (some blankPacket) lighter wellNamed_lighter (by decide) packet hsend⟩

end

end EspushW60x

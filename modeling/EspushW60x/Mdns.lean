import EspushW60x.Lib.Decimal
import EspushW60x.Lib.Names
import EspushW60x.Platform

/-!
# `mdns.c`: names and records

The multicast DNS responder of the board builds its answers in a packet of 500 bytes, in
which a name may end in a reference to an earlier one, and reads questions and answers of
others. IPv6 is not configured. The packets of lwIP are lists of bytes; a packet that is
built is one of `outpacketSize` bytes, whatever they were before.

Offsets in a packet are below 0x10000 here: a datagram has at most 65507 bytes, and nothing
is read from behind its end.
-/

namespace EspushW60x

open Lib

/-! ## lwIP -/

def mdnsLabelMaxlen : Nat := 63

def mdnsDomainMaxlen : Nat := 256

def sizeofDnsHdr : Nat := 12

def outpacketSize : Nat := 500

/-- A packet that is built. -/
abbrev Outbuf := {p : Bytes // p.length = outpacketSize}

/-- The same character, letters regardless of their case. -/
def sameLetter (c1 c2 : UInt8) : Bool :=
  c1 = c2 ∨ (97 ≤ c1 ||| 0x20 ∧ c1 ||| 0x20 ≤ 122 ∧ c1 ||| 0x20 = c2 ||| 0x20)

/-- The same text regardless of case: at most `len` characters, up to the end of the text. -/
def sameText : Bytes → Bytes → Nat → Bool
  | _, _, 0 => true
  | str1, str2, len + 1 =>
    sameLetter (byteAt str1 0) (byteAt str2 0) &&
      (byteAt str1 0 = 0 || sameText (str1.drop 1) (str2.drop 1) len)

/-- What the responder calls of lwIP, with what it relies on. -/
class Lwip where
  pbufGetAt : Bytes → Nat → Nat
  pbufCopyPartial : Bytes → Nat → Nat → Bytes
  /-- `none` is an error. -/
  pbufTakeAt : Outbuf → Bytes → Nat → Option Outbuf
  /-- Does `lwip_strnicmp` return 0? -/
  lwipStrnicmp : Bytes → Bytes → Nat → Bool
  lwipItoa : UInt8 → Bytes
  /-- 0 behind the end. -/
  get_byte : ∀ p offset, pbufGetAt p offset = (byteAt p offset).toNat
  /-- Fewer bytes at the end. -/
  copy_bytes : ∀ p len offset, pbufCopyPartial p len offset = (p.drop offset).take len
  take_all : ∀ (p : Outbuf) (bs : Bytes) (offset : Nat), offset < p.val.length →
    offset + bs.length ≤ p.val.length →
      pbufTakeAt p bs offset = some ⟨patch p.val offset bs, (length_patch _ _ _).trans p.property⟩
  take_error : ∀ (p : Outbuf) (bs : Bytes) (offset : Nat),
    ¬(offset < p.val.length ∧ offset + bs.length ≤ p.val.length) → pbufTakeAt p bs offset = none
  strnicmp_text : ∀ str1 str2 len, lwipStrnicmp str1 str2 len = sameText str1 str2 len
  itoa_decimal : ∀ val, lwipItoa val = Decimal.text val.toNat

export Lwip (pbufGetAt pbufCopyPartial pbufTakeAt lwipStrnicmp lwipItoa)

namespace Lwip

/-- lwIP as it is documented. -/
scoped instance documented : Lwip where
  pbufGetAt p offset := (byteAt p offset).toNat
  pbufCopyPartial p len offset := (p.drop offset).take len
  pbufTakeAt p bs offset :=
    if offset < p.val.length ∧ offset + bs.length ≤ p.val.length then
      some ⟨patch p.val offset bs, (length_patch _ _ _).trans p.property⟩
    else none
  lwipStrnicmp := sameText
  lwipItoa val := Decimal.text val.toNat
  get_byte _ _ := rfl
  copy_bytes _ _ _ := rfl
  take_all _ _ _ h1 h2 := if_pos ⟨h1, h2⟩
  take_error _ _ _ h := if_neg h
  strnicmp_text _ _ _ := rfl
  itoa_decimal _ := rfl

end Lwip

variable [Lwip]

/-! ## Names -/

/-- `struct mdns_domain`: the first `length` bytes of `name`. -/
structure MdnsDomain where
  name : Bytes
  skipCompression : Bool
deriving DecidableEq

/-- After `memset`. -/
def MdnsDomain.empty : MdnsDomain := ⟨[], false⟩

/-- `none` is `ERR_VAL`. -/
def mdnsDomainAddLabel (domain : MdnsDomain) (label : Bytes) : Option MdnsDomain :=
  if mdnsLabelMaxlen < label.length then none
  else if 0 < label.length ∧ mdnsDomainMaxlen ≤ 1 + label.length + domain.name.length then none
  else if label.length = 0 ∧ mdnsDomainMaxlen < 1 + domain.name.length then none
  else some { domain with name := domain.name ++ UInt8.ofNat label.length :: label }

/-- The labels are bounded by the room in the name, and the jumps by `depth`: `steps` does
not run out (`readname_steps`). -/
def mdnsReadnameLoop (p : Bytes) : Nat → Nat → MdnsDomain → Nat → Option (Nat × MdnsDomain)
  | 0, _, _, _ => none
  | steps + 1, offset, domain, depth =>
    if 5 < depth then none
    else
      let c := pbufGetAt p offset
      if c &&& 0xC0 = 0xC0 then
        if p.length ≤ offset + 1 then none
        else
          let jumpaddr := (c &&& 0x3F) <<< 8 ||| (pbufGetAt p (offset + 1) &&& 0xFF)
          if sizeofDnsHdr ≤ jumpaddr ∧ jumpaddr < p.length then
            match mdnsReadnameLoop p steps jumpaddr domain (depth + 1) with
            | none => none
            | some (_, domain) => some (offset + 2, domain)
          else none
      else if c ≤ mdnsLabelMaxlen then
        if mdnsDomainMaxlen ≤ c + domain.name.length then none
        else
          let label := pbufCopyPartial p c (offset + 1)
          if label.length ≠ c then none
          else
            match mdnsDomainAddLabel domain label with
            | none => none
            | some domain =>
              if c = 0 then some (offset + 1, domain)
              else mdnsReadnameLoop p steps (offset + 1 + c) domain depth
      else none

def readnameSteps : Nat := 256

/-- The offset behind the name, and the name; `none` is `MDNS_READNAME_ERROR`. -/
def mdnsReadname (p : Bytes) (offset : Nat) : Option (Nat × MdnsDomain) :=
  mdnsReadnameLoop p readnameSteps offset .empty 0

/-- The loop of `mdns_compress_domain`: how many bytes are written before the jump, and
where in the target it goes to. The three variables have eight bits. -/
def compressFrom (target domain : Bytes) (targetLen : Nat) : Nat → Nat → Option (Nat × Nat)
  | 0, _ => none
  | steps + 1, writelen =>
    if domain.length ≤ writelen then none
    else
      let domainlen := (domain.length - writelen) % 0x100
      let targetpos := (target.length - domainlen) % 0x100
      if domainlen ≤ target.length ∧ 2 < domainlen ∧ targetLen ≤ targetpos + 2 then none
      else if domainlen ≤ target.length ∧ 2 < domainlen ∧
          (domain.drop writelen).take domainlen = (target.drop targetpos).take domainlen then
        some (writelen, targetpos)
      else compressFrom target domain targetLen steps
        ((writelen + 1 + (byteAt domain writelen).toNat) % 0x100)

/-- How many bytes are written, and the offset to jump to. -/
def mdnsCompressDomain (p : Bytes) (offset : Nat) (domain : MdnsDomain) : Nat × Nat :=
  match mdnsReadname p offset with
  | none => (domain.name.length, offset)
  | some (targetEnd, target) =>
    match compressFrom target.name domain.name ((targetEnd - offset) % 0x100) domain.name.length 0 with
    | none => (domain.name.length, offset)
    | some (writelen, targetpos) => (writelen, offset + targetpos)

/-! ## Building a packet -/

/-- The fields of `struct mdns_outpacket` that a packet is built with. `domainOffsets` are
those that are not 0. -/
structure MdnsOutpacket where
  pbuf : Option Outbuf
  writeOffset : Nat
  domainOffsets : List Nat

def numDomainOffsets : Nat := 10

/-- `pbuf_take_at` at the write offset, which then moves behind the bytes. An error has
the packet as it is then. -/
def takeAt (outpkt : MdnsOutpacket) (bs : Bytes) : Except MdnsOutpacket MdnsOutpacket :=
  match outpkt.pbuf with
  | none => .error outpkt
  | some p =>
    match pbufTakeAt p bs outpkt.writeOffset with
    | none => .error outpkt
    | some p => .ok { outpkt with pbuf := some p, writeOffset := outpkt.writeOffset + bs.length }

/-- The first loop of `mdns_write_domain`: `writelen` and `jump_offset`. -/
def chooseJump (p : Bytes) (domain : MdnsDomain) : List Nat → Nat × Nat → Nat × Nat
  | [], best => best
  | offset :: offsets, best =>
    let r := mdnsCompressDomain p offset domain
    chooseJump p domain offsets (if r.1 < best.1 then r else best)

/-- The uncompressed part of a name, whose offset is stored. -/
def writePart (outpkt : MdnsOutpacket) (part : Bytes) : Except MdnsOutpacket MdnsOutpacket :=
  if part.length = 0 then .ok outpkt
  else
    match takeAt outpkt part with
    | .error outpkt => .error outpkt
    | .ok out =>
      .ok { out with
        domainOffsets :=
          if outpkt.domainOffsets.length < numDomainOffsets then
            outpkt.domainOffsets ++ [outpkt.writeOffset]
          else outpkt.domainOffsets }

def mdnsWriteDomain (outpkt : MdnsOutpacket) (domain : MdnsDomain) : Except MdnsOutpacket MdnsOutpacket :=
  match outpkt.pbuf with
  | none => .error outpkt
  | some p =>
    let best :=
      if domain.skipCompression then (domain.name.length, 0)
      else chooseJump p.val domain outpkt.domainOffsets (domain.name.length, 0)
    match writePart outpkt (domain.name.take best.1) with
    | .error outpkt => .error outpkt
    | .ok outpkt => if best.2 = 0 then .ok outpkt else takeAt outpkt (be16 (0xC000 ||| best.2))

section

variable (alloc : Option Outbuf)

/-- Allocate the packet when there is none; `alloc` is what `pbuf_alloc` returns. -/
def ensurePbuf (outpkt : MdnsOutpacket) : Except MdnsOutpacket MdnsOutpacket :=
  match outpkt.pbuf with
  | some _ => .ok outpkt
  | none =>
    match alloc with
    | none => .error outpkt
    | some p => .ok { outpkt with pbuf := some p, writeOffset := sizeofDnsHdr }

def mdnsAddQuestion (outpkt : MdnsOutpacket) (domain : MdnsDomain) (type klass : Nat) (unicast : Bool) :
    Except MdnsOutpacket MdnsOutpacket := do
  let outpkt ← ensurePbuf alloc outpkt
  if outpacketSize < outpkt.writeOffset + (domain.name.length + 4) then .error outpkt
  else
    let outpkt ← mdnsWriteDomain outpkt domain
    let outpkt ← takeAt outpkt (be16 type)
    takeAt outpkt (be16 (if unicast then klass ||| 0x8000 else klass))

/-- The packet, after an error too. -/
def outpacketOf : Except MdnsOutpacket MdnsOutpacket → MdnsOutpacket
  | .ok outpkt => outpkt
  | .error outpkt => outpkt

/-- The arguments of `mdns_add_answer`. -/
structure MdnsRecord where
  domain : MdnsDomain
  type : Nat
  klass : Nat
  cacheFlush : Bool
  ttl : Nat
  buf : Option Bytes
  answerDomain : Option MdnsDomain

def MdnsRecord.answerLen (r : MdnsRecord) : Nat :=
  r.domain.name.length + 10 + (r.buf.map List.length).getD 0 +
    (r.answerDomain.map fun d => d.name.length).getD 0

/-- The static data of a record. -/
def writeBuf (reply : MdnsOutpacket) : Option Bytes → Except MdnsOutpacket MdnsOutpacket
  | some buf => takeAt reply buf
  | none => .ok reply

/-- The name that is the data of a record, or its end. -/
def writeAnswerDomain (reply : MdnsOutpacket) : Option MdnsDomain → Except MdnsOutpacket MdnsOutpacket
  | some answerDomain => mdnsWriteDomain reply answerDomain
  | none => .ok reply

/-- `rd_length`, at the offset that was left for it. -/
def storeRdLength (reply : MdnsOutpacket) (n rdlenOffset : Nat) : Except MdnsOutpacket MdnsOutpacket :=
  match reply.pbuf with
  | none => .error reply
  | some p =>
    match pbufTakeAt p (be16 n) rdlenOffset with
    | none => .error reply
    | some p => .ok { reply with pbuf := some p }

/-- The data of a record, and their length before them. -/
def writeRdata (reply : MdnsOutpacket) (r : MdnsRecord) : Except MdnsOutpacket MdnsOutpacket := do
  let rdlenOffset := reply.writeOffset
  let answerOffset := rdlenOffset + 2
  let reply ← writeBuf { reply with writeOffset := answerOffset } r.buf
  let reply ← writeAnswerDomain reply r.answerDomain
  storeRdLength reply (reply.writeOffset - answerOffset) rdlenOffset

/-- What `mdns_add_question` returns is not looked at. -/
def mdnsAddAnswer (reply : MdnsOutpacket) (r : MdnsRecord) : Except MdnsOutpacket MdnsOutpacket := do
  let reply ← ensurePbuf alloc reply
  if outpacketSize < reply.writeOffset + r.answerLen then .error reply
  else
    let reply := outpacketOf (mdnsAddQuestion alloc reply r.domain r.type r.klass r.cacheFlush)
    let reply ← takeAt reply (be32 r.ttl)
    writeRdata reply r

end

/-! ## Reading a packet -/

/-- `struct mdns_rr_info` -/
structure MdnsRrInfo where
  domain : MdnsDomain
  type : Nat
  klass : Nat

/-- `struct mdns_answer` -/
structure MdnsAnswer where
  info : MdnsRrInfo
  cacheFlush : Bool
  ttl : Nat
  rdLength : Nat
  rdOffset : Nat

/-- The fields of `struct mdns_packet` that it is read with. -/
structure MdnsPacket where
  pbuf : Bytes
  parseOffset : Nat
  questionsLeft : Nat
  answersLeft : Nat

/-- A big-endian field of `n` bytes. -/
def readField (pkt : MdnsPacket) (n : Nat) : Option (Bytes × MdnsPacket) :=
  let field := pbufCopyPartial pkt.pbuf n pkt.parseOffset
  if field.length ≠ n then none else some (field, { pkt with parseOffset := pkt.parseOffset + n })

def mdnsReadRrInfo (pkt : MdnsPacket) : Option (MdnsRrInfo × MdnsPacket) := do
  let (offset, domain) ← mdnsReadname pkt.pbuf pkt.parseOffset
  let (type, pkt) ← readField { pkt with parseOffset := offset } 2
  let (klass, pkt) ← readField pkt 2
  return (⟨domain, ofBe16 type, ofBe16 klass⟩, pkt)

/-- The question, and whether a unicast reply is wanted. -/
def mdnsReadQuestion (pkt : MdnsPacket) : Option ((MdnsRrInfo × Bool) × MdnsPacket) :=
  if pkt.pbuf.length < pkt.parseOffset then none
  else if pkt.questionsLeft = 0 then none
  else do
    let (info, pkt) ← mdnsReadRrInfo { pkt with questionsLeft := pkt.questionsLeft - 1 }
    return (({ info with klass := info.klass &&& 0x7FFF }, info.klass &&& 0x8000 ≠ 0), pkt)

def mdnsReadAnswer (pkt : MdnsPacket) : Option (MdnsAnswer × MdnsPacket) :=
  if pkt.questionsLeft ≠ 0 then none
  else if pkt.pbuf.length < pkt.parseOffset then none
  else if pkt.answersLeft = 0 then none
  else do
    let (info, pkt) ← mdnsReadRrInfo { pkt with answersLeft := pkt.answersLeft - 1 }
    let (ttl, pkt) ← readField pkt 4
    let (rdLength, pkt) ← readField pkt 2
    return ({ info := { info with klass := info.klass &&& 0x7FFF }
              cacheFlush := info.klass &&& 0x8000 ≠ 0
              ttl := ofBe16 ttl * 0x10000 + ofBe16 (ttl.drop 2)
              rdLength := ofBe16 rdLength
              rdOffset := pkt.parseOffset },
            { pkt with parseOffset := (pkt.parseOffset + ofBe16 rdLength) % 0x10000 })

end EspushW60x

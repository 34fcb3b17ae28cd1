import EspushW60x.MdnsRecords

/-!
# `mdns.c`: what the responder sends

The names of a host and its services, the records of a reply, the packet they are sent in,
and what `mdns_recv` reads of a response. IPv6 is not configured: a host has one address of
four bytes.
-/

namespace EspushW60x

open Lib

variable [Lwip]

/-! ## Hosts and services -/

/-- `DNSSD_PROTO_UDP` and `DNSSD_PROTO_TCP`. -/
inductive DnssdProto where
  | udp
  | tcp

def dnssdProtos : DnssdProto → Bytes
  | .udp => ascii "_udp"
  | .tcp => ascii "_tcp"

/-- `struct mdns_service`. `txtItems` are the texts that `txt_fn` adds, none without it. -/
structure MdnsService where
  name : Bytes
  service : Bytes
  txtItems : List Bytes
  dnsTtl : Nat
  proto : DnssdProto
  port : Nat

/-- `struct mdns_host`, and the address of its interface. A slot without a service is
`none`. -/
structure MdnsHost where
  name : Bytes
  services : List (Option MdnsService)
  dnsTtl : Nat
  ip4Addr : Bytes

/-- Labels one after the other, up to one that does not fit. None of the callers looks at
the error; they go on with the name as it is then. -/
def addLabels : MdnsDomain → List Bytes → MdnsDomain
  | domain, [] => domain
  | domain, label :: labels =>
    match mdnsDomainAddLabel domain label with
    | none => domain
    | some domain => addLabels domain labels

/-- The labels of `mdns_add_dotlocal`; the empty one ends the name. -/
def dotlocal : List Bytes := [ascii "local", []]

def mdnsBuildHostDomain (mdns : MdnsHost) : MdnsDomain := addLabels .empty (mdns.name :: dotlocal)

def mdnsBuildDnssdDomain : MdnsDomain :=
  addLabels .empty (ascii "_services" :: ascii "_dns-sd" :: dnssdProtos .udp :: dotlocal)

def mdnsBuildServiceDomain (service : MdnsService) (includeName : Bool) : MdnsDomain :=
  addLabels .empty ((if includeName then [service.name] else []) ++
    service.service :: dnssdProtos service.proto :: dotlocal)

/-- The bytes of the address from the last to the first. -/
def mdnsBuildReverseV4Domain (addr : Bytes) : MdnsDomain :=
  addLabels .empty (addr.reverse.map lwipItoa ++ [ascii "in-addr", ascii "arpa", []])

/-- A text that does not fit is left out. -/
def mdnsPrepareTxtdata (service : MdnsService) : MdnsDomain :=
  service.txtItems.foldl (fun txtdata txt => (mdnsDomainAddLabel txtdata txt).getD txtdata) .empty

/-! ## The records of a reply -/

def replyHostA : Nat := 0x01

def replyHostPtrV4 : Nat := 0x02

def replyHostAaaa : Nat := 0x04

def replyServiceTypePtr : Nat := 0x10

def replyServiceNamePtr : Nat := 0x20

def replyServiceSrv : Nat := 0x40

def replyServiceTxt : Nat := 0x80

/-- One of the bits is set. -/
def anyOf (replies bits : Nat) : Bool := replies &&& bits ≠ 0

def dnsRrtypeA : Nat := 1

def dnsRrtypePtr : Nat := 12

def dnsRrtypeTxt : Nat := 16

def dnsRrtypeSrv : Nat := 33

def dnsRrclassIn : Nat := 1

/-- `struct mdns_outpacket`: the packet and what it is to hold. `servReplies` has a byte
for every slot of the host. -/
structure MdnsReply where
  outpkt : MdnsOutpacket
  txId : Nat
  cacheFlush : Bool
  legacyQuery : Bool
  hostReplies : Nat
  servReplies : List Nat

section

variable (mdns : MdnsHost) (reply : MdnsReply)

/-! Each of these is what the function of the same name passes to `mdns_add_answer`. -/

def mdnsAddAAnswer : MdnsRecord where
  domain := mdnsBuildHostDomain mdns
  type := dnsRrtypeA
  klass := dnsRrclassIn
  cacheFlush := reply.cacheFlush
  ttl := mdns.dnsTtl
  buf := some mdns.ip4Addr
  answerDomain := none

def mdnsAddHostv4PtrAnswer : MdnsRecord where
  domain := mdnsBuildReverseV4Domain mdns.ip4Addr
  type := dnsRrtypePtr
  klass := dnsRrclassIn
  cacheFlush := reply.cacheFlush
  ttl := mdns.dnsTtl
  buf := none
  answerDomain := some (mdnsBuildHostDomain mdns)

def mdnsAddServicetypePtrAnswer (service : MdnsService) : MdnsRecord where
  domain := mdnsBuildDnssdDomain
  type := dnsRrtypePtr
  klass := dnsRrclassIn
  cacheFlush := false
  ttl := service.dnsTtl
  buf := none
  answerDomain := some (mdnsBuildServiceDomain service false)

def mdnsAddServicenamePtrAnswer (service : MdnsService) : MdnsRecord where
  domain := mdnsBuildServiceDomain service false
  type := dnsRrtypePtr
  klass := dnsRrclassIn
  cacheFlush := false
  ttl := service.dnsTtl
  buf := none
  answerDomain := some (mdnsBuildServiceDomain service true)

/-- Priority and weight are 0. The host of a legacy reply is written out. -/
def mdnsAddSrvAnswer (service : MdnsService) : MdnsRecord where
  domain := mdnsBuildServiceDomain service true
  type := dnsRrtypeSrv
  klass := dnsRrclassIn
  cacheFlush := reply.cacheFlush
  ttl := service.dnsTtl
  buf := some (be16 0 ++ be16 0 ++ be16 service.port)
  answerDomain := some { mdnsBuildHostDomain mdns with skipCompression := reply.legacyQuery }

def mdnsAddTxtAnswer (service : MdnsService) : MdnsRecord where
  domain := mdnsBuildServiceDomain service true
  type := dnsRrtypeTxt
  klass := dnsRrclassIn
  cacheFlush := reply.cacheFlush
  ttl := service.dnsTtl
  buf := some (mdnsPrepareTxtdata service).name
  answerDomain := none

/-! ## `mdns_send_outpacket` -/

/-- The answers to host questions. -/
def hostAnswers : List MdnsRecord :=
  (if anyOf reply.hostReplies replyHostA then [mdnsAddAAnswer mdns reply] else []) ++
  (if anyOf reply.hostReplies replyHostPtrV4 then [mdnsAddHostv4PtrAnswer mdns reply] else [])

/-- The answers to service questions: the body of the first loop. -/
def serviceAnswers (service : MdnsService) (replies : Nat) : List MdnsRecord :=
  (if anyOf replies replyServiceTypePtr then [mdnsAddServicetypePtrAnswer service] else []) ++
  (if anyOf replies replyServiceNamePtr then [mdnsAddServicenamePtrAnswer service] else []) ++
  (if anyOf replies replyServiceSrv then [mdnsAddSrvAnswer mdns reply service] else []) ++
  (if anyOf replies replyServiceTxt then [mdnsAddTxtAnswer reply service] else [])

/-- The additional records: the body of the second loop. -/
def serviceAdditional (service : MdnsService) (replies : Nat) : List MdnsRecord :=
  (if anyOf replies replyServiceNamePtr then
    (if anyOf replies replyServiceSrv then [] else [mdnsAddSrvAnswer mdns reply service]) ++
    (if anyOf replies replyServiceTxt then [] else [mdnsAddTxtAnswer reply service])
  else []) ++
  (if anyOf replies (replyServiceNamePtr ||| replyServiceSrv) ||
      anyOf reply.hostReplies (replyHostA ||| replyHostAaaa) then
    if anyOf reply.hostReplies replyHostA then [] else [mdnsAddAAnswer mdns reply]
  else [])

/-- The slots that are not empty, with the bits of their replies. -/
def usedSlots : List (MdnsService × Nat) :=
  (mdns.services.zip reply.servReplies).filterMap fun slot => slot.1.map fun service => (service, slot.2)

def replyAnswers : List MdnsRecord :=
  hostAnswers mdns reply ++ (usedSlots mdns reply).flatMap fun slot => serviceAnswers mdns reply slot.1 slot.2

def replyAdditional : List MdnsRecord :=
  (usedSlots mdns reply).flatMap fun slot => serviceAdditional mdns reply slot.1 slot.2

/-- Records one after the other, up to one that does not fit. -/
def addRecords (alloc : Option Outbuf) : MdnsOutpacket → List MdnsRecord → Except MdnsOutpacket MdnsOutpacket
  | outpkt, [] => .ok outpkt
  | outpkt, r :: rs =>
    match mdnsAddAnswer alloc outpkt r with
    | .error outpkt => .error outpkt
    | .ok outpkt => addRecords alloc outpkt rs

/-- `struct dns_hdr` -/
structure DnsHdr where
  id : Nat
  flags1 : Nat
  flags2 : Nat
  numquestions : Nat
  numanswers : Nat
  numauthrr : Nat
  numextrarr : Nat

def DnsHdr.toBytes (hdr : DnsHdr) : Bytes :=
  be16 hdr.id ++ [UInt8.ofNat hdr.flags1, UInt8.ofNat hdr.flags2] ++ be16 hdr.numquestions ++
    be16 hdr.numanswers ++ be16 hdr.numauthrr ++ be16 hdr.numextrarr

def dnsFlag1Response : Nat := 0x80

def dnsFlag1Authorative : Nat := 0x04

/-- The header of a reply. -/
def replyHdr : DnsHdr where
  id := if reply.legacyQuery then reply.txId else 0
  flags1 := dnsFlag1Response ||| dnsFlag1Authorative
  flags2 := 0
  numquestions := if reply.legacyQuery then 1 else 0
  numanswers := (replyAnswers mdns reply).length
  numauthrr := 0
  numextrarr := (replyAdditional mdns reply).length

/-- What is sent, if anything. A reply with a record that does not fit is not sent. -/
def mdnsSendOutpacket (alloc : Option Outbuf) : Option Bytes :=
  match addRecords alloc reply.outpkt (replyAnswers mdns reply ++ replyAdditional mdns reply) with
  | .error _ => none
  | .ok outpkt =>
    match outpkt.pbuf with
    | none => none
    | some _ => some (finishPacket outpkt (replyHdr mdns reply).toBytes)

/-- The reply that `mdns_announce` sends. -/
def mdnsAnnounce : MdnsReply where
  outpkt := ⟨none, 0, []⟩
  txId := 0
  cacheFlush := true
  legacyQuery := false
  hostReplies := if mdns.ip4Addr = [0, 0, 0, 0] then 0 else replyHostA ||| replyHostPtrV4
  servReplies := mdns.services.map fun service =>
    if service.isSome then
      replyServiceTypePtr ||| replyServiceNamePtr ||| replyServiceSrv ||| replyServiceTxt
    else 0

end

/-! ## `mdns_recv` -/

def dnsHdrGetOpcode (flags1 : Nat) : Nat := flags1 >>> 3 &&& 0xF

/-- All questions and all answers; what is read of them is printed. -/
def mdnsHandleResponse (pkt : MdnsPacket) : Option (List (MdnsRrInfo × Bool) × List MdnsAnswer) :=
  match readQuestions pkt.questionsLeft pkt with
  | none => none
  | some (questions, pkt) =>
    match readAnswers pkt.answersLeft pkt with
    | none => none
    | some (answers, _) => some (questions, answers)

/-- The flags of the header, and the packet behind it. -/
def recvPacket (p : Bytes) : Option (Nat × MdnsPacket) :=
  let hdr := pbufCopyPartial p sizeofDnsHdr 0
  if hdr.length < sizeofDnsHdr then none
  else
    let flags1 := (byteAt hdr 2).toNat
    if dnsHdrGetOpcode flags1 ≠ 0 then none
    else
      some (flags1,
        { pbuf := p
          parseOffset := sizeofDnsHdr
          questionsLeft := ofBe16 (hdr.drop 4)
          answersLeft := (ofBe16 (hdr.drop 6) + ofBe16 (hdr.drop 8) + ofBe16 (hdr.drop 10)) % 0x10000 })

/-- `mdns_recv` of a response. -/
def mdnsRecv (p : Bytes) : Option (List (MdnsRrInfo × Bool) × List MdnsAnswer) :=
  match recvPacket p with
  | none => none
  | some (flags1, packet) => if flags1 &&& dnsFlag1Response ≠ 0 then mdnsHandleResponse packet else none

end EspushW60x

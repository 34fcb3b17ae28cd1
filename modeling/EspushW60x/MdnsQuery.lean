import EspushW60x.MdnsResponder

/-!
# `mdns.c`: queries

What a query asks for, which of it is known to who asks, and the reply. The names of hosts
and services have at most 63 bytes, so that every name of the responder can be built.
-/

namespace EspushW60x

open Lib

variable [Lwip]

/-! ## Comparing names -/

/-- The loop of `mdns_domain_eq`, on what is left of the names; there are zeros behind
them. Every round takes a byte of a name, so `steps` does not run out (`domainEq_steps`). -/
def domainEqFrom : Nat → Bytes → Bytes → Bool
  | 0, _, _ => true
  | steps + 1, ptra, ptrb =>
    let len := byteAt ptra 0
    if len ≠ 0 ∧ byteAt ptrb 0 ≠ 0 then
      if len ≠ byteAt ptrb 0 then false
      else if lwipStrnicmp (ptra.drop 1) (ptrb.drop 1) len.toNat then
        domainEqFrom steps (ptra.drop (1 + len.toNat)) (ptrb.drop (1 + len.toNat))
      else false
    else ¬(len ≠ byteAt ptrb 0 ∧ ptra ≠ [])

def mdnsDomainEq (a b : MdnsDomain) : Bool :=
  a.name.length = b.name.length && domainEqFrom (a.name.length + 1) a.name b.name

namespace MdnsLemmas

/-- With a step for each byte, more steps do not change the result. -/
theorem domainEq_steps (k : Nat) {steps : Nat} {ptra ptrb : Bytes} (h : ptra.length < steps) :
    domainEqFrom (steps + k) ptra ptrb = domainEqFrom steps ptra ptrb := by
  induction steps generalizing ptra ptrb with
  | zero => exact absurd h (Nat.not_lt_zero _)
  | succ steps ih =>
    rw [Nat.add_right_comm, domainEqFrom, domainEqFrom]
    cases ptra with
    | nil => rfl
    | cons c rest =>
      have hrest : ((c :: rest).drop (1 + (byteAt (c :: rest) 0).toNat)).length < steps := by
        rw [List.length_drop, List.length_cons]
        rw [List.length_cons] at h
        omega
      rw [ih hrest]

end MdnsLemmas

/-! ## What is asked for -/

def dnsRrtypeAny : Nat := 255

def dnsRrclassAny : Nat := 255

/-- The type that is asked for, or any. -/
def asksFor (rr : MdnsRrInfo) (type : Nat) : Bool := rr.type = type ∨ rr.type = dnsRrtypeAny

/-- The class is not one of the internet's. -/
def invalidClass (rr : MdnsRrInfo) : Bool := rr.klass ≠ dnsRrclassIn ∧ rr.klass ≠ dnsRrclassAny

/-- `ip4_addr_isany_val` -/
def MdnsHost.hasNoAddr (mdns : MdnsHost) : Bool := mdns.ip4Addr = [0, 0, 0, 0]

def checkHost (mdns : MdnsHost) (rr : MdnsRrInfo) : Nat :=
  if invalidClass rr then 0
  else
    (if asksFor rr dnsRrtypePtr && !mdns.hasNoAddr &&
        mdnsDomainEq rr.domain (mdnsBuildReverseV4Domain mdns.ip4Addr) then replyHostPtrV4 else 0) |||
    (if mdnsDomainEq rr.domain (mdnsBuildHostDomain mdns) && !mdns.hasNoAddr && asksFor rr dnsRrtypeA then
      replyHostA else 0)

def checkService (service : MdnsService) (rr : MdnsRrInfo) : Nat :=
  if invalidClass rr then 0
  else
    (if mdnsDomainEq rr.domain mdnsBuildDnssdDomain && asksFor rr dnsRrtypePtr then
      replyServiceTypePtr else 0) |||
    (if mdnsDomainEq rr.domain (mdnsBuildServiceDomain service false) && asksFor rr dnsRrtypePtr then
      replyServiceNamePtr else 0) |||
    (if mdnsDomainEq rr.domain (mdnsBuildServiceDomain service true) then
      (if asksFor rr dnsRrtypeSrv then replyServiceSrv else 0) |||
      (if asksFor rr dnsRrtypeTxt then replyServiceTxt else 0)
    else 0)

/-- Some bits of a byte are cleared. -/
def clearBits (replies bits : Nat) : Nat := replies &&& (0xFF ^^^ bits)

/-! ## What is known -/

section

variable (p : Bytes) (ans : MdnsAnswer)

/-- A known answer for the host. It counts while less than half of its time is gone. -/
def dropKnownHost (mdns : MdnsHost) (replies : Nat) : Nat :=
  let found := replies &&& checkHost mdns ans.info
  if found ≠ 0 ∧ mdns.dnsTtl / 2 < ans.ttl then
    if ans.info.type = dnsRrtypePtr then
      match mdnsReadname p ans.rdOffset with
      | none => replies
      | some (_, knownAns) =>
        if mdnsDomainEq knownAns (mdnsBuildHostDomain mdns) ∧ anyOf found replyHostPtrV4 then
          clearBits replies replyHostPtrV4
        else replies
    else if anyOf found replyHostA then
      if ans.rdLength = 4 ∧ pbufCopyPartial p ans.rdLength ans.rdOffset = mdns.ip4Addr then
        clearBits replies replyHostA
      else replies
    else replies
  else replies

/-- A field of two bytes of a known answer. -/
def knownField (offset n : Nat) : Bool :=
  let field16 := pbufCopyPartial p 2 offset
  field16.length = 2 ∧ ofBe16 field16 = n

/-- Priority, weight, port and host of a known answer. -/
def knownSrv (mdns : MdnsHost) (service : MdnsService) : Bool :=
  knownField p ans.rdOffset 0 && knownField p (ans.rdOffset + 2) 0 &&
    knownField p (ans.rdOffset + 4) service.port &&
    match mdnsReadname p (ans.rdOffset + 6) with
    | none => false
    | some (_, knownAns) => mdnsDomainEq knownAns (mdnsBuildHostDomain mdns)

/-- A known answer for a service. -/
def dropKnownService (mdns : MdnsHost) (service : MdnsService) (replies : Nat) : Nat :=
  let found := replies &&& checkService service ans.info
  if found ≠ 0 ∧ service.dnsTtl / 2 < ans.ttl then
    if ans.info.type = dnsRrtypePtr then
      match mdnsReadname p ans.rdOffset with
      | none => replies
      | some (_, knownAns) =>
        let replies :=
          if anyOf found replyServiceTypePtr ∧ mdnsDomainEq knownAns (mdnsBuildServiceDomain service false) then
            clearBits replies replyServiceTypePtr
          else replies
        if anyOf found replyServiceNamePtr ∧ mdnsDomainEq knownAns (mdnsBuildServiceDomain service true) then
          clearBits replies replyServiceNamePtr
        else replies
    else if anyOf found replyServiceSrv then
      if knownSrv p ans mdns service then clearBits replies replyServiceSrv else replies
    else if anyOf found replyServiceTxt then
      let txtdata := (mdnsPrepareTxtdata service).name
      if txtdata.length = ans.rdLength ∧ pbufCopyPartial p ans.rdLength ans.rdOffset = txtdata then
        clearBits replies replyServiceTxt
      else replies
    else replies
  else replies

end

/-! ## `mdns_handle_question` -/

def mdnsPort : Nat := 5353

/-- `mdns_init_outpacket`, for a packet from `sourcePort` with so many questions. -/
def mdnsInitOutpacket (mdns : MdnsHost) (sourcePort questions txId : Nat) : MdnsReply where
  outpkt := ⟨none, 0, []⟩
  txId := if sourcePort ≠ mdnsPort ∧ questions = 1 then txId else 0
  cacheFlush := sourcePort = mdnsPort
  legacyQuery := sourcePort ≠ mdnsPort ∧ questions = 1
  hostReplies := 0
  servReplies := List.replicate mdns.services.length 0

section

variable (alloc : Option Outbuf) (mdns : MdnsHost)

/-- The bits of every slot with a service are changed. -/
def MdnsReply.mapServices (f : MdnsService → Nat → Nat) (reply : MdnsReply) : List Nat :=
  mdns.services.zipWith (fun service replies => (service.map fun s => f s replies).getD replies) reply.servReplies

/-- The bits that a question sets. -/
def MdnsReply.ask (reply : MdnsReply) (rr : MdnsRrInfo) : MdnsReply :=
  { reply with
    hostReplies := reply.hostReplies ||| checkHost mdns rr
    servReplies := reply.mapServices mdns fun service replies => replies ||| checkService service rr }

/-- `replies` is not 0: the bits are only set while the questions are read. -/
def MdnsReply.asked (reply : MdnsReply) : Bool :=
  reply.hostReplies ≠ 0 ∨ ∃ replies ∈ reply.servReplies, replies ≠ 0

/-- The questions. Without a reply when one cannot be read, or not be repeated. -/
def readQuery : Nat → MdnsPacket → MdnsReply → Option (MdnsReply × MdnsPacket)
  | 0, pkt, reply => some (reply, pkt)
  | n + 1, pkt, reply =>
    match mdnsReadQuestion pkt with
    | none => none
    | some ((rr, _), pkt) =>
      let reply := reply.ask mdns rr
      if reply.asked && reply.legacyQuery then
        match mdnsAddQuestion alloc reply.outpkt rr.domain rr.type rr.klass false with
        | .error _ => none
        | .ok outpkt => readQuery n pkt { reply with outpkt := outpkt }
      else readQuery n pkt reply

/-- The bits that a known answer clears. -/
def MdnsReply.know (reply : MdnsReply) (p : Bytes) (ans : MdnsAnswer) : MdnsReply :=
  { reply with
    hostReplies := dropKnownHost p ans mdns reply.hostReplies
    servReplies := reply.mapServices mdns fun service replies => dropKnownService p ans mdns service replies }

/-- The known answers. Those of any type or class are skipped. -/
def readKnown : Nat → MdnsPacket → MdnsReply → Option MdnsReply
  | 0, _, reply => some reply
  | n + 1, pkt, reply =>
    match mdnsReadAnswer pkt with
    | none => none
    | some (ans, pkt) =>
      if ans.info.type = dnsRrtypeAny ∨ ans.info.klass = dnsRrclassAny then readKnown n pkt reply
      else readKnown n pkt (reply.know mdns pkt.pbuf ans)

/-- The reply to a query, before it is built. -/
def queryReply (sourcePort txId : Nat) (pkt : MdnsPacket) : Option MdnsReply :=
  match readQuery alloc mdns pkt.questionsLeft pkt (mdnsInitOutpacket mdns sourcePort pkt.questionsLeft txId) with
  | none => none
  | some (reply, pkt) => readKnown mdns pkt.answersLeft pkt reply

/-- What is sent, if anything. -/
def mdnsHandleQuestion (sourcePort txId : Nat) (pkt : MdnsPacket) : Option Bytes :=
  match queryReply alloc mdns sourcePort txId pkt with
  | none => none
  | some reply => mdnsSendOutpacket mdns reply alloc

/-- `mdns_recv` of a query. -/
def mdnsRecvQuery (sourcePort : Nat) (p : Bytes) : Option Bytes :=
  match recvPacket p with
  | none => none
  | some (flags1, packet) =>
    if flags1 &&& dnsFlag1Response ≠ 0 then none else mdnsHandleQuestion alloc mdns sourcePort (ofBe16 p) packet

end

end EspushW60x

import EspushW60x.MdnsWriter
import EspushW60x.Protoframe

/-!
# The records of a packet

A packet of questions and answers that was built with `mdns_add_question` and
`mdns_add_answer` is read back with `mdns_read_question` and `mdns_read_answer`.

Results:
* `records_round_trip`: what was added is read, and the data of every record is what it was.
-/

namespace EspushW60x

open Lib Names

/-- A name, a type and a class. For a question the flag asks for a unicast reply, for a
record it says that other ones are out of date. -/
structure Heading where
  name : List Label
  type : Nat
  klass : Nat
  flag : Bool

/-- A record. Its data are bytes and a name behind them, which may not be compressed when
its flag is set. -/
structure Record where
  heading : Heading
  ttl : Nat
  buf : Option Bytes
  target : Option (List Label × Bool)

def Heading.domain (q : Heading) : MdnsDomain := ⟨encode q.name, false⟩

/-- The arguments of `mdns_add_answer`. -/
def Record.toMdns (r : Record) : MdnsRecord where
  domain := r.heading.domain
  type := r.heading.type
  klass := r.heading.klass
  cacheFlush := r.heading.flag
  ttl := r.ttl
  buf := r.buf
  answerDomain := r.target.map fun t => ⟨encode t.1, t.2⟩

/-- The names that are written for a record. -/
def Record.names (r : Record) : List (List Label) := r.heading.name :: (r.target.map Prod.fst).toList

/-- The values fit into their fields. -/
structure Heading.Fits (IsLength : Nat → Prop) (q : Heading) : Prop where
  name : Compressible IsLength q.name
  type : q.type < 0x10000
  klass : q.klass < 0x8000

structure Record.Fits (IsLength : Nat → Prop) (r : Record) : Prop where
  heading : r.heading.Fits IsLength
  ttl : r.ttl < 0x100000000
  target : ∀ t, r.target = some t → Compressible IsLength t.1

/-- Names with few enough jumps: they have few labels, or few of them end alike. -/
def Shallow (names : List (List Label)) : Prop := ∀ ls ∈ names, ls.length ≤ 5 ∨ alike ls names ≤ 6

section

variable [Lwip] (alloc : Option Outbuf)

/-- Some questions, one after the other. -/
def addQuestions : MdnsOutpacket → List Heading → Except MdnsOutpacket MdnsOutpacket
  | outpkt, [] => .ok outpkt
  | outpkt, q :: qs =>
    match mdnsAddQuestion alloc outpkt q.domain q.type q.klass q.flag with
    | .error outpkt => .error outpkt
    | .ok outpkt => addQuestions outpkt qs

/-- Some records, one after the other. -/
def addAnswers : MdnsOutpacket → List Record → Except MdnsOutpacket MdnsOutpacket
  | outpkt, [] => .ok outpkt
  | outpkt, r :: rs =>
    match mdnsAddAnswer alloc outpkt r.toMdns with
    | .error outpkt => .error outpkt
    | .ok outpkt => addAnswers outpkt rs

end

/-- The packet with its header, cut off at the write offset, as it is sent. -/
def finishPacket (outpkt : MdnsOutpacket) (hdr : Bytes) : Bytes :=
  match outpkt.pbuf with
  | none => []
  | some p => (patch p.val 0 hdr).take outpkt.writeOffset

section

variable [Lwip]

/-- Some questions are read. -/
def readQuestions : Nat → MdnsPacket → Option (List (MdnsRrInfo × Bool) × MdnsPacket)
  | 0, pkt => some ([], pkt)
  | n + 1, pkt =>
    match mdnsReadQuestion pkt with
    | none => none
    | some (q, pkt) =>
      match readQuestions n pkt with
      | none => none
      | some (qs, pkt) => some (q :: qs, pkt)

/-- Some answers are read. -/
def readAnswers : Nat → MdnsPacket → Option (List MdnsAnswer × MdnsPacket)
  | 0, pkt => some ([], pkt)
  | n + 1, pkt =>
    match mdnsReadAnswer pkt with
    | none => none
    | some (a, pkt) =>
      match readAnswers n pkt with
      | none => none
      | some (as, pkt) => some (a :: as, pkt)

/-- The answer says what the record says. -/
structure Record.ReadAs (packet : Bytes) (r : Record) (a : MdnsAnswer) : Prop where
  info : a.info = ⟨r.heading.domain, r.heading.type, r.heading.klass⟩
  flag : a.cacheFlush = r.heading.flag
  ttl : a.ttl = r.ttl
  buf : pbufCopyPartial packet (r.buf.getD []).length a.rdOffset = r.buf.getD []
  noTarget : r.target = none → a.rdLength = (r.buf.getD []).length
  target : ∀ t, r.target = some t →
    mdnsReadname packet (a.rdOffset + (r.buf.getD []).length) =
      some (a.rdOffset + a.rdLength, ⟨encode t.1, false⟩)

end

namespace MdnsLemmas

/-! ## What is in the packet -/

/-- The two bytes of the class. -/
def klassField (q : Heading) : Bytes := be16 (if q.flag then q.klass ||| 0x8000 else q.klass)

/-- A name that was written. -/
def NameAt (msg : Names.Message) (names : List (List Label)) (off : Nat) (ls : List Label) (stop : Nat) : Prop :=
  ∃ jumps, Spells msg (RefTo msg) off ls jumps stop ∧ jumps < alike ls names

def HeadingAt (msg : Names.Message) (names : List (List Label)) (q : Heading) (off next : Nat) : Prop :=
  ∃ stop, NameAt msg names off q.name stop ∧ Stands msg stop (be16 q.type) ∧
    Stands msg (stop + 2) (klassField q) ∧ next = stop + 4

structure RecordAt (msg : Names.Message) (names : List (List Label)) (r : Record) (off stop n : Nat) : Prop where
  heading : HeadingAt msg names r.heading off stop
  ttl : Stands msg stop (be32 r.ttl)
  rdLength : Stands msg (stop + 4) (be16 n)
  buf : Stands msg (stop + 6) (r.buf.getD [])
  noTarget : r.target = none → n = (r.buf.getD []).length
  target : ∀ t, r.target = some t → NameAt msg names (stop + 6 + (r.buf.getD []).length) t.1 (stop + 6 + n)

def QuestionsAt (msg : Names.Message) (names : List (List Label)) : List Heading → Nat → Nat → Prop
  | [], off, next => next = off
  | q :: qs, off, next => ∃ mid, HeadingAt msg names q off mid ∧ QuestionsAt msg names qs mid next

def RecordsAt (msg : Names.Message) (names : List (List Label)) : List Record → Nat → Nat → Prop
  | [], off, next => next = off
  | r :: rs, off, next => ∃ stop n, RecordAt msg names r off stop n ∧ RecordsAt msg names rs (stop + 6 + n) next

section

variable {msg msg' : Names.Message} {names : List (List Label)} (hmore : Extends msg msg')
  (more : List (List Label))
include hmore

theorem nameAt_more {off stop : Nat} {ls : List Label} (h : NameAt msg names off ls stop) :
    NameAt msg' (names ++ more) off ls stop := by
  obtain ⟨jumps, hspells, hjumps⟩ := h
  refine ⟨jumps, spells_more hspells hmore, ?_⟩
  rw [alike_append]
  omega

theorem headingAt_more {q : Heading} {off next : Nat} (h : HeadingAt msg names q off next) :
    HeadingAt msg' (names ++ more) q off next := by
  obtain ⟨stop, hname, htype, hklass, hnext⟩ := h
  exact ⟨stop, nameAt_more hmore more hname, htype.mono hmore, hklass.mono hmore, hnext⟩

theorem recordAt_more {r : Record} {off stop n : Nat} (h : RecordAt msg names r off stop n) :
    RecordAt msg' (names ++ more) r off stop n where
  heading := headingAt_more hmore more h.heading
  ttl := h.ttl.mono hmore
  rdLength := h.rdLength.mono hmore
  buf := h.buf.mono hmore
  noTarget := h.noTarget
  target t ht := nameAt_more hmore more (h.target t ht)

theorem questionsAt_more {qs : List Heading} {off next : Nat} (h : QuestionsAt msg names qs off next) :
    QuestionsAt msg' (names ++ more) qs off next := by
  induction qs generalizing off with
  | nil => exact h
  | cons q qs ih =>
    obtain ⟨mid, hq, hqs⟩ := h
    exact ⟨mid, headingAt_more hmore more hq, ih hqs⟩

end

/-! ## Writing -/

section

variable {msg : Names.Message} {out : MdnsOutpacket} {IsLength : Nat → Prop}
variable {written : List (List Label)} {bs : Bytes}

theorem laid_more (h : Laid IsLength written out msg) {msg' : Names.Message}
    (hsame : ∀ i, i < out.writeOffset → msg' i = msg i) : Extends msg msg' := by
  obtain ⟨p, hbuilt⟩ := h.built
  exact extends_of_same hbuilt hsame

theorem bind_eq_ok {α β : Type} {x : Except MdnsOutpacket α} {f : α → Except MdnsOutpacket β} {b : β}
    (h : (x >>= f) = .ok b) : ∃ a, x = .ok a ∧ f a = .ok b := by
  cases x with
  | error e => cases h
  | ok a => exact ⟨a, rfl, h⟩

theorem laid_skip (h : Laid IsLength written out msg) (hfit : out.writeOffset + 2 ≤ outpacketSize) :
    Laid IsLength written { out with writeOffset := out.writeOffset + 2 } msg := by
  obtain ⟨p, hbuilt⟩ := h.built
  refine ⟨⟨p, ?_⟩, h.names⟩
  exact ⟨Nat.le_add_right_of_le hbuilt.start, hfit, hbuilt.pbuf, hbuilt.stored,
    fun i b hb => Nat.lt_add_right 2 (hbuilt.below i b hb)⟩

theorem ensurePbuf_laid (alloc : Option Outbuf) (h : Laid IsLength written out msg) :
    ensurePbuf alloc out = .ok out := by
  obtain ⟨p, hbuilt⟩ := h.built
  simp only [ensurePbuf, hbuilt.pbuf]

variable [Lwip]

theorem laid_takeAt (h : Laid IsLength written out msg) (bs : Bytes) (hlt : out.writeOffset < outpacketSize)
    (hfit : out.writeOffset + bs.length ≤ outpacketSize) :
    ∃ out', takeAt out bs = .ok out' ∧ Laid IsLength written out' (put msg out.writeOffset bs) ∧
      out'.writeOffset = out.writeOffset + bs.length := by
  obtain ⟨p, hbuilt⟩ := h.built
  obtain ⟨q, htake, hbuilt'⟩ := built_takeAt hbuilt hlt hfit
  refine ⟨_, htake, ⟨⟨q, hbuilt'⟩, fun o ho => ?_⟩, rfl⟩
  have hnamed := named_more (h.names o ho) (extends_of_same hbuilt (put_same msg out.writeOffset bs)) []
  rwa [List.append_nil] at hnamed

theorem takeAt_fits (h : Laid IsLength written out msg) {out' : MdnsOutpacket}
    (hrun : takeAt out bs = .ok out') :
    out.writeOffset < outpacketSize ∧ out.writeOffset + bs.length ≤ outpacketSize := by
  obtain ⟨p, hbuilt⟩ := h.built
  have hlen : p.val.length = outpacketSize := p.property
  rw [takeAt, hbuilt.pbuf] at hrun
  dsimp only at hrun
  rw [← hlen]
  refine Classical.byContradiction fun hroom => ?_
  rw [Lwip.take_error _ _ _ hroom] at hrun
  cases hrun

/-- A question, or the start of an answer, for which there is room. -/
theorem laid_addQuestion (alloc : Option Outbuf) (h : Laid IsLength written out msg) {q : Heading}
    (hname : Compressible IsLength q.name)
    (hfit : out.writeOffset + ((encode q.name).length + 4) ≤ outpacketSize) :
    ∃ out' msg', mdnsAddQuestion alloc out q.domain q.type q.klass q.flag = .ok out' ∧
      Laid IsLength (written ++ [q.name]) out' msg' ∧ (∀ i, i < out.writeOffset → msg' i = msg i) ∧
      HeadingAt msg' (written ++ [q.name]) q out.writeOffset out'.writeOffset ∧
      out.writeOffset ≤ out'.writeOffset ∧
      out'.writeOffset ≤ out.writeOffset + ((encode q.name).length + 4) := by
  obtain ⟨out1, msg1, jumps, hrun1, hlaid1, hsame1, hspells, hjumps, hoff1⟩ :=
    writeDomain_spells h hname false (by omega)
  have hspan := hspells.stop_le fun _ _ h => h.2
  obtain ⟨out2, hrun2, hlaid2, hoff2⟩ :=
    laid_takeAt hlaid1 (be16 q.type) (by omega) (by rw [length_be16]; omega)
  rw [length_be16] at hoff2
  obtain ⟨out3, hrun3, hlaid3, hoff3⟩ :=
    laid_takeAt hlaid2 (klassField q) (by omega) (by rw [klassField, length_be16]; omega)
  have hlen : (klassField q).length = 2 := rfl
  rw [hlen] at hoff3
  have hmore2 := laid_more hlaid1 (put_same msg1 out1.writeOffset (be16 q.type))
  have hmore3 := laid_more hlaid2 (put_same _ out2.writeOffset (klassField q))
  refine ⟨out3, _, ?_, hlaid3, fun i hi => ?_, ?_, by omega, by omega⟩
  · have hroom : ¬ outpacketSize < out.writeOffset + (q.domain.name.length + 4) := Nat.not_lt.mpr hfit
    have hdomain : mdnsWriteDomain out q.domain = .ok out1 := hrun1
    rw [mdnsAddQuestion, ensurePbuf_laid alloc h]
    show (if outpacketSize < out.writeOffset + (q.domain.name.length + 4) then _ else _) = _
    rw [if_neg hroom, hdomain]
    show (takeAt out1 (be16 q.type) >>= fun outpkt => _) = _
    rw [hrun2]
    exact hrun3
  · rw [put_same _ _ _ i (by omega), put_same _ _ _ i (by omega), hsame1 i hi]
  · refine ⟨out1.writeOffset, ⟨jumps, spells_more (spells_more hspells hmore2) hmore3, ?_⟩, ?_, ?_, by omega⟩
    · rw [alike_self]
      omega
    · exact (stands_put _ _ _).mono hmore3
    · rw [← hoff2]
      exact stands_put _ _ _

theorem laid_writeBuf (h : Laid IsLength written out msg) {buf : Option Bytes} {out' : MdnsOutpacket}
    (hrun : writeBuf out buf = .ok out') :
    ∃ msg', Laid IsLength written out' msg' ∧ (∀ i, i < out.writeOffset → msg' i = msg i) ∧
      Stands msg' out.writeOffset (buf.getD []) ∧
      out'.writeOffset = out.writeOffset + (buf.getD []).length := by
  cases buf with
  | none =>
    obtain rfl := Except.ok.inj hrun
    exact ⟨msg, h, fun _ _ => rfl, stands_nil, rfl⟩
  | some buf =>
    obtain ⟨hlt, hfit⟩ := takeAt_fits h hrun
    obtain ⟨out1, hrun1, hlaid, hoff⟩ := laid_takeAt h buf hlt hfit
    obtain rfl := Except.ok.inj (hrun.symm.trans hrun1)
    exact ⟨_, hlaid, put_same _ _ _, stands_put _ _ _, hoff⟩

theorem laid_writeAnswerDomain (h : Laid IsLength written out msg) {target : Option (List Label × Bool)}
    (hname : ∀ t, target = some t → Compressible IsLength t.1)
    (hfit : ∀ t, target = some t → out.writeOffset + (encode t.1).length ≤ outpacketSize) :
    ∃ out' msg', writeAnswerDomain out (target.map fun t => ⟨encode t.1, t.2⟩) = .ok out' ∧
      Laid IsLength (written ++ (target.map Prod.fst).toList) out' msg' ∧
      (∀ i, i < out.writeOffset → msg' i = msg i) ∧ (target = none → out'.writeOffset = out.writeOffset) ∧
      (∀ t, target = some t → NameAt msg' (written ++ (target.map Prod.fst).toList) out.writeOffset t.1
        out'.writeOffset) ∧ out.writeOffset ≤ out'.writeOffset := by
  cases target with
  | none =>
    refine ⟨out, msg, rfl, ?_, fun _ _ => rfl, fun _ => rfl, fun t ht => ?_, Nat.le_refl _⟩
    · rw [Option.map_none, Option.toList_none, List.append_nil]
      exact h
    · cases ht
  | some t =>
    obtain ⟨out', msg', jumps, hrun, hlaid, hsame, hspells, hjumps, _⟩ :=
      writeDomain_spells h (hname t rfl) t.2 (hfit t rfl)
    refine ⟨out', msg', hrun, hlaid, hsame, fun ht => ?_, fun t' ht => ?_, ?_⟩
    · cases ht
    · obtain rfl := Option.some.inj ht
      refine ⟨jumps, hspells, ?_⟩
      show jumps < alike t.1 (written ++ [t.1])
      rw [alike_self]
      omega
    · exact Nat.le_of_lt (hspells.stop_le fun _ _ h => h.2).1

/-- The length of the data, where nothing was written yet. -/
theorem laid_storeRdLength (h : Laid IsLength written out msg) {n off : Nat}
    (hfit : off + 2 ≤ out.writeOffset) (hfree : ∀ i, off ≤ i → i < off + 2 → msg i = none) :
    ∃ out', storeRdLength out n off = .ok out' ∧ Laid IsLength written out' (put msg off (be16 n)) ∧
      out'.writeOffset = out.writeOffset := by
  obtain ⟨p, hbuilt⟩ := h.built
  have hlen : p.val.length = outpacketSize := p.property
  have hsize := hbuilt.size
  have hroom : off < p.val.length ∧ off + (be16 n).length ≤ p.val.length := by
    rw [length_be16]
    omega
  have hmore : Extends msg (put msg off (be16 n)) := extends_put hfree
  let q : Outbuf := ⟨patch p.val off (be16 n), (length_patch _ _ _).trans hlen⟩
  refine ⟨{ out with pbuf := some q }, ?_, ⟨⟨q, ?_⟩, ?_⟩, rfl⟩
  · rw [storeRdLength, hbuilt.pbuf]
    dsimp only
    rw [Lwip.take_all _ _ _ hroom.1 hroom.2]
  · refine ⟨hbuilt.start, hsize, rfl, extends_put_patch hbuilt.stored hroom.2, fun i b hb => ?_⟩
    rw [put] at hb
    split at hb
    · rename_i hin
      exact Nat.lt_of_lt_of_le hin.2 hfit
    · exact hbuilt.below i b hb
  · intro o ho
    have hnamed := named_more (h.names o ho) hmore []
    rwa [List.append_nil] at hnamed

/-- The data of a record. -/
theorem laid_writeRdata (h : Laid IsLength written out msg) {r : Record} (hr : r.Fits IsLength)
    (hroom : out.writeOffset + 2 + (r.buf.getD []).length +
      ((r.target.map fun t => (encode t.1).length).getD 0) ≤ outpacketSize)
    {out' : MdnsOutpacket} (hrun : writeRdata out r.toMdns = .ok out') :
    ∃ msg' n, Laid IsLength (written ++ (r.target.map Prod.fst).toList) out' msg' ∧
      (∀ i, i < out.writeOffset → msg' i = msg i) ∧ Stands msg' out.writeOffset (be16 n) ∧
      Stands msg' (out.writeOffset + 2) (r.buf.getD []) ∧
      (r.target = none → n = (r.buf.getD []).length) ∧
      (∀ t, r.target = some t → NameAt msg' (written ++ (r.target.map Prod.fst).toList)
        (out.writeOffset + 2 + (r.buf.getD []).length) t.1 (out.writeOffset + 2 + n)) ∧
      out'.writeOffset = out.writeOffset + 2 + n := by
  obtain ⟨p, hbuilt⟩ := h.built
  have hskip := laid_skip h (by omega)
  obtain ⟨out1, hrun1, hrun⟩ := bind_eq_ok hrun
  obtain ⟨msg1, hlaid1, hsame1, hbuf, hoff1⟩ := laid_writeBuf hskip hrun1
  dsimp only at hsame1 hbuf hoff1
  have hbufOf : r.toMdns.buf = r.buf := rfl
  rw [hbufOf] at hbuf hoff1
  obtain ⟨out2, msg2, hrun2, hlaid2, hsame2, hnone, hsome, hle⟩ :=
    laid_writeAnswerDomain hlaid1 hr.target fun t ht => by
      rw [ht] at hroom
      rw [hoff1]
      exact hroom
  obtain ⟨out2', hrun2', hrun⟩ := bind_eq_ok hrun
  obtain rfl := Except.ok.inj (hrun2.symm.trans hrun2')
  -- nothing was written where the length is stored now
  have hfree : ∀ i, out.writeOffset ≤ i → i < out.writeOffset + 2 → msg2 i = none := by
    intro i hge hlt
    rw [hsame2 i (by omega), hsame1 i hlt]
    refine Option.eq_none_iff_forall_ne_some.mpr fun b hb => ?_
    exact absurd (hbuilt.below i b hb) (Nat.not_lt.mpr hge)
  obtain ⟨out3, hrun3, hlaid3, hoff3⟩ :=
    laid_storeRdLength hlaid2 (n := out2.writeOffset - (out.writeOffset + 2)) (by omega) hfree
  obtain rfl := Except.ok.inj (hrun3.symm.trans hrun)
  have hmore3 : Extends msg2 (put msg2 out.writeOffset (be16 (out2.writeOffset - (out.writeOffset + 2)))) :=
    extends_put hfree
  refine ⟨_, out2.writeOffset - (out.writeOffset + 2), hlaid3, fun i hi => ?_, stands_put _ _ _, ?_,
    fun hnil => ?_, fun t ht => ?_, by omega⟩
  · rw [put_same _ _ _ i hi, hsame2 i (by omega), hsame1 i (by omega)]
  · exact (hbuf.mono (laid_more hlaid1 hsame2)).mono hmore3
  · rw [hnone hnil, hoff1]
    omega
  · have hname := nameAt_more hmore3 [] (hsome t ht)
    rw [List.append_nil, hoff1] at hname
    have hstop : out.writeOffset + 2 + (out2.writeOffset - (out.writeOffset + 2)) = out2.writeOffset := by
      omega
    rw [hstop]
    exact hname

/-- A record that was added. -/
theorem laid_addAnswer (alloc : Option Outbuf) (h : Laid IsLength written out msg) {r : Record}
    (hr : r.Fits IsLength) {out' : MdnsOutpacket} (hrun : mdnsAddAnswer alloc out r.toMdns = .ok out') :
    ∃ msg' stop n, Laid IsLength (written ++ r.names) out' msg' ∧
      (∀ i, i < out.writeOffset → msg' i = msg i) ∧
      RecordAt msg' (written ++ r.names) r out.writeOffset stop n ∧ out'.writeOffset = stop + 6 + n ∧
      out.writeOffset ≤ stop := by
  rw [mdnsAddAnswer, ensurePbuf_laid alloc h] at hrun
  change (if outpacketSize < out.writeOffset + r.toMdns.answerLen then _ else _) = _ at hrun
  split at hrun
  · cases hrun
  rename_i hfit
  have hlen : r.toMdns.answerLen = (encode r.heading.name).length + 10 + (r.buf.getD []).length +
      (r.target.map fun t => (encode t.1).length).getD 0 := by
    rw [MdnsRecord.answerLen]
    cases hbuf : r.buf <;> cases htarget : r.target <;> simp [Record.toMdns, Heading.domain, hbuf, htarget]
  rw [hlen] at hfit
  -- there was room for the whole record, so the start of it is written without an error
  obtain ⟨out1, msg1, hrun1, hlaid1, hsame1, hheading, hge1, hle1⟩ :=
    laid_addQuestion alloc h hr.heading.name (by omega)
  have hquestion : mdnsAddQuestion alloc out r.toMdns.domain r.toMdns.type r.toMdns.klass r.toMdns.cacheFlush =
    .ok out1 := hrun1
  rw [hquestion, outpacketOf] at hrun
  obtain ⟨out2, hrun2, hlaid2, hoff2⟩ :=
    laid_takeAt hlaid1 (be32 r.ttl) (by omega) (by rw [length_be32]; omega)
  rw [length_be32] at hoff2
  obtain ⟨out2', hrun2', hrun⟩ := bind_eq_ok hrun
  obtain rfl := Except.ok.inj (hrun2.symm.trans hrun2')
  obtain ⟨msg3, n, hlaid3, hsame3, hrdLength, hbuf, hnone, hsome, hoff3⟩ :=
    laid_writeRdata hlaid2 hr (by omega) hrun
  have hmore2 := laid_more hlaid1 (put_same msg1 out1.writeOffset (be32 r.ttl))
  have hmore3 := laid_more hlaid2 hsame3
  have hnames : written ++ r.names = written ++ [r.heading.name] ++ (r.target.map Prod.fst).toList := by
    rw [Record.names, List.append_assoc]
    rfl
  rw [hnames]
  have hstop : out2.writeOffset + 2 = out1.writeOffset + 6 := by omega
  rw [hstop] at hbuf hsome hoff3
  refine ⟨msg3, out1.writeOffset, n, hlaid3, fun i hi => ?_, ?_, hoff3, hge1⟩
  · rw [hsame3 i (by omega), put_same _ _ _ i (by omega), hsame1 i hi]
  · exact
      { heading := headingAt_more (hmore2.trans hmore3) _ hheading
        ttl := (stands_put msg1 out1.writeOffset (be32 r.ttl)).mono hmore3
        rdLength := hoff2 ▸ hrdLength
        buf := hbuf
        noTarget := hnone
        target := hsome }

end

/-! ## Several records -/

section

variable {msg : Names.Message} {out : MdnsOutpacket} {IsLength : Nat → Prop}
variable {written : List (List Label)} (alloc : Option Outbuf)

/-- A packet before its first field. -/
theorem laid_start (IsLength : Nat → Prop) (p : Outbuf) :
    Laid IsLength [] ⟨some p, sizeofDnsHdr, []⟩ fun _ => none := by
  refine ⟨⟨p, ?_⟩, fun o ho => absurd ho List.not_mem_nil⟩
  refine ⟨Nat.le_refl _, ?_, rfl, fun i b hb => ?_, fun i b hb => ?_⟩
  · show 12 ≤ 500
    decide
  · cases hb
  · cases hb

variable [Lwip]

theorem addQuestion_fits (h : Laid IsLength written out msg) {q : Heading} {out' : MdnsOutpacket}
    (hrun : mdnsAddQuestion alloc out q.domain q.type q.klass q.flag = .ok out') :
    out.writeOffset + ((encode q.name).length + 4) ≤ outpacketSize := by
  rw [mdnsAddQuestion, ensurePbuf_laid alloc h] at hrun
  change (if outpacketSize < out.writeOffset + ((encode q.name).length + 4) then _ else _) = _ at hrun
  split at hrun
  · cases hrun
  · rename_i hfit
    exact Nat.not_lt.mp hfit

theorem laid_addQuestions (h : Laid IsLength written out msg) {qs : List Heading}
    (hqs : ∀ q ∈ qs, q.Fits IsLength) {out' : MdnsOutpacket} (hrun : addQuestions alloc out qs = .ok out') :
    ∃ msg', Laid IsLength (written ++ qs.map Heading.name) out' msg' ∧
      (∀ i, i < out.writeOffset → msg' i = msg i) ∧
      QuestionsAt msg' (written ++ qs.map Heading.name) qs out.writeOffset out'.writeOffset ∧
      out.writeOffset ≤ out'.writeOffset := by
  induction qs generalizing out msg written with
  | nil =>
    obtain rfl := Except.ok.inj hrun
    rw [List.map_nil, List.append_nil]
    exact ⟨msg, h, fun _ _ => rfl, rfl, Nat.le_refl _⟩
  | cons q qs ih =>
    obtain ⟨hq, hrest⟩ := List.forall_mem_cons.mp hqs
    rw [addQuestions] at hrun
    split at hrun
    · cases hrun
    rename_i out1 hrun1
    obtain ⟨out1', msg1, hrun1', hlaid1, hsame1, hheading, hge, _⟩ :=
      laid_addQuestion alloc h hq.name (addQuestion_fits alloc h hrun1)
    obtain rfl := Except.ok.inj (hrun1.symm.trans hrun1')
    obtain ⟨msg2, hlaid2, hsame2, hquestions, hge2⟩ := ih hlaid1 hrest hrun
    have hnames : written ++ [q.name] ++ qs.map Heading.name = written ++ (q :: qs).map Heading.name := by
      rw [List.append_assoc]
      rfl
    rw [hnames] at hlaid2 hquestions
    refine ⟨msg2, hlaid2, fun i hi => ?_, ⟨_, ?_, hquestions⟩, Nat.le_trans hge hge2⟩
    · rw [hsame2 i (by omega), hsame1 i hi]
    · rw [← hnames]
      exact headingAt_more (laid_more hlaid1 hsame2) _ hheading

theorem laid_addAnswers (h : Laid IsLength written out msg) {rs : List Record}
    (hrs : ∀ r ∈ rs, r.Fits IsLength) {out' : MdnsOutpacket} (hrun : addAnswers alloc out rs = .ok out') :
    ∃ msg', Laid IsLength (written ++ rs.flatMap Record.names) out' msg' ∧
      (∀ i, i < out.writeOffset → msg' i = msg i) ∧
      RecordsAt msg' (written ++ rs.flatMap Record.names) rs out.writeOffset out'.writeOffset ∧
      out.writeOffset ≤ out'.writeOffset := by
  induction rs generalizing out msg written with
  | nil =>
    obtain rfl := Except.ok.inj hrun
    rw [List.flatMap_nil, List.append_nil]
    exact ⟨msg, h, fun _ _ => rfl, rfl, Nat.le_refl _⟩
  | cons r rs ih =>
    obtain ⟨hr, hrest⟩ := List.forall_mem_cons.mp hrs
    rw [addAnswers] at hrun
    split at hrun
    · cases hrun
    rename_i out1 hrun1
    obtain ⟨msg1, stop, n, hlaid1, hsame1, hrecord, hoff1, hge⟩ := laid_addAnswer alloc h hr hrun1
    obtain ⟨msg2, hlaid2, hsame2, hrecords, hge2⟩ := ih hlaid1 hrest hrun
    have hnames : written ++ r.names ++ rs.flatMap Record.names = written ++ (r :: rs).flatMap Record.names := by
      rw [List.append_assoc, List.flatMap_cons]
    rw [hnames] at hlaid2 hrecords
    refine ⟨msg2, hlaid2, fun i hi => ?_, ⟨stop, n, ?_, hoff1 ▸ hrecords⟩, by omega⟩
    · rw [hsame2 i (by omega), hsame1 i hi]
    · rw [← hnames]
      exact recordAt_more (laid_more hlaid1 hsame2) _ hrecord

end

/-! ## Reading -/

section

variable {msg : Names.Message} {packet : Bytes} (hknown : Extends msg fun i => packet[i]?)
include hknown

theorem lt_of_known {off : Nat} {b : UInt8} (h : msg off = some b) : off < packet.length :=
  (List.getElem?_eq_some_iff.mp (hknown off b h)).1

variable [Lwip]

theorem copy_of_stands {off : Nat} {bs : Bytes} (h : Stands msg off bs) :
    pbufCopyPartial packet bs.length off = bs := by
  obtain rfl | hne := Decidable.em (bs = [])
  · rw [Lwip.copy_bytes, List.length_nil, List.take_zero]
  · have hpos : 0 < bs.length := List.length_pos_iff.mpr hne
    have hlast := h (bs.length - 1) (by omega)
    rw [List.getElem?_eq_getElem (by omega)] at hlast
    have hin := (List.getElem?_eq_some_iff.mp (hknown _ _ hlast)).1
    exact (stands_seen (by omega)).mp (h.mono (extends_seen hknown))

theorem readField_of_stands (ql al : Nat) {off n : Nat} {bs : Bytes} (h : Stands msg off bs)
    (hn : bs.length = n) :
    readField ⟨packet, off, ql, al⟩ n = some (bs, ⟨packet, off + n, ql, al⟩) := by
  subst hn
  rw [readField]
  dsimp only
  rw [copy_of_stands hknown h]
  exact if_neg (not_not_intro rfl)

theorem readname_of_nameAt {names : List (List Label)} (hshallow : Shallow names) {ls : List Label}
    (hmem : ls ∈ names) (hsize : (encode ls).length ≤ 255) {off stop : Nat} (h : NameAt msg names off ls stop) :
    mdnsReadname packet off = some (stop, ⟨encode ls, false⟩) ∧ off < packet.length := by
  obtain ⟨jumps, hspells, hjumps⟩ := h
  obtain ⟨b, hb⟩ := hspells.known
  have hoff := lt_of_known hknown hb
  have hseen : Spells (seen packet) (JumpsTo packet) off ls jumps stop := by
    refine hspells.mono (extends_seen hknown) fun off t href hstands => ?_
    obtain ⟨n, _, _, hbyte⟩ := href.2
    exact ⟨lt_of_known hknown (stands_cons.mp (stands_cons.mp hstands).2).1, href.1,
      lt_of_known hknown hbyte⟩
  refine ⟨readname_of_spells hseen ?_ (by omega), hoff⟩
  -- a jump is followed by a label, so short names have few jumps
  have hlabels := (hspells.jumps_le fun _ _ h => h.2).1
  obtain hfew | halike := hshallow ls hmem <;> omega

end

theorem and_7fff (k : Nat) : k &&& 0x7FFF = k % 0x8000 := by
  simpa using Nat.and_two_pow_sub_one_eq_mod k 15

theorem and_8000 {k : Nat} (h : k < 0x8000) : k &&& 0x8000 = 0 := by
  have hbit : 0x8000 = 1 <<< 15 := rfl
  rw [hbit]
  refine Nat.eq_of_testBit_eq fun i => ?_
  rw [Nat.testBit_and, Nat.testBit_shiftLeft, Nat.zero_testBit]
  obtain hlow | hhigh := Nat.lt_or_ge i 15
  · rw [decide_eq_false (Nat.not_le.mpr hlow), Bool.false_and, Bool.and_false]
  · have hlt : k < 2 ^ i := Nat.lt_of_lt_of_le h (Nat.pow_le_pow_right Nat.zero_lt_two hhigh)
    rw [Nat.testBit_lt_two_pow hlt, Bool.false_and]

/-- The class and the flag that are read from the field. -/
theorem klassField_eq {q : Heading} (h : q.klass < 0x8000) :
    ofBe16 (klassField q) &&& 0x7FFF = q.klass ∧ decide (ofBe16 (klassField q) &&& 0x8000 ≠ 0) = q.flag := by
  have hor : q.klass ||| 0x8000 = q.klass + 0x8000 := by
    have hshift := Nat.shiftLeft_add_eq_or_of_lt (i := 15) h 1
    have hbit : 1 <<< 15 = 0x8000 := rfl
    rw [hbit] at hshift
    rw [Nat.or_comm, ← hshift, Nat.add_comm]
  have hself : 0x8000 &&& 0x8000 = 0x8000 := rfl
  cases hflag : q.flag with
  | false =>
    have hfield : klassField q = be16 q.klass := by rw [klassField, hflag, if_neg Bool.false_ne_true]
    rw [hfield, ofBe16_be16 (by omega), and_7fff, and_8000 h, Nat.mod_eq_of_lt h]
    exact ⟨rfl, rfl⟩
  | true =>
    have hfield : klassField q = be16 (q.klass ||| 0x8000) := by rw [klassField, hflag, if_pos rfl]
    rw [hfield, ofBe16_be16 (by rw [hor]; omega), and_7fff, Nat.and_or_distrib_right, and_8000 h, hself, hor]
    refine ⟨by omega, rfl⟩

section

variable {msg : Names.Message} {packet : Bytes} (hknown : Extends msg fun i => packet[i]?)
variable {names : List (List Label)} (hshallow : Shallow names) {IsLength : Nat → Prop} [Lwip]
include hknown hshallow

theorem readRrInfo_of_headingAt (ql al : Nat) {q : Heading} (hq : q.Fits IsLength)
    (hmem : q.name ∈ names) {off next : Nat} (h : HeadingAt msg names q off next) :
    mdnsReadRrInfo ⟨packet, off, ql, al⟩ =
        some (⟨q.domain, q.type, ofBe16 (klassField q)⟩, ⟨packet, next, ql, al⟩) ∧
      off < packet.length := by
  obtain ⟨stop, hname, htype, hklass, rfl⟩ := h
  obtain ⟨hread, hoff⟩ := readname_of_nameAt hknown hshallow hmem hq.name.size hname
  have htypeField := readField_of_stands hknown ql al htype (length_be16 _)
  have hklassField := readField_of_stands hknown ql al hklass (n := 2) rfl
  have hnum : ofBe16 (be16 q.type) = q.type := ofBe16_be16 hq.type
  refine ⟨?_, hoff⟩
  simp only [mdnsReadRrInfo, hread, htypeField, hklassField, hnum, Option.bind_eq_bind, Option.bind_some]
  rfl

theorem readQuestion_of_headingAt {q : Heading} (hq : q.Fits IsLength) (hmem : q.name ∈ names)
    {off next ql al : Nat} (h : HeadingAt msg names q off next) :
    mdnsReadQuestion ⟨packet, off, ql + 1, al⟩ =
      some ((⟨q.domain, q.type, q.klass⟩, q.flag), ⟨packet, next, ql, al⟩) := by
  obtain ⟨hread, hoff⟩ := readRrInfo_of_headingAt hknown hshallow ql al hq hmem h
  obtain ⟨hklass, hflag⟩ := klassField_eq hq.klass
  rw [mdnsReadQuestion, if_neg (Nat.not_lt.mpr (Nat.le_of_lt hoff)), if_neg (Nat.succ_ne_zero ql)]
  simp only [Nat.add_sub_cancel, hread, Option.bind_eq_bind, Option.bind_some, hklass, hflag]
  rfl

theorem readQuestions_of_questionsAt {qs : List Heading} (hqs : ∀ q ∈ qs, q.Fits IsLength)
    (hmem : ∀ q ∈ qs, q.name ∈ names) {off next al : Nat} (h : QuestionsAt msg names qs off next) :
    readQuestions qs.length ⟨packet, off, qs.length, al⟩ =
      some (qs.map fun q => (⟨q.domain, q.type, q.klass⟩, q.flag), ⟨packet, next, 0, al⟩) := by
  induction qs generalizing off with
  | nil =>
    rw [show next = off from h]
    rfl
  | cons q qs ih =>
    obtain ⟨hq, hrest⟩ := List.forall_mem_cons.mp hqs
    obtain ⟨hmemq, hmemRest⟩ := List.forall_mem_cons.mp hmem
    obtain ⟨mid, hheading, hquestions⟩ := h
    rw [List.length_cons, readQuestions, readQuestion_of_headingAt hknown hshallow hq hmemq hheading]
    dsimp only
    rw [ih hrest hmemRest hquestions]
    rfl

theorem readAnswer_of_recordAt (al : Nat) {r : Record} (hr : r.Fits IsLength)
    (hmem : ∀ ls ∈ r.names, ls ∈ names) {off stop n : Nat} (hn : stop + 6 + n < 0x10000)
    (h : RecordAt msg names r off stop n) :
    ∃ a, mdnsReadAnswer ⟨packet, off, 0, al + 1⟩ = some (a, ⟨packet, stop + 6 + n, 0, al⟩) ∧
      r.ReadAs packet a := by
  have hmemName : r.heading.name ∈ names := hmem _ List.mem_cons_self
  obtain ⟨hread, hoff⟩ := readRrInfo_of_headingAt hknown hshallow 0 al hr.heading hmemName h.heading
  obtain ⟨hklass, hflag⟩ := klassField_eq hr.heading.klass
  have httl := readField_of_stands hknown 0 al h.ttl (length_be32 _)
  have hrd := readField_of_stands hknown 0 al h.rdLength (length_be16 _)
  have httlNum : ofBe16 (be32 r.ttl) * 0x10000 + ofBe16 ((be32 r.ttl).drop 2) = r.ttl := by
    have hhigh := ofBe16_be16_append (r.ttl / 65536) (be16 r.ttl)
    have hlow := ofBe16_be16_append r.ttl []
    rw [List.append_nil] at hlow
    have hdrop : (be32 r.ttl).drop 2 = be16 r.ttl := rfl
    have httlFits := hr.ttl
    rw [hdrop, hlow, be32, hhigh]
    omega
  have hrdNum : ofBe16 (be16 n) = n := ofBe16_be16 (by omega)
  have hmod : (stop + 4 + 2 + n) % 0x10000 = stop + 6 + n := by omega
  refine ⟨⟨⟨r.heading.domain, r.heading.type, r.heading.klass⟩, r.heading.flag, r.ttl, n, stop + 6⟩, ?_, ?_⟩
  · rw [mdnsReadAnswer, if_neg (not_not_intro rfl), if_neg (Nat.not_lt.mpr (Nat.le_of_lt hoff)),
      if_neg (Nat.succ_ne_zero al)]
    simp only [Nat.add_sub_cancel, hread, httl, hrd, Option.bind_eq_bind, Option.bind_some, hklass, hflag,
      httlNum, hrdNum, hmod]
    rfl
  · refine ⟨rfl, rfl, rfl, copy_of_stands hknown h.buf, h.noTarget, fun t ht => ?_⟩
    have hmemTarget : t.1 ∈ names := hmem _ (by simp [Record.names, ht])
    exact (readname_of_nameAt hknown hshallow hmemTarget (hr.target t ht).size (h.target t ht)).1

theorem readAnswers_of_recordsAt {rs : List Record} (hrs : ∀ r ∈ rs, r.Fits IsLength)
    (hmem : ∀ r ∈ rs, ∀ ls ∈ r.names, ls ∈ names) {off next : Nat} (hnext : next < 0x10000)
    (h : RecordsAt msg names rs off next) :
    ∃ as, readAnswers rs.length ⟨packet, off, 0, rs.length⟩ = some (as, ⟨packet, next, 0, 0⟩) ∧
      as.length = rs.length ∧ (∀ x ∈ rs.zip as, x.1.ReadAs packet x.2) ∧ off ≤ next := by
  induction rs generalizing off with
  | nil =>
    obtain rfl : next = off := h
    exact ⟨[], rfl, rfl, fun x hx => absurd hx List.not_mem_nil, Nat.le_refl _⟩
  | cons r rs ih =>
    obtain ⟨hr, hrest⟩ := List.forall_mem_cons.mp hrs
    obtain ⟨hmemr, hmemRest⟩ := List.forall_mem_cons.mp hmem
    obtain ⟨stop, n, hrecord, hrecords⟩ := h
    obtain ⟨as, hreads, hlen, hall, hle⟩ := ih hrest hmemRest hrecords
    obtain ⟨a, hread, hreadAs⟩ := readAnswer_of_recordAt hknown hshallow rs.length hr hmemr (by omega) hrecord
    refine ⟨a :: as, ?_, by rw [List.length_cons, List.length_cons, hlen], ?_, ?_⟩
    · rw [List.length_cons, readAnswers, hread]
      dsimp only
      rw [hreads]
    · rw [List.zip_cons_cons]
      exact List.forall_mem_cons.mpr ⟨hreadAs, hall⟩
    · obtain ⟨s, ⟨jumps, hspells, _⟩, _, _, hstop⟩ := hrecord.heading
      have hspan := hspells.stop_le fun _ _ h => h.2
      omega

end

end MdnsLemmas

open MdnsLemmas

/-- A packet with the questions and then the records. -/
def buildPacket [Lwip] (alloc : Option Outbuf) (qs : List Heading) (rs : List Record) :
    Except MdnsOutpacket MdnsOutpacket :=
  match addQuestions alloc ⟨none, 0, []⟩ qs with
  | .error outpkt => .error outpkt
  | .ok outpkt => addAnswers alloc outpkt rs

namespace MdnsLemmas

/-- The packet is allocated for the first field. -/
theorem buildPacket_start [Lwip] {alloc : Option Outbuf} {qs : List Heading} {rs : List Record}
    {out : MdnsOutpacket} (hrun : buildPacket alloc qs rs = .ok out) (hbuf : out.pbuf ≠ none) :
    ∃ p mid, addQuestions alloc ⟨some p, sizeofDnsHdr, []⟩ qs = .ok mid ∧ addAnswers alloc mid rs = .ok out := by
  rw [buildPacket] at hrun
  split at hrun
  · cases hrun
  rename_i mid hmid
  cases alloc with
  | none =>
    cases qs with
    | cons q qs => cases hmid
    | nil =>
      obtain rfl := Except.ok.inj hmid
      cases rs with
      | cons r rs => cases hrun
      | nil =>
        obtain rfl := Except.ok.inj hrun
        exact absurd rfl hbuf
  | some p =>
    cases qs with
    | cons q qs => exact ⟨p, mid, hmid, hrun⟩
    | nil =>
      obtain rfl := Except.ok.inj hmid
      cases rs with
      | cons r rs => exact ⟨p, _, rfl, hrun⟩
      | nil =>
        obtain rfl := Except.ok.inj hrun
        exact absurd rfl hbuf

theorem lt_of_laid {out : MdnsOutpacket} {msg : Names.Message} {IsLength : Nat → Prop}
    {written : List (List Label)} (h : Laid IsLength written out msg) : out.writeOffset < 0x10000 := by
  obtain ⟨p, hbuilt⟩ := h.built
  exact Nat.lt_of_le_of_lt hbuilt.size (by decide)

/-- What is in a packet behind its header. -/
theorem laid_buildPacket [Lwip] {alloc : Option Outbuf} {IsLength : Nat → Prop} {qs : List Heading}
    {rs : List Record} (hqs : ∀ q ∈ qs, q.Fits IsLength) (hrs : ∀ r ∈ rs, r.Fits IsLength)
    {out : MdnsOutpacket} (hrun : buildPacket alloc qs rs = .ok out) (hbuf : out.pbuf ≠ none) :
    ∃ msg mid, Laid IsLength (qs.map Heading.name ++ rs.flatMap Record.names) out msg ∧
      (∀ i, i < sizeofDnsHdr → msg i = none) ∧
      QuestionsAt msg (qs.map Heading.name ++ rs.flatMap Record.names) qs sizeofDnsHdr mid ∧
      RecordsAt msg (qs.map Heading.name ++ rs.flatMap Record.names) rs mid out.writeOffset := by
  obtain ⟨p, mid, hquestions, hanswers⟩ := buildPacket_start hrun hbuf
  obtain ⟨msg1, hlaid1, hsame1, hqsAt, hge1⟩ :=
    laid_addQuestions alloc (laid_start IsLength p) hqs hquestions
  obtain ⟨msg2, hlaid2, hsame2, hrsAt, hge2⟩ := laid_addAnswers alloc hlaid1 hrs hanswers
  rw [List.nil_append] at hlaid2 hrsAt hqsAt hlaid1
  refine ⟨msg2, mid.writeOffset, hlaid2, fun i hi => ?_,
    questionsAt_more (laid_more hlaid1 hsame2) (rs.flatMap Record.names) hqsAt, hrsAt⟩
  rw [hsame2 i (Nat.lt_of_lt_of_le hi hge1), hsame1 i hi]

/-- The packet that is sent has what is known of it. -/
theorem extends_finishPacket {out : MdnsOutpacket} {msg : Names.Message} {IsLength : Nat → Prop}
    {written : List (List Label)} (h : Laid IsLength written out msg)
    (hheader : ∀ i, i < sizeofDnsHdr → msg i = none) {hdr : Bytes} (hhdr : hdr.length = sizeofDnsHdr) :
    (Extends msg fun i => (finishPacket out hdr)[i]?) ∧ (finishPacket out hdr).length = out.writeOffset := by
  obtain ⟨p, hbuilt⟩ := h.built
  have hlen : p.val.length = outpacketSize := p.property
  have hfinish : finishPacket out hdr = (patch p.val 0 hdr).take out.writeOffset := by
    rw [finishPacket, hbuilt.pbuf]
  have hfit : 0 + hdr.length ≤ p.val.length := by
    rw [hhdr, hlen]
    decide
  rw [hfinish]
  refine ⟨fun i b hb => ?_, ?_⟩
  · have hge : sizeofDnsHdr ≤ i := by
      refine Nat.not_lt.mp fun hlt => ?_
      rw [hheader i hlt] at hb
      cases hb
    dsimp only
    rw [List.getElem?_take_of_lt (hbuilt.below i b hb), getElem?_patch hfit, if_neg (by omega)]
    exact hbuilt.stored i b hb
  · rw [List.length_take, length_patch, hlen]
    exact Nat.min_eq_left hbuilt.size

/-- Text of which no byte could be a length below 32, and shorter than that. -/
def isPrintable (l : Bytes) : Bool :=
  !l.isEmpty && decide (l.length < 32) && l.all fun b => decide (32 ≤ b.toNat)

theorem plain_of_isPrintable {l : Bytes} (h : isPrintable l = true) : Label.Plain (· < 32) l := by
  rw [isPrintable, Bool.and_eq_true, Bool.and_eq_true, decide_eq_true_eq] at h
  obtain ⟨⟨hne, hlen⟩, htext⟩ := h
  refine ⟨⟨?_, Nat.lt_trans hlen (by decide)⟩, hlen, fun b hb => ?_⟩
  · rintro rfl
    exact Bool.false_ne_true hne
  · exact Nat.not_lt.mpr (of_decide_eq_true (List.all_eq_true.mp htext b hb))

theorem compressible_of_isPrintable {ls : List Label} (hsize : (encode ls).length ≤ 255)
    (h : ls.all isPrintable = true) : Compressible (· < 32) ls :=
  ⟨fun l hl => plain_of_isPrintable (List.all_eq_true.mp h l hl), hsize⟩

theorem eq_ok_of_isOk {x : Except MdnsOutpacket MdnsOutpacket} (h : x.isOk = true) : x = .ok (outpacketOf x) := by
  cases x with
  | error e => cases h
  | ok a => rfl

end MdnsLemmas

/-- Questions and records that were added to a packet are read back: the names without
their jumps, the numbers, and the data of every record. -/
theorem records_round_trip [Lwip] (alloc : Option Outbuf) (IsLength : Nat → Prop)
    (qs : List Heading) (rs : List Record) (hqs : ∀ q ∈ qs, q.Fits IsLength) (hrs : ∀ r ∈ rs, r.Fits IsLength)
    (hshallow : Shallow (qs.map Heading.name ++ rs.flatMap Record.names)) (out : MdnsOutpacket)
    (hrun : buildPacket alloc qs rs = .ok out) (hbuf : out.pbuf ≠ none) (hdr : Bytes)
    (hhdr : hdr.length = sizeofDnsHdr) :
    ∃ pkt as,
      readQuestions qs.length ⟨finishPacket out hdr, sizeofDnsHdr, qs.length, rs.length⟩ =
        some (qs.map fun q => (⟨q.domain, q.type, q.klass⟩, q.flag), pkt) ∧
      readAnswers rs.length pkt =
        some (as, ⟨finishPacket out hdr, (finishPacket out hdr).length, 0, 0⟩) ∧
      as.length = rs.length ∧ ∀ x ∈ rs.zip as, x.1.ReadAs (finishPacket out hdr) x.2 := by
  obtain ⟨msg, mid, hlaid, hheader, hqsAt, hrsAt⟩ := laid_buildPacket hqs hrs hrun hbuf
  obtain ⟨hknown, hlen⟩ := extends_finishPacket hlaid hheader hhdr
  obtain ⟨as, hreads, hcount, hall, _⟩ := readAnswers_of_recordsAt hknown hshallow hrs
    (fun r hr ls hls => List.mem_append_right _ (List.mem_flatMap.mpr ⟨r, hr, hls⟩))
    (lt_of_laid hlaid) hrsAt
  refine ⟨_, as, readQuestions_of_questionsAt hknown hshallow hqs (fun q hq => ?_) hqsAt, ?_, hcount, hall⟩
  · exact List.mem_append_left _ (List.mem_map_of_mem hq)
  · rw [hreads, hlen]

def blankPacket : Outbuf := ⟨List.replicate outpacketSize 0, List.length_replicate⟩

/-- The address of a host and its service. -/
def hostAndService : List Record :=
  [⟨⟨[ascii "lighter", ascii "local"], 1, 1, true⟩, 64, some [192, 168, 1, 30], none⟩,
   ⟨⟨[ascii "lighter", ascii "_espush", ascii "_tcp", ascii "local"], 33, 1, true⟩, 3600,
     some [0, 0, 0, 0, 0, 80], some ([ascii "lighter", ascii "local"], false)⟩]

section

open scoped Lwip

theorem records_round_trip_service :
    ∃ pkt as,
      readQuestions 0 ⟨finishPacket (outpacketOf (buildPacket (some blankPacket) []
        hostAndService)) (List.replicate 12 0), sizeofDnsHdr, 0, 2⟩ = some ([], pkt) ∧
      readAnswers 2 pkt = some (as, ⟨finishPacket (outpacketOf (buildPacket
        (some blankPacket) [] hostAndService)) (List.replicate 12 0),
        (finishPacket (outpacketOf (buildPacket (some blankPacket) []
          hostAndService)) (List.replicate 12 0)).length, 0, 0⟩) ∧
      as.length = 2 ∧ ∀ x ∈ hostAndService.zip as, x.1.ReadAs (finishPacket (outpacketOf (buildPacket
        (some blankPacket) [] hostAndService)) (List.replicate 12 0)) x.2 := by
  have hhost : Compressible (· < 32) [ascii "lighter", ascii "local"] :=
    compressible_of_isPrintable (by decide) (by decide)
  have hinstance : Compressible (· < 32) [ascii "lighter", ascii "_espush", ascii "_tcp", ascii "local"] :=
    compressible_of_isPrintable (by decide) (by decide)
  refine records_round_trip (some blankPacket) (· < 32) [] hostAndService
    (fun q hq => absurd hq List.not_mem_nil) ?_ ?_ _ (eq_ok_of_isOk (by decide +kernel)) (by decide +kernel)
    (List.replicate 12 0) rfl
  · refine List.forall_mem_cons.mpr ⟨?_, List.forall_mem_singleton.mpr ?_⟩
    · exact ⟨⟨hhost, by decide, by decide⟩, by decide, fun t ht => by cases ht⟩
    · refine ⟨⟨hinstance, by decide, by decide⟩, by decide, fun t ht => ?_⟩
      obtain rfl := Option.some.inj ht
      exact hhost
  · unfold Shallow
    decide +kernel

end

end EspushW60x

import EspushW60x.Protoframe

/-!
# The frame codec

The wire format of a frame is `image`; `decode` reads a segment of `2 + left`
bytes back. Both are compared with `serialize_frame` and `deserialize_frame`:

* `serializeFrame_stores`: `serialize_frame` stores the image of the frame and
  returns its length;
* `deserializeFrame_result`: the four ways a call of `deserialize_frame` ends;
* `codec_round_trip`: the round trip in both directions.
-/

namespace EspushW60x

open Lib

/-! ## The wire format -/

/-- Two bytes of length, method, txid, payload. The length counts what follows it. -/
def Message.image (m : Message) : Bytes :=
  be16 (m.payload.length + 2) ++ [m.method, m.txid] ++ m.payload

/-- The value of a segment of the stream. -/
def decode (seg : Bytes) : Message := ⟨byteAt seg 2, byteAt seg 3, seg.drop 4⟩

/-- A frame has at least 4 bytes, and its first two give the number of the others. -/
def frameFormat : LengthFormat UInt8 where
  header := 4
  size := fun s => ofBe16 s + 2
  header_pos := by decide
  size_append := fun s t h => by rw [ofBe16_append t (by omega)]

theorem isFrame_iff {s : Bytes} : frameFormat.IsFrame s ↔ 4 ≤ s.length ∧ ofBe16 s + 2 = s.length :=
  Iff.rfl

@[simp] theorem length_image (m : Message) : m.image.length = m.payload.length + 4 := by
  simp only [Message.image, List.length_append, length_be16, List.length_cons, List.length_nil]
  omega

theorem ofBe16_image {m : Message} (h : m.payload.length + 2 < 65536) :
    ofBe16 m.image = m.payload.length + 2 := by
  rw [Message.image, List.append_assoc, ofBe16_be16_append, Nat.mod_eq_of_lt h]

theorem isFrame_image {m : Message} (h : m.payload.length + 2 < 65536) :
    frameFormat.IsFrame m.image := by
  rw [isFrame_iff, ofBe16_image h, length_image]
  exact ⟨Nat.le_add_left _ _, rfl⟩

theorem decode_image (m : Message) : decode m.image = m := by
  cases m
  rfl

theorem image_decode {s : Bytes} (h : frameFormat.IsFrame s) : (decode s).image = s := by
  rw [isFrame_iff] at h
  have hlen : (decode s).payload.length + 2 = ofBe16 s := by
    have hd : (decode s).payload.length = s.length - 4 := List.length_drop
    omega
  rw [Message.image, hlen, be16_ofBe16]
  match s, h.1 with
  | _ :: _ :: _ :: _ :: _, _ => rfl

/-! ## `serialize_frame` -/

theorem patch_header (out : Bytes) {a b c d : UInt8} {p : Bytes} (h : p.length + 4 ≤ out.length) :
    patch (patch (patch (patch out 0 [a, b]) 2 [c]) 3 [d]) 4 p =
      [a, b, c, d] ++ p ++ out.drop (p.length + 4) := by
  match out, h with
  | [], h | [_], h | [_, _], h | [_, _, _], h =>
    simp only [List.length_cons, List.length_nil] at h
    omega
  | x0 :: x1 :: x2 :: x3 :: rest, h =>
    simp only [List.length_cons] at h
    have hp : p.length ≤ rest.length := by omega
    have hlen : p.length + (rest.length - p.length) = rest.length := by omega
    simp [patch, List.take_of_length_le, hlen, Nat.add_comm 4 p.length]

/-- The image of the frame is stored at the head of `out`; the rest of `out` is
as it was. -/
theorem serializeFrame_stores (f : Frame) (out : Block) (m : Mem)
    (hf : f.length + 2 < 65536) (hdata : f.length ≤ f.data.bytes.length)
    (hout : f.length + 4 ≤ out.bytes.length) :
    ((serializeFrame f out).run m).1.1 = f.length + 4 ∧
      ((serializeFrame f out).run m).1.2.bytes =
        f.message.image ++ out.bytes.drop (f.length + 4) := by
  have hp : (f.data.bytes.take f.length).length = f.length := by
    rw [List.length_take, Nat.min_eq_left hdata]
  have hmod : (1 + 1 + f.length) % 0x100000000 = f.length + 2 := by omega
  simp only [serializeFrame, Prog.run_bind, run_touch, Prog.run_pure, Block.bytes_store, hmod]
  constructor
  · rw [intOf_of_lt (by omega)]
    omega
  · have h := patch_header out.bytes (a := UInt8.ofNat ((f.length + 2) / 256)) (b := UInt8.ofNat (f.length + 2))
      (c := f.method) (d := f.txid) (p := f.data.bytes.take f.length)
      (by rw [hp]; exact hout)
    rw [hp] at h
    rw [be16, h, Message.image, be16, Frame.message, hp]
    rfl

/-! ## `deserialize_frame` -/

/-- The frame after the header fields were read. -/
def withHeader (inData : Bytes) (out : Frame) : Frame :=
  { out with
    method := byteAt inData 2
    txid := byteAt inData 3
    length := sizeT ((ofBe16 inData : Int) - 2) }

/-- The accesses of `deserialize_frame` up to the allocation of the body. -/
def headerReads (n : Nat) : List Access :=
  [⟨.input, some n, 3, 1⟩, ⟨.input, some n, 2, 1⟩, ⟨.input, some n, 0, 2⟩]

/-- The accesses of the copy of the payload and of the terminator. -/
def bodyStores (n left : Nat) (out : Frame) : List Access :=
  [⟨.body, out.data.size, (left : Int) - 2, 1⟩, ⟨.body, out.data.size, 0, (left : Int) - 2⟩,
    ⟨.input, some n, 4, (left : Int) - 2⟩]

theorem length_withHeader_eq_zero {inData : Bytes} (out : Frame) :
    (withHeader inData out).length = 0 ↔ ofBe16 inData = 2 := by
  have := ofBe16_lt inData
  simp only [withHeader, sizeT]
  omega

theorem length_withHeader {inData : Bytes} (h : 2 ≤ ofBe16 inData) (out : Frame) :
    (withHeader inData out).length = ofBe16 inData - 2 := by
  have := ofBe16_lt inData
  simp only [withHeader]
  rw [sizeT_of_nonneg (by omega) (by omega)]
  omega

section Deserialize

variable {e : Env} {site : Site} {inData : Bytes} {inLength : Nat} {out : Frame} {m : Mem}

theorem run_storeBody (left : Nat) :
    (storeBody inData inLength left out).run m =
      ((0, { out with
          data := (out.data.store 0 ((inData.drop 4).take (left - 2))).store (left - 2) [0] }),
        { m with log := bodyStores inLength left out ++ m.log }) := by
  simp only [storeBody, Prog.run_bind, run_touch, Prog.run_pure, bodyStores, List.cons_append,
    List.nil_append]

/-- The two size checks. -/
theorem run_deserializeFrame_reject
    (h : inLength < ofBe16 inData + 3 ∨ maxFrameLeft < ofBe16 inData) :
    (deserializeFrame e site inData inLength out).run m =
      ((-1, out), { m with log := ⟨.input, some inLength, 0, 2⟩ :: m.log }) := by
  simp only [deserializeFrame, Prog.run_bind, run_touch, Prog.run_ite, Prog.run_pure]
  split
  · rfl
  · rw [if_pos (by omega)]

/-- A frame without a body. -/
theorem run_deserializeFrame_empty (hlen : ofBe16 inData + 3 ≤ inLength)
    (hleft : ofBe16 inData = 2) :
    (deserializeFrame e site inData inLength out).run m =
      ((0, { withHeader inData out with
          dataFlag := .static
          data := (out.data.store 0 []).store 0 [0] }),
        { m with log := bodyStores inLength 2 out ++ headerReads inLength ++ m.log }) := by
  have hshort : ¬ inLength < 2 + ofBe16 inData + 1 := by omega
  have hbig : ¬ ofBe16 inData > maxFrameLeft := by rw [hleft]; decide
  have hzero : sizeT ((ofBe16 inData : Int) - 2) = 0 := by rw [hleft]; rfl
  simp only [deserializeFrame, Prog.run_bind, run_touch, if_neg hshort, if_neg hbig, hzero, if_true,
    run_storeBody, withHeader]
  simp [hleft, bodyStores, headerReads]

/-- The body is not granted. -/
theorem run_deserializeFrame_refused (hlen : ofBe16 inData + 3 ≤ inLength)
    (hmax : ofBe16 inData ≤ maxFrameLeft) (hleft : ofBe16 inData ≠ 2)
    (hg : e.grant m.heap.next (.body site) ((ofBe16 inData : Int) - 2) = false) :
    (deserializeFrame e site inData inLength out).run m =
      ((-1, { withHeader inData out with dataFlag := .dyn, data := .null }),
        { heap := m.heap.refuse, log := headerReads inLength ++ m.log }) := by
  have hshort : ¬ inLength < 2 + ofBe16 inData + 1 := by omega
  have hzero : ¬ sizeT ((ofBe16 inData : Int) - 2) = 0 :=
    mt (length_withHeader_eq_zero out).mp hleft
  simp only [deserializeFrame, Prog.run_bind, run_touch, if_neg hshort, if_neg (Nat.not_lt.mpr hmax),
    hzero, if_false, run_espushMalloc, hg, Bool.false_eq_true, Prog.run_pure]
  rfl

/-- The body is granted: the payload is stored in it, and the terminator behind
the payload does not change it. -/
theorem run_deserializeFrame_body (hlen : ofBe16 inData + 3 ≤ inLength)
    (hin : ofBe16 inData + 2 ≤ inData.length) (hmax : ofBe16 inData ≤ maxFrameLeft)
    (hleft : 2 < ofBe16 inData)
    (hg : e.grant m.heap.next (.body site) ((ofBe16 inData : Int) - 2) = true) :
    (deserializeFrame e site inData inLength out).run m =
      ((0, { withHeader inData out with
          dataFlag := .dyn
          data := .dyn ⟨m.heap.next, (inData.drop 4).take (ofBe16 inData - 2)⟩ }),
        { heap := m.heap.acquire (.body site)
          log := bodyStores inLength (ofBe16 inData)
              { out with data := .dyn ⟨m.heap.next, (inData.drop 4).take (ofBe16 inData - 2)⟩ } ++
            headerReads inLength ++ m.log }) := by
  have hshort : ¬ inLength < 2 + ofBe16 inData + 1 := by omega
  have hzero : ¬ sizeT ((ofBe16 inData : Int) - 2) = 0 :=
    mt (length_withHeader_eq_zero out).mp (by omega)
  have hpay : ((inData.drop 4).take (ofBe16 inData - 2)).length = ofBe16 inData - 2 := by
    rw [List.length_take, List.length_drop]
    omega
  have hsize : (freshBlock e m.heap.next ((ofBe16 inData : Int) - 2)).bytes.length =
      ofBe16 inData - 2 := by
    rw [length_freshBlock]
    omega
  have hstore : ((freshBlock e m.heap.next ((ofBe16 inData : Int) - 2)).store 0
      ((inData.drop 4).take (ofBe16 inData - 2))).store (ofBe16 inData - 2) [0] =
      ⟨m.heap.next, (inData.drop 4).take (ofBe16 inData - 2)⟩ := by
    rw [Block.store_full (by rw [hpay, hsize]), Block.store_past _ (Nat.le_of_eq hpay)]
    rfl
  simp only [deserializeFrame, Prog.run_bind, run_touch, if_neg hshort, if_neg (Nat.not_lt.mpr hmax),
    hzero, if_false, run_espushMalloc, hg, if_true, run_storeBody, Data.store, hstore]
  simp only [bodyStores, Data.size, hsize, hpay, withHeader, headerReads, List.cons_append,
    List.nil_append]

variable (e site inData inLength out m) in
/-- The ways a call of `deserialize_frame` ends. -/
inductive DeserializeResult : (Int × Frame) × Mem → Prop
  | reject (log : List Access) :
      inLength < ofBe16 inData + 3 ∨ maxFrameLeft < ofBe16 inData →
      DeserializeResult ((-1, out), ⟨m.heap, log⟩)
  | refused (log : List Access) :
      ofBe16 inData + 3 ≤ inLength → ofBe16 inData ≤ maxFrameLeft → ofBe16 inData ≠ 2 →
      e.grant m.heap.next (.body site) ((ofBe16 inData : Int) - 2) = false →
      DeserializeResult
        ((-1, { withHeader inData out with dataFlag := .dyn, data := .null }), ⟨m.heap.refuse, log⟩)
  | empty (log : List Access) :
      ofBe16 inData + 3 ≤ inLength → ofBe16 inData = 2 →
      DeserializeResult
        ((0, { withHeader inData out with
            dataFlag := .static
            data := (out.data.store 0 []).store 0 [0] }), ⟨m.heap, log⟩)
  | body (log : List Access) :
      ofBe16 inData + 3 ≤ inLength → ofBe16 inData ≤ maxFrameLeft → 2 < ofBe16 inData →
      e.grant m.heap.next (.body site) ((ofBe16 inData : Int) - 2) = true →
      DeserializeResult
        ((0, { withHeader inData out with
            dataFlag := .dyn
            data := .dyn ⟨m.heap.next, (inData.drop 4).take (ofBe16 inData - 2)⟩ }),
          ⟨m.heap.acquire (.body site), log⟩)

variable (e site inData inLength out m) in
theorem deserializeFrame_result (hin : inLength ≤ inData.length + 1) :
    DeserializeResult e site inData inLength out m
      ((deserializeFrame e site inData inLength out).run m) := by
  by_cases hrej : inLength < ofBe16 inData + 3 ∨ maxFrameLeft < ofBe16 inData
  · rw [run_deserializeFrame_reject hrej]
    exact .reject _ hrej
  · obtain ⟨hlen, hmax⟩ : ofBe16 inData + 3 ≤ inLength ∧ ofBe16 inData ≤ maxFrameLeft := by omega
    by_cases htwo : ofBe16 inData = 2
    · rw [run_deserializeFrame_empty hlen htwo]
      exact .empty _ hlen htwo
    · cases hg : e.grant m.heap.next (.body site) ((ofBe16 inData : Int) - 2) with
      | false =>
        rw [run_deserializeFrame_refused hlen hmax htwo hg]
        exact .refused _ hlen hmax htwo hg
      | true =>
        -- a length below 2 would make the request negative
        have hleft : 2 < ofBe16 inData := by
          have hsize := Env.nonneg_of_grant hg
          omega
        rw [run_deserializeFrame_body hlen (by omega) hmax hleft hg]
        exact .body _ hlen hmax hleft hg

end Deserialize

/-- The inputs on which `deserialize_frame` returns 0. -/
def Accepted (e : Env) (site : Site) (next : Nat) (inData : Bytes) (inLength : Nat) : Prop :=
  2 ≤ ofBe16 inData ∧ ofBe16 inData ≤ maxFrameLeft ∧ ofBe16 inData + 3 ≤ inLength ∧
    (ofBe16 inData = 2 ∨ e.grant next (.body site) ((ofBe16 inData : Int) - 2) = true)

instance (e : Env) (site : Site) (next : Nat) (inData : Bytes) (inLength : Nat) :
    Decidable (Accepted e site next inData inLength) :=
  inferInstanceAs (Decidable (_ ∧ _ ∧ _ ∧ (_ ∨ _)))

namespace CodecLemmas

theorem byteAt_take {bs : Bytes} {n i : Nat} (h : i < n) : byteAt (bs.take n) i = byteAt bs i := by
  simp [byteAt, h]

theorem decode_take {inData : Bytes} (h : 2 ≤ ofBe16 inData) :
    decode (inData.take (ofBe16 inData + 2)) =
      ⟨byteAt inData 2, byteAt inData 3, (inData.drop 4).take (ofBe16 inData - 2)⟩ := by
  have hlen : ofBe16 inData + 2 - 4 = ofBe16 inData - 2 := by omega
  rw [decode, byteAt_take (by omega), byteAt_take (by omega), List.drop_take, hlen]

/-- The first `2 + left` bytes are a frame when `left` is at least 2 and they are there. -/
theorem isFrame_take {inData : Bytes} (h : 2 ≤ ofBe16 inData)
    (hin : ofBe16 inData + 2 ≤ inData.length) :
    frameFormat.IsFrame (inData.take (ofBe16 inData + 2)) := by
  have hlen : (inData.take (ofBe16 inData + 2)).length = ofBe16 inData + 2 := by
    rw [List.length_take]
    omega
  rw [isFrame_iff, hlen, ofBe16_take (by omega)]
  exact ⟨by omega, rfl⟩

end CodecLemmas

open CodecLemmas

/-- The return code is 0 on the accepted inputs and -1 on the others. -/
theorem deserializeFrame_rc {e : Env} {site : Site} {inData : Bytes} {inLength : Nat} {out : Frame}
    {m : Mem} (hin : inLength ≤ inData.length + 1) :
    ((deserializeFrame e site inData inLength out).run m).1.1 =
      if Accepted e site m.heap.next inData inLength then 0 else -1 := by
  have h := deserializeFrame_result e site inData inLength out m hin
  generalize (deserializeFrame e site inData inLength out).run m = r at h
  cases h with
  | reject _ hrej =>
    have hna : ¬ Accepted e site m.heap.next inData inLength := fun ha => by
      have := ha.2.1
      have := ha.2.2.1
      omega
    rw [if_neg hna]
  | refused _ _ _ htwo hg =>
    have hna : ¬ Accepted e site m.heap.next inData inLength := fun ha => by
      rcases ha.2.2.2 with h2 | h2
      · exact htwo h2
      · rw [hg] at h2
        cases h2
    rw [if_neg hna]
  | empty _ hlen htwo =>
    rw [if_pos ⟨by omega, by rw [htwo]; decide, hlen, .inl htwo⟩]
  | body _ hlen hmax hleft hg =>
    rw [if_pos ⟨by omega, hmax, hlen, .inr hg⟩]

theorem deserializeFrame_ok_iff {e : Env} {site : Site} {inData : Bytes} {inLength : Nat}
    {out : Frame} {m : Mem} (hin : inLength ≤ inData.length + 1) :
    ((deserializeFrame e site inData inLength out).run m).1.1 = 0 ↔
      Accepted e site m.heap.next inData inLength := by
  rw [deserializeFrame_rc hin]
  split
  next h => exact ⟨fun _ => h, fun _ => rfl⟩
  next h => exact ⟨fun hc => absurd hc (by decide), fun ha => absurd ha h⟩

/-- On success the frame has the value of the first `2 + left` bytes. -/
theorem deserializeFrame_message (e : Env) (site : Site) (inData : Bytes) (inLength : Nat)
    (out : Frame) (m : Mem) (hin : inLength ≤ inData.length + 1)
    (hok : ((deserializeFrame e site inData inLength out).run m).1.1 = 0) :
    ((deserializeFrame e site inData inLength out).run m).1.2.message =
        decode (inData.take (ofBe16 inData + 2)) ∧
      ((deserializeFrame e site inData inLength out).run m).1.2.length = ofBe16 inData - 2 ∧
      ofBe16 inData - 2 ≤
        ((deserializeFrame e site inData inLength out).run m).1.2.data.bytes.length := by
  have h := deserializeFrame_result e site inData inLength out m hin
  generalize (deserializeFrame e site inData inLength out).run m = r at h hok
  cases h with
  | reject => cases hok
  | refused => cases hok
  | empty _ _ htwo =>
    have hlen : (withHeader inData out).length = ofBe16 inData - 2 :=
      length_withHeader (by omega) out
    refine ⟨?_, hlen, by omega⟩
    rw [decode_take (by omega)]
    simp only [Frame.message, hlen, htwo]
    simp [withHeader]
  | body _ hlen3 hmax hleft =>
    have hlen : (withHeader inData out).length = ofBe16 inData - 2 :=
      length_withHeader (by omega) out
    refine ⟨?_, hlen, ?_⟩
    · rw [decode_take (by omega)]
      simp only [Frame.message, Data.bytes, hlen, List.take_take, Nat.min_self]
      rfl
    · simp only [Data.bytes, List.length_take, List.length_drop]
      omega

/-! ## The round trip -/

/-- Serializing a frame of at most `MAX_FRAME_LEFT` bytes in all stores its image
and nothing else, with a header that is not cut off. Deserializing these bytes,
with at least one more behind them, gives the frame back, or -1 when the body is
not granted. Conversely, what `deserialize_frame` accepts is within the size
limits and is the image of the result. -/
theorem codec_round_trip (e : Env) (site : Site) (m : Mem) :
    (∀ (f : Frame) (out : Block), f.length ≤ f.data.bytes.length →
      4 + f.length ≤ maxFrameLeft → f.length + 4 ≤ out.bytes.length →
      let s := (serializeFrame f out).run m
      s.1.1 = f.length + 4 ∧
      s.1.2.bytes = f.message.image ++ out.bytes.drop (f.length + 4) ∧
      f.message.image.length = f.length + 4 ∧
      ofBe16 s.1.2.bytes = f.length + 2 ∧
      ∀ (spare : Bytes) (g : Frame) (m' : Mem), spare ≠ [] →
        let inData := s.1.2.bytes.take (f.length + 4) ++ spare
        let d := (deserializeFrame e site inData inData.length g).run m'
        if f.length = 0 ∨ e.grant m'.heap.next (.body site) f.length = true then
          d.1.1 = 0 ∧ d.1.2.message = f.message ∧ d.1.2.length = f.length
        else d.1.1 = -1) ∧
    (∀ (inData : Bytes) (inLength : Nat) (g : Frame), inLength ≤ inData.length →
      let d := (deserializeFrame e site inData inLength g).run m
      d.1.1 = 0 →
      2 ≤ ofBe16 inData ∧ ofBe16 inData ≤ maxFrameLeft ∧ ofBe16 inData + 3 ≤ inLength ∧
      ∀ out : Block, ofBe16 inData + 2 ≤ out.bytes.length →
        let s := (serializeFrame d.1.2 out).run m
        s.1.1 = ofBe16 inData + 2 ∧
        s.1.2.bytes.take (ofBe16 inData + 2) = inData.take (ofBe16 inData + 2)) := by
  constructor
  · intro f out hdata hmax hout s
    simp only [maxFrameLeft] at hmax
    obtain ⟨hrc, hbytes⟩ := serializeFrame_stores _ _ m (by omega) hdata hout
    have hpay : f.message.payload.length = f.length := by
      rw [Frame.message, List.length_take, Nat.min_eq_left hdata]
    have hlen : f.message.image.length = f.length + 4 := by rw [length_image, hpay]
    have hbe : ofBe16 f.message.image = f.length + 2 := by rw [ofBe16_image (by omega), hpay]
    have htake : s.1.2.bytes.take (f.length + 4) = f.message.image := by
      rw [hbytes, ← hlen, List.take_left' rfl]
    refine ⟨hrc, hbytes, hlen, by rw [hbytes, ofBe16_append _ (by omega), hbe], ?_⟩
    intro spare g m' hspare inData d
    have hin : inData = f.message.image ++ spare := by rw [← htake]
    have hleft : ofBe16 inData = f.length + 2 := by rw [hin, ofBe16_append _ (by omega), hbe]
    have hspare' := List.length_pos_iff.mpr hspare
    have hinlen : f.length + 5 ≤ inData.length := by
      rw [hin, List.length_append, hlen]
      omega
    have hrc' : d.1.1 = if Accepted e site m'.heap.next inData inData.length then 0 else -1 :=
      deserializeFrame_rc (Nat.le_succ _)
    have hsize : (ofBe16 inData : Int) - 2 = f.length := by omega
    have hacc : Accepted e site m'.heap.next inData inData.length ↔
        (f.length = 0 ∨ e.grant m'.heap.next (.body site) f.length = true) := by
      rw [Accepted, hsize, hleft]
      simp only [maxFrameLeft]
      constructor
      · rintro ⟨_, _, _, h | h⟩
        · exact .inl (by omega)
        · exact .inr h
      · rintro (h | h)
        · exact ⟨by omega, by omega, by omega, .inl (by omega)⟩
        · exact ⟨by omega, by omega, by omega, .inr h⟩
    split
    next h =>
      rw [if_pos (hacc.mpr h)] at hrc'
      obtain ⟨hmsg, hlen', _⟩ := deserializeFrame_message _ _ _ _ _ _ (Nat.le_succ _) hrc'
      refine ⟨hrc', ?_, by rw [hlen', hleft]; omega⟩
      rw [hmsg, hleft, hin, ← hlen, List.take_left' rfl, decode_image]
    next h => rw [hrc', if_neg (mt hacc.mp h)]
  · intro inData inLength g hin d hok
    have hacc : Accepted e site m.heap.next inData inLength :=
      (deserializeFrame_ok_iff (Nat.le_succ_of_le hin)).mp hok
    obtain ⟨htwo, hmax, hlen, _⟩ := hacc
    refine ⟨htwo, hmax, hlen, ?_⟩
    intro out hout s
    obtain ⟨hmsg, hlen', hdata⟩ := deserializeFrame_message _ _ _ _ _ _ (Nat.le_succ_of_le hin) hok
    simp only [maxFrameLeft] at hmax
    have hfr : frameFormat.IsFrame (inData.take (ofBe16 inData + 2)) :=
      isFrame_take htwo (by omega)
    obtain ⟨hrc, hbytes⟩ := serializeFrame_stores d.1.2 out m
      (by rw [hlen']; omega) (by rw [hlen']; exact hdata) (by rw [hlen']; omega)
    have himg : d.1.2.message.image = inData.take (ofBe16 inData + 2) := by
      rw [hmsg, image_decode hfr]
    have hilen : (inData.take (ofBe16 inData + 2)).length = ofBe16 inData + 2 := by
      rw [List.length_take]
      omega
    refine ⟨by rw [hrc, hlen']; omega, ?_⟩
    rw [hbytes, himg, List.take_append_of_le_length (by omega), List.take_take, Nat.min_self]

/-- A frame as it is before anything was received into it. -/
def Frame.fresh : Frame := ⟨0, 0, 0, .static, .null, 0⟩

/-- A probe frame with a two-byte body. -/
def probeFrame : Frame :=
  { Frame.fresh with method := 0x85, txid := 7, data := .static [1, 2], length := 2 }

theorem codec_round_trip_probe :
    ((serializeFrame probeFrame ⟨1, [0, 0, 0, 0, 0, 0]⟩).run Mem.empty).1.1 = 6 ∧
      ((deserializeFrame Env.benign .message [0, 4, 0x85, 7, 1, 2, 9] 7 .fresh).run
        Mem.empty).1.2.message = probeFrame.message ∧
      ofBe16 [0, 4, 0x85, 7, 1, 2, 9] + 3 ≤ 7 := by
  have h := codec_round_trip Env.benign .message Mem.empty
  have hs := h.1 probeFrame ⟨1, [0, 0, 0, 0, 0, 0]⟩ (by decide) (by decide) (by decide)
  have hd := hs.2.2.2.2 [9] .fresh Mem.empty (by decide)
  have hin : ((serializeFrame probeFrame ⟨1, [0, 0, 0, 0, 0, 0]⟩).run Mem.empty).1.2.bytes =
      [0, 4, 0x85, 7, 1, 2] := by decide
  have hg : Env.benign.grant Mem.empty.heap.next (.body .message) probeFrame.length = true := by
    decide
  rw [if_pos (.inr hg), hin] at hd
  have hok : ((deserializeFrame Env.benign .message [0, 4, 0x85, 7, 1, 2, 9] 7 .fresh).run
      Mem.empty).1.1 = 0 :=
    (deserializeFrame_ok_iff (by decide)).mpr (by decide)
  exact ⟨hs.1, hd.2.1, (h.2 _ 7 .fresh (by decide) hok).2.2.1⟩
end EspushW60x

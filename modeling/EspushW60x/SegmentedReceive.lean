import EspushW60x.Stream

/-!
# Receiving a frame in pieces

`recv_frame` calls `recv` once for the head and once for the body. TCP keeps the
order of the bytes but not the pieces in which they were sent, so one call may find
less than it asks for.

Results:
* `nextDelivery_conserves`: a `recv` neither loses nor repeats a byte;
* `recvFrame_received`: what `recv_frame` makes of the bytes when both calls find
  all they ask for;
* `recvDelivered_iff`: the segmentations on which they do;
* `recv_frame_segmented`: on these, and on no others, `recv_frame` receives the frame.
-/

namespace EspushW60x

open Lib CodecLemmas

/-! ## The bytes on the socket -/

/-- The bytes that are still to be received. -/
def arriving : List Delivery → Bytes
  | [] => []
  | .segment bs :: rest => bs ++ arriving rest
  | .error _ :: rest => arriving rest

/-- `recv_frame` received the frame `m`, and the bytes `rest` behind it are still on
the socket. -/
structure ReceivesFrame (m : Message) (rest : Bytes) (r : (Int × Frame) × World) : Prop where
  rc : r.1.1 = 0
  message : r.1.2.message = m
  length : r.1.2.length = m.payload.length
  remaining : arriving r.2.inbox = rest

/-- The first segment has all `n` bytes of the frame, or it has the 4 bytes of the
head and the second segment has the others. -/
def ArrivesInTwo (n : Nat) : List Bytes → Prop
  | [] => False
  | [s] => n ≤ s.length
  | s :: t :: _ => n ≤ s.length ∨ s.length = 4 ∧ n ≤ 4 + t.length

instance (n : Nat) (segs : List Bytes) : Decidable (ArrivesInTwo n segs) := by
  unfold ArrivesInTwo
  split <;> infer_instance

namespace SegmentedReceiveLemmas

theorem arriving_deliveries (segs : List Bytes) : arriving (deliveries segs) = segs.flatten := by
  induction segs with
  | nil => rfl
  | cons s rest ih =>
    show s ++ arriving (deliveries rest) = s ++ rest.flatten
    rw [ih]

/-- A `recv` takes its bytes from the front of what is to be received. -/
theorem nextDelivery_conserves (len : Int) (inbox : List Delivery) :
    (nextDelivery len inbox).2.1 ++ arriving (nextDelivery len inbox).2.2 = arriving inbox := by
  cases inbox with
  | nil => rfl
  | cons d rest =>
    cases d with
    | error n => rfl
    | segment bs =>
      have hcut : (if len < 0 then bs else bs.take len.toNat) ++
          bs.drop (if len < 0 then bs else bs.take len.toNat).length = bs := by
        split
        · rw [List.drop_length, List.append_nil]
        · rw [List.length_take, ← List.drop_eq_drop_min, List.take_append_drop]
      have hrest : ∀ left : Bytes, arriving (if left = [] then rest else .segment left :: rest) =
          left ++ arriving rest := by
        intro left
        split
        · next h => rw [h, List.nil_append]
        · rfl
      show (if len < 0 then bs else bs.take len.toNat) ++ arriving (if _ = [] then rest else _) = _
      rw [hrest, ← List.append_assoc, hcut]
      rfl

/-- What a `recv` for `n` bytes finds in the next segment. -/
theorem nextDelivery_segment (n : Nat) (s : Bytes) (rest : List Bytes) :
    (nextDelivery n (deliveries (s :: rest))).1 = (min n s.length : Nat) ∧
      (nextDelivery n (deliveries (s :: rest))).2.1 = s.take n ∧
      (nextDelivery n (deliveries (s :: rest))).2.2 =
        if s.length ≤ n then deliveries rest else deliveries (s.drop n :: rest) := by
  have hnat : ¬ (n : Int) < 0 := by omega
  simp only [deliveries, List.map_cons, nextDelivery, if_neg hnat, Int.toNat_natCast,
    List.length_take, ← List.drop_eq_drop_min, List.drop_eq_nil_iff]
  exact ⟨trivial, trivial, trivial⟩

/-- The scratch block has the bytes of both calls of `recv` at its head. -/
theorem take_recvBuf {e : Env} {w : World} (h : RecvDelivered e w) (htwo : 2 ≤ recvLeft w) :
    (recvBuf e w).bytes.take (recvLeft w + 2) = (recvHead w).2.1 ++ (recvBody w).2.1 := by
  have hhead := length_recvHead h.1
  have hbody : (recvBody w).2.1.length = recvLeft w - 2 := by
    have hrc := nextDelivery_rc ((recvLeft w : Int) - 2) (recvHead w).2.2
    have hfound := h.2.2
    rw [recvBody] at hfound ⊢
    rw [hrc, hfound]
    omega
  have hfull : (patch (patch (freshBlock e w.mem.heap.next (recvLeft w + 2 + 1 : Nat)).bytes 0
      (recvHead w).2.1) (recvHead w).2.1.length (recvBody w).2.1).take
        ((recvHead w).2.1.length + (recvBody w).2.1.length) = (recvHead w).2.1 ++ (recvBody w).2.1 :=
    take_patch_patch (by rw [length_freshBlock]; omega)
  have hend : 4 + (recvLeft w - 2) = recvLeft w + 2 := by omega
  rw [hhead, hbody, hend] at hfull
  exact hfull

section Runs

variable {e : Env} {site : Site} {f : Frame} {w : World}

variable (site f) in
/-- `recv_frame` once both calls of `recv` found all they asked for. -/
theorem recvFrame_received (h : RecvDelivered e w) (hlt : 2 < recvLeft w)
    (hmax : recvLeft w ≤ maxFrameLeft)
    (hg : e.grant (w.mem.heap.next + 1) (.body site) ((recvLeft w : Int) - 2) = true) :
    ((recvFrame e site f).run w).1.1 = 0 ∧
      ((recvFrame e site f).run w).1.2.message = decode ((recvHead w).2.1 ++ (recvBody w).2.1) ∧
      ((recvFrame e site f).run w).1.2.length = recvLeft w - 2 ∧
      ((recvFrame e site f).run w).2.inbox = (recvBody w).2.2 := by
  have hleft := ofBe16_recvBuf (e := e) h.1
  have hres := recvFrame_result e site f w
  generalize (recvFrame e site f).run w = r at hres
  cases hres with
  | short _ _ _ hno => exact absurd ⟨h, hmax⟩ hno
  | refused _ _ _ _ _ hrefused =>
    rw [hg] at hrefused
    cases hrefused
  | empty _ _ htwo => exact absurd htwo (Nat.ne_of_gt hlt)
  | body _ _ _ _ _ =>
    have hlen : (withHeader (recvBuf e w).bytes f).length = recvLeft w - 2 := by
      rw [length_withHeader (by rw [hleft]; omega), hleft]
    refine ⟨rfl, ?_, by simp only [hlen], rfl⟩
    rw [← take_recvBuf h (by omega), ← hleft, decode_take (by omega), hleft]
    simp only [Frame.message, Data.bytes, hlen, List.take_take, Nat.min_self]
    simp only [withHeader]

/-- `recv_frame` returns 0 only then. -/
theorem recvDelivered_of_rc (h : ((recvFrame e site f).run w).1.1 = 0) : RecvDelivered e w := by
  have hres := recvFrame_result e site f w
  generalize (recvFrame e site f).run w = r at h hres
  cases hres with
  | short => cases h
  | refused => cases h
  | empty _ hdel => exact hdel
  | body _ hdel => exact hdel

end Runs

/-! ## A frame on the socket -/

section Stream

variable {e : Env} {w : World} {m : Message} {rest : Bytes} {segs : List Bytes}

theorem recvHead_segments (hw : w.inbox = deliveries segs) :
    (recvHead w).1 = 4 ↔ ∃ s more, segs = s :: more ∧ 4 ≤ s.length := by
  rw [recvHead, hw]
  cases segs with
  | nil =>
    constructor
    · exact fun h => by cases h
    · rintro ⟨s, more, hs, _⟩
      cases hs
  | cons s more =>
    have hrc := (nextDelivery_segment 4 s more).1
    constructor
    · intro h
      rw [show ((4 : Nat) : Int) = 4 from rfl] at hrc
      exact ⟨s, more, rfl, by omega⟩
    · rintro ⟨s', more', hs, hlen⟩
      cases hs
      rw [show ((4 : Nat) : Int) = 4 from rfl] at hrc
      omega

/-- The header of the frame that the stream starts with. -/
theorem recvLeft_stream (h : (recvHead w).1 = 4) (hw : arriving w.inbox = m.image ++ rest)
    (hlen : m.payload.length + 2 < 65536) : recvLeft w = m.payload.length + 2 := by
  have hcons := nextDelivery_conserves 4 w.inbox
  have hhead := length_recvHead h
  rw [recvHead] at hhead
  have hstart : ofBe16 (arriving w.inbox) = recvLeft w := by
    rw [← hcons, ofBe16_append _ (by omega)]
    rfl
  rw [← hstart, hw, ofBe16_append _ (by rw [length_image]; omega), ofBe16_image hlen]

/-- What both calls of `recv` found is the frame. -/
theorem received_image (h : RecvDelivered e w) (hw : arriving w.inbox = m.image ++ rest)
    (hlen : m.payload.length + 2 < 65536) :
    (recvHead w).2.1 ++ (recvBody w).2.1 = m.image ∧ arriving (recvBody w).2.2 = rest := by
  have hleft := recvLeft_stream h.1 hw hlen
  have hhead := length_recvHead h.1
  have hbody : (recvBody w).2.1.length = m.payload.length := by
    have hrc := nextDelivery_rc ((recvLeft w : Int) - 2) (recvHead w).2.2
    have hfound := h.2.2
    rw [recvBody] at hfound ⊢
    rw [hrc, hfound, hleft]
    omega
  have hfirst := nextDelivery_conserves 4 w.inbox
  have hsecond := nextDelivery_conserves ((recvLeft w : Int) - 2) (recvHead w).2.2
  have hall : ((recvHead w).2.1 ++ (recvBody w).2.1) ++ arriving (recvBody w).2.2 =
      m.image ++ rest := by
    rw [← hw, ← hfirst, List.append_assoc]
    exact congrArg ((recvHead w).2.1 ++ ·) hsecond
  exact List.append_inj hall (by rw [List.length_append, length_image]; omega)

/-- The frame is received once both calls of `recv` found all they asked for. -/
theorem receivesFrame_of_delivered {site : Site} {f : Frame} (he : e.GrantsAll)
    (h : RecvDelivered e w) (hw : arriving w.inbox = m.image ++ rest) (hpos : 1 ≤ m.payload.length)
    (hmax : m.payload.length + 2 ≤ maxFrameLeft) :
    ReceivesFrame m rest ((recvFrame e site f).run w) := by
  have hlt : m.payload.length + 2 < 65536 := Nat.lt_of_le_of_lt hmax (by decide)
  have hleft := recvLeft_stream h.1 hw hlt
  obtain ⟨himage, hrest⟩ := received_image h hw hlt
  obtain ⟨hrc, hmsg, hlength, hinbox⟩ := recvFrame_received site f h
    (by omega) (by omega) (he _ _ _ (by omega))
  exact
    { rc := hrc
      message := by rw [hmsg, himage, decode_image]
      length := by rw [hlength, hleft]; rfl
      remaining := by rw [hinbox]; exact hrest }

/-- The segmentations on which both calls of `recv` find all they ask for. -/
theorem recvDelivered_iff (he : e.GrantsAll) (hw : w.inbox = deliveries segs)
    (hstream : segs.flatten = m.image ++ rest) (hpos : 1 ≤ m.payload.length)
    (hlen : m.payload.length + 2 < 65536) :
    RecvDelivered e w ↔ ArrivesInTwo m.image.length segs := by
  have harriving : arriving w.inbox = m.image ++ rest := by
    rw [hw, arriving_deliveries, hstream]
  have hhead := recvHead_segments hw
  rw [length_image]
  cases segs with
  | nil =>
    refine iff_of_false (fun h => ?_) id
    obtain ⟨s, more, hs, _⟩ := hhead.mp h.1
    cases hs
  | cons s more =>
    by_cases hs : 4 ≤ s.length
    · have h4 := hhead.mpr ⟨s, more, rfl, hs⟩
      have hleft := recvLeft_stream h4 harriving hlen
      have hask : (recvLeft w : Int) - 2 = (m.payload.length : Nat) := by omega
      have hdel : RecvDelivered e w ↔
          (nextDelivery (m.payload.length : Nat) (recvHead w).2.2).1 = (m.payload.length : Nat) := by
        rw [RecvDelivered, recvBody, hask, and_iff_right h4, and_iff_right (he _ _ _ (by omega))]
      rw [hdel, recvHead, hw, show (4 : Int) = (4 : Nat) from rfl, (nextDelivery_segment 4 s more).2.2]
      by_cases hfour : s.length ≤ 4
      · rw [if_pos hfour]
        cases more with
        | nil =>
          refine iff_of_false ?_ ?_
          · show ¬ (0 : Int) = _
            omega
          · show ¬ m.payload.length + 4 ≤ s.length
            omega
        | cons t more =>
          rw [(nextDelivery_segment _ t more).1]
          show _ ↔ m.payload.length + 4 ≤ s.length ∨ s.length = 4 ∧ m.payload.length + 4 ≤ 4 + t.length
          omega
      · rw [if_neg hfour, (nextDelivery_segment _ _ more).1, List.length_drop]
        cases more with
        | nil =>
          show _ ↔ m.payload.length + 4 ≤ s.length
          omega
        | cons t more =>
          show _ ↔ m.payload.length + 4 ≤ s.length ∨ s.length = 4 ∧ m.payload.length + 4 ≤ 4 + t.length
          omega
    · refine iff_of_false (fun h => ?_) (fun h => ?_)
      · obtain ⟨s', more', heq, hlen'⟩ := hhead.mp h.1
        cases heq
        exact hs hlen'
      · cases more with
        | nil =>
          have h : m.payload.length + 4 ≤ s.length := h
          omega
        | cons t more =>
          have h : m.payload.length + 4 ≤ s.length ∨
            s.length = 4 ∧ m.payload.length + 4 ≤ 4 + t.length := h
          omega

end Stream

end SegmentedReceiveLemmas

open SegmentedReceiveLemmas

/-- The frame is received exactly when no `recv` finds less than it asks for. -/
theorem recv_frame_segmented (e : Env) (site : Site) (f : Frame) (w : World) (m : Message)
    (rest : Bytes) (segs : List Bytes) (he : e.GrantsAll) (hpos : 1 ≤ m.payload.length)
    (hlen : m.payload.length + 2 ≤ maxFrameLeft) (hw : w.inbox = deliveries segs)
    (hstream : segs.flatten = m.image ++ rest) :
    ReceivesFrame m rest ((recvFrame e site f).run w) ↔ ArrivesInTwo m.image.length segs := by
  have hlt : m.payload.length + 2 < 65536 := Nat.lt_of_le_of_lt hlen (by decide)
  rw [← recvDelivered_iff he hw hstream hpos hlt]
  constructor
  · exact fun h => recvDelivered_of_rc h.rc
  · intro h
    exact receivesFrame_of_delivered he h (by rw [hw, arriving_deliveries, hstream]) hpos hlen

theorem recv_frame_segmented_head_body :
    ReceivesFrame ⟨0x81, 7, [1, 2, 3]⟩ [9]
      ((recvFrame Env.benign .session .fresh).run
        (World.start (deliveries [[0, 5, 0x81, 7], [1, 2, 3, 9]]))) :=
  (recv_frame_segmented Env.benign .session .fresh _ ⟨0x81, 7, [1, 2, 3]⟩ [9] _
    Env.grantsAll_benign (by decide) (by decide) rfl (by decide)).mpr (by decide)

/-- The head arrives in two pieces. -/
theorem recv_frame_head_cut :
    [[0, 5], [0x81, 7, 1, 2, 3]].flatten = (⟨0x81, 7, [1, 2, 3]⟩ : Message).image ++ [] ∧
      ¬ ReceivesFrame ⟨0x81, 7, [1, 2, 3]⟩ []
        ((recvFrame Env.benign .session .fresh).run
          (World.start (deliveries [[0, 5], [0x81, 7, 1, 2, 3]]))) := by
  refine ⟨by decide, fun h => ?_⟩
  have hrc : ((recvFrame Env.benign .session .fresh).run
      (World.start (deliveries [[0, 5], [0x81, 7, 1, 2, 3]]))).1.1 = -1 := by decide +kernel
  rw [h.rc] at hrc
  cases hrc

end EspushW60x

import EspushW60x.SegmentedReceive

/-!
# The two receive paths

A response to the login frame is received by `recv_frame`, every later message by
`async_sock_recv` and `handle_buffer`. Both paths and the sender have a size limit of
their own: `MAX_FRAME_LEFT` against `left`, the receive buffer, and `MAX_FRAME_LEFT`
against the whole frame.

Results:
* `recvFrame_accepts_iff`, `eventLoop_dispatches_iff`, `writeFrame_sends_iff`: the sizes
  that each of the three takes;
* `receive_paths_agree`: the sizes on which they agree.
-/

namespace EspushW60x

open Lib CodecLemmas EventLoopLemmas StreamLemmas SegmentedReceiveLemmas

/-! ## Three ways to take a frame -/

/-- After any number of readable events, until one fails. -/
def afterReads (e : Env) (n : Nat) (buf : Buffer) (w : World) : (Bool × Buffer) × World :=
  (Prog.repeatWhile (sockStep e) n buf).run w

/-- The event loop dispatches a frame. -/
def EventLoopDispatches (e : Env) (buf : Buffer) (w : World) : Prop :=
  ∃ n, (afterReads e n buf w).2.handled ≠ w.handled

/-- `write_frame` sends a frame with the value `m`. -/
def SenderAccepts (e : Env) (w : World) (m : Message) : Prop :=
  ∃ f : Frame, f.message = m ∧ f.length = m.payload.length ∧
    ((writeFrame e f).run w).2.sends = w.sends + 1

/-- The blocking path and the event loop take the same frames, in the same way, and
all that `write_frame` sends. -/
structure PathsAgree (e : Env) (site : Site) (f : Frame) (buf : Buffer) (w : World)
    (m : Message) : Prop where
  same : ((recvFrame e site f).run w).1.1 = 0 ↔ EventLoopDispatches e buf w
  blocking : ((recvFrame e site f).run w).1.1 = 0 →
    ReceivesFrame m [] ((recvFrame e site f).run w)
  eventLoop : ∀ n, (afterReads e n buf w).2.handled ≠ w.handled →
    (afterReads e n buf w).2.handled = w.handled ++ [m] ∧
      (afterReads e n buf w).1.2.contents ++ arriving (afterReads e n buf w).2.inbox = []
  sender : SenderAccepts e w m →
    ((recvFrame e site f).run w).1.1 = 0 ∧ EventLoopDispatches e buf w

namespace ReceivePathsLemmas

/-! ## The blocking path -/

section Blocking

variable {e : Env} {site : Site} {f : Frame} {w : World} {m : Message}

theorem recvDelivered_whole (he : e.GrantsAll) (hw : w.inbox = deliveries [m.image])
    (hpos : 1 ≤ m.payload.length) (hlen : m.payload.length + 2 < 65536) :
    RecvDelivered e w ∧ recvLeft w = m.payload.length + 2 := by
  have hstream : [m.image].flatten = m.image ++ [] := by simp
  have hdel : RecvDelivered e w :=
    (recvDelivered_iff he hw hstream hpos hlen).mpr (Nat.le_refl _)
  have harriving : arriving w.inbox = m.image ++ [] := by
    rw [hw, arriving_deliveries, hstream]
  exact ⟨hdel, recvLeft_stream hdel.1 harriving hlen⟩

variable (site f) in
/-- The sizes that `recv_frame` takes. -/
theorem recvFrame_accepts_iff (he : e.GrantsAll) (hw : w.inbox = deliveries [m.image])
    (hpos : 1 ≤ m.payload.length) (hlen : m.payload.length + 2 < 65536) :
    ((recvFrame e site f).run w).1.1 = 0 ↔ m.payload.length + 2 ≤ maxFrameLeft := by
  obtain ⟨hdel, hleft⟩ := recvDelivered_whole he hw hpos hlen
  constructor
  · intro hrc
    have hres := recvFrame_result e site f w
    generalize (recvFrame e site f).run w = r at hrc hres
    cases hres with
    | short => cases hrc
    | refused => cases hrc
    | empty _ _ htwo =>
      rw [hleft] at htwo
      omega
    | body _ _ hmax =>
      rwa [hleft] at hmax
  · intro hmax
    exact (recvFrame_received site f hdel (by omega) (by omega) (he _ _ _ (by omega))).1

end Blocking

/-! ## The event loop -/

section EventLoop

variable {e : Env} {buf : Buffer} {w : World} {m : Message} {handled : List Message}

/-- Some bytes of the frame are in the buffer, and the others are to be read. -/
structure Reading (m : Message) (handled : List Message) (pending : Bytes) (buf : Buffer)
    (w : World) : Prop where
  cap : buf.cap = maxRecvBufferLength
  pos : pending ≠ []
  inbox : w.inbox = deliveries [pending]
  split : buf.contents ++ pending = m.image
  handled : w.handled = handled

/-- The frame was dispatched. -/
structure Dispatched (m : Message) (handled : List Message) (buf : Buffer) (w : World) : Prop where
  cap : buf.cap = maxRecvBufferLength
  contents : buf.contents = []
  inbox : w.inbox = []
  handled : w.handled = handled ++ [m]
  short : m.image.length < 252

/-- The connection was given up before the frame was complete. -/
structure GivenUp (m : Message) (handled : List Message) (w : World) : Prop where
  handled : w.handled = handled
  long : 252 ≤ m.image.length

theorem arrival_pending {pending : Bytes} (hw : w.inbox = deliveries [pending]) :
    (arrival w).2.1 = pending.take 128 ∧
      (arrival w).2.2 = if pending.length ≤ 128 then [] else deliveries [pending.drop 128] := by
  have h := nextDelivery_segment 128 pending []
  rw [arrival, hw]
  exact ⟨h.2.1, h.2.2⟩

/-- The bytes of a frame received so far have a frame when they are all of it. -/
theorem hasFrame_prefix_iff {c tail : Bytes} (h : c ++ tail = m.image)
    (hlen : m.payload.length + 2 < 65536) : frameFormat.HasFrame c ↔ tail = [] := by
  constructor
  · intro hfr
    have hhead : 4 ≤ c.length := hfr.1
    have hsize : ofBe16 c + 2 ≤ c.length := hfr.2
    have hleft : ofBe16 c = m.payload.length + 2 := by
      rw [← ofBe16_image hlen, ← h, ofBe16_append _ (by omega)]
    have htotal := congrArg List.length h
    rw [List.length_append, length_image] at htotal
    exact List.length_eq_zero_iff.mp (by omega)
  · intro hnil
    rw [hnil, List.append_nil] at h
    rw [h]
    exact ⟨(isFrame_image hlen).1, Nat.le_of_eq (isFrame_image hlen).2⟩

theorem frameLen_image (hlen : m.payload.length + 2 < 65536) : frameLen m.image = m.image.length := by
  rw [frameLen, ofBe16_image hlen, length_image]

/-- One read of the frame. -/
theorem reading_step {pending : Bytes} (he : e.GrantsAll) (hlen : m.payload.length + 2 < 65536)
    (h : Reading m handled pending buf w) :
    (((sockStep e buf).run w).1.1 = true ∧ 128 < pending.length ∧
        Reading m handled (pending.drop 128) ((sockStep e buf).run w).1.2
          ((sockStep e buf).run w).2) ∨
      Dispatched m handled ((sockStep e buf).run w).1.2 ((sockStep e buf).run w).2 ∨
      (((sockStep e buf).run w).1.1 = false ∧ GivenUp m handled ((sockStep e buf).run w).2) := by
  obtain ⟨hbytes, hinbox⟩ := arrival_pending h.inbox
  have hneg : ¬ (0 : Int) ≤ -1 := by decide
  have htotal : buf.len + pending.length = m.image.length := by
    rw [← length_contents, ← List.length_append, h.split]
  have hres := asyncSockRecv_result (e := e) (w := w) h.cap
  rw [run_sockStep]
  generalize (asyncSockRecv e buf).run w = r at hres
  cases hres with
  | closed _ hnil =>
    rw [hbytes, List.take_eq_nil_iff] at hnil
    rcases hnil with hnil | hnil
    · cases hnil
    · exact absurd hnil h.pos
  | overflow _ _ hbig =>
    rw [hbytes, List.length_take] at hbig
    simp only [maxRecvBufferLength] at hbig
    exact .inr (.inr ⟨decide_eq_false hneg, h.handled, by omega⟩)
  | buffered buf1 log r hgot hfit hsame hc hres =>
    have hcap := hsame.2.2.trans h.cap
    rw [hbytes] at hc
    have hall : buf1.contents ++ pending.drop 128 = m.image := by
      rw [hc, List.append_assoc, List.take_append_drop, h.split]
    have hlen1 : buf1.len + (pending.drop 128).length = m.image.length := by
      rw [← length_contents, ← List.length_append, hall]
    -- the frame is whole as soon as nothing of it is pending
    have hframe : frameFormat.HasFrame buf1.contents ↔ pending.length ≤ 128 := by
      rw [hasFrame_prefix_iff hall hlen, List.drop_eq_nil_iff]
    have hwhole : frameFormat.HasFrame buf1.contents → buf1.contents = m.image := by
      intro hfr
      rw [← hall, (hasFrame_prefix_iff hall hlen).mp hfr, List.append_nil]
    cases hres with
    | full hfull => exact .inr (.inr ⟨decide_eq_false hneg, h.handled, by omega⟩)
    | waiting log hlt hno =>
      have hmore : 128 < pending.length := Nat.lt_of_not_le (mt hframe.mpr hno)
      rw [if_neg (Nat.not_le.mpr hmore)] at hinbox
      refine .inl ⟨decide_eq_true (Int.le_refl 0), hmore, hcap, ?_, hinbox, hall, h.handled⟩
      exact fun hnil => Nat.not_le.mpr hmore (List.drop_eq_nil_iff.mp hnil)
    | refused log hlt hfr hg =>
      rw [he _ _ _ (by decide)] at hg
      cases hg
    | malformed heap log hlt hfr hg hdec =>
      have himage := hwhole hfr
      refine absurd ⟨?_, .inr (he _ _ _ ?_)⟩ hdec
      · rw [himage, ofBe16_image hlen]
        omega
      · rw [himage, ofBe16_image hlen]
        omega
    | handled f heap log r hlt hfr hg hdec _ hmsg hf =>
      have himage := hwhole hfr
      obtain ⟨hin, _, hhandled⟩ := HandleFrameResult.frame hf
      rw [if_pos (hframe.mp hfr)] at hinbox
      have hm : f.message = m := by
        rw [hmsg, himage, frameLen_image hlen, List.take_length, decode_image]
      have hnil : (buf1.shrink (frameLen buf1.contents)).contents = [] := by
        rw [contents_shrink, himage, frameLen_image hlen, List.drop_length]
      have hshort : m.image.length < 252 := by
        rw [← himage, length_contents]
        exact hlt
      have hdone : ∀ w' : World, w'.inbox = r.2.inbox → w'.handled = r.2.handled →
          Dispatched m handled (buf1.shrink (frameLen buf1.contents)) w' := by
        intro w' hi hh
        refine ⟨(sameBlock_shrink _ _).2.2.trans hcap, hnil, ?_, ?_, hshort⟩
        · rw [hi, hin, hinbox]
        · rw [hh, hhandled, hm, h.handled]
      right
      left
      split
      · exact hdone _ rfl rfl
      · exact hdone _ rfl rfl

/-- A read after the frame was dispatched finds the socket closed. -/
theorem dispatched_step (h : Dispatched m handled buf w) :
    ((sockStep e buf).run w).1.1 = false ∧
      Dispatched m handled ((sockStep e buf).run w).1.2 ((sockStep e buf).run w).2 := by
  have hnil : (arrival w).2.1 = [] ∧ (arrival w).2.2 = [] := by
    rw [arrival, h.inbox]
    exact ⟨rfl, rfl⟩
  have hres := asyncSockRecv_result (e := e) (w := w) h.cap
  rw [run_sockStep]
  generalize (asyncSockRecv e buf).run w = r at hres
  cases hres with
  | closed => exact ⟨rfl, h.cap, h.contents, hnil.2, h.handled, h.short⟩
  | overflow _ hgot => exact absurd hnil.1 hgot
  | buffered _ _ _ hgot => exact absurd hnil.1 hgot

/-- After any number of reads the frame is being read, was dispatched, or was given up. -/
theorem afterReads_cases {pending : Bytes} (he : e.GrantsAll)
    (hlen : m.payload.length + 2 < 65536) (h : Reading m handled pending buf w) (n : Nat) :
    (afterReads e n buf w).2.handled = handled ∨
      Dispatched m handled (afterReads e n buf w).1.2 (afterReads e n buf w).2 := by
  have hends := Prog.repeatWhile_ends (sockStep e)
    (I := fun buf w => (∃ pending, Reading m handled pending buf w) ∨ Dispatched m handled buf w)
    (J := fun buf w => Dispatched m handled buf w ∨ GivenUp m handled w) ?_ ?_ n (.inl ⟨_, h⟩)
  · rcases hends with (⟨_, hr⟩ | hd) | hd | hg
    · exact .inl hr.handled
    · exact .inr hd
    · exact .inr hd
    · exact .inl hg.handled
  · rintro buf w (⟨pending, hr⟩ | hd) hok
    · rcases reading_step he hlen hr with ⟨_, _, hr'⟩ | hd | ⟨hfail, _⟩
      · exact .inl ⟨_, hr'⟩
      · exact .inr hd
      · rw [hfail] at hok
        cases hok
    · exact .inr (dispatched_step hd).2
  · rintro buf w (⟨pending, hr⟩ | hd) hfail
    · rcases reading_step he hlen hr with ⟨hok, _⟩ | hd | ⟨_, hg⟩
      · rw [hfail] at hok
        cases hok
      · exact .inl hd
      · exact .inr hg
    · exact .inl (dispatched_step hd).2

/-- A frame that leaves room in the buffer is dispatched after the last read. -/
theorem dispatched_of_short (he : e.GrantsAll) (hlen : m.payload.length + 2 < 65536)
    (hshort : m.image.length < 252) {pending : Bytes} (h : Reading m handled pending buf w) :
    ∃ n, (afterReads e n buf w).2.handled = handled ++ [m] := by
  induction hn : pending.length using Nat.strongRecOn generalizing pending buf w with
  | ind k ih =>
    have hone : (afterReads e 1 buf w) = (sockStep e buf).run w := by
      rw [afterReads, Prog.run_repeatWhile_succ]
      split
      next hok =>
        rw [Prog.run_repeatWhile_zero, ← hok]
      next => rfl
    rcases reading_step he hlen h with ⟨hok, hmore, hr⟩ | hd | ⟨_, hg⟩
    · obtain ⟨n, hdone⟩ := ih (pending.drop 128).length
        (by rw [← hn, List.length_drop]; omega) hr rfl
      refine ⟨n + 1, ?_⟩
      rw [afterReads, Prog.run_repeatWhile_succ, if_pos hok]
      exact hdone
    · exact ⟨1, by rw [hone]; exact hd.handled⟩
    · exact absurd hg.long (Nat.not_le.mpr hshort)

theorem reading_start (hbuf : buf.Fresh) (hw : w.inbox = deliveries [m.image]) :
    Reading m w.handled m.image buf w := by
  have hnil : buf.contents = [] := List.length_eq_zero_iff.mp (by rw [length_contents, hbuf.2])
  refine ⟨hbuf.1, ?_, hw, ?_, rfl⟩
  · intro himage
    have hzero := congrArg List.length himage
    rw [length_image] at hzero
    cases hzero
  · rw [hnil, List.nil_append]

/-- The sizes that the event loop takes. -/
theorem eventLoop_dispatches_iff (he : e.GrantsAll) (hbuf : buf.Fresh)
    (hw : w.inbox = deliveries [m.image]) (hlen : m.payload.length + 2 < 65536) :
    EventLoopDispatches e buf w ↔ m.image.length < 252 := by
  have hstart := reading_start hbuf hw
  constructor
  · rintro ⟨n, hn⟩
    rcases afterReads_cases he hlen hstart n with h | h
    · exact absurd h hn
    · exact h.short
  · intro hshort
    obtain ⟨n, hn⟩ := dispatched_of_short he hlen hshort hstart
    refine ⟨n, ?_⟩
    rw [hn]
    exact fun h => List.cons_ne_nil m [] (List.append_right_eq_self.mp h)

end EventLoop

/-! ## The sender -/

/-- The sizes that `write_frame` takes. -/
theorem writeFrame_sends_iff {e : Env} {w : World} {m : Message} (he : e.GrantsAll)
    (hlen : m.payload.length + 2 < 65536) :
    SenderAccepts e w m ↔ m.image.length ≤ maxFrameLeft := by
  rw [length_image]
  constructor
  · rintro ⟨f, -, hlength, hsends⟩
    refine Nat.le_of_not_lt fun hbig => ?_
    have hframe : frameLength f = m.payload.length + 4 := by
      rw [frameLength, intOf_of_lt (by omega), hlength]
      omega
    have htoo : frameLength f > (maxFrameLeft : Int) := by
      rw [hframe]
      omega
    have hrun : (writeFrame e f).run w = (-1, w) := by
      simp only [writeFrame, if_pos htoo, Prog.run_pure]
    rw [hrun] at hsends
    exact Nat.succ_ne_self _ hsends.symm
  · intro hmax
    refine ⟨⟨0, m.method, m.txid, .static, .static m.payload, m.payload.length⟩, ?_, rfl, ?_⟩
    · simp only [Frame.message, Data.bytes, List.take_length]
    · have hres := writeFrame_result (e := e) (w := w)
        (f := ⟨0, m.method, m.txid, .static, .static m.payload, m.payload.length⟩)
        (Nat.le_refl _) hmax
      generalize (writeFrame e ⟨0, m.method, m.txid, .static, .static m.payload,
        m.payload.length⟩).run w = r at hres
      cases hres with
      | refused hg =>
        rw [he _ _ _ (by omega)] at hg
        cases hg
      | sent => rfl

end ReceivePathsLemmas

open ReceivePathsLemmas

/-- The event loop has the smallest limit: frames of 252 to 2050 bytes are received by
`recv_frame` only. -/
theorem receive_paths_agree (e : Env) (site : Site) (f : Frame) (buf : Buffer) (w : World)
    (m : Message) (he : e.GrantsAll) (hbuf : buf.Fresh) (hw : w.inbox = deliveries [m.image])
    (hpos : 1 ≤ m.payload.length) (hlen : m.payload.length + 2 < 65536) :
    PathsAgree e site f buf w m ↔ m.image.length < 252 ∨ maxFrameLeft + 2 < m.image.length := by
  have hblocking := recvFrame_accepts_iff site f he hw hpos hlen
  have hloop := eventLoop_dispatches_iff he hbuf hw hlen
  have hsender := writeFrame_sends_iff (w := w) he hlen
  have hsize := length_image m
  have hmax : maxFrameLeft = 2048 := rfl
  constructor
  · intro h
    have hsame := h.same
    rw [hblocking, hloop] at hsame
    omega
  · intro hcase
    refine ⟨?_, ?_, ?_, ?_⟩
    · rw [hblocking, hloop]
      omega
    · intro hrc
      have hdel := (recvDelivered_whole he hw hpos hlen).1
      refine receivesFrame_of_delivered he hdel ?_ hpos (hblocking.mp hrc)
      rw [hw, arriving_deliveries]
      simp
    · intro n hn
      rcases afterReads_cases he hlen (reading_start hbuf hw) n with h | h
      · exact absurd h hn
      · refine ⟨h.handled, ?_⟩
        rw [h.contents, h.inbox]
        rfl
    · rw [hsender, hblocking, hloop]
      omega

/-- A response of 7 bytes that arrives alone. -/
theorem receive_paths_agree_short :
    PathsAgree Env.benign .session .fresh emptyBuffer
      (World.start (deliveries [(⟨0x81, 7, [1, 2, 3]⟩ : Message).image])) ⟨0x81, 7, [1, 2, 3]⟩ :=
  (receive_paths_agree Env.benign .session .fresh emptyBuffer _ ⟨0x81, 7, [1, 2, 3]⟩
    Env.grantsAll_benign emptyBuffer_fresh rfl (by decide) (by decide)).mpr (.inl (by decide))

/-- A frame of 252 bytes fills the receive buffer. -/
def wideMessage : Message := ⟨0x83, 7, List.replicate 248 1⟩

theorem wide_frame_not_dispatched :
    ((recvFrame Env.benign .session .fresh).run
      (World.start (deliveries [wideMessage.image]))).1.1 = 0 ∧
    ¬ PathsAgree Env.benign .session .fresh emptyBuffer
      (World.start (deliveries [wideMessage.image])) wideMessage := by
  have hpay : wideMessage.payload.length = 248 := List.length_replicate
  have hrc := (recvFrame_accepts_iff .session .fresh
    (w := World.start (deliveries [wideMessage.image])) Env.grantsAll_benign rfl
    (by rw [hpay]; decide) (by rw [hpay]; decide)).mpr (by rw [hpay]; decide)
  refine ⟨hrc, fun h => ?_⟩
  have hshort := (eventLoop_dispatches_iff Env.grantsAll_benign emptyBuffer_fresh rfl
    (by rw [hpay]; decide)).mp (h.same.mp hrc)
  rw [length_image, hpay] at hshort
  exact absurd hshort (by decide)

end EspushW60x

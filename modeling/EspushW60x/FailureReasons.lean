import EspushW60x.Stream

/-!
# Why `handle_buffer` fails

A negative return code of `handle_buffer` tears the connection down. `FailureReason`
lists what may do that. `handle_frame` returns an indeterminate value for an unknown
method, and the exit between the extraction and `buffer_shrink` leaves the frame in
the buffer.

Results:
* `handlerRc_neg_iff`: the handlers that return an error;
* `handle_buffer_fails_for_reason`: exactly when `handle_buffer` fails for a reason
  and takes the extracted frame out of the buffer.
-/

namespace EspushW60x

open Lib EventLoopLemmas

/-! ## Reasons -/

/-- The methods that `handle_frame` has a handler for. -/
def KnownMethod (m : UInt8) : Prop :=
  m = mleHeartResponse ∨ m = mleFirmwareUpgrade ∨ m = mleUartTransport ∨ m = mleForceReboot ∨
    m = mleServerProbe

instance (m : UInt8) : Decidable (KnownMethod m) :=
  inferInstanceAs (Decidable (_ ∨ _ ∨ _ ∨ _ ∨ _))

/-- The buffer is not full, and a frame is extracted from it. -/
def Extracts (buf : Buffer) : Prop :=
  bufferIsFull buf = false ∧ frameFormat.HasFrame buf.contents

/-- The struct of the extracted frame is granted, and the frame is decoded. -/
def Dispatches (e : Env) (buf : Buffer) (w : World) : Prop :=
  Extracts buf ∧ e.grant w.mem.heap.next (.frame .message) sizeofFrame = true ∧
    Decoded e (w.mem.heap.next + 1) buf.contents

/-- The frame that is extracted. -/
def firstFrame (buf : Buffer) : Message := decode (buf.contents.take (frameLen buf.contents))

/-- The reasons for `handle_buffer` to fail. -/
inductive FailureReason (e : Env) (buf : Buffer) (w : World) : Prop
  | full : bufferIsFull buf = true → FailureReason e buf w
  | noFrame : Extracts buf → e.grant w.mem.heap.next (.frame .message) sizeofFrame = false →
      FailureReason e buf w
  | noBody : Extracts buf → 2 < ofBe16 buf.contents →
      e.grant (w.mem.heap.next + 1) (.body .message) ((ofBe16 buf.contents : Int) - 2) = false →
      FailureReason e buf w
  | malformed : Extracts buf → ofBe16 buf.contents < 2 → FailureReason e buf w
  /-- Of the handlers only the one for a probe reports what `send` returned. -/
  | sendFailed : Dispatches e buf w → (firstFrame buf).method = mleServerProbe →
      e.sendRc w.sends probeBuf.length < 0 → FailureReason e buf w

/-- A call of `handle_buffer` fails for a reason only, takes the frame it extracted
out of the buffer, and does nothing else for a frame without a handler. -/
structure FailsForReason (e : Env) (buf : Buffer) (w : World) (r : (Int × Buffer) × World) :
    Prop where
  fails : r.1.1 < 0 ↔ FailureReason e buf w
  removed : Extracts buf → r.1.2.contents = buf.contents.drop (frameLen buf.contents)
  ignored : Dispatches e buf w → ¬ KnownMethod (firstFrame buf).method →
    r.2.wire = w.wire ∧ r.2.pins = w.pins ∧ r.2.pipe = w.pipe ∧ r.2.inbox = w.inbox

/-- The struct of an extracted frame is granted, and what is on the stack when a frame
without a handler is dispatched is not negative. -/
def ResultDetermined (e : Env) (buf : Buffer) (w : World) : Prop :=
  (Extracts buf → e.grant w.mem.heap.next (.frame .message) sizeofFrame = true) ∧
    (Dispatches e buf w → ¬ KnownMethod (firstFrame buf).method → 0 ≤ e.stale w.handled.length)

namespace FailureReasonLemmas

/-- The handlers that return an error. -/
theorem handlerRc_neg_iff (e : Env) (m : Message) (w : World) :
    handlerRc e m w < 0 ↔
      (m.method = mleServerProbe ∧ e.sendRc w.sends probeBuf.length < 0) ∨
        (¬ KnownMethod m.method ∧ e.stale w.handled.length < 0) := by
  by_cases hzero : m.method = mleHeartResponse ∨ m.method = mleFirmwareUpgrade ∨
      m.method = mleUartTransport ∨ m.method = mleForceReboot
  · have hknown : KnownMethod m.method := by
      rcases hzero with h | h | h | h
      · exact .inl h
      · exact .inr (.inl h)
      · exact .inr (.inr (.inl h))
      · exact .inr (.inr (.inr (.inl h)))
    have hprobe : m.method ≠ mleServerProbe := by
      rcases hzero with h | h | h | h <;> rw [h] <;> decide
    rw [handlerRc, if_pos hzero]
    refine iff_of_false (Int.lt_irrefl 0) ?_
    rintro (h | h)
    · exact hprobe h.1
    · exact h.1 hknown
  · rw [handlerRc, if_neg hzero]
    by_cases hprobe : m.method = mleServerProbe
    · have hknown : KnownMethod m.method := .inr (.inr (.inr (.inr hprobe)))
      rw [if_pos hprobe]
      constructor
      · exact fun h => .inl ⟨hprobe, h⟩
      · rintro (h | h)
        · exact h.2
        · exact absurd hknown h.1
    · have hunknown : ¬ KnownMethod m.method := by
        rintro (h | h | h | h | h)
        · exact hzero (.inl h)
        · exact hzero (.inr (.inl h))
        · exact hzero (.inr (.inr (.inl h)))
        · exact hzero (.inr (.inr (.inr h)))
        · exact hprobe h
      rw [if_neg hprobe]
      constructor
      · exact fun h => .inr ⟨hunknown, h⟩
      · rintro (h | h)
        · exact absurd h.1 hprobe
        · exact h.2

variable {e : Env} {buf : Buffer} {w : World}

theorem extracts_iff (hcap : buf.cap = maxRecvBufferLength) :
    Extracts buf ↔ buf.len < 252 ∧ frameFormat.HasFrame buf.contents := by
  have hfull := bufferIsFull_iff hcap
  rw [Extracts]
  cases h : bufferIsFull buf with
  | true =>
    have hlen := hfull.mp h
    exact iff_of_false (fun h => by cases h.1) fun h => Nat.not_lt.mpr hlen h.1
  | false =>
    rw [h] at hfull
    have hlen : buf.len < 252 := Nat.lt_of_not_le fun h => by cases hfull.mpr h
    rw [and_iff_right rfl, and_iff_right hlen]

/-- The reasons that lie before the handler. -/
theorem reason_of_not_decoded (hex : Extracts buf)
    (hdec : ¬ Decoded e (w.mem.heap.next + 1) buf.contents) : FailureReason e buf w := by
  rcases Nat.lt_or_ge (ofBe16 buf.contents) 2 with hlt | hge
  · exact .malformed hex hlt
  · by_cases htwo : ofBe16 buf.contents = 2
    · exact absurd ⟨hge, .inl htwo⟩ hdec
    · cases hg : e.grant (w.mem.heap.next + 1) (.body .message) ((ofBe16 buf.contents : Int) - 2) with
      | false => exact .noBody hex (by omega) hg
      | true => exact absurd ⟨hge, .inr hg⟩ hdec

/-- The reasons when a handler is called. -/
theorem reason_iff_of_dispatches (hd : Dispatches e buf w) :
    FailureReason e buf w ↔
      (firstFrame buf).method = mleServerProbe ∧ e.sendRc w.sends probeBuf.length < 0 := by
  obtain ⟨⟨hfull, hfr⟩, hg, hleft, hbody⟩ := hd
  constructor
  · rintro (h | ⟨_, h⟩ | ⟨_, hlt, h⟩ | ⟨_, h⟩ | ⟨_, hm, h⟩)
    · rw [hfull] at h
      cases h
    · rw [hg] at h
      cases h
    · rcases hbody with htwo | hbody
      · omega
      · rw [hbody] at h
        cases h
    · omega
    · exact ⟨hm, h⟩
  · exact fun h => .sendFailed ⟨⟨hfull, hfr⟩, hg, hleft, hbody⟩ h.1 h.2

/-- A full or unextracted buffer has no other reasons. -/
theorem reason_iff_of_not_extracts (hex : ¬ Extracts buf) :
    FailureReason e buf w ↔ bufferIsFull buf = true := by
  constructor
  · rintro (h | ⟨h, _⟩ | ⟨h, _⟩ | ⟨h, _⟩ | ⟨h, _⟩)
    · exact h
    · exact absurd h hex
    · exact absurd h hex
    · exact absurd h hex
    · exact absurd h.1 hex
  · exact .full

/-- Without an extracted frame everything is as it should be. -/
theorem fails_for_reason_of_not_extracts {r : (Int × Buffer) × World} (hex : ¬ Extracts buf)
    (hrc : r.1.1 < 0 ↔ bufferIsFull buf = true) :
    FailsForReason e buf w r ↔ ResultDetermined e buf w := by
  refine iff_of_true ⟨?_, fun h => absurd h hex, fun h => absurd h.1 hex⟩
    ⟨fun h => absurd h hex, fun h => absurd h.1 hex⟩
  rw [hrc, reason_iff_of_not_extracts hex]

/-- The extracted frame is not empty. -/
theorem drop_frameLen_ne (hex : frameFormat.HasFrame buf.contents) :
    buf.contents ≠ buf.contents.drop (frameLen buf.contents) := by
  intro h
  have hlen := congrArg List.length h
  have hhead : 4 ≤ buf.contents.length := hex.1
  rw [List.length_drop, frameLen] at hlen
  omega

/-- A frame without a handler changes nothing but the list of frames handled. -/
theorem handleFrame_ignored {f : Frame} {r : Int × World} (h : HandleFrameResult e f w r)
    (hm : ¬ KnownMethod f.method) : r.2 = w.called f.message := by
  cases h with
  | silent => rfl
  | uart _ huart => exact absurd (.inr (.inr (.inl huart))) hm
  | probe hprobe => exact absurd (.inr (.inr (.inr (.inr hprobe)))) hm

/-- `handle_buffer` once the handler returned `r`. -/
theorem fails_for_reason_of_dispatches {f : Frame} {heap : Ledger Kind} {log : List Access}
    {r : Int × World} (hd : Dispatches e buf w) (hmsg : f.message = firstFrame buf)
    (hf : HandleFrameResult e f { w with mem := ⟨heap, log⟩ } r) :
    FailsForReason e buf w
        (if r.1 < 0 then
          ((-1, buf.shrink (frameLen buf.contents)),
            { r.2 with mem := ((freeFrame f).run r.2.mem).2 })
        else ((r.1, buf.shrink (frameLen buf.contents)), r.2)) ↔
      ResultDetermined e buf w := by
  have hrc : r.1 = handlerRc e (firstFrame buf) w := by
    rw [HandleFrameResult.rc hf, hmsg]
    rfl
  have hneg := handlerRc_neg_iff e (firstFrame buf) w
  rw [← hrc] at hneg
  have hminus : (-1 : Int) < 0 := by decide
  have hdet : ResultDetermined e buf w ↔
      (¬ KnownMethod (firstFrame buf).method → 0 ≤ e.stale w.handled.length) :=
    ⟨fun h => h.2 hd, fun h => ⟨fun _ => hd.2.1, fun _ => h⟩⟩
  have hmethod : f.method = (firstFrame buf).method := congrArg Message.method hmsg
  constructor
  · intro h
    rw [hdet]
    intro hm
    have hnone : ¬ FailureReason e buf w := fun hr =>
      hm (.inr (.inr (.inr (.inr ((reason_iff_of_dispatches hd).mp hr).1))))
    have hfails := mt h.fails.mp hnone
    refine Int.not_lt.mp fun hstale => hfails ?_
    rw [if_pos (hneg.mpr (.inr ⟨hm, hstale⟩))]
    exact hminus
  · rw [hdet]
    intro hstale
    have hreason : r.1 < 0 ↔ FailureReason e buf w := by
      rw [hneg, reason_iff_of_dispatches hd]
      refine or_iff_left ?_
      rintro ⟨hm, hlt⟩
      exact Int.not_lt.mpr (hstale hm) hlt
    by_cases hlt : r.1 < 0
    · rw [if_pos hlt]
      refine ⟨iff_of_true hminus (hreason.mp hlt), fun _ => contents_shrink _ _, ?_⟩
      intro _ hm
      exact absurd (hneg.mp hlt) (by
        rintro (h | h)
        · exact hm (.inr (.inr (.inr (.inr h.1))))
        · exact Int.not_lt.mpr (hstale hm) h.2)
    · rw [if_neg hlt]
      refine ⟨hreason, fun _ => contents_shrink _ _, ?_⟩
      intro _ hm
      rw [← hmethod] at hm
      rw [handleFrame_ignored hf hm]
      exact ⟨rfl, rfl, rfl, rfl⟩

end FailureReasonLemmas

open FailureReasonLemmas

/-- `handle_buffer` fails without a reason on a negative value on the stack, and leaves
the frame in the buffer when its struct is refused. -/
theorem handle_buffer_fails_for_reason (e : Env) (buf : Buffer) (w : World)
    (hcap : buf.cap = maxRecvBufferLength) :
    FailsForReason e buf w ((handleBuffer e buf).run w) ↔ ResultDetermined e buf w := by
  have hextracts := extracts_iff hcap
  have hfull := bufferIsFull_iff hcap
  have hneg : (-1 : Int) < 0 := by decide
  have hres := handleBuffer_result (e := e) (w := w) hcap
  generalize (handleBuffer e buf).run w = r at hres
  cases hres with
  | full hlen =>
    have hex : ¬ Extracts buf := fun h => Nat.not_lt.mpr hlen (hextracts.mp h).1
    exact fails_for_reason_of_not_extracts hex (iff_of_true hneg (hfull.mpr hlen))
  | waiting log hlen hno =>
    have hex : ¬ Extracts buf := fun h => hno (hextracts.mp h).2
    exact fails_for_reason_of_not_extracts hex
      (iff_of_false (Int.lt_irrefl 0) fun h => Nat.not_le.mpr hlen (hfull.mp h))
  | refused log hlen hfr hg =>
    have hex : Extracts buf := hextracts.mpr ⟨hlen, hfr⟩
    refine iff_of_false (fun h => drop_frameLen_ne hfr (h.removed hex)) fun h => ?_
    have hgranted := h.1 hex
    rw [hg] at hgranted
    cases hgranted
  | malformed heap log hlen hfr hg hdec =>
    have hex : Extracts buf := hextracts.mpr ⟨hlen, hfr⟩
    have hnd : ¬ Dispatches e buf w := fun h => hdec h.2.2
    refine iff_of_true ⟨iff_of_true hneg (reason_of_not_decoded hex hdec), ?_, ?_⟩
      ⟨fun _ => hg, fun h => absurd h hnd⟩
    · exact fun _ => contents_shrink _ _
    · exact fun h => absurd h hnd
  | handled f heap log r hlen hfr hg hdec _ hmsg hf =>
    exact fails_for_reason_of_dispatches ⟨hextracts.mpr ⟨hlen, hfr⟩, hg, hdec⟩ hmsg hf

/-- A buffer with one frame of an unknown method and a body of one byte. -/
def unknownBuffer : Buffer :=
  ⟨0, ⟨1, [0, 3, 0x81, 7, 0] ++ List.replicate 251 0⟩, 5, by decide +kernel⟩

/-- The environment in which the stack holds -1. -/
def Env.staleNegative : Env := { Env.benign with stale := fun _ => -1 }

theorem handle_buffer_fails_for_reason_unknown :
    FailsForReason Env.benign unknownBuffer (.start [])
      ((handleBuffer Env.benign unknownBuffer).run (.start [])) :=
  (handle_buffer_fails_for_reason Env.benign unknownBuffer (.start []) (by decide +kernel)).mpr
    ⟨fun _ => rfl, fun _ _ => by decide⟩

/-- An unknown method fails the call when the stack holds -1. -/
theorem handle_buffer_stale_failure :
    ((handleBuffer .staleNegative unknownBuffer).run (.start [])).1.1 = -1 ∧
      ¬ FailsForReason .staleNegative unknownBuffer (.start [])
        ((handleBuffer .staleNegative unknownBuffer).run (.start [])) := by
  have hrc : ((handleBuffer .staleNegative unknownBuffer).run (.start [])).1.1 = -1 := by
    decide +kernel
  refine ⟨hrc, fun h => ?_⟩
  have hneg : ((handleBuffer .staleNegative unknownBuffer).run (.start [])).1.1 < 0 := by
    rw [hrc]
    decide
  have hd : Dispatches .staleNegative unknownBuffer (.start []) :=
    ⟨⟨by decide +kernel, by decide +kernel⟩, rfl, by decide +kernel⟩
  exact absurd ((reason_iff_of_dispatches hd).mp (h.fails.mp hneg)).1 (by decide +kernel)

end EspushW60x

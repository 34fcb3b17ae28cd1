import EspushW60x.LampPanel

/-!
# One answer for each UART command

A command is a body of 8 bytes: txid, command, four bytes of data. `answerTo` says
which body it is answered with, in terms of these bytes and the line state at that
point.

Results:
* `serialize_deserializeLightprotoFrame`: the two codecs of the light protocol give
  the bytes back;
* `afterCommand_answers`: what one command sends;
* `uart_answers`: what a sequence of commands sends, in order.
-/

namespace EspushW60x

open Lib LightprotoLemmas LampPanelLemmas

/-! ## The answers -/

/-- The body of the answer to a request with the body `b`, when the line state is `mask`. -/
def answerTo (mask : Nat) (b : Bytes) : Option Bytes :=
  if b.length ≠ 8 then none
  else if ofBe16 (b.drop 2) = mQuery then some (b.take 4 ++ be32 mask)
  else if ofBe16 (b.drop 2) = mSetLine ∨ ofBe16 (b.drop 2) = mSetBatch then some b
  else none

/-- The line state that `device_get_lines_state` reports; `deviceGetLinesState_mask` says
that it shows the panel. -/
def lineState (e : Env) (w : World) : Nat := ((deviceGetLinesState e).run w).1

/-- The answers to a sequence of requests, each with the line state that the requests
before it left. -/
def answers (e : Env) : List Frame → World → List Bytes
  | [], _ => []
  | f :: fs, w =>
    (answerTo (lineState e w) f.message.payload).toList ++ answers e fs (afterCommand e f w)

/-- A frame of method `method_uart` with the given body. -/
def uartFrame (body : Bytes) : Message := ⟨methodUart, 0, body⟩

/-- What the body of a request says is in memory. -/
def BodyPresent (f : Frame) : Prop := f.length ≤ f.data.bytes.length

instance (f : Frame) : Decidable (BodyPresent f) := inferInstanceAs (Decidable (_ ≤ _))

namespace UartAnswersLemmas

/-! ## The codec -/

/-- Serializing what was deserialized gives the 8 bytes back. -/
theorem serialize_deserializeLightprotoFrame {d : Bytes} (h : 8 ≤ d.length) :
    serializeLightprotoFrame (deserializeLightprotoFrame d) = d.take 8 := by
  match d, h with
  | _ :: _ :: _ :: _ :: _ :: _ :: _ :: _ :: _, _ =>
    simp only [serializeLightprotoFrame, deserializeLightprotoFrame, be16_ofBe16]
    rfl

/-- An answer to a query keeps txid and command. -/
theorem serialize_answer {d : Bytes} (h : 8 ≤ d.length) (data : Bytes) (hdata : data.length = 4) :
    serializeLightprotoFrame ⟨(deserializeLightprotoFrame d).txid,
      (deserializeLightprotoFrame d).cmd, data, hdata⟩ = d.take 4 ++ data := by
  match d, h with
  | _ :: _ :: _ :: _ :: _ :: _ :: _ :: _ :: _, _ =>
    simp only [serializeLightprotoFrame, deserializeLightprotoFrame, be16_ofBe16]
    rfl

theorem length_answerTo {mask : Nat} {b out : Bytes} (h : answerTo mask b = some out) :
    out.length = 8 := by
  simp only [answerTo] at h
  split at h
  · cases h
  · next hlen =>
    have hlen := Decidable.not_not.mp hlen
    split at h
    · cases h
      rw [List.length_append, List.length_take, hlen]
      rfl
    · split at h
      · cases h
        exact hlen
      · cases h

theorem length_of_mem_answers {e : Env} {fs : List Frame} {w : World} {out : Bytes}
    (h : out ∈ answers e fs w) : out.length = 8 := by
  induction fs generalizing w with
  | nil => cases h
  | cons f fs ih =>
    rcases List.mem_append.mp h with h | h
    · exact length_answerTo (Option.mem_toList.mp h)
    · exact ih h

/-! ## One command -/

section Command

variable {e : Env} {f : Frame} {w : World}

/-- An answer is sent whole. -/
theorem wire_writeLightprotoFrame (he : e.GrantsAll) (hs : e.SendsAll) (out : Lightproto) :
    ((writeLightprotoFrame e out).run w).2.wire =
      w.wire ++ (uartFrame (serializeLightprotoFrame out)).image := by
  have hg := he w.mem.heap.next (.frame .message) sizeofFrame (by decide)
  rw [run_writeLightprotoFrame hg]
  have hmsg := message_answerFrame w.mem.heap.next out
  have hres := writeFrame_answerFrame_result e w.mem.heap.next out
    { w with mem := { w.mem with heap := w.mem.heap.acquire (.frame .message) } }
  generalize (writeFrame e (answerFrame w.mem.heap.next out)).run
    { w with mem := { w.mem with heap := w.mem.heap.acquire (.frame .message) } } = r at hres
  cases hres with
  | refused hrefused =>
    rw [he _ _ _ (by omega)] at hrefused
    cases hrefused
  | sent =>
    have hlen : (uartFrame (serializeLightprotoFrame out)).image.length = 12 := length_uartAnswer out
    rw [hs, hmsg]
    show _ ++ (uartFrame (serializeLightprotoFrame out)).image.take 12 = _
    rw [List.take_of_length_le (Nat.le_of_eq hlen)]

theorem PinsOnly.wire {w w' : World} (h : PinsOnly w w') : w'.wire = w.wire := by
  obtain ⟨_, _, rfl⟩ := h
  rfl

/-- The body of a request as the handlers read it. -/
theorem payload_of_present (hf : BodyPresent f) :
    f.message.payload.length = f.length ∧ (f.length = 8 → 8 ≤ f.data.bytes.length ∧
      f.message.payload = f.data.bytes.take 8) := by
  refine ⟨?_, fun h8 => ⟨?_, ?_⟩⟩
  · rw [Frame.message, List.length_take, Nat.min_eq_left hf]
  · rw [← h8]
    exact hf
  · rw [Frame.message, h8]

/-- The handlers' command word is the one in the body. -/
theorem cmd_payload (d : Bytes) :
    ofBe16 ((d.take 8).drop 2) = (deserializeLightprotoFrame d).cmd := by
  rw [List.drop_take, ofBe16_take (by decide)]
  rfl

/-- The bytes of a list of answers. -/
def wireOf (outs : List Bytes) : Bytes := (outs.map fun out => (uartFrame out).image).flatten

theorem wireOf_append (xs ys : List Bytes) : wireOf (xs ++ ys) = wireOf xs ++ wireOf ys := by
  rw [wireOf, List.map_append, List.flatten_append]
  rfl

theorem wireOf_some (out : Bytes) : wireOf (some out).toList = (uartFrame out).image :=
  List.append_nil _

/-- A command sends its answer and nothing else. Without an answer it does nothing. -/
theorem afterCommand_answers (he : e.GrantsAll) (hs : e.SendsAll) (hf : BodyPresent f) :
    (afterCommand e f w).wire =
        w.wire ++ wireOf (answerTo (lineState e w) f.message.payload).toList ∧
      (answerTo (lineState e w) f.message.payload = none → afterCommand e f w = w) := by
  obtain ⟨hlen, h8⟩ := payload_of_present hf
  simp only [afterCommand, handleUartBuffer, Prog.run_ite, Prog.run_pure]
  by_cases hlength : f.length ≠ 8
  · have hnone : answerTo (lineState e w) f.message.payload = none := by
      rw [answerTo, if_pos (by rw [hlen]; exact hlength)]
    rw [if_pos hlength, hnone]
    exact ⟨(List.append_nil _).symm, fun _ => rfl⟩
  · obtain ⟨hbytes, hpay⟩ := h8 (Decidable.not_not.mp hlength)
    have hcmd := cmd_payload f.data.bytes
    have hserialize := serialize_deserializeLightprotoFrame hbytes
    have hanswer : answerTo (lineState e w) f.message.payload =
        if (deserializeLightprotoFrame f.data.bytes).cmd = mQuery then
          some (f.data.bytes.take 4 ++ be32 (lineState e w))
        else if (deserializeLightprotoFrame f.data.bytes).cmd = mSetLine ∨
            (deserializeLightprotoFrame f.data.bytes).cmd = mSetBatch then
          some (f.data.bytes.take 8)
        else none := by
      rw [answerTo, if_neg (by rw [hlen]; exact hlength), hpay, hcmd, List.take_take]
      rfl
    rw [if_neg hlength, hanswer]
    by_cases hq : (deserializeLightprotoFrame f.data.bytes).cmd = mQuery
    · rw [if_pos hq, if_pos hq]
      refine ⟨?_, fun h => by cases h⟩
      have hread := PinsOnly.wire (pinsOnly_deviceGetLinesState e w)
      have hquery := serialize_answer hbytes (be32 (lineState e w)) rfl
      simp only [handleProtoQuery, lift_world, Prog.run_bind]
      rw [wire_writeLightprotoFrame he hs, hread, wireOf_some]
      exact congrArg (fun body => w.wire ++ (uartFrame body).image) hquery
    · rw [if_neg hq, if_neg hq]
      by_cases hl : (deserializeLightprotoFrame f.data.bytes).cmd = mSetLine
      · rw [if_pos hl, if_pos (.inl hl)]
        refine ⟨?_, fun h => by cases h⟩
        simp only [handleProtoSetLine, lift_world, Prog.run_bind]
        rw [wire_writeLightprotoFrame he hs, PinsOnly.wire (pinsOnly_deviceSetLineState _ _ _ _),
          hserialize, wireOf_some]
      · rw [if_neg hl]
        by_cases hb : (deserializeLightprotoFrame f.data.bytes).cmd = mSetBatch
        · rw [if_pos hb, if_pos (.inr hb)]
          refine ⟨?_, fun h => by cases h⟩
          simp only [handleProtoSetBatch, Prog.run_bind]
          rw [wire_writeLightprotoFrame he hs, PinsOnly.wire (pinsOnly_setLinesFrom _ _ _ _ _),
            hserialize, wireOf_some]
        · have hnone : ¬ ((deserializeLightprotoFrame f.data.bytes).cmd = mSetLine ∨
              (deserializeLightprotoFrame f.data.bytes).cmd = mSetBatch) := by
            rintro (h | h)
            · exact hl h
            · exact hb h
          rw [if_neg hb, if_neg hnone]
          exact ⟨(List.append_nil _).symm, fun _ => rfl⟩

end Command

theorem wire_afterCommands {e : Env} {fs : List Frame} {w : World} (he : e.GrantsAll)
    (hs : e.SendsAll) (hfs : ∀ f ∈ fs, BodyPresent f) :
    (afterCommands e fs w).wire = w.wire ++ wireOf (answers e fs w) := by
  induction fs generalizing w with
  | nil => exact (List.append_nil _).symm
  | cons f fs ih =>
    obtain ⟨hf, hrest⟩ := List.forall_mem_cons.mp hfs
    show (afterCommands e fs (afterCommand e f w)).wire = _
    rw [ih hrest, (afterCommand_answers he hs hf).1, answers, wireOf_append, List.append_assoc]

end UartAnswersLemmas

open UartAnswersLemmas

/-- The command `FE FE 00 02 00 01 00 01`: line 1 on. -/
def setLine1 : Frame := commandFrame [0xFE, 0xFE, 0, 2, 0, 1, 0, 1]

/-- The command `FE FE 00 01 00 00 00 00`: a query. -/
def query : Frame :=
  { Frame.fresh with method := 0x83, data := .static [0xFE, 0xFE, 0, 1, 0, 0, 0, 0], length := 8 }

end EspushW60x

import EspushW60x.FrameIO

/-!
# `lightproto.c` and `pin_drv.c`: UART commands and relay pins

The light protocol is an 8-byte message inside a frame: txid, command and four
bytes of data, the numbers big-endian. A command is answered with one frame.

Results:
* `writeLightprotoFrame_result`: the ways the answer is written; the `Frame` it
  allocates stays live;
* `handleUartBuffer_result`: a call changes pins only before it answers.
-/

namespace EspushW60x

open Lib

universe u

/-! ## `pin_drv.c` -/

def glLines : Soc → List Nat
  | .w600 => [20, 21, 22, 23]
  | .w601 => [30, 31, 32, 45]

def lineOnState : PinLevel := .low
def lineOffState : PinLevel := .high

/-- `line_pin`. `gl_lines[-1]` is whatever number stands in front of the array. -/
def linePin (e : Env) (idx : Nat) (mode : PinLevel) : Prog World Unit := do
  let size := (glLines e.soc).length
  if idx > size then
    return ()
  touch .glLines (some size) ((idx : Int) - 1) 1
  let pin := if idx = 0 then e.strayPin else (glLines e.soc).getD (idx - 1) 0
  rtPinMode pin .output
  rtPinWrite pin mode

def setLineOn (e : Env) (idx : Nat) : Prog World Unit := linePin e idx lineOnState

def setLineOff (e : Env) (idx : Nat) : Prog World Unit := linePin e idx lineOffState

/-- The line number is an `rt_uint8_t`, the state an `rt_bool_t` (an `int`). -/
def deviceSetLineState (e : Env) (line : UInt8) (state : Int) : Prog World Int := do
  if state ≠ 0 then
    setLineOn e line.toNat
  else
    setLineOff e line.toNat
  return 0

def deviceGetLines (soc : Soc) : Nat := (glLines soc).length

/-- The loop of `device_get_lines_state` from index `i` on, over the pins left. -/
def linesStateFrom (size : Nat) : List Nat → Nat → Nat → Prog World Nat
  | [], _, result => pure result
  | pin :: rest, i, result => do
    touch .glLines (some size) i 1
    let mode := (← rtPinRead pin) <<< i
    let state := if mode = lineOnState.toInt then 1 else 0
    linesStateFrom size rest (i + 1) (result ||| (state <<< i))

def deviceGetLinesState (e : Env) : Prog World Nat :=
  linesStateFrom (deviceGetLines e.soc) (glLines e.soc) 0 0

/-! ## `lightproto.c` -/

def mQuery : Nat := 0x01
def mSetLine : Nat := 0x02
def mSetBatch : Nat := 0x03

/-- `txid` and `cmd` are 16-bit numbers in host order. -/
structure Lightproto where
  txid : Nat
  cmd : Nat
  data : Bytes
  data_length : data.length = 4
deriving DecidableEq, Repr

def deserializeLightprotoFrame (data : Bytes) : Lightproto where
  txid := ofBe16 data
  cmd := ofBe16 (data.drop 2)
  data := [byteAt data 4, byteAt data 5, byteAt data 6, byteAt data 7]
  data_length := by rfl

def serializeLightprotoFrame (p : Lightproto) : Bytes := be16 p.txid ++ be16 p.cmd ++ p.data

@[simp] theorem length_serializeLightprotoFrame (p : Lightproto) :
    (serializeLightprotoFrame p).length = 8 := by
  simp [serializeLightprotoFrame, p.data_length]

section

variable {m : Type → Type u} [WorldSteps m]

/-- The answer is never freed. -/
def writeLightprotoFrame (e : Env) (out : Lightproto) : m Unit := do
  let uartBuf := serializeLightprotoFrame out
  match ← mallocEmptyFrame e .message methodUart with
  | none => return ()
  | some f =>
    let _ ← writeFrame e (setStaticData f uartBuf 8)
    return ()

def handleProtoQuery (e : Env) (p : Lightproto) : m Unit := do
  let result ← deviceGetLinesState e
  writeLightprotoFrame e { txid := p.txid, cmd := p.cmd, data := be32 result, data_length := by rfl }

def handleProtoSetLine (e : Env) (p : Lightproto) : m Unit := do
  let line := ofBe16 p.data
  let state := ofBe16 (p.data.drop 2)
  let _ ← deviceSetLineState e (UInt8.ofNat line) state
  writeLightprotoFrame e p

/-- The loop of `handle_proto_set_batch`: the lines `i + 1`, …, `i + n`. -/
def setLinesFrom (e : Env) (state : Int) : Nat → Nat → m Unit
  | 0, _ => pure ()
  | n + 1, i => do
    let _ ← deviceSetLineState e (UInt8.ofNat (i + 1)) state
    setLinesFrom e state n (i + 1)

def handleProtoSetBatch (e : Env) (p : Lightproto) : m Unit := do
  let state := ofBe16 p.data
  setLinesFrom e state (deviceGetLines e.soc) 0
  writeLightprotoFrame e p

def handleUartBuffer (e : Env) (f : Frame) : m Unit := do
  if f.length ≠ 8 then
    return ()
  let p := deserializeLightprotoFrame f.data.bytes
  if p.cmd = mQuery then
    handleProtoQuery e p
  else if p.cmd = mSetLine then
    handleProtoSetLine e p
  else if p.cmd = mSetBatch then
    handleProtoSetBatch e p
  else
    return ()

end

/-! ## The answer -/

/-- The answer as a value. -/
def uartAnswer (p : Lightproto) : Message := ⟨methodUart, 0, serializeLightprotoFrame p⟩

@[simp] theorem length_uartAnswer (p : Lightproto) : (uartAnswer p).image.length = 12 := by
  simp [uartAnswer]

/-- The ways `write_lightproto_frame` ends. -/
inductive WriteLightprotoResult (e : Env) (out : Lightproto) (w : World) : World → Prop
  | refused :
      e.grant w.mem.heap.next (.frame .message) sizeofFrame = false →
      WriteLightprotoResult e out w { w with mem := { w.mem with heap := w.mem.heap.refuse } }
  | unsent :
      e.grant w.mem.heap.next (.frame .message) sizeofFrame = true →
      WriteLightprotoResult e out w
        { w with mem := { w.mem with heap := (w.mem.heap.acquire (.frame .message)).refuse } }
  | sent (log : List Access) :
      e.grant w.mem.heap.next (.frame .message) sizeofFrame = true →
      WriteLightprotoResult e out w
        { w with
          mem := ⟨((w.mem.heap.acquire (.frame .message)).acquire .wireBuf).release
            (w.mem.heap.next + 1), log⟩
          sends := w.sends + 1
          wire := w.wire ++ (uartAnswer out).image.take (e.sendRc w.sends 12).toNat }

/-- The frame that the answer is sent from. -/
def answerFrame (addr : Nat) (out : Lightproto) : Frame :=
  ⟨addr, methodUart, 0, .static, .static (serializeLightprotoFrame out), 8⟩

theorem message_answerFrame (addr : Nat) (out : Lightproto) :
    (answerFrame addr out).message = uartAnswer out := by
  simp only [answerFrame, Frame.message, Data.bytes, uartAnswer]
  rw [List.take_of_length_le (Nat.le_of_eq (length_serializeLightprotoFrame out))]

/-- The answer is written once its frame is granted. -/
theorem run_writeLightprotoFrame {e : Env} {out : Lightproto} {w : World}
    (hg : e.grant w.mem.heap.next (.frame .message) sizeofFrame = true) :
    ((writeLightprotoFrame e out).run w).2 =
      ((writeFrame e (answerFrame w.mem.heap.next out)).run
        { w with mem := { w.mem with heap := w.mem.heap.acquire (.frame .message) } }).2 := by
  simp only [writeLightprotoFrame, mallocEmptyFrame, Prog.run_bind, run_liftMem,
    run_espushMalloc, hg, if_true, Prog.run_pure]
  rfl

theorem writeFrame_answerFrame_result (e : Env) (addr : Nat) (out : Lightproto) (w : World) :
    WriteFrameResult e (answerFrame addr out) w ((writeFrame e (answerFrame addr out)).run w) :=
  writeFrame_result (Nat.le_of_eq (length_serializeLightprotoFrame out).symm) (by
    show 8 + 4 ≤ 2048
    decide)

theorem writeLightprotoFrame_result (e : Env) (out : Lightproto) (w : World) :
    WriteLightprotoResult e out w ((writeLightprotoFrame e out).run w).2 := by
  cases hg : e.grant w.mem.heap.next (.frame .message) sizeofFrame with
  | false =>
    have hrun : ((writeLightprotoFrame e out).run w).2 =
        { w with mem := { w.mem with heap := w.mem.heap.refuse } } := by
      simp only [writeLightprotoFrame, mallocEmptyFrame, Prog.run_bind, run_liftMem,
        run_espushMalloc, hg, Bool.false_eq_true, if_false, Prog.run_pure]
    rw [hrun]
    exact .refused hg
  | true =>
    rw [run_writeLightprotoFrame hg]
    have hmsg := message_answerFrame w.mem.heap.next out
    have hres := writeFrame_answerFrame_result e w.mem.heap.next out
      { w with mem := { w.mem with heap := w.mem.heap.acquire (.frame .message) } }
    generalize (writeFrame e (answerFrame w.mem.heap.next out)).run
      { w with mem := { w.mem with heap := w.mem.heap.acquire (.frame .message) } } = r at hres
    cases hres with
    | refused => exact .unsent hg
    | sent log =>
      rw [hmsg]
      exact .sent log hg

/-! ## The whole handler -/

/-- The commands that are answered. -/
def Answered (f : Frame) : Prop :=
  f.length = 8 ∧ ((deserializeLightprotoFrame f.data.bytes).cmd = mQuery ∨
    (deserializeLightprotoFrame f.data.bytes).cmd = mSetLine ∨
    (deserializeLightprotoFrame f.data.bytes).cmd = mSetBatch)

instance (f : Frame) : Decidable (Answered f) := inferInstanceAs (Decidable (_ ∧ (_ ∨ _ ∨ _)))

/-- `w'` differs from `w` in the pins and in the log only. -/
def PinsOnly (w w' : World) : Prop :=
  ∃ pins log, w' = { w with pins := pins, mem := { w.mem with log := log } }

namespace LightprotoLemmas

theorem pinsOnly_refl (w : World) : PinsOnly w w := ⟨w.pins, w.mem.log, rfl⟩

theorem PinsOnly.trans {a b c : World} (hab : PinsOnly a b) (hbc : PinsOnly b c) :
    PinsOnly a c := by
  obtain ⟨_, _, rfl⟩ := hab
  obtain ⟨pins, log, rfl⟩ := hbc
  exact ⟨pins, log, rfl⟩

theorem pinsOnly_linePin (e : Env) (idx : Nat) (mode : PinLevel) (w : World) :
    PinsOnly w ((linePin e idx mode).run w).2 := by
  simp only [linePin, Prog.run_bind, Prog.run_ite, Prog.run_pure]
  split
  · exact pinsOnly_refl w
  · exact ⟨_, _, rfl⟩

theorem pinsOnly_deviceSetLineState (e : Env) (line : UInt8) (state : Int) (w : World) :
    PinsOnly w ((deviceSetLineState e line state).run w).2 := by
  simp only [deviceSetLineState, Prog.run_bind, Prog.run_ite, Prog.run_pure]
  split
  · exact pinsOnly_linePin _ _ _ _
  · exact pinsOnly_linePin _ _ _ _

theorem pinsOnly_linesStateFrom (size : Nat) (pins : List Nat) (i result : Nat) (w : World) :
    PinsOnly w ((linesStateFrom size pins i result).run w).2 := by
  induction pins generalizing i result w with
  | nil => exact pinsOnly_refl w
  | cons pin rest ih =>
    simp only [linesStateFrom, Prog.run_bind, run_liftMem, run_touch]
    exact PinsOnly.trans ⟨w.pins, _, rfl⟩ (ih _ _ _)

theorem pinsOnly_deviceGetLinesState (e : Env) (w : World) :
    PinsOnly w ((deviceGetLinesState e).run w).2 :=
  pinsOnly_linesStateFrom _ _ _ _ _

theorem pinsOnly_setLinesFrom (e : Env) (state : Int) (n i : Nat) (w : World) :
    PinsOnly w ((setLinesFrom e state n i).run w).2 := by
  induction n generalizing i w with
  | zero => exact pinsOnly_refl w
  | succ n ih =>
    simp only [setLinesFrom, lift_world, Prog.run_bind]
    exact PinsOnly.trans (pinsOnly_deviceSetLineState _ _ _ _) (ih _ _)

end LightprotoLemmas

open LightprotoLemmas

/-- A command that is not answered changes nothing; the others change pins and
then write the answer. -/
inductive UartResult (e : Env) (f : Frame) (w : World) : World → Prop
  | ignored : ¬ Answered f → UartResult e f w w
  | answered (out : Lightproto) (w1 w' : World) :
      Answered f → PinsOnly w w1 → WriteLightprotoResult e out w1 w' → UartResult e f w w'

theorem handleUartBuffer_result (e : Env) (f : Frame) (w : World) :
    UartResult e f w ((handleUartBuffer e f).run w).2 := by
  simp only [handleUartBuffer, Prog.run_ite]
  split
  next hlen => exact .ignored fun h => hlen h.1
  next hlen =>
    have hlen := Decidable.not_not.mp hlen
    split
    next hq =>
      simp only [handleProtoQuery, lift_world, Prog.run_bind]
      exact .answered _ _ _ ⟨hlen, .inl hq⟩ (pinsOnly_deviceGetLinesState _ _)
        (writeLightprotoFrame_result _ _ _)
    next hq =>
      split
      next hl =>
        simp only [handleProtoSetLine, lift_world, Prog.run_bind]
        exact .answered _ _ _ ⟨hlen, .inr (.inl hl)⟩ (pinsOnly_deviceSetLineState _ _ _ _)
          (writeLightprotoFrame_result _ _ _)
      next hl =>
        split
        next hb =>
          simp only [handleProtoSetBatch, Prog.run_bind]
          exact .answered _ _ _ ⟨hlen, .inr (.inr hb)⟩ (pinsOnly_setLinesFrom _ _ _ _ _)
            (writeLightprotoFrame_result _ _ _)
        next hb =>
          refine .ignored ?_
          rintro ⟨_, h | h | h⟩
          · exact hq h
          · exact hl h
          · exact hb h

end EspushW60x

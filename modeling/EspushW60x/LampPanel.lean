import EspushW60x.Lightproto

/-!
# The relay pins as a lamp panel

A panel is a row of lamps, each on or off. `handle_uart_buffer` is compared with
the panel: what a command does to the pins is what `Panel.apply` does to the row.

The comparison fails for the line numbers that no lamp has. The line travels
from a 16-bit field through an `rt_uint8_t`, so line 257 is line 1 and line 256
is `gl_lines[-1]`; and `device_set_line_state` returns 0 whatever the line was.

Results:
* `deviceGetLinesState_mask`: the mask of a query shows the panel;
* `lamp_panel_refinement`: a sequence of commands refines the panel exactly when
  every line number in it is one of the panel's.
-/

namespace EspushW60x

open Lib LightprotoLemmas

/-! ## The panel -/

/-- A row of `n` lamps: which of them are on. -/
abbrev Panel (n : Nat) := Fin n → Bool

inductive Command
  | query
  | setLine (line state : Nat)
  | setBatch (state : Nat)
  | other
deriving DecidableEq, Repr

/-- Line `i + 1` is lamp `i`. A line that no lamp has changes nothing. -/
def Panel.apply {n : Nat} (p : Panel n) : Command → Panel n
  | .setLine line state => fun i => if i.val + 1 = line then decide (state ≠ 0) else p i
  | .setBatch state => fun _ => decide (state ≠ 0)
  | .query => p
  | .other => p

/-- Bit `i` of `mask` is set exactly when lamp `i` is on. -/
def Panel.Shows {n : Nat} (p : Panel n) (mask : Nat) : Prop :=
  ∀ i, mask.testBit i = if h : i < n then p ⟨i, h⟩ else false

/-! ## The pins as a panel -/

/-- The command in a frame. -/
def commandOf (f : Frame) : Command :=
  if f.length ≠ 8 then .other
  else
    let p := deserializeLightprotoFrame f.data.bytes
    if p.cmd = mQuery then .query
    else if p.cmd = mSetLine then .setLine (ofBe16 p.data) (ofBe16 (p.data.drop 2))
    else if p.cmd = mSetBatch then .setBatch (ofBe16 p.data)
    else .other

/-- A lamp is on when its pin is low. -/
def panelOf (e : Env) (w : World) : Panel (deviceGetLines e.soc) :=
  fun i => decide ((w.pins ((glLines e.soc).getD i.val 0)).level = lineOnState)

/-- The world after a command. -/
def afterCommand (e : Env) (f : Frame) (w : World) : World := ((handleUartBuffer e f).run w).2

/-- One command does what the panel says. A query leaves the pins alone, and its
answer shows the panel. A set-line with a line that no lamp has leaves the pins
alone, stays inside `gl_lines`, and is reported as a failure. -/
def StepRefines (e : Env) (f : Frame) (w : World) : Prop :=
  panelOf e (afterCommand e f w) = (panelOf e w).apply (commandOf f) ∧
    match commandOf f with
    | .query =>
      (afterCommand e f w).pins = w.pins ∧
        ∃ (mask : Nat) (out : Lightproto) (w1 : World), (panelOf e w).Shows mask ∧
          out.txid = (deserializeLightprotoFrame f.data.bytes).txid ∧ out.cmd = mQuery ∧
          out.data = be32 mask ∧ PinsOnly w w1 ∧ WriteLightprotoResult e out w1 (afterCommand e f w)
    | .setLine line state =>
      ¬ (1 ≤ line ∧ line ≤ deviceGetLines e.soc) →
        (afterCommand e f w).pins = w.pins ∧
        (∀ a ∈ (afterCommand e f w).mem.log, a.region = .glLines → a.InBounds ∨ a ∈ w.mem.log) ∧
        ((deviceSetLineState e (UInt8.ofNat line) state).run w).1 < 0
    | .setBatch _ => True
    | .other => afterCommand e f w = w

/-- Every command of a sequence does what the panel says, from the world the ones
before it left. -/
def RefinesPanel (e : Env) : List Frame → World → Prop
  | [], _ => True
  | f :: fs, w => StepRefines e f w ∧ RefinesPanel e fs (afterCommand e f w)

/-- The line number of a set-line command is one of the panel's. -/
def InRange (e : Env) (f : Frame) : Prop :=
  match commandOf f with
  | .setLine line _ => 1 ≤ line ∧ line ≤ deviceGetLines e.soc
  | _ => True

instance (e : Env) (f : Frame) : Decidable (InRange e f) := by
  unfold InRange
  split <;> infer_instance

/-! ## One line -/

namespace LampPanelLemmas

theorem nodup_glLines (soc : Soc) : (glLines soc).Nodup := by
  cases soc <;> decide

theorem deviceGetLines_eq (soc : Soc) : deviceGetLines soc = 4 := by
  cases soc <;> rfl

section Line

variable {e : Env} {w : World}

/-- `line_pin` on a line that there is. -/
theorem pins_linePin (i : Fin (deviceGetLines e.soc)) (mode : PinLevel) (p : Nat) :
    ((linePin e (i.val + 1) mode).run w).2.pins p =
      if p = (glLines e.soc).getD i.val 0 then ⟨.output, mode⟩ else w.pins p := by
  have hsize : ¬ i.val + 1 > (glLines e.soc).length := Nat.not_lt.mpr i.isLt
  have hzero : ¬ i.val + 1 = 0 := Nat.succ_ne_zero _
  simp only [linePin, if_neg hsize, Prog.run_bind, run_liftMem, run_touch, if_neg hzero,
    Nat.add_sub_cancel, rtPinMode, rtPinWrite, Prog.run_modify]
  split
  · simp
  · rfl

/-- A set-line on a line that there is switches that lamp and no other. -/
theorem panelOf_deviceSetLineState {line : Nat} (h1 : 1 ≤ line) (hn : line ≤ deviceGetLines e.soc)
    (state : Nat) :
    panelOf e ((deviceSetLineState e (UInt8.ofNat line) state).run w).2 =
      (panelOf e w).apply (.setLine line state) := by
  have h4 := deviceGetLines_eq e.soc
  obtain ⟨k, rfl⟩ : ∃ k, line = k + 1 := ⟨line - 1, by omega⟩
  let i : Fin (deviceGetLines e.soc) := ⟨k, hn⟩
  have hline : (UInt8.ofNat (k + 1)).toNat = i.val + 1 := by
    rw [UInt8.toNat_ofNat', Nat.mod_eq_of_lt (by omega)]
  have hmode : ∀ mode p, ((linePin e (i.val + 1) mode).run w).2.pins p =
      if p = (glLines e.soc).getD i.val 0 then ⟨.output, mode⟩ else w.pins p := pins_linePin i
  funext j
  have hpin : (glLines e.soc).getD j.val 0 = (glLines e.soc).getD i.val 0 ↔ j.val + 1 = k + 1 := by
    rw [List.getD_inj j.isLt i.isLt (nodup_glLines e.soc)]
    exact Nat.add_right_cancel_iff.symm
  simp only [panelOf, Panel.apply, deviceSetLineState, Prog.run_bind, Prog.run_ite, Prog.run_pure,
    hline, setLineOn, setLineOff]
  by_cases hs : state = 0
  · rw [if_neg (by omega), hmode]
    split
    next hp => rw [if_pos (hpin.mp hp)]; simp [hs, lineOffState, lineOnState]
    next hp => rw [if_neg (mt hpin.mpr hp)]
  · rw [if_pos (by omega), hmode]
    split
    next hp => rw [if_pos (hpin.mp hp)]; simp [hs]
    next hp => rw [if_neg (mt hpin.mpr hp)]

/-! ## All lines -/

/-- The lamps from `i` on are in the given state. -/
theorem panelOf_setLinesFrom {n i : Nat} (hn : i + n = deviceGetLines e.soc) (state : Nat) :
    panelOf e ((setLinesFrom e state n i).run w).2 =
      fun j => if i ≤ j.val then decide (state ≠ 0) else panelOf e w j := by
  induction n generalizing i w with
  | zero =>
    funext j
    rw [if_neg (by omega)]
    rfl
  | succ n ih =>
    simp only [setLinesFrom, lift_world, Prog.run_bind]
    rw [ih (by omega), panelOf_deviceSetLineState (by omega) (by omega)]
    funext j
    simp only [Panel.apply]
    by_cases hj : i + 1 ≤ j.val
    · rw [if_pos hj, if_pos (by omega)]
    · rw [if_neg hj]
      by_cases hi : j.val = i
      · rw [if_pos (by omega), if_pos (by omega)]
      · rw [if_neg (by omega), if_neg (by omega)]

theorem toInt_shiftLeft_eq_zero (level : PinLevel) (i : Nat) :
    level.toInt <<< i = lineOnState.toInt ↔ level = lineOnState := by
  rw [Int.shiftLeft_eq]
  cases level with
  | low => simp [PinLevel.toInt, lineOnState]
  | high =>
    have hpow : (2 : Int) ^ i ≠ 0 := Int.pow_ne_zero (by decide)
    simp [PinLevel.toInt, lineOnState, hpow]

/-- The loop sets one bit for each lamp that is on. -/
theorem testBit_linesStateFrom (size : Nat) (pins : List Nat) (i result k : Nat) :
    ((linesStateFrom size pins i result).run w).1.testBit k =
      (result.testBit k || if i ≤ k ∧ k - i < pins.length then
        decide ((w.pins (pins.getD (k - i) 0)).level = lineOnState) else false) := by
  induction pins generalizing i result w with
  | nil => simp [linesStateFrom]
  | cons pin rest ih =>
    simp only [linesStateFrom, Prog.run_bind, run_liftMem, run_touch, rtPinRead, Prog.run_read]
    rw [ih]
    simp only [toInt_shiftLeft_eq_zero, Nat.testBit_or]
    by_cases hk : k = i
    · subst hk
      have hout : ¬ (k + 1 ≤ k ∧ k - (k + 1) < rest.length) := by omega
      have hin : k ≤ k ∧ k - k < (pin :: rest).length := ⟨Nat.le_refl _, by simp⟩
      rw [if_neg hout, if_pos hin, Nat.testBit_shiftLeft, Nat.sub_self, List.getD_cons_zero,
        Bool.or_false]
      congr 1
      split
      next hon => simp [hon]
      next hoff => simp [hoff]
    · have hbit : ∀ b : Nat, b ≤ 1 → (b <<< i).testBit k = false := by
        intro b hb
        rw [Nat.testBit_shiftLeft]
        by_cases hik : i ≤ k
        · have hz : b.testBit (k - i) = false :=
            Nat.testBit_lt_two_pow (Nat.lt_of_le_of_lt hb (Nat.one_lt_two_pow (by omega)))
          simp [hz]
        · simp [hik]
      rw [hbit _ (by split <;> decide), Bool.or_false]
      congr 1
      by_cases hin : i + 1 ≤ k ∧ k - (i + 1) < rest.length
      · obtain ⟨d, rfl⟩ : ∃ d, k = i + 1 + d := ⟨k - (i + 1), by omega⟩
        have hd : i + 1 + d - (i + 1) = d := by omega
        have hd' : i + 1 + d - i = d + 1 := by omega
        rw [if_pos hin, if_pos ⟨by omega, by simp only [List.length_cons]; omega⟩, hd, hd',
          List.getD_cons_succ]
      · rw [if_neg hin, if_neg]
        simp only [List.length_cons]
        omega

end Line

theorem WriteLightprotoResult.pins {e : Env} {out : Lightproto} {w w' : World}
    (h : WriteLightprotoResult e out w w') : w'.pins = w.pins := by
  cases h <;> rfl

theorem panelOf_of_pins {e : Env} {w w' : World} (h : w'.pins = w.pins) :
    panelOf e w' = panelOf e w := by
  unfold panelOf
  rw [h]

end LampPanelLemmas

open LampPanelLemmas

/-- The mask of `device_get_lines_state` shows the panel. -/
theorem deviceGetLinesState_mask (e : Env) (w : World) :
    (panelOf e w).Shows ((deviceGetLinesState e).run w).1 := by
  intro i
  rw [deviceGetLinesState, testBit_linesStateFrom, Nat.zero_testBit, Bool.false_or]
  by_cases h : i < deviceGetLines e.soc
  · rw [if_pos ⟨Nat.zero_le _, h⟩, dif_pos h]
    rfl
  · rw [if_neg fun hi => h hi.2, dif_neg h]

/-- A line whose low byte is above the last lamp changes nothing at all. -/
theorem deviceSetLineState_ignores {e : Env} {w : World} {line : Nat} (h : deviceGetLines e.soc < line % 256)
    (state : Int) : (deviceSetLineState e (UInt8.ofNat line) state).run w = (0, w) := by
  have hline : (UInt8.ofNat line).toNat > (glLines e.soc).length := by
    rw [UInt8.toNat_ofNat']
    exact h
  simp only [deviceSetLineState, setLineOn, setLineOff, linePin, if_pos hline, Prog.run_bind,
    Prog.run_ite, Prog.run_pure]
  split <;> rfl

/-! ## Commands -/

namespace LampPanelLemmas

section Commands

variable {e : Env} {f : Frame} {w : World}

/-- `handle_uart_buffer` by the command in the frame. -/
theorem afterCommand_eq (e : Env) (f : Frame) (w : World) :
    afterCommand e f w =
      match commandOf f with
      | .query => ((handleProtoQuery e (deserializeLightprotoFrame f.data.bytes)).run w).2
      | .setLine _ _ => ((handleProtoSetLine e (deserializeLightprotoFrame f.data.bytes)).run w).2
      | .setBatch _ => ((handleProtoSetBatch e (deserializeLightprotoFrame f.data.bytes)).run w).2
      | .other => w := by
  simp only [afterCommand, handleUartBuffer, commandOf, Prog.run_ite, Prog.run_pure]
  by_cases hlen : f.length ≠ 8
  · simp only [if_pos hlen]
  · simp only [if_neg hlen]
    split
    · rfl
    · split
      · rfl
      · split <;> rfl

theorem commandOf_setLine {line state : Nat} (h : commandOf f = .setLine line state) :
    line = ofBe16 (deserializeLightprotoFrame f.data.bytes).data ∧
      state = ofBe16 ((deserializeLightprotoFrame f.data.bytes).data.drop 2) := by
  simp only [commandOf] at h
  split at h
  · cases h
  · split at h
    · cases h
    · split at h
      · cases h
        exact ⟨rfl, rfl⟩
      · split at h <;> cases h

theorem commandOf_setBatch {state : Nat} (h : commandOf f = .setBatch state) :
    state = ofBe16 (deserializeLightprotoFrame f.data.bytes).data := by
  simp only [commandOf] at h
  split at h
  · cases h
  · split at h
    · cases h
    · split at h
      · cases h
      · split at h
        · cases h
          rfl
        · cases h

theorem commandOf_query (h : commandOf f = .query) :
    (deserializeLightprotoFrame f.data.bytes).cmd = mQuery := by
  simp only [commandOf] at h
  split at h
  · cases h
  · split at h
    next hq => exact hq
    next =>
      split at h
      · cases h
      · split at h <;> cases h

theorem panelOf_answer {out : Lightproto} :
    panelOf e ((writeLightprotoFrame e out).run w).2 = panelOf e w :=
  panelOf_of_pins (WriteLightprotoResult.pins (writeLightprotoFrame_result _ _ _))

/-- Reading the pins leaves them alone. -/
theorem pins_linesStateFrom (size : Nat) (lines : List Nat) (i result : Nat) :
    ((linesStateFrom size lines i result).run w).2.pins = w.pins := by
  induction lines generalizing i result w with
  | nil => rfl
  | cons pin rest ih =>
    simp only [linesStateFrom, Prog.run_bind, run_liftMem, run_touch]
    rw [ih]
    rfl

theorem stepRefines_query (h : commandOf f = .query) : StepRefines e f w := by
  have hw : afterCommand e f w =
      ((handleProtoQuery e (deserializeLightprotoFrame f.data.bytes)).run w).2 := by
    rw [afterCommand_eq, h]
  have hmask := deviceGetLinesState_mask e w
  have honly := pinsOnly_deviceGetLinesState e w
  have hread : ((deviceGetLinesState e).run w).2.pins = w.pins := pins_linesStateFrom _ _ _ _
  simp only [handleProtoQuery, lift_world, Prog.run_bind] at hw
  generalize (deviceGetLinesState e).run w = r at hw hmask honly hread
  let out : Lightproto := ⟨(deserializeLightprotoFrame f.data.bytes).txid,
    (deserializeLightprotoFrame f.data.bytes).cmd, be32 r.1, by rfl⟩
  have hans := writeLightprotoFrame_result e out r.2
  rw [← hw] at hans
  have hpins : (afterCommand e f w).pins = w.pins := by
    rw [WriteLightprotoResult.pins hans, hread]
  refine ⟨?_, ?_⟩
  · rw [h, panelOf_of_pins hpins]
    rfl
  · rw [h]
    exact ⟨hpins, r.1, out, r.2, hmask, rfl, commandOf_query h, rfl, honly, hans⟩

theorem stepRefines_setLine {line state : Nat} (h : commandOf f = .setLine line state)
    (h1 : 1 ≤ line) (hn : line ≤ deviceGetLines e.soc) : StepRefines e f w := by
  obtain ⟨hline, hstate⟩ := commandOf_setLine h
  refine ⟨?_, ?_⟩
  · rw [afterCommand_eq, h]
    simp only [handleProtoSetLine, lift_world, Prog.run_bind]
    rw [panelOf_answer, ← hline, ← hstate, panelOf_deviceSetLineState h1 hn]
  · rw [h]
    exact fun hout => absurd ⟨h1, hn⟩ hout

theorem stepRefines_setBatch {state : Nat} (h : commandOf f = .setBatch state) :
    StepRefines e f w := by
  refine ⟨?_, ?_⟩
  · rw [afterCommand_eq, h]
    simp only [handleProtoSetBatch, Prog.run_bind]
    rw [panelOf_answer, ← commandOf_setBatch h, panelOf_setLinesFrom (Nat.zero_add _)]
    simp only [Nat.zero_le, if_true, Panel.apply]
  · rw [h]
    trivial

theorem stepRefines_other (h : commandOf f = .other) : StepRefines e f w := by
  have hw : afterCommand e f w = w := by rw [afterCommand_eq, h]
  refine ⟨?_, ?_⟩
  · rw [hw, h]
    rfl
  · rw [h]
    exact hw

/-- One command refines the panel exactly when its line number is in range. -/
theorem stepRefines_iff : StepRefines e f w ↔ InRange e f := by
  rw [InRange]
  cases h : commandOf f with
  | query => exact iff_of_true (stepRefines_query h) trivial
  | setBatch state => exact iff_of_true (stepRefines_setBatch h) trivial
  | other => exact iff_of_true (stepRefines_other h) trivial
  | setLine line state =>
    constructor
    · intro hs
      -- the return code is 0 whatever the line was
      have hrc : ((deviceSetLineState e (UInt8.ofNat line) state).run w).1 = 0 := by
        simp only [deviceSetLineState, Prog.run_ite, Prog.run_bind, Prog.run_pure]
        split <;> rfl
      have hout := hs.2
      rw [h] at hout
      refine Decidable.byContradiction fun hn => ?_
      have hneg := (hout hn).2.2
      rw [hrc] at hneg
      exact absurd hneg (by decide)
    · exact fun hr => stepRefines_setLine h hr.1 hr.2

end Commands

end LampPanelLemmas

/-- The world after a sequence of commands. -/
def afterCommands (e : Env) (fs : List Frame) (w : World) : World :=
  fs.foldl (fun w f => afterCommand e f w) w

/-- A sequence of commands refines the panel exactly when every line number in it
is one of the panel's. The pins then show the commands carried out on the row of
lamps that they showed at the start. -/
theorem lamp_panel_refinement (e : Env) (fs : List Frame) (w : World) :
    (RefinesPanel e fs w ↔ ∀ f ∈ fs, InRange e f) ∧
      (RefinesPanel e fs w →
        panelOf e (afterCommands e fs w) = (fs.map commandOf).foldl Panel.apply (panelOf e w)) := by
  induction fs generalizing w with
  | nil => exact ⟨iff_of_true trivial fun _ hf => absurd hf List.not_mem_nil, fun _ => rfl⟩
  | cons f fs ih =>
    obtain ⟨hiff, hpanel⟩ := ih (afterCommand e f w)
    constructor
    · rw [RefinesPanel, stepRefines_iff, hiff, List.forall_mem_cons]
    · rintro ⟨hstep, hrest⟩
      rw [List.map_cons, List.foldl_cons, ← hstep.1]
      exact hpanel hrest

/-- A frame with the given payload. -/
def commandFrame (data : Bytes) : Frame :=
  { Frame.fresh with data := .static data, length := data.length }

/-- All lines on, line 2 off, a query, line 2 on, and a payload that is cut off. -/
def panelCommands : List Frame :=
  [commandFrame [0xFE, 0xFE, 0, 3, 0, 1, 0, 0], commandFrame [0xFE, 0xFE, 0, 2, 0, 2, 0, 0],
    commandFrame [0xFE, 0xFE, 0, 1, 0, 0, 0, 0], commandFrame [0xFE, 0xFE, 0, 2, 0, 2, 0, 1],
    commandFrame [0xFE, 0xFE, 0, 3]]

theorem lamp_panel_refinement_commands :
    panelCommands.map commandOf = [.setBatch 1, .setLine 2 0, .query, .setLine 2 1, .other] ∧
      RefinesPanel Env.benign panelCommands (World.start []) ∧
      panelOf Env.benign (afterCommands Env.benign panelCommands (World.start [])) =
        (panelCommands.map commandOf).foldl Panel.apply (panelOf Env.benign (World.start [])) := by
  have h := lamp_panel_refinement Env.benign panelCommands (World.start [])
  have hrefines := h.1.mpr (by decide)
  exact ⟨by decide, hrefines, h.2 hrefines⟩

/-- The command `FE FE 00 02 01 01 00 00`: line 257 off. -/
def setLine257 : Frame := commandFrame [0xFE, 0xFE, 0, 2, 1, 1, 0, 0]

/-- It switches line 1 off. -/
theorem line_257_switches_line_1 :
    ¬ RefinesPanel Env.benign [setLine257] (World.start []) := by
  rintro ⟨⟨hpanel, _⟩, _⟩
  have h1 := congrFun hpanel ⟨0, by decide⟩
  revert h1
  decide

end EspushW60x

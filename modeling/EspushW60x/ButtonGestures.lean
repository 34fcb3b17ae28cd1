import EspushW60x.Button
import EspushW60x.Lib.Debounce

/-!
# What the button reports

`Gesture` is what `Button_Cycle_Process` is for, with the macros of the board: presses,
double presses and long presses of a debounced signal. The samples are levels of a pin.

Results:
* `gestures_of_samples`: the callbacks are those of the gestures of the debounced samples;
* `clean_presses_reported`: what is reported when nothing bounces;
* `scattered_samples_click`: two samples far apart are a press;
* `double_press_shortens_long_press`: a press after a double press is taken for a long one.
-/

namespace EspushW60x

open Lib ButtonLemmas

/-! ## Gestures -/

/-- Not pressed, with the cycles of an earlier press that still count; pressed for some
cycles, for the second time or not; let go for some cycles after a press. -/
inductive Gesture
  | idle (rest : Nat)
  | pressed (held : Nat) (second : Bool)
  | released (waited : Nat)

/-- A cycle, in which the button is pressed or not. -/
def Gesture.next : Gesture → Bool → Gesture × List ButtonEvent
  | .idle rest, false => (.idle rest, [])
  | .idle rest, true => (.pressed (rest + 1) false, [])
  | .pressed held second, true => (.pressed (held + 1) second, [])
  | .pressed held second, false =>
    if 50 ≤ held then (.idle 0, [.long])
    else if second then (.idle held, [.double])
    else (.released 0, [])
  | .released waited, false =>
    if 15 ≤ waited + 1 then (.idle 0, [.dowm]) else (.released (waited + 1), [])
  | .released _, true => (.pressed 1 true, [])

/-- The debounced samples. -/
def debounced (samples : List Bool) : List Bool := Mealy.signal (Debounce.next 2) ⟨false, 0⟩ samples

/-! ## The button and the gesture -/

/-- The button has been down for some cycles. -/
structure Button.Holding (btn : Button) (held : Nat) (second : Bool) : Prop where
  state : btn.buttonState = .dowm
  level : btn.buttonLastLevel = btn.buttonTriggerLevel
  lastState : btn.buttonLastState = .double ↔ second = true
  timer : second = true → btn.timerCount ≤ 15
  longTime : held < 50 → btn.longTime = held
  longTime_ge : 50 ≤ held → 50 ≤ btn.longTime
  longTime_lt : btn.longTime < 0xFF

/-- The gesture that the button is in. -/
inductive Button.Shows (btn : Button) : Gesture → Prop
  | idle {rest : Nat} (state : btn.buttonState = .noneTrigger)
      (level : btn.buttonLastLevel ≠ btn.buttonTriggerLevel) (lastState : btn.buttonLastState ≠ .double)
      (longTime : btn.longTime = rest) (lt : rest < 50) : Shows btn (.idle rest)
  | pressed {held : Nat} {second : Bool} (holding : btn.Holding held second)
      (event : btn.buttonTriggerEvent = if 50 ≤ held then .long else .dowm) :
      Shows btn (.pressed held second)
  | released {waited : Nat} (state : btn.buttonState = .double)
      (level : btn.buttonLastLevel ≠ btn.buttonTriggerLevel) (lastState : btn.buttonLastState = .double)
      (longTime : btn.longTime = 0) (timer : btn.timerCount = waited) (lt : waited < 15) :
      Shows btn (.released waited)

/-- The three functions of `airkiss.c` are attached. -/
structure Button.Attached (btn : Button) : Prop where
  dowm : btn.callBackFunction .dowm = true
  double : btn.callBackFunction .double = true
  long : btn.callBackFunction .long = true

/-- What a cycle leaves after debouncing. -/
structure Button.SameInput (btn btn' : Button) : Prop where
  trigger : btn'.buttonTriggerLevel = btn.buttonTriggerLevel
  last : btn'.buttonLastLevel = btn.buttonLastLevel
  debounce : btn'.debounceTime = btn.debounceTime
  callBack : btn'.callBackFunction = btn.callBackFunction

/-- A cycle does what the gesture does. -/
structure Button.Performs (btn : Button) (r : Button × List ButtonEvent)
    (q : Gesture × List ButtonEvent) : Prop where
  called : r.2 = q.2
  input : btn.SameInput r.1
  shows : r.1.Shows q.1

/-- The button has a level that was debounced, and is in a gesture. -/
structure Button.Follows (btn : Button) (level : Nat) (d : Debounce) (g : Gesture) : Prop where
  trigger : btn.buttonTriggerLevel = level
  last_lt : btn.buttonLastLevel < 2
  last : d.level = decide (btn.buttonLastLevel = level)
  count : btn.debounceTime = d.count
  count_lt : d.count < 2
  attached : btn.Attached
  shows : btn.Shows g

namespace ButtonLemmas

section

variable {btn : Button}

theorem triggerCb_attached {event : ButtonEvent} (h : btn.callBackFunction event = true) :
    triggerCb btn event = [event] := if_pos h

theorem caseDowm_eq (h : btn.buttonLastLevel = btn.buttonTriggerLevel) (hlt : btn.longTime < 0xFF) :
    buttonCaseDowm boardConfig btn =
      if 50 ≤ btn.longTime + 1 then
        ({ btn with
          buttonTriggerEvent := .long
          longTime := if btn.longTime + 1 = 0xFF then 50 else btn.longTime + 1 }, [])
      else ({ btn with buttonTriggerEvent := .dowm, longTime := btn.longTime + 1 }, []) := by
  have hwrap : (btn.longTime + 1) % 0x100 = btn.longTime + 1 := Nat.mod_eq_of_lt (by omega)
  rw [buttonCaseDowm, if_pos h]
  simp only [boardConfig, Bool.false_eq_true, if_false, hwrap, ge_iff_le, if_true]
  split
  · split <;> rfl
  · rfl

/-- A cycle in which the button is down. -/
theorem caseDowm_holding {held : Nat} {second : Bool} (h : btn.Holding held second) :
    btn.Performs (buttonCaseDowm boardConfig btn) (.pressed (held + 1) second, []) := by
  obtain ⟨hstate, hlevel, hlast, htimer, hlong, hlong', hlt⟩ := h
  rw [caseDowm_eq hlevel hlt]
  by_cases hheld : 50 ≤ held + 1
  · have hle : 50 ≤ btn.longTime + 1 := by omega
    rw [if_pos hle]
    refine ⟨rfl, ⟨rfl, rfl, rfl, rfl⟩, .pressed ⟨hstate, hlevel, hlast, htimer, ?_, ?_, ?_⟩ ?_⟩
    · exact fun hlt' => absurd hheld (Nat.not_le.mpr hlt')
    · intro _
      dsimp only
      split <;> omega
    · dsimp only
      split <;> omega
    · rw [if_pos hheld]
  · have hlt' : ¬ 50 ≤ btn.longTime + 1 := by omega
    rw [if_neg hlt']
    refine ⟨rfl, ⟨rfl, rfl, rfl, rfl⟩, .pressed ⟨hstate, hlevel, hlast, htimer, ?_, ?_, ?_⟩ ?_⟩
    · exact fun _ => congrArg (· + 1) (hlong (by omega))
    · exact fun hge => absurd hge hheld
    · show btn.longTime + 1 < 0xFF
      omega
    · rw [if_neg hheld]

/-- The cycle in which the button is let go. -/
theorem caseUp_pressed {held : Nat} {second : Bool} (hattached : btn.Attached)
    (hlevel : btn.buttonLastLevel ≠ btn.buttonTriggerLevel)
    (hevent : btn.buttonTriggerEvent = if 50 ≤ held then .long else .dowm)
    (hlast : btn.buttonLastState = .double ↔ second = true)
    (htimer : second = true → btn.timerCount ≤ 15) (hlong : held < 50 → btn.longTime = held) :
    btn.Performs (buttonCaseUp boardConfig btn) (Gesture.next (.pressed held second) false) := by
  rw [Gesture.next, buttonCaseUp]
  by_cases hheld : 50 ≤ held
  · rw [if_pos hheld] at hevent ⊢
    rw [if_neg (by rw [hevent]; decide), if_pos hevent]
    exact ⟨triggerCb_attached hattached.long, ⟨rfl, rfl, rfl, rfl⟩,
      .idle rfl hlevel (by simp) rfl (by decide)⟩
  · rw [if_neg hheld] at hevent ⊢
    rw [if_pos hevent]
    cases second with
    | true =>
      rw [if_pos ⟨htimer rfl, hlast.mpr rfl⟩]
      exact ⟨triggerCb_attached hattached.double, ⟨rfl, rfl, rfl, rfl⟩,
        .idle rfl hlevel (by simp) (hlong (Nat.not_le.mp hheld)) (Nat.not_le.mp hheld)⟩
    | false =>
      rw [if_neg fun h => Bool.false_ne_true (hlast.mp h.2)]
      exact ⟨rfl, ⟨rfl, rfl, rfl, rfl⟩, .released rfl hlevel rfl rfl rfl (by decide)⟩

/-- A cycle after the button was let go. -/
theorem caseDouble_released {waited : Nat} (hattached : btn.Attached)
    (h : btn.Shows (.released waited)) :
    btn.Performs (buttonCaseDouble boardConfig btn) (Gesture.next (.released waited) false) := by
  obtain ⟨⟩ | ⟨⟩ | ⟨hstate, hlevel, hlast, hlong, rfl, hlt⟩ := h
  have hwrap : (btn.timerCount + 1) % 0x100 = btn.timerCount + 1 := Nat.mod_eq_of_lt (by omega)
  rw [Gesture.next, buttonCaseDouble]
  simp only [boardConfig, hwrap, ge_iff_le, true_and]
  by_cases hend : 15 ≤ btn.timerCount + 1
  · rw [if_pos hend, if_pos hend, if_pos ⟨hend, by simp⟩]
    exact ⟨triggerCb_attached hattached.dowm, ⟨rfl, rfl, rfl, rfl⟩,
      .idle rfl hlevel (by simp) hlong (by decide)⟩
  · rw [if_neg hend, if_neg hend, if_neg fun h => hend h.1]
    exact ⟨rfl, ⟨rfl, rfl, rfl, rfl⟩, .released hstate hlevel hlast hlong rfl (Nat.not_le.mp hend)⟩

/-! ## A cycle -/

/-- A cycle in which the debounced level stays as it is. -/
theorem switch_same {g : Gesture} (hattached : btn.Attached) (h : btn.Shows g) :
    btn.Performs (buttonSwitch boardConfig btn)
      (g.next (decide (btn.buttonLastLevel = btn.buttonTriggerLevel))) := by
  cases h with
  | idle state level lastState longTime lt =>
    rw [decide_eq_false level, buttonSwitch, state]
    exact ⟨rfl, ⟨rfl, rfl, rfl, rfl⟩, .idle state level lastState longTime lt⟩
  | pressed holding event =>
    rw [decide_eq_true holding.level, buttonSwitch, holding.state]
    exact caseDowm_holding holding
  | released state level lastState longTime timer lt =>
    rw [decide_eq_false level, buttonSwitch, state]
    exact caseDouble_released hattached (.released state level lastState longTime timer lt)

/-- A cycle in which the debounced level changes. -/
theorem switch_settled {g : Gesture} {level : Nat} (hattached : btn.Attached) (h : btn.Shows g)
    (hlevel : level < 4)
    (hchanged : level = btn.buttonTriggerLevel ↔ btn.buttonLastLevel ≠ btn.buttonTriggerLevel) :
    (btn.settled level).Performs (buttonSwitch boardConfig (btn.settled level))
      (g.next (decide (level = btn.buttonTriggerLevel))) := by
  have hstored : level % 4 = level := Nat.mod_eq_of_lt hlevel
  cases h with
  | idle state lvl lastState longTime lt =>
    have hpressed := hchanged.mpr lvl
    have hstate : (btn.settled level).buttonState = .dowm := by simp [Button.settled, state]
    rw [decide_eq_true hpressed, buttonSwitch, hstate]
    refine caseDowm_holding ⟨hstate, hstored.trans hpressed, ?_, ?_, ?_, ?_, ?_⟩
    · exact ⟨fun h => absurd h lastState, fun h => absurd h Bool.false_ne_true⟩
    · exact fun h => absurd h Bool.false_ne_true
    · exact fun _ => longTime
    · exact fun hge => absurd hge (Nat.not_le.mpr lt)
    · show btn.longTime < 0xFF
      omega
  | pressed holding event =>
    have hreleased : level ≠ btn.buttonTriggerLevel := fun h => hchanged.mp h holding.level
    have hstate : (btn.settled level).buttonState = .up := by simp [Button.settled, holding.state]
    rw [decide_eq_false hreleased, buttonSwitch, hstate]
    have hlast : (btn.settled level).buttonLastLevel ≠ btn.buttonTriggerLevel := by
      show level % 4 ≠ _
      rw [hstored]
      exact hreleased
    exact caseUp_pressed ⟨hattached.dowm, hattached.double, hattached.long⟩ hlast event
      holding.lastState holding.timer holding.longTime
  | released state lvl lastState longTime timer lt =>
    have hpressed := hchanged.mpr lvl
    have hstate : (btn.settled level).buttonState = .dowm := by simp [Button.settled, state]
    rw [decide_eq_true hpressed, buttonSwitch, hstate]
    have hholding : (btn.settled level).Holding 0 true := by
      refine ⟨hstate, hstored.trans hpressed, iff_of_true lastState rfl, ?_, fun _ => longTime, ?_, ?_⟩
      · intro _
        show btn.timerCount ≤ 15
        omega
      · exact fun hge => absurd hge (by decide)
      · show btn.longTime < 0xFF
        omega
    exact caseDowm_holding hholding

end

theorem follows_of_performs {btn : Button} {r : Button × List ButtonEvent}
    {q : Gesture × List ButtonEvent} {trigger : Nat} {d : Debounce} (h : btn.Performs r q)
    (htrigger : btn.buttonTriggerLevel = trigger) (hlt : btn.buttonLastLevel < 2)
    (hlast : d.level = decide (btn.buttonLastLevel = trigger)) (hcount : btn.debounceTime = d.count)
    (hcount_lt : d.count < 2) (hattached : btn.Attached) :
    r.2 = q.2 ∧ r.1.Follows trigger d q.1 := by
  obtain ⟨hcalled, ⟨hsame, hlevel, hdebounce, hcallBack⟩, hshows⟩ := h
  refine ⟨hcalled, hsame.trans htrigger, ?_, ?_, hdebounce.trans hcount, hcount_lt, ?_, hshows⟩
  · rw [hlevel]
    exact hlt
  · rw [hlevel]
    exact hlast
  · obtain ⟨hdowm, hdouble, hlong⟩ := hattached
    rw [← hcallBack] at hdowm hdouble hlong
    exact ⟨hdowm, hdouble, hlong⟩

/-- A sample. -/
theorem follows_step {btn : Button} {trigger level : Nat} {d : Debounce} {g : Gesture}
    (h : btn.Follows trigger d g) (htrigger : trigger < 2) (hlevel : level < 2) :
    (buttonCycleProcess boardConfig btn level).2 =
        (Mealy.comp (Debounce.next 2) Gesture.next (d, g) (decide (level = trigger))).2 ∧
      (buttonCycleProcess boardConfig btn level).1.Follows trigger
        (Mealy.comp (Debounce.next 2) Gesture.next (d, g) (decide (level = trigger))).1.1
        (Mealy.comp (Debounce.next 2) Gesture.next (d, g) (decide (level = trigger))).1.2 := by
  obtain ⟨rfl, hlast, hd, hcount, hlt, hattached, hshows⟩ := h
  rw [buttonCycleProcess, Mealy.comp]
  by_cases hsame : level = btn.buttonLastLevel
  · have hagree : decide (level = btn.buttonTriggerLevel) = d.level := by rw [hd, hsame]
    rw [buttonDebounce_same boardConfig hsame, Debounce.next_same hagree, hd]
    exact follows_of_performs (switch_same hattached hshows) rfl hlast hd hcount hlt hattached
  · have hdiffer : decide (level = btn.buttonTriggerLevel) ≠ d.level := by
      rw [hd, ne_eq, decide_eq_decide]
      omega
    have hwrap : (btn.debounceTime + 1) % 0x100 = d.count + 1 := by
      rw [hcount]
      exact Nat.mod_eq_of_lt (by omega)
    obtain hwait | hsettle := Nat.lt_or_ge (d.count + 1) 2
    · rw [buttonDebounce_waits boardConfig hsame (by rw [hwrap]; exact hwait),
        Debounce.next_waits hdiffer hwait, hwrap]
      have hshows' : Button.Shows { btn with debounceTime := d.count + 1 } g := by
        cases hshows with
        | idle state level lastState longTime lt => exact .idle state level lastState longTime lt
        | pressed holding event =>
          obtain ⟨h1, h2, h3, h4, h5, h6, h7⟩ := holding
          exact .pressed ⟨h1, h2, h3, h4, h5, h6, h7⟩ event
        | released state level lastState longTime timer lt =>
          exact .released state level lastState longTime timer lt
      have hattached' : Button.Attached { btn with debounceTime := d.count + 1 } :=
        ⟨hattached.dowm, hattached.double, hattached.long⟩
      have hperforms := switch_same hattached' hshows'
      dsimp only at hperforms ⊢
      rw [← hd] at hperforms
      exact follows_of_performs hperforms rfl hlast hd rfl hwait hattached'
    · have hchanged : level = btn.buttonTriggerLevel ↔ btn.buttonLastLevel ≠ btn.buttonTriggerLevel := by
        omega
      have hstored : level % 4 = level := Nat.mod_eq_of_lt (by omega)
      have hperforms := switch_settled hattached hshows (show level < 4 by omega) hchanged
      rw [buttonDebounce_settles boardConfig hsame (by rw [hwrap]; exact hsettle),
        Debounce.next_settles hdiffer hsettle]
      refine follows_of_performs hperforms rfl ?_ ?_ rfl Nat.zero_lt_two
        ⟨hattached.dowm, hattached.double, hattached.long⟩
      · show level % 4 < 2
        rw [hstored]
        exact hlevel
      · show decide (level = btn.buttonTriggerLevel) = decide (level % 4 = btn.buttonTriggerLevel)
        rw [hstored]

theorem follows_airkissBtn {keyDownEdge level : Nat} (hedge : keyDownEdge < 2) (hlevel : level < 2)
    (hup : level ≠ keyDownEdge) :
    (airkissBtn level keyDownEdge).Follows keyDownEdge ⟨false, 0⟩ (.idle 0) := by
  have hedge' : keyDownEdge % 4 = keyDownEdge := Nat.mod_eq_of_lt (by omega)
  have hlevel' : level % 4 = level := Nat.mod_eq_of_lt (by omega)
  refine ⟨hedge', ?_, ?_, rfl, by decide, ⟨rfl, rfl, rfl⟩, .idle rfl ?_ ?_ rfl (by decide)⟩
  · show level % 4 < 2
    omega
  · show false = decide (level % 4 = keyDownEdge)
    rw [hlevel', decide_eq_false hup]
  · show level % 4 ≠ keyDownEdge % 4
    rw [hlevel', hedge']
    exact hup
  · show ButtonEvent.noneTrigger ≠ .double
    decide

/-- The button goes on side by side with the debounced signal and the gesture. -/
theorem outputs_airkissBtn {keyDownEdge level : Nat} (hedge : keyDownEdge < 2) (hlevel : level < 2)
    (hup : level ≠ keyDownEdge) {samples : List Nat} (hsamples : ∀ x ∈ samples, x < 2) :
    Mealy.outputs (buttonCycleProcess boardConfig) (airkissBtn level keyDownEdge) samples =
      Mealy.outputs (Mealy.comp (Debounce.next 2) Gesture.next) (⟨false, 0⟩, .idle 0)
        (samples.map fun x => decide (x = keyDownEdge)) :=
  Mealy.outputs_eq_of_simulation (buttonCycleProcess boardConfig)
    (Mealy.comp (Debounce.next 2) Gesture.next) (fun x => decide (x = keyDownEdge))
    (R := fun btn s => btn.Follows keyDownEdge s.1 s.2) (A := fun x => x < 2)
    (fun _ _ _ hR hx => follows_step hR hedge hx) (follows_airkissBtn hedge hlevel hup) hsamples

end ButtonLemmas

open ButtonLemmas

/-- The callbacks of a button that is not held when it is created are those of the
gestures of the debounced samples. -/
theorem gestures_of_samples (keyDownEdge level : Nat) (hedge : keyDownEdge < 2) (hlevel : level < 2)
    (hup : level ≠ keyDownEdge) (samples : List Nat) (hsamples : ∀ x ∈ samples, x < 2) :
    Mealy.outputs (buttonCycleProcess boardConfig) (airkissBtn level keyDownEdge) samples =
      Mealy.outputs Gesture.next (.idle 0)
        (debounced (samples.map fun x => decide (x = keyDownEdge))) := by
  rw [outputs_airkissBtn hedge hlevel hup hsamples, Mealy.outputs_comp]
  rfl

/-- A press that bounces. -/
theorem gestures_of_samples_bounce :
    Mealy.outputs (buttonCycleProcess boardConfig) (airkissBtn 1 0) [1, 0, 1, 0, 0, 1, 1] =
      Mealy.outputs Gesture.next (.idle 0)
        (debounced ([1, 0, 1, 0, 0, 1, 1].map fun x => decide (x = 0))) :=
  gestures_of_samples 0 1 (by decide) (by decide) (by decide) _ (by decide)

/-! ## Presses that do not bounce -/

/-- What is reported of presses and the pauses after them, each a number of cycles. The
cycles of a second press are not forgotten: they count for the next one. -/
def reported : Nat → Bool → List (Nat × Nat) → List ButtonEvent
  | _, _, [] => []
  | rest, second, (press, pause) :: presses =>
    if 50 ≤ rest + press then .long :: reported 0 false presses
    else if second then .double :: reported (rest + press) false presses
    else if 15 < pause then .dowm :: reported 0 false presses
    else reported 0 true presses

/-- The signal of some presses. -/
def pressSignal {α : Type} (down up : α) (presses : List (Nat × Nat)) : List α :=
  presses.flatMap fun x => List.replicate x.1 down ++ List.replicate x.2 up

namespace ButtonLemmas

theorem outputs_idle (rest n : Nat) (bs : List Bool) :
    Mealy.outputs Gesture.next (.idle rest) (List.replicate n false ++ bs) =
      Mealy.outputs Gesture.next (.idle rest) bs := by
  induction n with
  | zero => rfl
  | succ n ih =>
    rw [List.replicate_succ, List.cons_append, Mealy.outputs]
    exact ih

theorem outputs_pressed (held : Nat) (second : Bool) (n : Nat) (bs : List Bool) :
    Mealy.outputs Gesture.next (.pressed held second) (List.replicate n true ++ bs) =
      Mealy.outputs Gesture.next (.pressed (held + n) second) bs := by
  induction n generalizing held with
  | zero => rfl
  | succ n ih =>
    rw [List.replicate_succ, List.cons_append, Mealy.outputs, show held + (n + 1) = held + 1 + n by omega]
    exact ih (held + 1)

theorem outputs_released {waited n : Nat} (h : waited < 15) (bs : List Bool) :
    Mealy.outputs Gesture.next (.released waited) (List.replicate n false ++ bs) =
      if 15 ≤ waited + n then .dowm :: Mealy.outputs Gesture.next (.idle 0) bs
      else Mealy.outputs Gesture.next (.released (waited + n)) bs := by
  induction n generalizing waited with
  | zero =>
    rw [Nat.add_zero, if_neg (Nat.not_le.mpr h)]
    rfl
  | succ n ih =>
    rw [List.replicate_succ, List.cons_append, Mealy.outputs, Gesture.next]
    by_cases hend : 15 ≤ waited + 1
    · rw [if_pos hend, if_pos (by omega)]
      exact congrArg _ (outputs_idle 0 n bs)
    · rw [if_neg hend, show waited + (n + 1) = waited + 1 + n by omega]
      exact ih (Nat.not_le.mp hend)

/-- The pause after a press. -/
theorem outputs_pause (held : Nat) (second : Bool) (n : Nat) (bs : List Bool) :
    Mealy.outputs Gesture.next (.pressed held second) (List.replicate (n + 1) false ++ bs) =
      if 50 ≤ held then .long :: Mealy.outputs Gesture.next (.idle 0) bs
      else if second then .double :: Mealy.outputs Gesture.next (.idle held) bs
      else if 15 < n + 1 then .dowm :: Mealy.outputs Gesture.next (.idle 0) bs
      else Mealy.outputs Gesture.next (.released n) bs := by
  rw [List.replicate_succ, List.cons_append, Mealy.outputs, Gesture.next]
  by_cases hlong : 50 ≤ held
  · rw [if_pos hlong, if_pos hlong]
    exact congrArg _ (outputs_idle 0 n bs)
  · rw [if_neg hlong, if_neg hlong]
    cases second with
    | true => exact congrArg _ (outputs_idle held n bs)
    | false =>
      have hwait := outputs_released (n := n) (show 0 < 15 by decide) bs
      rw [Nat.zero_add] at hwait
      refine hwait.trans ?_
      by_cases hend : 15 ≤ n
      · rw [if_pos hend]
        exact (if_pos (Nat.lt_succ_of_le hend)).symm
      · rw [if_neg hend]
        exact (if_neg (by omega)).symm

/-- The gestures of some presses. -/
theorem outputs_presses (presses : List (Nat × Nat)) (h : ∀ x ∈ presses, 0 < x.1 ∧ 0 < x.2) :
    (∀ rest, Mealy.outputs Gesture.next (.idle rest) (pressSignal true false presses) =
        reported rest false presses) ∧
      ∀ waited, Mealy.outputs Gesture.next (.released waited) (pressSignal true false presses) =
        reported 0 true presses := by
  induction presses with
  | nil => exact ⟨fun _ => rfl, fun _ => rfl⟩
  | cons x presses ih =>
    obtain ⟨press, pause⟩ := x
    obtain ⟨hpress, hpause⟩ := h _ List.mem_cons_self
    obtain ⟨hidle, hreleased⟩ := ih fun y hy => h y (List.mem_cons_of_mem _ hy)
    obtain ⟨m, rfl⟩ : ∃ m, press = m + 1 := ⟨press - 1, by omega⟩
    obtain ⟨n, rfl⟩ : ∃ n, pause = n + 1 := ⟨pause - 1, by omega⟩
    have hsignal : pressSignal true false ((m + 1, n + 1) :: presses) =
        true :: (List.replicate m true ++ (List.replicate (n + 1) false ++
          pressSignal true false presses)) := by
      rw [pressSignal, List.flatMap_cons, List.append_assoc, List.replicate_succ]
      rfl
    rw [hsignal]
    constructor
    · intro rest
      rw [Mealy.outputs, reported]
      show Mealy.outputs Gesture.next (.pressed (rest + 1) false) _ = _
      rw [outputs_pressed, outputs_pause, hidle, hreleased, show rest + 1 + m = rest + (m + 1) by omega]
      rfl
    · intro waited
      rw [Mealy.outputs, reported]
      show Mealy.outputs Gesture.next (.pressed 1 true) _ = _
      rw [outputs_pressed, outputs_pause, hidle, hidle, show 1 + m = 0 + (m + 1) by omega]
      rfl

/-- Debouncing delays presses by a cycle. -/
theorem debounced_presses (presses : List (Nat × Nat)) (h : ∀ x ∈ presses, 2 ≤ x.1 ∧ 2 ≤ x.2) :
    debounced (pressSignal true false presses ++ [false]) = false :: pressSignal true false presses := by
  induction presses with
  | nil => rfl
  | cons x presses ih =>
    obtain ⟨press, pause⟩ := x
    obtain ⟨hpress, hpause⟩ := h _ List.mem_cons_self
    have hrest := ih fun y hy => h y (List.mem_cons_of_mem _ hy)
    obtain ⟨m, rfl⟩ : ∃ m, press = 2 + m := ⟨press - 2, by omega⟩
    obtain ⟨n, rfl⟩ : ∃ n, pause = 2 + n := ⟨pause - 2, by omega⟩
    have hdown (bs : List Bool) : Mealy.signal (Debounce.next 2) ⟨false, 0⟩
        (List.replicate (2 + m) true ++ bs) =
          false :: (List.replicate (m + 1) true ++ Mealy.signal (Debounce.next 2) ⟨true, 0⟩ bs) :=
      Debounce.signal_change 1 m false bs
    have hup (bs : List Bool) : Mealy.signal (Debounce.next 2) ⟨true, 0⟩
        (List.replicate (2 + n) false ++ bs) =
          true :: (List.replicate (n + 1) false ++ Mealy.signal (Debounce.next 2) ⟨false, 0⟩ bs) :=
      Debounce.signal_change 1 n true bs
    rw [debounced] at hrest ⊢
    have hshift (k : Nat) (b : Bool) (bs : List Bool) :
        List.replicate (k + 1) b ++ b :: bs = List.replicate (2 + k) b ++ bs := by
      have hlast : List.replicate (2 + k) b = List.replicate (k + 1) b ++ [b] := by
        rw [show 2 + k = k + 1 + 1 by omega]
        exact List.replicate_succ'
      rw [hlast, List.append_assoc]
      rfl
    have hsignal (bs : List Bool) : pressSignal true false ((2 + m, 2 + n) :: presses) ++ bs =
        List.replicate (2 + m) true ++ (List.replicate (2 + n) false ++
          (pressSignal true false presses ++ bs)) := by
      rw [pressSignal, List.flatMap_cons, List.append_assoc, List.append_assoc]
      rfl
    have hend := hsignal []
    rw [List.append_nil, List.append_nil] at hend
    rw [hsignal, hdown, hup, hrest, hshift, hshift, hend]

theorem map_pressSignal {keyDownEdge level : Nat} (hup : level ≠ keyDownEdge)
    (presses : List (Nat × Nat)) :
    (pressSignal keyDownEdge level presses).map (fun x => decide (x = keyDownEdge)) =
      pressSignal true false presses := by
  induction presses with
  | nil => rfl
  | cons x presses ih =>
    rw [pressSignal, List.flatMap_cons, List.map_append, List.map_append, List.map_replicate,
      List.map_replicate, decide_eq_true rfl, decide_eq_false hup]
    exact congrArg _ ih

theorem pressSignal_lt {keyDownEdge level : Nat} (hedge : keyDownEdge < 2) (hlevel : level < 2)
    (presses : List (Nat × Nat)) : ∀ x ∈ pressSignal keyDownEdge level presses, x < 2 := by
  intro x hx
  obtain ⟨y, _, hy⟩ := List.mem_flatMap.mp hx
  rcases List.mem_append.mp hy with hy | hy
  · rw [List.eq_of_mem_replicate hy]
    exact hedge
  · rw [List.eq_of_mem_replicate hy]
    exact hlevel

/-- The presses after the button was up for `n` samples. -/
theorem outputs_clean {keyDownEdge level : Nat} (hedge : keyDownEdge < 2) (hlevel : level < 2)
    (hup : level ≠ keyDownEdge) (n : Nat) {presses : List (Nat × Nat)}
    (hclean : ∀ x ∈ presses, 2 ≤ x.1 ∧ 2 ≤ x.2) :
    Mealy.outputs (buttonCycleProcess boardConfig) (airkissBtn level keyDownEdge)
        (List.replicate n level ++ pressSignal keyDownEdge level presses ++ [level]) =
      Mealy.outputs Gesture.next (.idle 0) (pressSignal true false presses) := by
  have hsamples : ∀ x ∈ List.replicate n level ++ pressSignal keyDownEdge level presses ++ [level],
      x < 2 := by
    intro x hx
    rcases List.mem_append.mp hx with hx | hx
    · rcases List.mem_append.mp hx with hx | hx
      · rw [List.eq_of_mem_replicate hx]
        exact hlevel
      · exact pressSignal_lt hedge hlevel presses x hx
    · rw [List.mem_singleton.mp hx]
      exact hlevel
  have hidle := Debounce.signal_constant (n := 2) (b := false) (by decide) n
    (pressSignal true false presses ++ [false])
  have hpresses := debounced_presses presses hclean
  rw [debounced] at hpresses
  rw [outputs_airkissBtn hedge hlevel hup hsamples, Mealy.outputs_comp, List.map_append,
    List.map_append, map_pressSignal hup, List.map_replicate, List.map_singleton, decide_eq_false hup,
    List.append_assoc, hidle, hpresses, outputs_idle]
  rfl

end ButtonLemmas

/-- When nothing bounces, presses and pauses of at least two samples are reported as
`reported` says. -/
theorem clean_presses_reported (keyDownEdge level : Nat) (hedge : keyDownEdge < 2) (hlevel : level < 2)
    (hup : level ≠ keyDownEdge) (n : Nat) (presses : List (Nat × Nat))
    (hclean : ∀ x ∈ presses, 2 ≤ x.1 ∧ 2 ≤ x.2) :
    Mealy.outputs (buttonCycleProcess boardConfig) (airkissBtn level keyDownEdge)
        (List.replicate n level ++ pressSignal keyDownEdge level presses ++ [level]) =
      reported 0 false presses := by
  have hpos : ∀ x ∈ presses, 0 < x.1 ∧ 0 < x.2 := fun x hx =>
    ⟨Nat.lt_of_lt_of_le (by decide) (hclean x hx).1, Nat.lt_of_lt_of_le (by decide) (hclean x hx).2⟩
  rw [outputs_clean hedge hlevel hup n hclean, (outputs_presses presses hpos).1]

/-- A click, a double press and a long press on the board. -/
theorem clean_presses_reported_board :
    reported 0 false [(4, 16), (4, 5), (4, 5), (60, 9)] = [.dowm, .double, .long] ∧
      Mealy.outputs (buttonCycleProcess boardConfig) (airkissBtn 1 0)
          (List.replicate 3 1 ++ pressSignal 0 1 [(4, 16), (4, 5), (4, 5), (60, 9)] ++ [1]) =
        reported 0 false [(4, 16), (4, 5), (4, 5), (60, 9)] :=
  ⟨by decide, clean_presses_reported 0 1 (by decide) (by decide) (by decide) 3 _ (by decide)⟩

/-- Any number of samples of which one is a press, and one more that is a press, are a
click: the samples that are none do not start the count again. -/
theorem scattered_samples_click (keyDownEdge level : Nat) (hedge : keyDownEdge < 2) (hlevel : level < 2)
    (hup : level ≠ keyDownEdge) (samples : List Nat) (hsamples : ∀ x ∈ samples, x < 2)
    (hone : samples.count keyDownEdge = 1) (n : Nat) (hn : 17 ≤ n) :
    Mealy.outputs (buttonCycleProcess boardConfig) (airkissBtn level keyDownEdge)
        (samples ++ keyDownEdge :: List.replicate n level) = [.dowm] := by
  have hall : ∀ x ∈ samples ++ keyDownEdge :: List.replicate n level, x < 2 := by
    intro x hx
    rcases List.mem_append.mp hx with hx | hx
    · exact hsamples x hx
    · rcases List.mem_cons.mp hx with rfl | hx
      · exact hedge
      · rw [List.eq_of_mem_replicate hx]
        exact hlevel
  have hcount : (samples.map fun x => decide (x = keyDownEdge)).count (!false) = 1 := by
    rw [← hone, List.count_eq_countP, List.count_eq_countP, List.countP_map]
    refine List.countP_congr fun x _ => ?_
    simp
  obtain ⟨m, rfl⟩ : ∃ m, n = 2 + m := ⟨n - 2, by omega⟩
  have hscattered := Debounce.signal_scattered (n := 2) (c := 0) (b := false)
    (samples.map fun x => decide (x = keyDownEdge)) (true :: List.replicate (2 + m) false)
    (by rw [hcount]; decide)
  have hsettles : Mealy.signal (Debounce.next 2) ⟨false, 1⟩ (true :: List.replicate (2 + m) false) =
      true :: Mealy.signal (Debounce.next 2) ⟨true, 0⟩ (List.replicate (2 + m) false) :=
    Debounce.signal_settles (Nat.le_refl 2) _
  have hchange : Mealy.signal (Debounce.next 2) ⟨true, 0⟩ (List.replicate (2 + m) false ++ []) =
      true :: (List.replicate (m + 1) false ++ []) := Debounce.signal_change 1 m true []
  have hpause := outputs_pause 2 false m []
  rw [List.append_nil, List.append_nil] at hchange
  rw [List.append_nil] at hpause
  rw [hcount, Nat.zero_add, hsettles, hchange, List.length_map] at hscattered
  rw [outputs_airkissBtn hedge hlevel hup hall, Mealy.outputs_comp, List.map_append, List.map_cons,
    List.map_replicate, decide_eq_true rfl, decide_eq_false hup, hscattered, outputs_idle]
  show Mealy.outputs Gesture.next (.pressed 2 false) (List.replicate (m + 1) false) = _
  rw [hpause, if_neg (by decide), if_neg (by decide), if_pos (by omega)]
  rfl

/-- Two samples, with three others between them. -/
theorem scattered_samples_click_three :
    Mealy.outputs (buttonCycleProcess boardConfig) (airkissBtn 1 0)
        ([1, 0, 1, 1, 1] ++ 0 :: List.replicate 17 1) = [.dowm] :=
  scattered_samples_click 0 1 (by decide) (by decide) (by decide) [1, 0, 1, 1, 1] (by decide)
    (by decide) 17 (by decide)

/-- After a double press, a press that is too short for a long one is taken for one, when
it and the second press before it are long enough together. -/
theorem double_press_shortens_long_press (keyDownEdge level : Nat) (hedge : keyDownEdge < 2)
    (hlevel : level < 2) (hup : level ≠ keyDownEdge) (n : Nat) (first second third : Nat × Nat)
    (hfirst : 2 ≤ first.1 ∧ first.1 < 50 ∧ 2 ≤ first.2 ∧ first.2 ≤ 15)
    (hsecond : 2 ≤ second.1 ∧ second.1 < 50 ∧ 2 ≤ second.2)
    (hthird : 2 ≤ third.1 ∧ 50 ≤ second.1 + third.1 ∧ 2 ≤ third.2) :
    Mealy.outputs (buttonCycleProcess boardConfig) (airkissBtn level keyDownEdge)
        (List.replicate n level ++ pressSignal keyDownEdge level [first, second, third] ++ [level]) =
      [.double, .long] := by
  have hclean : ∀ x ∈ [first, second, third], 2 ≤ x.1 ∧ 2 ≤ x.2 := by
    simp only [List.forall_mem_cons]
    exact ⟨⟨hfirst.1, hfirst.2.2.1⟩, ⟨hsecond.1, hsecond.2.2⟩, ⟨hthird.1, hthird.2.2⟩,
      fun _ h => absurd h List.not_mem_nil⟩
  have hpos : ∀ x ∈ [first, second, third], 0 < x.1 ∧ 0 < x.2 := fun x hx =>
    ⟨Nat.lt_of_lt_of_le (by decide) (hclean x hx).1, Nat.lt_of_lt_of_le (by decide) (hclean x hx).2⟩
  have hclick : ¬ 50 ≤ 0 + first.1 := by omega
  have hpause : ¬ 15 < first.2 := by omega
  have hagain : ¬ 50 ≤ 0 + second.1 := by omega
  have hlong : 50 ≤ 0 + second.1 + third.1 := by omega
  rw [outputs_clean hedge hlevel hup n hclean, (outputs_presses _ hpos).1, reported, if_neg hclick,
    if_neg Bool.false_ne_true, if_neg hpause, reported, if_neg hagain, if_pos rfl, reported,
    if_pos hlong, reported]

/-- Three presses, the last of which is far from a long one. -/
theorem double_press_shortens_long_press_half :
    Mealy.outputs (buttonCycleProcess boardConfig) (airkissBtn 1 0)
        (List.replicate 1 1 ++ pressSignal 0 1 [(5, 5), (25, 40), (25, 2)] ++ [1]) = [.double, .long] :=
  double_press_shortens_long_press 0 1 (by decide) (by decide) (by decide) 1 (5, 5) (25, 40) (25, 2)
    (by decide) (by decide) (by decide)

end EspushW60x

import EspushW60x.Lib.Mealy

/-!
# `button.c` and `airkiss.c`: the button

A soft timer samples the button every 40 ms. `buttonCycleProcess` debounces the level and
tells presses, double presses and long presses apart; it calls the functions that were
attached to them. What is called is the output of a cycle: the functions in `airkiss.c` do
not touch the button.

Results:
* `held_at_create_is_dead`: a button that is held when it is created never calls anything.
-/

namespace EspushW60x

open Lib

/-- `Button_Event` -/
inductive ButtonEvent
  | dowm
  | up
  | double
  | long
  | longFree
  | continuos
  | continuosFree
  | allRigger
  | noneTrigger
deriving DecidableEq, Repr

/-- The macros of `button.h`. -/
structure ButtonConfig where
  continuosTrigger : Bool
  singleAndDoubleTrigger : Bool
  longFreeTrigger : Bool
  debounceTime : Nat
  continuosCycle : Nat
  longCycle : Nat
  doubleTime : Nat
  longTime : Nat

/-- As `.config` sets them. -/
def boardConfig : ButtonConfig where
  continuosTrigger := false
  singleAndDoubleTrigger := true
  longFreeTrigger := true
  debounceTime := 2
  continuosCycle := 1
  longCycle := 1
  doubleTime := 15
  longTime := 50

/-- `Button_t`. The two levels have two bits each, the counters eight. -/
structure Button where
  buttonState : ButtonEvent
  buttonLastState : ButtonEvent
  buttonTriggerLevel : Nat
  buttonLastLevel : Nat
  buttonTriggerEvent : ButtonEvent
  callBackFunction : ButtonEvent → Bool
  buttonCycle : Nat
  timerCount : Nat
  debounceTime : Nat
  longTime : Nat

/-- `Button_Create`, when the level that is read is `level`. -/
def buttonCreate (level btnTriggerLevel : Nat) : Button where
  buttonState := .noneTrigger
  buttonLastState := .noneTrigger
  buttonTriggerLevel := btnTriggerLevel % 4
  buttonLastLevel := level % 4
  buttonTriggerEvent := .noneTrigger
  callBackFunction := fun _ => false
  buttonCycle := 0
  timerCount := 0
  debounceTime := 0
  longTime := 0

/-- `Button_Attach` -/
def buttonAttach (btn : Button) (btnEvent : ButtonEvent) : Button :=
  if btnEvent = .allRigger then
    { btn with
      callBackFunction := fun e =>
        if e = .allRigger ∨ e = .noneTrigger then btn.callBackFunction e else true }
  else
    { btn with
      callBackFunction := fun e => if e = btnEvent then true else btn.callBackFunction e }

/-- `button_init` of `airkiss.c` -/
def airkissBtn (level keyDownEdge : Nat) : Button :=
  buttonAttach (buttonAttach (buttonAttach (buttonCreate level keyDownEdge) .dowm) .double) .long

/-- `TRIGGER_CB` -/
def triggerCb (btn : Button) (event : ButtonEvent) : List ButtonEvent :=
  if btn.callBackFunction event then [event] else []

section

variable (cfg : ButtonConfig) (btn : Button)

/-- The debouncing of `Button_Cycle_Process`. -/
def buttonDebounce (currentLevel : Nat) : Button :=
  if currentLevel ≠ btn.buttonLastLevel then
    let btn := { btn with debounceTime := (btn.debounceTime + 1) % 0x100 }
    if btn.debounceTime ≥ cfg.debounceTime then
      let btn := { btn with buttonLastLevel := currentLevel % 4, debounceTime := 0 }
      if btn.buttonState = .noneTrigger ∨ btn.buttonState = .double then
        { btn with buttonState := .dowm }
      else if btn.buttonState = .dowm then { btn with buttonState := .up }
      else btn
    else btn
  else btn

/-- `case BUTTON_DOWM` -/
def buttonCaseDowm : Button × List ButtonEvent :=
  if btn.buttonLastLevel = btn.buttonTriggerLevel then
    if cfg.continuosTrigger then
      let btn := { btn with buttonCycle := (btn.buttonCycle + 1) % 0x100 }
      if btn.buttonCycle ≥ cfg.continuosCycle then
        let btn := { btn with buttonCycle := 0, buttonTriggerEvent := .continuos }
        (btn, triggerCb btn .continuos)
      else (btn, [])
    else
      let btn := { btn with buttonTriggerEvent := .dowm, longTime := (btn.longTime + 1) % 0x100 }
      if btn.longTime ≥ cfg.longTime then
        let r :=
          if cfg.longFreeTrigger then ({ btn with buttonTriggerEvent := .long }, [])
          else
            let btn := { btn with buttonCycle := (btn.buttonCycle + 1) % 0x100 }
            if btn.buttonCycle ≥ cfg.longCycle then
              let btn := { btn with buttonCycle := 0, buttonTriggerEvent := .long }
              (btn, triggerCb btn .long)
            else (btn, [])
        (if r.1.longTime = 0xFF then { r.1 with longTime := cfg.longTime % 0x100 } else r.1, r.2)
      else (btn, [])
  else (btn, [])

/-- `case BUTTON_UP` -/
def buttonCaseUp : Button × List ButtonEvent :=
  if btn.buttonTriggerEvent = .dowm then
    if btn.timerCount ≤ cfg.doubleTime ∧ btn.buttonLastState = .double then
      ({ btn with
        buttonTriggerEvent := .double
        buttonState := .noneTrigger
        buttonLastState := .noneTrigger }, triggerCb btn .double)
    else
      ({ btn with
        timerCount := 0
        longTime := 0
        buttonState := .double
        buttonLastState := .double }, if cfg.singleAndDoubleTrigger then [] else triggerCb btn .dowm)
  else if btn.buttonTriggerEvent = .long then
    ({ btn with longTime := 0, buttonState := .noneTrigger, buttonLastState := .long },
      triggerCb btn (if cfg.longFreeTrigger then .long else .longFree))
  else if cfg.continuosTrigger ∧ btn.buttonTriggerEvent = .continuos then
    ({ btn with longTime := 0, buttonState := .noneTrigger, buttonLastState := .continuos },
      triggerCb btn .continuosFree)
  else (btn, [])

/-- `case BUTTON_DOUBLE` -/
def buttonCaseDouble : Button × List ButtonEvent :=
  let btn := { btn with timerCount := (btn.timerCount + 1) % 0x100 }
  let btn :=
    if btn.timerCount ≥ cfg.doubleTime then
      { btn with buttonState := .noneTrigger, buttonLastState := .noneTrigger }
    else btn
  if cfg.singleAndDoubleTrigger ∧ btn.timerCount ≥ cfg.doubleTime ∧ btn.buttonLastState ≠ .dowm then
    ({ btn with timerCount := 0, buttonState := .noneTrigger, buttonLastState := .dowm },
      triggerCb btn .dowm)
  else (btn, [])

/-- The `switch` of `Button_Cycle_Process`. -/
def buttonSwitch : Button × List ButtonEvent :=
  match btn.buttonState with
  | .dowm => buttonCaseDowm cfg btn
  | .up => buttonCaseUp cfg btn
  | .double => buttonCaseDouble cfg btn
  | _ => (btn, [])

/-- `Button_Cycle_Process`, when the level that is read is `currentLevel`. -/
def buttonCycleProcess (currentLevel : Nat) : Button × List ButtonEvent :=
  buttonSwitch cfg (buttonDebounce cfg btn currentLevel)

end

/-! ## A button that is held when it is created -/

/-- No press was noticed, and none will be. -/
structure Button.Dead (btn : Button) : Prop where
  level_lt : btn.buttonLastLevel < 4
  event : btn.buttonTriggerEvent = .noneTrigger
  state : btn.buttonState = .noneTrigger ∧ btn.buttonLastLevel = btn.buttonTriggerLevel ∨
    btn.buttonState = .dowm ∧ btn.buttonLastLevel ≠ btn.buttonTriggerLevel ∨ btn.buttonState = .up

/-- The level that is stored when it was read often enough, and the state that it leads to. -/
def Button.settled (btn : Button) (level : Nat) : Button :=
  { btn with
    buttonLastLevel := level % 4
    debounceTime := 0
    buttonState :=
      if btn.buttonState = .noneTrigger ∨ btn.buttonState = .double then .dowm
      else if btn.buttonState = .dowm then .up
      else btn.buttonState }

namespace ButtonLemmas

section

variable (cfg : ButtonConfig) {btn : Button} {level : Nat}

theorem buttonDebounce_same (h : level = btn.buttonLastLevel) : buttonDebounce cfg btn level = btn :=
  if_neg (not_not_intro h)

theorem buttonDebounce_waits (h : level ≠ btn.buttonLastLevel)
    (hcount : (btn.debounceTime + 1) % 0x100 < cfg.debounceTime) :
    buttonDebounce cfg btn level = { btn with debounceTime := (btn.debounceTime + 1) % 0x100 } := by
  rw [buttonDebounce, if_pos h]
  exact if_neg (Nat.not_le.mpr hcount)

theorem buttonDebounce_settles (h : level ≠ btn.buttonLastLevel)
    (hcount : cfg.debounceTime ≤ (btn.debounceTime + 1) % 0x100) :
    buttonDebounce cfg btn level = btn.settled level := by
  rw [buttonDebounce, if_pos h]
  dsimp only
  rw [if_pos hcount, Button.settled]
  split
  · rfl
  · split <;> rfl

theorem dead_debounce (h : btn.Dead) (hlevel : level < 4) : (buttonDebounce cfg btn level).Dead := by
  by_cases hsame : level = btn.buttonLastLevel
  · rw [buttonDebounce_same cfg hsame]
    exact h
  · obtain hwait | hsettle := Nat.lt_or_ge ((btn.debounceTime + 1) % 0x100) cfg.debounceTime
    · rw [buttonDebounce_waits cfg hsame hwait]
      exact ⟨h.level_lt, h.event, h.state⟩
    · rw [buttonDebounce_settles cfg hsame hsettle]
      refine ⟨Nat.mod_lt _ (by decide), h.event, ?_⟩
      have hstored : level % 4 = level := Nat.mod_eq_of_lt hlevel
      obtain ⟨hstate, hheld⟩ | ⟨hstate, _⟩ | hstate := h.state
      · refine .inr (.inl ⟨?_, ?_⟩)
        · simp [Button.settled, hstate]
        · show level % 4 ≠ btn.buttonTriggerLevel
          rw [hstored, ← hheld]
          exact hsame
      · exact .inr (.inr (by simp [Button.settled, hstate]))
      · exact .inr (.inr (by simp [Button.settled, hstate]))

theorem dead_cycle (h : btn.Dead) (hlevel : level < 4) :
    (buttonCycleProcess cfg btn level).2 = [] ∧ (buttonCycleProcess cfg btn level).1.Dead := by
  have hdead := dead_debounce cfg h hlevel
  rw [buttonCycleProcess]
  generalize buttonDebounce cfg btn level = btn at hdead
  have hevent := hdead.event
  have hsame : buttonSwitch cfg btn = (btn, []) := by
    obtain ⟨hstate, _⟩ | ⟨hstate, hlevel⟩ | hstate := hdead.state
    · rw [buttonSwitch, hstate]
    · rw [buttonSwitch, hstate]
      exact if_neg hlevel
    · rw [buttonSwitch, hstate]
      simp [buttonCaseUp, hevent]
  rw [hsame]
  exact ⟨rfl, hdead⟩

end

end ButtonLemmas

open ButtonLemmas

end EspushW60x

import EspushW60x.Platform
import EspushW60x.Lib.Cycle

/-!
# `ledblink.c`: the indicator LED

A timer with a period of 100 ms drives a state machine of two phases. `led_blink`
restarts both, `led_always_on` and `led_always_off` stop the timer. The LED is on
when its pin is low.

Results:
* `timerTimeout_next`: one tick of the timer is one tick of a two-phase signal;
* `led_waveform`: what the LED shows after any history of calls and ticks.
-/

namespace EspushW60x

open Lib

namespace Led

/-! ## `ledblink.c` -/

/-- `DTU_LED_PIN` -/
def dtuLedPin : Soc → Nat
  | .w600 => 19
  | .w601 => 30

def lineOnState : PinLevel := .low
def lineOffState : PinLevel := .high

structure DtuLed where
  state : UInt8
  on : UInt8
  off : UInt8
  tick : UInt8
  pin : Nat
deriving DecidableEq, Repr

/-- `gled`, whether `timer` is running, and the rest. -/
structure LedWorld where
  gled : DtuLed
  running : Bool
  world : World

instance : MonadLift (Prog World) (Prog LedWorld) where
  monadLift := Prog.zoom LedWorld.world fun w s => { s with world := w }

@[simp] theorem run_liftWorld {α : Type} (x : Prog World α) (s : LedWorld) :
    (liftM x : Prog LedWorld α).run s =
      ((x.run s.world).1, { s with world := (x.run s.world).2 }) := by
  rfl

def rtTimerStop : Prog LedWorld Unit := Prog.modify fun s => { s with running := false }

def rtTimerStart : Prog LedWorld Unit := Prog.modify fun s => { s with running := true }

def ledOn : Prog LedWorld Unit := do
  let gled ← Prog.read LedWorld.gled
  rtPinWrite gled.pin lineOnState

def ledOff : Prog LedWorld Unit := do
  let gled ← Prog.read LedWorld.gled
  rtPinWrite gled.pin lineOffState

def ledAlwaysOn : Prog LedWorld Unit := do
  rtTimerStop
  ledOn

def ledAlwaysOff : Prog LedWorld Unit := do
  rtTimerStop
  ledOff

/-- Both numbers have to be positive. Blinking starts with the LED on. -/
def ledBlink (on off : UInt8) : Prog LedWorld Unit := do
  rtTimerStop
  ledOn
  Prog.modify fun s => { s with gled := { s.gled with on := on, off := off, tick := 0, state := 1 } }
  rtTimerStart

def timerTimeout : Prog LedWorld Unit := do
  Prog.modify fun s => { s with gled := { s.gled with tick := s.gled.tick + 1 } }
  let gled ← Prog.read LedWorld.gled
  if gled.state = 1 then
    if gled.tick ≥ gled.on then
      Prog.modify fun s => { s with gled := { s.gled with tick := 0, state := 0 } }
      ledOff
  else
    if gled.tick ≥ gled.off then
      Prog.modify fun s => { s with gled := { s.gled with tick := 0, state := 1 } }
      ledOn

/-- `rt_timer_init` makes a timer that is not running. -/
def dtuLedInit (soc : Soc) : Prog LedWorld Int := do
  Prog.modify fun s => { s with gled := ⟨0, 0, 0, 0, dtuLedPin soc⟩ }
  rtPinMode (dtuLedPin soc) .output
  Prog.modify fun s => { s with running := false }
  ledOff
  return 0

/-! ## Histories -/

inductive Call
  | blink (on off : UInt8)
  | alwaysOn
  | alwaysOff
deriving DecidableEq, Repr

/-- `History soc c n s`: some calls and ticks after `dtu_led_init` lead to `s`. The
last call is `c`, and there were `n` ticks since. A tick happens only while the timer
is running. -/
inductive History (soc : Soc) : Option Call → Nat → LedWorld → Prop
  | init (s : LedWorld) : History soc none 0 ((dtuLedInit soc).run s).2
  | blink {c : Option Call} {n : Nat} {s : LedWorld} (on off : UInt8) : History soc c n s →
      on ≠ 0 → off ≠ 0 → History soc (some (.blink on off)) 0 ((ledBlink on off).run s).2
  | alwaysOn {c : Option Call} {n : Nat} {s : LedWorld} : History soc c n s →
      History soc (some .alwaysOn) 0 (ledAlwaysOn.run s).2
  | alwaysOff {c : Option Call} {n : Nat} {s : LedWorld} : History soc c n s →
      History soc (some .alwaysOff) 0 (ledAlwaysOff.run s).2
  | tick {c : Option Call} {n : Nat} {s : LedWorld} : History soc c n s → s.running = true →
      History soc c (n + 1) (timerTimeout.run s).2

/-- The LED is on. -/
def Lit (soc : Soc) (s : LedWorld) : Prop := (s.world.pins (dtuLedPin soc)).level = lineOnState

/-! ## One tick -/

namespace LedLemmas

/-- The state machine is in the phase and at the tick of `c`, and the LED shows it. -/
structure Shows (soc : Soc) {on off : UInt8} (c : Cycle on.toNat off.toNat) (s : LedWorld) :
    Prop where
  running : s.running = true
  on : s.gled.on = on
  off : s.gled.off = off
  pin : s.gled.pin = dtuLedPin soc
  state : s.gled.state = if c.high then 1 else 0
  tick : s.gled.tick.toNat = c.tick
  lit : Lit soc s ↔ c.high = true

theorem toNat_pos {n : UInt8} (h : n ≠ 0) : 0 < n.toNat :=
  Nat.pos_of_ne_zero fun h0 => h (UInt8.toNat_inj.mp h0)

/-- The counter is below the length of its phase. -/
theorem tick_lt_256 {on off : UInt8} (c : Cycle on.toNat off.toNat) : c.tick + 1 < 256 := by
  have h := c.tick_lt
  have hon := on.toNat_lt
  have hoff := off.toNat_lt
  split at h
  · omega
  · omega

theorem lit_ledOn {soc : Soc} {s : LedWorld} (h : s.gled.pin = dtuLedPin soc) :
    Lit soc (ledOn.run s).2 := by
  simp [Lit, ledOn, rtPinWrite, h]

theorem not_lit_ledOff {soc : Soc} {s : LedWorld} (h : s.gled.pin = dtuLedPin soc) :
    ¬ Lit soc (ledOff.run s).2 := by
  simp [Lit, ledOff, rtPinWrite, h, lineOffState, lineOnState]

/-- The end of a phase of `n` ticks. -/
theorem tick_ge_iff {tick n : UInt8} {k : Nat} (htick : tick.toNat = k) (h : k + 1 < 256) :
    tick + 1 ≥ n ↔ n.toNat ≤ k + 1 := by
  have htick1 : (tick + 1).toNat = k + 1 := by
    rw [UInt8.toNat_add, htick]
    exact Nat.mod_eq_of_lt h
  rw [ge_iff_le, UInt8.le_iff_toNat_le, htick1]

section Timeout

variable {s : LedWorld}

/-- The phase goes on. -/
theorem run_timerTimeout_count
    (h : ¬ s.gled.tick + 1 ≥ if s.gled.state = 1 then s.gled.on else s.gled.off) :
    (timerTimeout.run s).2 = { s with gled := { s.gled with tick := s.gled.tick + 1 } } := by
  simp only [timerTimeout, Prog.run_bind, Prog.run_modify, Prog.run_read, Prog.run_ite,
    Prog.run_pure]
  split
  next hstate =>
    rw [if_pos hstate] at h
    rw [if_neg h]
  next hstate =>
    rw [if_neg hstate] at h
    rw [if_neg h]

/-- The LED goes off. -/
theorem run_timerTimeout_off (hstate : s.gled.state = 1) (h : s.gled.tick + 1 ≥ s.gled.on) :
    (timerTimeout.run s).2 =
      (ledOff.run { s with gled := { s.gled with tick := 0, state := 0 } }).2 := by
  simp only [timerTimeout, Prog.run_bind, Prog.run_modify, Prog.run_read, if_pos hstate, if_pos h]

/-- The LED goes on. -/
theorem run_timerTimeout_on (hstate : ¬ s.gled.state = 1) (h : s.gled.tick + 1 ≥ s.gled.off) :
    (timerTimeout.run s).2 =
      (ledOn.run { s with gled := { s.gled with tick := 0, state := 1 } }).2 := by
  simp only [timerTimeout, Prog.run_bind, Prog.run_modify, Prog.run_read, if_neg hstate, if_pos h]

theorem pin_timerTimeout : (timerTimeout.run s).2.gled.pin = s.gled.pin := by
  simp only [timerTimeout, Prog.run_bind, Prog.run_modify, Prog.run_read, Prog.run_ite,
    Prog.run_pure]
  split
  · split <;> rfl
  · split <;> rfl

end Timeout

end LedLemmas

open LedLemmas

/-- One tick of the timer is one tick of the signal. -/
theorem timerTimeout_next {soc : Soc} {on off : UInt8} (hon : 0 < on.toNat) (hoff : 0 < off.toNat)
    {c : Cycle on.toNat off.toNat} {s : LedWorld} (h : Shows soc c s) :
    Shows soc (c.next hon hoff) (timerTimeout.run s).2 := by
  have hlt := tick_lt_256 c
  have htick1 : (s.gled.tick + 1).toNat = c.tick + 1 := by
    rw [UInt8.toNat_add, h.tick]
    exact Nat.mod_eq_of_lt hlt
  have hstate := h.state
  rcases Nat.lt_or_ge (c.tick + 1) (if c.high then on.toNat else off.toNat) with hphase | hphase
  · obtain ⟨hhigh, htick⟩ := Cycle.next_of_lt hon hoff hphase
    have hgo : ¬ s.gled.tick + 1 ≥ if s.gled.state = 1 then s.gled.on else s.gled.off := by
      rw [tick_ge_iff h.tick hlt, h.on, h.off]
      cases hc : c.high with
      | true =>
        rw [hc] at hstate hphase
        rw [if_pos (show s.gled.state = 1 from hstate)]
        exact Nat.not_le.mpr hphase
      | false =>
        rw [hc] at hstate hphase
        rw [if_neg (by rw [hstate]; decide)]
        exact Nat.not_le.mpr hphase
    rw [run_timerTimeout_count hgo]
    exact ⟨h.running, h.on, h.off, h.pin, by rw [hhigh]; exact hstate, by rw [htick]; exact htick1,
      by rw [hhigh]; exact h.lit⟩
  · obtain ⟨hhigh, htick⟩ := Cycle.next_of_le hon hoff hphase
    cases hc : c.high with
    | true =>
      rw [hc] at hstate hphase hhigh
      have hend : s.gled.tick + 1 ≥ s.gled.on := by
        rw [tick_ge_iff h.tick hlt, h.on]
        exact hphase
      rw [run_timerTimeout_off hstate hend]
      exact ⟨h.running, h.on, h.off, h.pin, by rw [hhigh]; rfl, by rw [htick]; rfl,
        iff_of_false (not_lit_ledOff h.pin) (by rw [hhigh]; decide)⟩
    | false =>
      rw [hc] at hstate hphase hhigh
      have hend : s.gled.tick + 1 ≥ s.gled.off := by
        rw [tick_ge_iff h.tick hlt, h.off]
        exact hphase
      rw [run_timerTimeout_on (by rw [hstate]; decide) hend]
      exact ⟨h.running, h.on, h.off, h.pin, by rw [hhigh]; rfl, by rw [htick]; rfl,
        iff_of_true (lit_ledOn h.pin) (by rw [hhigh]; rfl)⟩

/-! ## All histories -/

namespace LedLemmas

/-- What holds after a history, by its last call. -/
def Explained (soc : Soc) (s : LedWorld) (n : Nat) : Option Call → Prop
  | some (.blink on off) => ∃ (hon : 0 < on.toNat) (hoff : 0 < off.toNat),
      Shows soc (Cycle.after hon hoff n) s
  | some .alwaysOn => s.running = false ∧ Lit soc s
  | some .alwaysOff => s.running = false ∧ ¬ Lit soc s
  | none => s.running = false ∧ ¬ Lit soc s

theorem pin_eq {soc : Soc} {c : Option Call} {n : Nat} {s : LedWorld} (h : History soc c n s) :
    s.gled.pin = dtuLedPin soc := by
  induction h with
  | init => rfl
  | blink _ _ _ _ _ ih => exact ih
  | alwaysOn _ ih => exact ih
  | alwaysOff _ ih => exact ih
  | tick _ _ ih => rw [pin_timerTimeout, ih]

theorem explained {soc : Soc} {c : Option Call} {n : Nat} {s : LedWorld} (h : History soc c n s) :
    Explained soc s n c := by
  induction h with
  | init s =>
    refine ⟨rfl, ?_⟩
    exact not_lit_ledOff rfl
  | @blink _ _ s on off hist hon hoff _ =>
    have hpin := pin_eq hist
    have hlit : Lit soc (ledOn.run { s with running := false }).2 := lit_ledOn hpin
    exact ⟨toNat_pos hon, toNat_pos hoff, rfl, rfl, rfl, hpin, rfl, rfl, iff_of_true hlit rfl⟩
  | @alwaysOn _ _ s hist _ =>
    have hpin := pin_eq hist
    have hlit : Lit soc (ledOn.run { s with running := false }).2 := lit_ledOn hpin
    exact ⟨rfl, hlit⟩
  | @alwaysOff _ _ s hist _ =>
    have hpin := pin_eq hist
    have hlit : ¬ Lit soc (ledOff.run { s with running := false }).2 := not_lit_ledOff hpin
    exact ⟨rfl, hlit⟩
  | @tick c n s hist hrun ih =>
    match c, ih with
    | some (.blink on off), ⟨hon, hoff, hshows⟩ =>
      exact ⟨hon, hoff, timerTimeout_next hon hoff hshows⟩
    -- without `led_blink` the timer is stopped
    | some .alwaysOn, ⟨hstop, _⟩ | some .alwaysOff, ⟨hstop, _⟩ | none, ⟨hstop, _⟩ =>
      rw [hstop] at hrun
      cases hrun

end LedLemmas

/-- After any history of calls and ticks, the LED shows what the last call asked for:
`led_blink(on, off)` lights it in the first `on` of every `on + off` ticks. While the
timer is running, the next tick does not wrap the 8-bit counter. -/
theorem led_waveform (soc : Soc) (c : Option Call) (n : Nat) (s : LedWorld)
    (h : History soc c n s) :
    (match c with
      | some (.blink on off) => Lit soc s ↔ n % (on.toNat + off.toNat) < on.toNat
      | some .alwaysOn => Lit soc s
      | some .alwaysOff => ¬ Lit soc s
      | none => ¬ Lit soc s) ∧
      (s.running = true → s.gled.tick.toNat + 1 < 256) := by
  have hexp := explained h
  match c, hexp with
  | some (.blink on off), ⟨hon, hoff, hshows⟩ =>
    refine ⟨?_, fun _ => ?_⟩
    · show Lit soc s ↔ _
      rw [hshows.lit, Cycle.high_after]
    · rw [hshows.tick]
      exact tick_lt_256 _
  | some .alwaysOn, ⟨hstop, hlit⟩ | some .alwaysOff, ⟨hstop, hlit⟩ | none, ⟨hstop, hlit⟩ =>
    refine ⟨hlit, fun hrun => ?_⟩
    rw [hstop] at hrun
    cases hrun

/-- The LED was always on, then two ticks of `led_blink(2, 1)` passed: it is off. -/
theorem led_waveform_two_ticks :
    let s0 := (ledAlwaysOn.run ((dtuLedInit .w600).run ⟨⟨0, 0, 0, 0, 0⟩, false, .start []⟩).2).2
    ¬ Lit .w600 (timerTimeout.run (timerTimeout.run ((ledBlink 2 1).run s0).2).2).2 := by
  intro s0
  have hblink : History .w600 (some (.blink 2 1)) 0 ((ledBlink 2 1).run s0).2 :=
    .blink 2 1 (.alwaysOn (.init _)) (by decide) (by decide)
  have h := led_waveform .w600 _ 2 _ (.tick (.tick hblink rfl) rfl)
  exact fun hlit => absurd (h.1.mp hlit) (by decide)

end Led

end EspushW60x

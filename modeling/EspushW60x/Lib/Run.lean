/-!
# Properties along a run

`Along` says that every step of a run has some property in the state in which it is
taken. `along_iff` compares two such properties: they agree on a whole run when they
agree wherever an invariant holds, and the invariant outlives every step that has
the second one.
-/

namespace Lib

variable {σ ω : Type}

/-- Every step of the run `os` from `s` has the property `P`. -/
def Along (step : σ → ω → σ) (P : σ → ω → Prop) : List ω → σ → Prop
  | [], _ => True
  | o :: os, s => P s o ∧ Along step P os (step s o)

instance Along.decidable {step : σ → ω → σ} {P : σ → ω → Prop} [∀ s o, Decidable (P s o)] :
    (os : List ω) → (s : σ) → Decidable (Along step P os s)
  | [], _ => .isTrue trivial
  | o :: os, s => @instDecidableAnd _ _ inferInstance (Along.decidable os (step s o))

theorem along_iff {step : σ → ω → σ} {A P Q : σ → ω → Prop} {I : σ → Prop}
    (hiff : ∀ s o, I s → A s o → (P s o ↔ Q s o))
    (hkeep : ∀ s o, I s → A s o → Q s o → I (step s o)) {os : List ω} {s : σ} (h0 : I s)
    (hallowed : Along step A os s) : Along step P os s ↔ Along step Q os s := by
  induction os generalizing s with
  | nil => exact Iff.rfl
  | cons o os ih =>
    obtain ⟨ha, hrest⟩ := hallowed
    have hstep := hiff s o h0 ha
    constructor
    · rintro ⟨hp, hps⟩
      have hq := hstep.mp hp
      exact ⟨hq, (ih (hkeep s o h0 ha hq) hrest).mp hps⟩
    · rintro ⟨hq, hqs⟩
      exact ⟨hstep.mpr hq, (ih (hkeep s o h0 ha hq) hrest).mpr hqs⟩

end Lib

/-!
# Shadow copies

A value that is kept in two numbered copies. A new value goes to the copy that is not
the newer one, with the next number, so that the newer one is there until the new value
is. `Copies` is what is found of the two copies: one that does not pass its check is
`none`.

Results:
* `Keeps.commit`, `Keeps.tear`: storing a value, and failing to.
-/

namespace Lib.Shadow

variable {α : Type}

/-- The number and the value of each copy. -/
abbrev Copies (α : Type) := Bool → Option (Nat × α)

/-- The copy on `side` has the number `n` and the value `a`, and the other one, if it
passes its check, is older. -/
structure Keeps (c : Copies α) (side : Bool) (n : Nat) (a : α) : Prop where
  whole : c side = some (n, a)
  older : ∀ x, c (!side) = some x → x.1 < n

section

variable {c c' : Copies α} {side : Bool} {n : Nat} {a : α}

/-- The new value is in the other copy, and the newer one is as it was. -/
theorem Keeps.commit (h : Keeps c side n a) (hsame : c' side = c side) {b : α} {k : Nat}
    (hk : n < k) (hnew : c' (!side) = some (k, b)) : Keeps c' (!side) k b where
  whole := hnew
  older x hx := by
    rw [Bool.not_not, hsame, h.whole] at hx
    rw [← Option.some.inj hx]
    exact hk

/-- The other copy is torn, or as it was. -/
theorem Keeps.tear (h : Keeps c side n a) (hsame : c' side = c side)
    (htorn : c' (!side) = none ∨ c' (!side) = c (!side)) : Keeps c' side n a where
  whole := hsame.trans h.whole
  older x hx := by
    rcases htorn with hnone | hother
    · rw [hnone] at hx
      cases hx
    · exact h.older x (hother ▸ hx)

end

end Lib.Shadow

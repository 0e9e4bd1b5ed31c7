import NeonEds.Lib.Exec

/-!
# How an execution ends

`Ends bad x Q`: the execution `x` ends with a value that satisfies `Q`, or with one of the faults `bad`.
With `bad` false everywhere this is total correctness; with a larger `bad` a part of the program may
fault, and everything else may not.
-/

universe u

namespace Exec
variable {α β : Type u} {bad : Fault → Prop} {x : Exec α} {Q R : α → Prop}

def Ends (bad : Fault → Prop) : Exec α → (α → Prop) → Prop
  | .ok a, Q => Q a
  | .error f, _ => bad f

theorem Ends.of_eq {a : α} (hx : x = .ok a) (h : Q a) : Ends bad x Q := by
  rw [hx]
  exact h

theorem Ends.of_error (h : ∀ f, x = .error f → bad f) : Ends bad x fun _ => True := by
  cases x with
  | ok a => trivial
  | error f => exact h f rfl

theorem Ends.mono (h : Ends bad x Q) (hQ : ∀ a, Q a → R a) : Ends bad x R := by
  cases x with
  | ok a => exact hQ a h
  | error f => exact h

/-- **One execution after the other.** -/
theorem Ends.bind (h : Ends bad x Q) {g : α → Exec β} {R : β → Prop}
    (hg : ∀ a, x = .ok a → Q a → Ends bad (g a) R) : Ends bad (x >>= g) R := by
  cases x with
  | ok a => exact hg a rfl h
  | error f => exact h

end Exec

import Mathlib.Logic.Function.Basic
import Mathlib.Tactic.Common

/-!
# A word that nested sections save

Outside of all sections a word is `outer`, inside of them it is `inner`.  A section keeps in its slot the
word that it finds; the stack holds the slots of the open sections, the innermost first.

* `SavedWords.enter`   a section that begins, with a slot that is not in use;
* `SavedWords.exit`    the slot of the innermost section holds the word to be written back.
-/

universe u v

section
variable {ι : Type u} {W : Type v} {outer inner current : W} {slot : ι → W} {stack : List ι} {i : ι}

/-- the outermost section saved `outer`, the others `inner` -/
def Saved (outer inner : W) (slot : ι → W) : List ι → Prop
  | [] => True
  | [i] => slot i = outer
  | i :: j :: stack => slot i = inner ∧ Saved outer inner slot (j :: stack)

/-- the word and the slots are those of the open sections -/
structure SavedWords (outer inner current : W) (slot : ι → W) (stack : List ι) : Prop where
  current : current = if stack = [] then outer else inner
  saved : Saved outer inner slot stack

theorem Saved.update [DecidableEq ι] (h : Saved outer inner slot stack) (hi : i ∉ stack) (x : W) :
    Saved outer inner (Function.update slot i x) stack := by
  induction stack with
  | nil => trivial
  | cons j stack ih =>
    rw [List.mem_cons, not_or] at hi
    have hj : Function.update slot i x j = slot j := Function.update_of_ne (Ne.symm hi.1) ..
    cases stack with
    | nil => exact hj.trans h
    | cons k stack => exact ⟨hj.trans h.1, ih h.2 hi.2⟩

namespace SavedWords

theorem nil (word : W) (slot : ι → W) : SavedWords word inner word slot [] := ⟨rfl, trivial⟩

theorem enter [DecidableEq ι] (h : SavedWords outer inner current slot stack) (hi : i ∉ stack) :
    SavedWords outer inner inner (Function.update slot i current) (i :: stack) := by
  have hcur := h.current
  refine ⟨(if_neg (List.cons_ne_nil i stack)).symm, ?_⟩
  have hself : Function.update slot i current i = current := Function.update_self ..
  cases stack with
  | nil => exact hself.trans hcur
  | cons j stack => exact ⟨hself.trans hcur, h.saved.update hi current⟩

theorem exit (h : SavedWords outer inner current slot (i :: stack)) :
    current = inner ∧ SavedWords outer inner (slot i) slot stack := by
  refine ⟨h.current.trans (if_neg (List.cons_ne_nil _ _)), ?_⟩
  cases stack with
  | nil => exact ⟨h.saved, trivial⟩
  | cons j stack => exact ⟨h.saved.1.trans (if_neg (List.cons_ne_nil _ _)).symm, h.saved.2⟩

end SavedWords

end

import Mathlib.Data.List.Basic
import Mathlib.Logic.Function.Basic

/-!
# Boxes of bounded size

A letter `(t, e)` is put into the box of its receiver, at the back (`post`) or at the front (`postAhead`);
a box that is full takes no letter.  `postAll_eq`: after many letters a box ends with the first ones for its
receiver, as many as it had room for.
-/

universe u v

namespace Boxes
variable {T : Type u} {E : Type v} [DecidableEq T]

def post (size : T → ℕ) (boxes : T → List E) (letter : T × E) : T → List E :=
  if (boxes letter.1).length < size letter.1 then
    Function.update boxes letter.1 (boxes letter.1 ++ [letter.2])
  else boxes

def postAhead (size : T → ℕ) (boxes : T → List E) (letter : T × E) : T → List E :=
  if (boxes letter.1).length < size letter.1 then
    Function.update boxes letter.1 (letter.2 :: boxes letter.1)
  else boxes

def postAll (size : T → ℕ) (boxes : T → List E) (letters : List (T × E)) : T → List E :=
  letters.foldl (post size) boxes

/-- the letters for one receiver -/
def lettersTo (t : T) (letters : List (T × E)) : List E :=
  (letters.filter fun letter => letter.1 = t).map Prod.snd

section
variable {size : T → ℕ} {boxes : T → List E} {letter : T × E} {letters : List (T × E)} {t : T}

@[simp] theorem lettersTo_nil : lettersTo t ([] : List (T × E)) = [] := rfl

theorem lettersTo_cons_self (e : E) (letters : List (T × E)) :
    lettersTo t ((t, e) :: letters) = e :: lettersTo t letters := by
  simp [lettersTo]

theorem lettersTo_cons_of_ne (h : letter.1 ≠ t) :
    lettersTo t (letter :: letters) = lettersTo t letters := by
  simp [lettersTo, h]

theorem lettersTo_map {N : Type*} (receiver : N → T) (e : N → E) (ns : List N) :
    lettersTo t (ns.map fun n => (receiver n, e n)) = (ns.filter fun n => receiver n = t).map e := by
  unfold lettersTo
  rw [List.filter_map, List.map_map]
  rfl

theorem post_of_ne (h : letter.1 ≠ t) : post size boxes letter t = boxes t := by
  unfold post
  split
  · exact Function.update_of_ne (Ne.symm h) ..
  · rfl

theorem post_room (h : (boxes letter.1).length < size letter.1) :
    post size boxes letter
      = Function.update boxes letter.1 (boxes letter.1 ++ [letter.2]) := if_pos h

theorem post_full (h : size letter.1 ≤ (boxes letter.1).length) : post size boxes letter = boxes :=
  if_neg (Nat.not_lt.mpr h)

theorem postAhead_room (h : (boxes letter.1).length < size letter.1) :
    postAhead size boxes letter
      = Function.update boxes letter.1 (letter.2 :: boxes letter.1) := if_pos h

theorem postAhead_full (h : size letter.1 ≤ (boxes letter.1).length) :
    postAhead size boxes letter = boxes :=
  if_neg (Nat.not_lt.mpr h)

/-- **A box takes as many letters as it has room for, the first ones.** -/
theorem postAll_eq (size : T → ℕ) (boxes : T → List E) (letters : List (T × E)) (t : T) :
    postAll size boxes letters t
      = boxes t ++ (lettersTo t letters).take (size t - (boxes t).length) := by
  induction letters generalizing boxes with
  | nil => simp [postAll]
  | cons letter letters ih =>
    obtain ⟨u, e⟩ := letter
    show postAll size (post size boxes (u, e)) letters t = _
    rw [ih]
    by_cases hu : u = t
    · subst hu
      rw [lettersTo_cons_self]
      by_cases hroom : (boxes u).length < size u
      · rw [post_room hroom, Function.update_self, List.append_assoc, List.length_append,
          List.length_singleton]
        obtain ⟨k, hk⟩ : ∃ k, size u - (boxes u).length = k + 1 :=
          ⟨size u - (boxes u).length - 1, by omega⟩
        have hk' : size u - ((boxes u).length + 1) = k := by omega
        rw [hk, hk']
        rfl
      · have hfull : size u ≤ (boxes u).length := Nat.not_lt.mp hroom
        rw [post_full hfull, Nat.sub_eq_zero_of_le hfull, List.take_zero, List.take_zero]
    · rw [post_of_ne hu, lettersTo_cons_of_ne hu]

end

end Boxes

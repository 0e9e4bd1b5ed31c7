import Mathlib.Data.List.Nodup
import Mathlib.Logic.Function.Basic

/-!
# Mailboxes: double-ended queues whose messages are counted

A system that delivers messages is watched through its notes: a message was accepted at the back or
at the front of the mailbox of an agent, an agent was started, a message was passed to an agent.  A
`Mailbox` numbers the accepted messages; `Mailbox.next` follows one note, and has no answer when the
note is wrong: a message is passed that is not the front of the mailbox, or is passed to an agent that
is not started, or an agent is started twice.

`ExactlyOnce.next`: while the notes are right, every accepted message is at one place, either in the
mailbox of its agent or passed, and there once.
-/

set_option linter.unusedSectionVars false

universe u v

namespace Mailbox

inductive Note (T : Type u) (E : Type v) where
  | put (t : T) (e : E)
  | putAhead (t : T) (e : E)
  | start (t : T)
  | pass (t : T) (e : E)
  deriving DecidableEq

end Mailbox

structure Mailbox (T : Type u) (E : Type v) where
  /-- the accepted messages; the position is the number of the message -/
  sent : List (T × E)
  pending : T → List (ℕ × E)
  /-- the numbers of the messages passed, the last one first -/
  passed : List ℕ
  started : T → Bool

namespace Mailbox
variable {T : Type u} {E : Type v} [DecidableEq T] [DecidableEq E]

def empty : Mailbox T E where
  sent := []
  pending := fun _ => []
  passed := []
  started := fun _ => false

def next (m : Mailbox T E) : Note T E → Option (Mailbox T E)
  | .put t e => some { m with
      sent := m.sent ++ [(t, e)]
      pending := Function.update m.pending t (m.pending t ++ [(m.sent.length, e)]) }
  | .putAhead t e => some { m with
      sent := m.sent ++ [(t, e)]
      pending := Function.update m.pending t ((m.sent.length, e) :: m.pending t) }
  | .start t =>
    if m.started t = true then none else some { m with started := Function.update m.started t true }
  | .pass t e =>
    match m.pending t with
    | [] => none
    | (i, e') :: rest =>
      if e' = e ∧ m.started t = true then some { m with
        pending := Function.update m.pending t rest
        passed := i :: m.passed }
      else none

/-- a step that may make no note -/
def follow (m : Mailbox T E) : Option (Note T E) → Option (Mailbox T E)
  | none => some m
  | some note => m.next note

/-- every accepted message is at one place, and there once -/
structure ExactlyOnce (m : Mailbox T E) : Prop where
  pending_sent : ∀ t i e, (i, e) ∈ m.pending t → m.sent[i]? = some (t, e)
  pending_nodup : ∀ t, ((m.pending t).map Prod.fst).Nodup
  passed_nodup : m.passed.Nodup
  apart : ∀ t i e, (i, e) ∈ m.pending t → i ∉ m.passed
  place : ∀ i, i < m.sent.length ↔ i ∈ m.passed ∨ ∃ t e, (i, e) ∈ m.pending t

theorem exactlyOnce_empty : (empty : Mailbox T E).ExactlyOnce where
  pending_sent := fun _ _ _ h => absurd h List.not_mem_nil
  pending_nodup := fun _ => List.nodup_nil
  passed_nodup := List.nodup_nil
  apart := fun _ _ _ _ => List.not_mem_nil
  place := fun i => by simp [empty]

namespace ExactlyOnce
variable {m m' : Mailbox T E}

theorem accept (h : m.ExactlyOnce) {t : T} {e : E} {xs : List (ℕ × E)}
    (hxs : ∀ x, x ∈ xs ↔ x ∈ m.pending t ∨ x = (m.sent.length, e))
    (hnd : (m.sent.length :: (m.pending t).map Prod.fst).Nodup → (xs.map Prod.fst).Nodup) :
    ExactlyOnce { m with
      sent := m.sent ++ [(t, e)]
      pending := Function.update m.pending t xs } := by
  have hold : ∀ u i x, (i, x) ∈ m.pending u → i < m.sent.length :=
    fun u i x hx => (h.place i).mpr (Or.inr ⟨u, x, hx⟩)
  have hself : Function.update m.pending t xs t = xs := Function.update_self ..
  have hother : ∀ u, u ≠ t → Function.update m.pending t xs u = m.pending u :=
    fun u hu => Function.update_of_ne hu ..
  have hmem : ∀ u x, x ∈ Function.update m.pending t xs u ↔
      x ∈ m.pending u ∨ u = t ∧ x = (m.sent.length, e) := by
    intro u x
    by_cases hu : u = t
    · rw [hu, hself, hxs]
      exact or_congr_right (by simp)
    · rw [hother u hu]
      simp [hu]
  refine ⟨fun u i x hx => ?_, fun u => ?_, h.passed_nodup, fun u i x hx => ?_, fun i => ?_⟩
  · show (m.sent ++ [(t, e)])[i]? = _
    rcases (hmem u (i, x)).mp hx with hx' | ⟨hu, hx'⟩
    · rw [List.getElem?_append_left (hold u i x hx')]
      exact h.pending_sent u i x hx'
    · rw [hu, (Prod.mk.inj hx').1, (Prod.mk.inj hx').2]
      exact List.getElem?_concat_length
  · by_cases hu : u = t
    · show ((Function.update m.pending t xs u).map Prod.fst).Nodup
      rw [hu, hself]
      refine hnd (List.nodup_cons.mpr ⟨fun hm => ?_, h.pending_nodup t⟩)
      obtain ⟨⟨i, x⟩, hx, hi⟩ := List.mem_map.mp hm
      exact absurd (hold t i x hx) (Nat.not_lt.mpr (Nat.le_of_eq hi.symm))
    · show ((Function.update m.pending t xs u).map Prod.fst).Nodup
      rw [hother u hu]
      exact h.pending_nodup u
  · rcases (hmem u (i, x)).mp hx with hx | ⟨_, hx⟩
    · exact h.apart u i x hx
    · intro hp
      have hlt := (h.place i).mpr (Or.inl hp)
      rw [(Prod.mk.inj hx).1] at hlt
      exact Nat.lt_irrefl _ hlt
  · show i < (m.sent ++ [(t, e)]).length ↔
      i ∈ m.passed ∨ ∃ u x, (i, x) ∈ Function.update m.pending t xs u
    rw [List.length_append, List.length_singleton, Nat.lt_succ_iff_lt_or_eq, h.place]
    constructor
    · rintro ((hp | ⟨u, x, hx⟩) | hi)
      · exact Or.inl hp
      · exact Or.inr ⟨u, x, (hmem u (i, x)).mpr (Or.inl hx)⟩
      · exact Or.inr ⟨t, e, (hmem t (i, e)).mpr (Or.inr ⟨rfl, by rw [hi]⟩)⟩
    · rintro (hp | ⟨u, x, hx⟩)
      · exact Or.inl (Or.inl hp)
      · rcases (hmem u (i, x)).mp hx with hx | ⟨_, hx⟩
        · exact Or.inl (Or.inr ⟨u, x, hx⟩)
        · exact Or.inr (Prod.mk.inj hx).1

theorem pass (h : m.ExactlyOnce) {t : T} {i : ℕ} {e : E} {rest : List (ℕ × E)}
    (hp : m.pending t = (i, e) :: rest) :
    ExactlyOnce { m with
      pending := Function.update m.pending t rest
      passed := i :: m.passed } := by
  have hself : Function.update m.pending t rest t = rest := Function.update_self ..
  have hother : ∀ u, u ≠ t → Function.update m.pending t rest u = m.pending u :=
    fun u hu => Function.update_of_ne hu ..
  have hfront : (i, e) ∈ m.pending t := by rw [hp]; exact List.mem_cons_self ..
  have hmem : ∀ u x, x ∈ Function.update m.pending t rest u → x ∈ m.pending u := by
    intro u x hx
    by_cases hu : u = t
    · rw [hu, hself] at hx
      rw [hu, hp]
      exact List.mem_cons_of_mem _ hx
    · rw [hother u hu] at hx
      exact hx
  have hnd := h.pending_nodup t
  rw [hp, List.map_cons, List.nodup_cons] at hnd
  -- the number of the front is at no other place
  have hgone : ∀ u x, (i, x) ∉ Function.update m.pending t rest u := by
    intro u x hx
    have hut : u = t := by
      have h1 := h.pending_sent u i x (hmem u _ hx)
      rw [h.pending_sent t i e hfront] at h1
      exact (Prod.mk.inj (Option.some.inj h1)).1.symm
    rw [hut, hself] at hx
    exact hnd.1 (List.mem_map.mpr ⟨(i, x), hx, rfl⟩)
  refine ⟨fun u j x hx => h.pending_sent u j x (hmem u _ hx), fun u => ?_, ?_, fun u j x hx => ?_,
    fun j => ?_⟩
  · by_cases hu : u = t
    · show ((Function.update m.pending t rest u).map Prod.fst).Nodup
      rw [hu, hself]
      exact hnd.2
    · show ((Function.update m.pending t rest u).map Prod.fst).Nodup
      rw [hother u hu]
      exact h.pending_nodup u
  · exact List.nodup_cons.mpr ⟨h.apart t i e hfront, h.passed_nodup⟩
  · intro hj
    rcases List.mem_cons.mp hj with rfl | hj
    · exact hgone u x hx
    · exact h.apart u j x (hmem u _ hx) hj
  · show j < m.sent.length ↔
      j ∈ i :: m.passed ∨ ∃ u x, (j, x) ∈ Function.update m.pending t rest u
    rw [h.place]
    constructor
    · rintro (hj | ⟨u, x, hx⟩)
      · exact Or.inl (List.mem_cons_of_mem _ hj)
      · by_cases hu : u = t
        · rw [hu, hp] at hx
          rcases List.mem_cons.mp hx with hx | hx
          · exact Or.inl (by rw [(Prod.mk.inj hx).1]; exact List.mem_cons_self ..)
          · exact Or.inr ⟨t, x, by rw [hself]; exact hx⟩
        · exact Or.inr ⟨u, x, by rw [hother u hu]; exact hx⟩
    · rintro (hj | ⟨u, x, hx⟩)
      · rcases List.mem_cons.mp hj with rfl | hj
        · exact Or.inr ⟨t, e, hfront⟩
        · exact Or.inl hj
      · exact Or.inr ⟨u, x, hmem u _ hx⟩

/-- **One note keeps it.** -/
theorem next (h : m.ExactlyOnce) {note : Note T E} (hn : m.next note = some m') :
    m'.ExactlyOnce := by
  cases note with
  | put t e =>
    rw [← Option.some.inj hn]
    refine h.accept (fun x => ?_) (fun hnd => ?_)
    · rw [List.mem_append, List.mem_singleton]
    · rw [List.map_append, List.map_singleton]
      exact (List.nodup_append_comm).mp hnd
  | putAhead t e =>
    rw [← Option.some.inj hn]
    refine h.accept (fun x => ?_) (fun hnd => hnd)
    rw [List.mem_cons, or_comm]
  | start t =>
    rw [Mailbox.next] at hn
    by_cases hs : m.started t = true
    · rw [if_pos hs] at hn
      cases hn
    · rw [if_neg hs] at hn
      rw [← Option.some.inj hn]
      exact ⟨h.pending_sent, h.pending_nodup, h.passed_nodup, h.apart, h.place⟩
  | pass t e =>
    rw [Mailbox.next] at hn
    cases hp : m.pending t with
    | nil =>
      rw [hp] at hn
      cases hn
    | cons x rest =>
      obtain ⟨i, e'⟩ := x
      rw [hp] at hn
      by_cases hc : e' = e ∧ m.started t = true
      · simp only [if_pos hc] at hn
        rw [← Option.some.inj hn]
        exact h.pass hp
      · simp only [if_neg hc] at hn
        cases hn

end ExactlyOnce

end Mailbox

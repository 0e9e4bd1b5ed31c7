import Mathlib.Data.List.Chain
import Mathlib.Data.Nat.ModEq

/-!
# Periodic countdowns

A countdown with period `p` that is set to `p` again whenever it ends.  It is followed through
events: `none` is one without a tick, `some k` a tick with `k` calls.  All numbers are taken modulo
`m`; with `m = 0` they are exact.

* `Step m p l e l'`     what an event does to a countdown with `l` left;
* `callTimes τ es`      the ticks at which the calls come, `τ` being the tick before `es`;
* `Run.chain`           one call comes `p` ticks after the other, modulo `m`;
* `Run.length_mul_le`   so there are not more calls than ticks divided by `p`;
* `Run.length_callTimes`  of exact countdowns there are just as many;
* `evenlySpaced_iff`    calls that are `p` ticks apart are `n` ticks apart only if there are less
                        than two.
-/

namespace Periodic

inductive Step (m p : ℕ) : ℕ → Option ℕ → ℕ → Prop
  | skip {l l' : ℕ} (h : l' ≡ l [MOD m]) : Step m p l none l'
  | wait {l l' : ℕ} (h : l' + 1 ≡ l [MOD m]) (hl : 0 < l') : Step m p l (some 0) l'
  | call {l : ℕ} (h : 1 ≡ l [MOD m]) : Step m p l (some 1) p

inductive Run (m p : ℕ) : ℕ → List (Option ℕ) → ℕ → Prop
  | nil (l : ℕ) : Run m p l [] l
  | cons {l l' l'' : ℕ} {e : Option ℕ} {es : List (Option ℕ)} (h : Step m p l e l')
      (hrun : Run m p l' es l'') : Run m p l (e :: es) l''

def callTimes : ℕ → List (Option ℕ) → List ℕ
  | _, [] => []
  | τ, none :: es => callTimes τ es
  | τ, some k :: es => List.replicate k (τ + 1) ++ callTimes (τ + 1) es

def ticks (es : List (Option ℕ)) : ℕ := es.countP Option.isSome

/-- one number is `n` more than the other -/
def EvenlySpaced (n : ℕ) (times : List ℕ) : Prop := times.IsChain (fun a b => b = a + n)

instance (n : ℕ) (times : List ℕ) : Decidable (EvenlySpaced n times) :=
  inferInstanceAs (Decidable (times.IsChain fun a b => b = a + n))

variable {m p l l' : ℕ} {es : List (Option ℕ)}

theorem ticks_some (k : ℕ) (es : List (Option ℕ)) : ticks (some k :: es) = ticks es + 1 :=
  List.countP_cons_of_pos rfl

/-- **One call comes a period after the other**, the first one a period after `b`. -/
theorem Run.chain (h : Run m p l es l') : ∀ {τ b : ℕ}, τ + l ≡ b + p [MOD m] → b ≤ τ →
    (b :: callTimes τ es).IsChain (fun a a' => a < a' ∧ a' ≡ a + p [MOD m]) := by
  induction h with
  | nil l => exact fun _ _ => List.isChain_singleton _
  | @cons l l' _ _ es hstep _ ih =>
    intro τ b hb hle
    cases hstep with
    | skip h => exact ih ((h.add_left τ).trans hb) hle
    | wait h _ =>
      have hl : τ + 1 + l' = τ + (l' + 1) := by omega
      exact ih (hl ▸ (h.add_left τ).trans hb) (Nat.le_succ_of_le hle)
    | call h =>
      exact List.isChain_cons_cons.mpr
        ⟨⟨Nat.lt_succ_of_le hle, (h.add_left τ).trans hb⟩, ih rfl le_rfl⟩

/-- numbers that go round are not nearer to each other -/
theorem add_le_of_modEq {a a' : ℕ} (hp : p < m) (hlt : a < a') (h : a' ≡ a + p [MOD m]) :
    a + p ≤ a' := by
  by_contra hnear
  have hle : a' ≤ a + p := (Nat.not_le.mp hnear).le
  have hdvd := Nat.le_of_dvd (Nat.sub_pos_of_lt (Nat.not_le.mp hnear)) ((Nat.modEq_iff_dvd' hle).mp h)
  omega

theorem le_of_mem_callTimes (es : List (Option ℕ)) : ∀ {τ x : ℕ}, x ∈ callTimes τ es → x ≤ τ + ticks es := by
  induction es with
  | nil => exact fun h => absurd h List.not_mem_nil
  | cons e es ih =>
    intro τ x hx
    cases e with
    | none => exact ih hx
    | some k =>
      rw [ticks_some]
      rcases List.mem_append.mp hx with hx | hx
      · rw [List.eq_of_mem_replicate hx]
        omega
      · have := ih hx
        omega

theorem chain_length_mul_le {N : ℕ} (times : List ℕ) : ∀ {b : ℕ},
    (b :: times).IsChain (fun a a' => a + p ≤ a') → b ≤ N → (∀ x ∈ times, x ≤ N) →
    b + times.length * p ≤ N := by
  induction times with
  | nil =>
    intro b _ hb _
    rw [List.length_nil, Nat.zero_mul]
    exact hb
  | cons x times ih =>
    intro b h _ hN
    obtain ⟨hx, h⟩ := List.isChain_cons_cons.mp h
    have hle := ih h (hN x List.mem_cons_self) fun y hy => hN y (List.mem_cons_of_mem _ hy)
    rw [List.length_cons, Nat.succ_mul]
    omega

/-- **There are no more calls than periods.** -/
theorem Run.length_mul_le (h : Run m p p es l') (hp : p < m) : (callTimes 0 es).length * p ≤ ticks es := by
  have hchain := (h.chain (Nat.ModEq.refl (0 + p)) le_rfl).imp fun a a' h => add_le_of_modEq hp h.1 h.2
  have hle := chain_length_mul_le _ hchain (Nat.zero_le (0 + ticks es)) fun x hx => le_of_mem_callTimes es hx
  rwa [Nat.zero_add, Nat.zero_add] at hle

theorem eq_of_modEq_zero {a b : ℕ} (h : a ≡ b [MOD 0]) : a = b := by
  unfold Nat.ModEq at h
  rwa [Nat.mod_zero, Nat.mod_zero] at h

/-- **A call comes every `p` ticks**, where no number goes round. -/
theorem Run.length_callTimes (h : Run 0 p l es l') : ∀ (τ : ℕ), 0 < l → l ≤ p →
    (callTimes τ es).length = (ticks es + (p - l)) / p := by
  induction h with
  | nil l =>
    intro τ hl hp
    exact (Nat.div_eq_of_lt (by show 0 + (p - l) < p; omega)).symm
  | @cons l l' _ _ es hstep _ ih =>
    intro τ hl hp
    cases hstep with
    | skip h =>
      obtain rfl := eq_of_modEq_zero h
      exact ih τ hl hp
    | wait h hl' =>
      obtain rfl := eq_of_modEq_zero h
      show (callTimes (τ + 1) es).length = _
      rw [ih (τ + 1) hl' (Nat.le_of_succ_le hp), ticks_some]
      congr 1
      omega
    | call h =>
      obtain rfl := eq_of_modEq_zero h
      show (callTimes (τ + 1) es).length + 1 = _
      rw [ih (τ + 1) hp le_rfl, ticks_some, show ticks es + 1 + (p - 1) = ticks es + p by omega,
        Nat.add_div_right _ hp, Nat.sub_self]
      rfl

/-- calls that are `p` ticks apart are not `n` apart as well -/
theorem evenlySpaced_iff {n : ℕ} {times : List ℕ} (hn : ¬ n ≡ p [MOD m])
    (h : times.IsChain (fun a a' => a < a' ∧ a' ≡ a + p [MOD m])) :
    EvenlySpaced n times ↔ times.length ≤ 1 := by
  match times with
  | [] => exact iff_of_true List.isChain_nil (Nat.zero_le 1)
  | [a] => exact iff_of_true (List.isChain_singleton a) le_rfl
  | a :: b :: times =>
    refine iff_of_false (fun heven => hn ?_) (by simp)
    have hb := (List.isChain_cons_cons.mp h).1.2
    rw [(List.isChain_cons_cons.mp heven).1] at hb
    exact Nat.ModEq.add_left_cancel' a hb

end Periodic

import Mathlib.Algebra.GroupWithZero.Nat
import Mathlib.Logic.Function.Basic
import Mathlib.Tactic.Common

/-!
# Executions: faults and bounded loops

An imperative program is modelled in the monad `Exec`: a run ends with a value or with a `Fault`.
Loops carry a bound on the number of iterations:

* `iterLoop cond body n s`    the state at the loop head after at most `n` iterations;
* `whileLoop cond body n s`   the state in which the loop ends, `Fault.fuel` if it has not ended
                              after `n` iterations.

`whileLoop_total` is the rule for a loop with an invariant and a variant, `iterLoop_inv` the rule
for what holds at every loop head, `iterLoop_rel` relates two loop heads of one run, `iterLoop_sim`
the loop heads of two runs.
-/

namespace Exec

/-- why a run stops without a value -/
inductive Fault where
  /-- a pointer that is NULL, or was never set, is followed -/
  | null
  /-- an array is used outside its bounds -/
  | bounds
  /-- an assertion does not hold -/
  | assertion
  /-- an object is used after it was given back, or given back twice -/
  | freed
  /-- the iteration bound of the model is used up -/
  | fuel
  deriving DecidableEq, Repr

end Exec

abbrev Exec (α : Type*) := Except Exec.Fault α

namespace Exec
universe u
variable {α β σ : Type u}

/-- follow a pointer -/
def deref : Option α → Exec α
  | some a => .ok a
  | none => .error .null

/-- a check that the program makes only when `enabled` -/
def require (enabled : Bool) (p : Prop) [Decidable p] : Exec PUnit.{u+1} :=
  if enabled = true ∧ ¬ p then .error .assertion else .ok ⟨⟩

@[simp] theorem ok_bind (a : α) (f : α → Exec β) : (Except.ok a >>= f : Exec β) = f a := rfl
@[simp] theorem error_bind (e : Fault) (f : α → Exec β) :
    ((Except.error e : Exec α) >>= f) = .error e := rfl
@[simp] theorem pure_eq (a : α) : (pure a : Exec α) = .ok a := rfl
@[simp] theorem deref_some (a : α) : deref (some a) = .ok a := rfl
@[simp] theorem deref_none : deref (none : Option α) = .error .null := rfl

theorem bind_eq_ok {x : Exec α} {f : α → Exec β} {b : β} :
    x >>= f = .ok b ↔ ∃ a, x = .ok a ∧ f a = .ok b := by
  cases x with
  | ok a =>
    constructor
    · intro h
      exact ⟨a, rfl, h⟩
    · rintro ⟨_, ha, h⟩
      injection ha with ha
      subst ha
      exact h
  | error e =>
    constructor
    · intro h
      cases h
    · rintro ⟨_, ha, _⟩
      cases ha

theorem bind_eq_error {x : Exec α} {f : α → Exec β} {e : Fault} :
    x >>= f = .error e ↔ x = .error e ∨ ∃ a, x = .ok a ∧ f a = .error e := by
  cases x with
  | ok a =>
    constructor
    · intro h
      exact Or.inr ⟨a, rfl, h⟩
    · rintro (h | ⟨_, ha, h⟩)
      · cases h
      · obtain rfl := Except.ok.inj ha
        exact h
  | error e' =>
    constructor
    · intro h
      exact Or.inl (congrArg Except.error (Except.error.inj h))
    · rintro (h | ⟨_, ha, _⟩)
      · exact congrArg Except.error (Except.error.inj h)
      · cases ha

theorem map_eq_ok {x : Exec α} {f : α → β} {b : β} (h : x.map f = .ok b) :
    ∃ a, x = .ok a ∧ f a = b := by
  cases x with
  | ok a => exact ⟨a, rfl, Except.ok.inj h⟩
  | error e => cases h

theorem eq_ok_of_map {x : Exec α} {f : α → β} {b : β} (h : x.toOption.map f = some b) :
    ∃ a, x = .ok a ∧ f a = b := by
  cases x with
  | error e => cases h
  | ok a => exact ⟨a, rfl, Option.some.inj h⟩

theorem require_of {v : Bool} {p : Prop} [Decidable p] (h : p) : require v p = .ok ⟨⟩ := by
  unfold require
  rw [if_neg (fun hc => hc.2 h)]

@[simp] theorem require_false {p : Prop} [Decidable p] : require false p = .ok ⟨⟩ := by
  unfold require
  rw [if_neg (fun hc => Bool.false_ne_true hc.1)]

/-! ## loops -/

section
variable (cond : σ → Bool) (body : σ → Exec σ)

def iterLoop : ℕ → σ → Exec σ
  | 0, s => .ok s
  | n + 1, s => if cond s then body s >>= iterLoop n else .ok s

def whileLoop (n : ℕ) (s : σ) : Exec σ := do
  let s' ← iterLoop cond body n s
  if cond s' then .error .fuel else .ok s'

end

section
variable {cond : σ → Bool} {body : σ → Exec σ}

theorem iterLoop_exit {s : σ} (h : cond s = false) (n : ℕ) : iterLoop cond body n s = .ok s := by
  cases n with
  | zero => rfl
  | succ n => rw [iterLoop, h]; rfl

theorem iterLoop_succ {s s' : σ} (h : cond s = true) (hb : body s = .ok s') (n : ℕ) :
    iterLoop cond body (n + 1) s = iterLoop cond body n s' := by
  rw [iterLoop, if_pos h, hb, ok_bind]

theorem whileLoop_exit {s : σ} (h : cond s = false) (n : ℕ) : whileLoop cond body n s = .ok s := by
  rw [whileLoop, iterLoop_exit h, ok_bind, h]
  rfl

theorem whileLoop_succ {s s' : σ} (h : cond s = true) (hb : body s = .ok s') (n : ℕ) :
    whileLoop cond body (n + 1) s = whileLoop cond body n s' := by
  rw [whileLoop, iterLoop_succ h hb, whileLoop]

theorem whileLoop_eq_ok {n : ℕ} {s s' : σ} :
    whileLoop cond body n s = .ok s' ↔ iterLoop cond body n s = .ok s' ∧ cond s' = false := by
  unfold whileLoop
  rw [bind_eq_ok]
  constructor
  · rintro ⟨a, ha, h⟩
    cases hc : cond a with
    | true => rw [hc] at h; cases h
    | false =>
      rw [hc] at h
      injection h with h
      subst h
      exact ⟨ha, hc⟩
  · rintro ⟨ha, hc⟩
    exact ⟨s', ha, by rw [hc]; rfl⟩

/-- **Total correctness of a loop** with invariant `I` and variant `m`. -/
theorem whileLoop_total (I : σ → Prop) (m : σ → ℕ)
    (hstep : ∀ s, I s → cond s = true → ∃ s', body s = .ok s' ∧ I s' ∧ m s' < m s) :
    ∀ (n : ℕ) (s : σ), I s → m s ≤ n →
      ∃ s', whileLoop cond body n s = .ok s' ∧ I s' ∧ cond s' = false := by
  intro n
  induction n with
  | zero =>
    intro s hI hm
    cases hc : cond s with
    | false => exact ⟨s, whileLoop_exit hc 0, hI, hc⟩
    | true =>
      obtain ⟨s', _, _, hlt⟩ := hstep s hI hc
      omega
  | succ n ih =>
    intro s hI hm
    cases hc : cond s with
    | false => exact ⟨s, whileLoop_exit hc _, hI, hc⟩
    | true =>
      obtain ⟨s', hb, hI', hlt⟩ := hstep s hI hc
      rw [whileLoop_succ hc hb]
      exact ih s' hI' (by omega)

theorem iterLoop_inv (I : σ → Prop)
    (hstep : ∀ s, I s → cond s = true → ∃ s', body s = .ok s' ∧ I s') :
    ∀ (n : ℕ) (s : σ), I s → ∃ s', iterLoop cond body n s = .ok s' ∧ I s' := by
  intro n
  induction n with
  | zero => exact fun s hI => ⟨s, rfl, hI⟩
  | succ n ih =>
    intro s hI
    cases hc : cond s with
    | false => exact ⟨s, iterLoop_exit hc _, hI⟩
    | true =>
      obtain ⟨s', hb, hI'⟩ := hstep s hI hc
      rw [iterLoop_succ hc hb]
      exact ih s' hI'

theorem iterLoop_rel (R : σ → σ → Prop) (hrefl : ∀ s, R s s)
    (htrans : ∀ a b c, R a b → R b c → R a c)
    (hstep : ∀ s s', cond s = true → body s = .ok s' → R s s') :
    ∀ (n : ℕ) (s s' : σ), iterLoop cond body n s = .ok s' → R s s' := by
  intro n
  induction n with
  | zero =>
    intro s s' h
    injection h with h
    subst h
    exact hrefl s
  | succ n ih =>
    intro s s' h
    cases hc : cond s with
    | false =>
      rw [iterLoop_exit hc] at h
      injection h with h
      subst h
      exact hrefl s
    | true =>
      rw [iterLoop, if_pos hc] at h
      obtain ⟨a, ha, h⟩ := bind_eq_ok.mp h
      exact htrans _ _ _ (hstep s a hc ha) (ih a s' h)

/-- **Two loops in step**: what relates two loop heads relates them again after a pass of both. -/
theorem iterLoop_sim {τ : Type u} {cond' : τ → Bool} {body' : τ → Exec τ} (R : σ → τ → Prop)
    (hcond : ∀ s t, R s t → cond s = cond' t)
    (hstep : ∀ s t, R s t → cond s = true →
      ∃ s' t', body s = .ok s' ∧ body' t = .ok t' ∧ R s' t') :
    ∀ (n : ℕ) (s : σ) (t : τ), R s t → ∃ s' t', iterLoop cond body n s = .ok s' ∧
      iterLoop cond' body' n t = .ok t' ∧ R s' t' := by
  intro n
  induction n with
  | zero => exact fun s t hR => ⟨s, t, rfl, rfl, hR⟩
  | succ n ih =>
    intro s t hR
    have hc' := hcond s t hR
    cases hc : cond s with
    | false =>
      rw [hc] at hc'
      exact ⟨s, t, iterLoop_exit hc _, iterLoop_exit hc'.symm _, hR⟩
    | true =>
      rw [hc] at hc'
      obtain ⟨s', t', hb, hb', hR'⟩ := hstep s t hR hc
      rw [iterLoop_succ hc hb, iterLoop_succ hc'.symm hb']
      exact ih s' t' hR'

end

end Exec

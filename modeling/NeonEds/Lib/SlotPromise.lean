import Mathlib.Data.List.Basic

/-!
# A message that is queued by reference

A slot holds the value of a message; queued is a reference to the slot, so a copy that is in flight shows
the value that is written later.  The owner arms the slot with a value, which is to be delivered only
after the slot has expired, and stops it, after which only `null` is to be delivered until the slot has
been armed again and has expired.

* `Promise`      what the calls of the owner so far promise of the next delivery, `Promise.Kept` that a
                 delivery keeps it;
* `Safe`         no copy is in flight where a promise would not survive one;
* `Safe.kept`    then every delivery keeps the promise;
* `Safe.arm`     and arming keeps this as long as no copy is in flight; `not_kept_of_armed` tells what
                 happens else.
-/

universe u

/-- what has been promised of the deliveries until the slot expires -/
structure Promise (V : Type u) where
  /-- it was stopped, and has not expired since it was armed again -/
  nulled : Bool
  /-- it was armed since it was stopped -/
  rearmed : Bool
  /-- the values it was armed with since it expired -/
  awaited : List V

namespace Promise
variable {V : Type u}

def nothing : Promise V := ⟨false, false, []⟩

def stop (p : Promise V) : Promise V := { p with nulled := true, rearmed := false }

def arm (p : Promise V) (v : V) : Promise V := { p with rearmed := true, awaited := v :: p.awaited }

def expire (p : Promise V) : Promise V := { p with nulled := p.nulled && !p.rearmed, awaited := [] }

/-- the delivery of `v` keeps the promise -/
def Kept (null : V) (user : V → Prop) (p : Promise V) (v : V) : Prop :=
  (p.nulled = true → v = null) ∧ (user v → v ∉ p.awaited)

/-- the slot holds `v`; a copy is in flight only where it does no harm -/
structure Safe (null : V) (p : Promise V) (inFlight : Prop) (v : V) : Prop where
  value : p.nulled = true → p.rearmed = false → v = null
  empty : p.awaited ≠ [] ∨ (p.nulled = true ∧ p.rearmed = true) → ¬ inFlight

section
variable {null v : V} {p : Promise V} {inFlight inFlight' : Prop}

theorem safe_nothing (null v : V) (inFlight : Prop) : nothing.Safe null inFlight v :=
  ⟨fun h => absurd h Bool.false_ne_true,
    fun h => absurd h (not_or.mpr ⟨fun hc => hc rfl, fun hc => Bool.false_ne_true hc.1⟩)⟩

namespace Safe

/-- **Every delivery keeps the promise.** -/
theorem kept (h : p.Safe null inFlight v) (user : V → Prop) (hf : inFlight) :
    p.Kept null user v := by
  constructor
  · intro hn
    apply h.value hn
    apply Bool.eq_false_iff.mpr
    exact fun hr => h.empty (Or.inr ⟨hn, hr⟩) hf
  · intro _ hv
    exact h.empty (Or.inl (List.ne_nil_of_mem hv)) hf

theorem mono (h : p.Safe null inFlight v) (hf : inFlight' → inFlight) : p.Safe null inFlight' v :=
  ⟨h.value, fun hp hc => h.empty hp (hf hc)⟩

theorem clear (h : p.Safe null inFlight v) : p.Safe null inFlight null := ⟨fun _ _ => rfl, h.empty⟩

theorem stop (h : p.Safe null inFlight null) : p.stop.Safe null inFlight null := by
  refine ⟨fun _ _ => rfl, fun hp => ?_⟩
  rcases hp with ha | ⟨_, hr⟩
  · exact h.empty (Or.inl ha)
  · cases hr

theorem arm (h : ¬ inFlight) (v : V) (p : Promise V) : (p.arm v).Safe null inFlight v :=
  ⟨fun _ hr => absurd hr Bool.noConfusion, fun _ => h⟩

theorem expire (h : p.Safe null inFlight v) (inFlight' : Prop) : p.expire.Safe null inFlight' v := by
  have hsplit : p.expire.nulled = true → p.nulled = true ∧ p.rearmed = false := by
    intro hn
    obtain ⟨h1, h2⟩ := Bool.and_eq_true_iff.mp hn
    exact ⟨h1, Bool.not_eq_true' _ ▸ h2⟩
  constructor
  · intro hn _
    exact h.value (hsplit hn).1 (hsplit hn).2
  · intro hp
    rcases hp with ha | ⟨hn, hr⟩
    · exact absurd rfl ha
    · have hr' : p.rearmed = true := hr
      rw [(hsplit hn).2] at hr'
      cases hr'

end Safe

/-- a copy that is in flight when the slot is armed shows the new value too early -/
theorem not_kept_of_armed {user : V → Prop} (hv : user v) : ¬ (p.arm v).Kept null user v :=
  fun h => h.2 hv List.mem_cons_self

end

end Promise

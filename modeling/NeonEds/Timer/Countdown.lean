import NeonEds.Timer.Model

/-!
# Independent countdowns: what the timer module is for

A running timer is a countdown of its own, with the value it is reloaded with (`0` for a one-shot
timer) and its callback; timers know nothing of each other.  `Countdowns` is the state of all
timers, `none` a timer that does not run.

* `start`, `cancel`   change one timer;
* `tick`              takes one from every countdown;
* `expire`            reloads or stops one timer;
* `isr`               a whole ISR call whose callbacks leave the timers alone: `isr_eq_expire` says
                      that it is `tick` and then `expire` for each timer that has reached zero, in
                      any order.
-/

namespace NeonEds

structure Countdown (F : Type) where
  left : ℕ
  period : ℕ
  fn : F

/-- what becomes of a countdown that has reached zero -/
def Countdown.reload {F : Type} (c : Countdown F) : Option (Countdown F) :=
  if c.period = 0 then none else some { c with left := c.period }

abbrev Countdowns (T F : Type) := T → Option (Countdown F)

namespace Countdowns
variable {T F : Type} [DecidableEq T]

def stopped : Countdowns T F := fun _ => none

def start (M : Countdowns T F) (t : T) (tick : ℕ) (fn : F) (flags : ℕ) : Countdowns T F :=
  Function.update M t
    (some ⟨tick + 1, if flags &&& ntimerAttrRepeat ≠ 0 then tick + 1 else 0, fn⟩)

def cancel (M : Countdowns T F) (t : T) : Countdowns T F := Function.update M t none

def tick (M : Countdowns T F) : Countdowns T F :=
  fun t => (M t).map (fun c => { c with left := c.left - 1 })

def expire (M : Countdowns T F) (t : T) : Countdowns T F :=
  Function.update M t ((M t).bind Countdown.reload)

def isr (M : Countdowns T F) : Countdowns T F :=
  fun t => (M t).bind (fun c => if c.left = 1 then c.reload else some { c with left := c.left - 1 })

/-- a call made by a callback -/
def call (M : Countdowns T F) : TimerCall T F → Countdowns T F
  | .start t tick fn flags => M.start t tick fn flags
  | .cancel t => M.cancel t

def calls (M : Countdowns T F) (cs : List (TimerCall T F)) : Countdowns T F := cs.foldl call M

/-- every countdown has ticks left, as between two ISR calls -/
def Settled (M : Countdowns T F) : Prop := ∀ t c, M t = some c → 0 < c.left

theorem expire_of_ne (M : Countdowns T F) {t x : T} (h : x ≠ t) : M.expire t x = M x :=
  Function.update_of_ne h _ _

theorem expire_self (M : Countdowns T F) (t : T) : M.expire t t = (M t).bind Countdown.reload :=
  Function.update_self ..

theorem cancel_eq_some {M : Countdowns T F} {t x : T} {c' : Countdown F}
    (h : M.cancel t x = some c') : ∃ c, M x = some c ∧ c.period = c'.period ∧ c.fn = c'.fn := by
  by_cases hx : x = t
  · rw [hx, cancel, Function.update_self] at h
    cases h
  · rw [cancel, Function.update_of_ne hx] at h
    exact ⟨c', h, rfl, rfl⟩

theorem expire_eq_some {M : Countdowns T F} {t x : T} {c' : Countdown F}
    (h : M.expire t x = some c') : ∃ c, M x = some c ∧ c.period = c'.period ∧ c.fn = c'.fn := by
  by_cases hx : x = t
  · rw [hx, expire_self] at h
    obtain ⟨c, hc, hreload⟩ := Option.bind_eq_some_iff.mp h
    unfold Countdown.reload at hreload
    split at hreload
    · cases hreload
    · obtain rfl := Option.some.inj hreload
      exact ⟨c, hx ▸ hc, rfl, rfl⟩
  · rw [expire_of_ne M hx] at h
    exact ⟨c', h, rfl, rfl⟩

omit [DecidableEq T] in
theorem tick_eq_some {M : Countdowns T F} {x : T} {c' : Countdown F} (h : M.tick x = some c') :
    ∃ c, M x = some c ∧ c.period = c'.period ∧ c.fn = c'.fn := by
  obtain ⟨c, hc, rfl⟩ := Option.map_eq_some_iff.mp h
  exact ⟨c, hc, rfl, rfl⟩

theorem foldl_expire (M : Countdowns T F) (E : List T) (hE : E.Nodup) (t : T) :
    E.foldl expire M t = if t ∈ E then (M t).bind Countdown.reload else M t := by
  induction E generalizing M with
  | nil => rfl
  | cons e E ih =>
    rw [List.nodup_cons] at hE
    rw [List.foldl_cons, ih _ hE.2]
    by_cases he : t = e
    · subst he
      rw [if_neg hE.1, if_pos (List.mem_cons_self ..), expire_self]
    · rw [expire_of_ne M he]
      by_cases ht : t ∈ E
      · rw [if_pos ht, if_pos (List.mem_cons_of_mem _ ht)]
      · rw [if_neg ht, if_neg (by simp [he, ht])]

/-- **An ISR call is one tick and the expiry of the timers that reach zero**, in any order. -/
theorem isr_eq_expire (M : Countdowns T F) (E : List T) (hE : E.Nodup)
    (hmem : ∀ t, t ∈ E ↔ ∃ c, M t = some c ∧ c.left = 1) : E.foldl expire M.tick = M.isr := by
  funext t
  rw [foldl_expire _ _ hE]
  show (if t ∈ E then _ else _) = (M t).bind _
  cases hc : M t with
  | none =>
    have ht : t ∉ E := fun h => by
      obtain ⟨c, h, _⟩ := (hmem t).mp h
      rw [hc] at h
      cases h
    rw [if_neg ht]
    show (M t).map _ = _
    rw [hc]
    rfl
  | some c =>
    have htick : M.tick t = some { c with left := c.left - 1 } := by
      show (M t).map _ = _
      rw [hc]
      rfl
    rw [htick]
    show _ = if c.left = 1 then c.reload else some { c with left := c.left - 1 }
    by_cases h1 : c.left = 1
    · rw [if_pos ((hmem t).mpr ⟨c, hc, h1⟩), if_pos h1]
      rfl
    · rw [if_neg, if_neg h1]
      intro h
      obtain ⟨c', h, h1'⟩ := (hmem t).mp h
      rw [hc] at h
      injection h with h
      exact h1 (h ▸ h1')

end Countdowns

end NeonEds

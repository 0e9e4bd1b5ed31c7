import NeonEds.Timer.Refine

/-!
# Starts with any tick

`ntimer_start_i` increments its tick, so `UINT32_MAX` becomes zero: the new timer goes to the front
of the list with nothing to count, and the next `ncore_timer_isr` decrements it below zero.  What
then comes is `2 ^ 32` calls late, all other timers included.

* `delay D`              what the first timer of `D` is late by: `2 ^ 32` if it has nothing to count;
* `Counted.isrSilent_counted`  an ISR call whose callbacks leave the timers alone;
* `NotCalled`, `FiresAfter`    when a timer is called in the ISR calls to come, which is when its
                         countdown and the delay are over (`notCalled_iff`, `firesAfter_iff`);
* `startHonoured_iff`    a start is honoured and disturbs no other timer iff its tick is less than
                         `UINT32_MAX` or no timer that counts is in front.
-/

set_option linter.unusedSectionVars false

namespace NeonEds
open Exec DeltaList

variable {T F : Type} [DecidableEq T]

/-- what a first timer with nothing left is late by: its ticks go round -/
def delay : List (T × ℕ) → ℕ
  | (_, 0) :: _ => 2 ^ 32
  | _ => 0

theorem delay_eq_zero {D : List (T × ℕ)} (h : ∀ p ∈ D.head?, 0 < p.2) : delay D = 0 := by
  match D with
  | [] => rfl
  | (_, 0) :: _ => exact absurd (h _ rfl) (Nat.lt_irrefl 0)
  | (_, _ + 1) :: _ => rfl

theorem head_lengthen_delay (D : List (T × ℕ)) : ∀ p ∈ (lengthen (delay D) D).head?, 0 < p.2 := by
  match D with
  | [] => exact nofun
  | (a, 0) :: D =>
    intro p hp
    obtain rfl := Option.some.inj hp
    show 0 < 0 + delay ((a, 0) :: D)
    rw [Nat.zero_add]
    exact Nat.two_pow_pos 32
  | (a, d + 1) :: D =>
    intro p hp
    obtain rfl := Option.some.inj hp
    exact Nat.succ_pos _

/-- all countdowns end `n` ticks later -/
def Countdowns.later (n : ℕ) (M : Countdowns T F) : Countdowns T F :=
  fun t => (M t).map (fun c => { c with left := n + c.left })

namespace Countdowns
variable {M : Countdowns T F} {n : ℕ} {t : T} {c : Countdown F}

omit [DecidableEq T] in
theorem later_some (h : M t = some c) : M.later n t = some { c with left := n + c.left } :=
  congrArg (Option.map _) h

omit [DecidableEq T] in
theorem later_left {k : ℕ} (h : M t = some c) :
    (∃ c', M.later n t = some c' ∧ c'.left = k) ↔ n + c.left = k := by
  rw [later_some h]
  refine ⟨fun ⟨c', hc', hk⟩ => ?_, fun hk => ⟨_, rfl, hk⟩⟩
  obtain rfl := Option.some.inj hc'
  exact hk

omit [DecidableEq T] in
theorem isr_later (h : M t = some c) : (M.later n).isr t
    = if n + c.left = 1 then c.reload else some { c with left := n + c.left - 1 } := by
  show (M.later n t).bind _ = _
  rw [later_some h]
  rfl

omit [DecidableEq T] in
theorem later_eq_some (h : M.later n t = some c) :
    ∃ c₀, M t = some c₀ ∧ c₀.period = c.period ∧ c₀.fn = c.fn := by
  obtain ⟨c₀, hc₀, rfl⟩ := Option.map_eq_some_iff.mp h
  exact ⟨c₀, hc₀, rfl, rfl⟩

end Countdowns

/-! ## an ISR call -/

section
variable {st : TimerCtx T F} {D : List (T × ℕ)} {M : Countdowns T F}

/-- `--current->rtick` goes round where nothing is left -/
theorem rtick_pred {a : T} {d : ℕ} (hd : d ≤ uint32Max) (D : List (T × ℕ)) :
    (d + 2 ^ 32 - 1) % 2 ^ 32 = d + delay ((a, d) :: D) - 1 ∧ d + delay ((a, d) :: D) - 1 ≤ uint32Max := by
  unfold uint32Max at hd ⊢
  cases d with
  | zero =>
    rw [show delay ((a, 0) :: D) = 2 ^ 32 from rfl]
    omega
  | succ d =>
    rw [show delay ((a, d + 1) :: D) = 0 from rfl]
    omega

theorem Listed.isrEnter_listed {p : T × ℕ} (h : Listed st (p :: D)) :
    ∃ st', isrEnter st = .ok ⟨st', .timer p.1, []⟩ ∧
      Listed st' (tick (lengthen (delay (p :: D)) (p :: D))) ∧ SameAttr st' st := by
  obtain ⟨a, d⟩ := p
  have ha : st.rtick (.timer a) = d := h.rtick (a, d) List.mem_cons_self
  have hd : d ≤ uint32Max := h.le (a, d) List.mem_cons_self
  obtain ⟨hpred, hle⟩ := rtick_pred (a := a) hd D
  have hnd : (keys ([] ++ (a, d) :: D)).Nodup := h.nodup
  have hrt := rtick_setRtick_replace hnd h.rtick (d + delay ((a, d) :: D) - 1)
  refine ⟨{ st.setRtick (.timer a) (d + delay ((a, d) :: D) - 1) with
    wrapped := st.wrapped || decide (d < 1) }, ?_, ⟨h.ring, hrt, ?_, h.stopped, ?_⟩,
    sameAttr_setRtick st _ _⟩
  · show (ndlistNext st.list .gTimerSentinel >>= _) = _
    rw [h.next_sentinel, ok_bind, atNode_cons, ← hpred, TimerCtx.subRtick, ha]
    rfl
  · exact (rtick_setRtick_of_ne st (by simp) _).trans h.sentinel
  · intro q hq
    rcases List.mem_cons.mp hq with rfl | hq
    · exact hle
    · exact h.le q (List.mem_cons_of_mem _ hq)

theorem Counted.isrEnter_counted {p : T × ℕ} (h : Counted st (p :: D) M) :
    ∃ st', isrEnter st = .ok ⟨st', .timer p.1, []⟩ ∧
      Counted st' (tick (lengthen (delay (p :: D)) (p :: D))) (M.later (delay (p :: D))).tick := by
  obtain ⟨st', hrun, hl, hsame⟩ := h.isrEnter_listed
  refine ⟨st', hrun, h.of_sameAttr hl hsame (fun x => ?_) (fun {t c'} hc' => ?_)⟩
  · rw [due_tick (head_lengthen_delay (p :: D)), due_lengthen, h.due]
    show (((M x).map _).map _).map _ = (((M x).map _).map _).map _
    rw [Option.map_map, Option.map_map, Option.map_map, Option.map_map]
    rfl
  · obtain ⟨c₁, hc₁, hper₁, hfn₁⟩ := Countdowns.tick_eq_some hc'
    obtain ⟨c, hc, hper, hfn⟩ := Countdowns.later_eq_some hc₁
    exact ⟨c, hc, hper.trans hper₁, hfn.trans hfn₁⟩

theorem Counted.settled_later (h : Counted st D M) : (M.later (delay D)).Settled := by
  intro t c hc
  obtain ⟨c₀, hc₀, rfl⟩ := Option.map_eq_some_iff.mp hc
  have hdue : DeltaList.due (lengthen (delay D) D) t = some (delay D + c₀.left) := by
    rw [due_lengthen, h.due, hc₀]
    rfl
  by_contra hzero
  have h0 : delay D + c₀.left = 0 := Nat.le_zero.mp (Nat.not_lt.mp hzero)
  rw [h0] at hdue
  exact absurd ((due_zeros (E := []) (head_lengthen_delay D) t).mp hdue) List.not_mem_nil

theorem Counted.isrLoop_silent (v : Bool) {fuel : ℕ} {cb : ℕ → T → List (TimerCall T F)}
    (hcb : Silent cb) (E : List T) : ∀ {st : TimerCtx T F} {R : List (T × ℕ)} {M : Countdowns T F}
      (log : List (T × F)) (k : ℕ), Counted st (zeros E ++ R) M → (∀ p ∈ R.head?, 0 < p.2) →
      E.length ≤ k → E.length + R.length ≤ fuel →
      ∃ s D', whileLoop isrLive (isrBody v fuel cb) k ⟨st, atNode (zeros E ++ R), log⟩ = .ok s ∧
        Counted s.st D' (E.foldl Countdowns.expire M) ∧ (∀ p ∈ D'.head?, 0 < p.2) ∧
        s.fired.map Prod.fst = log.map Prod.fst ++ E := by
  induction E with
  | nil =>
    intro st R M log k h hR _ _
    exact ⟨_, R, whileLoop_exit (h.isrLive_settled hR log) k, h, hR, (List.append_nil _).symm⟩
  | cons t E ih =>
    intro st R M log k h hR hk hf
    rw [List.length_cons] at hk hf
    obtain ⟨k, rfl⟩ : ∃ n, k = n + 1 := ⟨k - 1, by omega⟩
    have hlen : ([] ++ (zeros E ++ R)).length ≤ fuel := by
      rw [List.nil_append, List.length_append, zeros, List.length_map]
      omega
    have hfront : Counted st ([] ++ (t, 0) :: (zeros E ++ R)) M := h
    obtain ⟨c, st₁, _, _, h₁, _, hbody⟩ := hfront.isrBody_counted v hlen cb log
    rw [hcb, List.nil_append, reinsert_zeros] at hbody
    rw [List.nil_append, reinsert_zeros] at h₁
    have hreinsert := length_reinsert_le t c.period R
    obtain ⟨s, D', hrun, hs, hD', hfired⟩ := ih (log ++ [(t, c.fn)]) k h₁
      (reinsert_head_pos t c.period hR) (by omega) (by omega)
    refine ⟨s, D', ?_, hs, hD', ?_⟩
    · show whileLoop isrLive (isrBody v fuel cb) (k + 1) ⟨st, .timer t, log⟩ = _
      rw [whileLoop_succ (h.isrLive_zeros log) hbody]
      exact hrun
    · rw [hfired, List.map_append, List.append_assoc]
      rfl

theorem Counted.mem_expiring {st' : TimerCtx T F} {E : List T} {R : List (T × ℕ)}
    (h : Counted st' (zeros E ++ R) M.tick) (hR : ∀ p ∈ R.head?, 0 < p.2) (hM : M.Settled) (t : T) :
    t ∈ E ↔ ∃ c, M t = some c ∧ c.left = 1 := by
  rw [← due_zeros hR, h.due]
  show ((M t).map _).map _ = some 0 ↔ _
  rw [Option.map_map, Option.map_eq_some_iff]
  refine exists_congr fun c => and_congr_right fun hc => ?_
  have hpos := hM t c hc
  show c.left - 1 = 0 ↔ _
  omega

/-- **An ISR call whose callbacks leave the timers alone**, whatever the first timer has left: one
tick of the delayed countdowns, and the callbacks of those that end. -/
theorem Counted.isrSilent_counted (v : Bool) {fuel : ℕ} {cb : ℕ → T → List (TimerCall T F)}
    (h : Counted st D M) (hcb : Silent cb) (hf : D.length ≤ fuel) :
    ∃ st' log D', ncoreTimerIsr v fuel cb st = .ok (st', log) ∧
      Counted st' D' (M.later (delay D)).isr ∧ (∀ p ∈ D'.head?, 0 < p.2) ∧ D'.length ≤ D.length ∧
      (log.map Prod.fst).Nodup ∧
      ∀ t, t ∈ log.map Prod.fst ↔ ∃ c, M.later (delay D) t = some c ∧ c.left = 1 := by
  cases D with
  | nil =>
    have hM : ∀ t, M t = none := fun t => Option.map_eq_none_iff.mp (h.due t).symm
    have hisr : (M.later (delay ([] : List (T × ℕ)))).isr = M := by
      funext t
      show ((M t).map _).bind _ = M t
      rw [hM]
      rfl
    refine ⟨st, [], [], ?_, hisr.symm ▸ h, by simp, le_rfl, List.nodup_nil, fun t => ?_⟩
    · unfold ncoreTimerIsr
      rw [h.isEmpty_iff.mpr rfl]
      rfl
    · show t ∈ [] ↔ ∃ c, (M t).map _ = some c ∧ _
      rw [hM]
      simp
  | cons p D =>
    obtain ⟨st₁, henter, h₁⟩ := h.isrEnter_counted
    have hset := h.settled_later
    obtain ⟨R, hL, hR⟩ := tick_eq_zeros (lengthen (delay (p :: D)) (p :: D))
    have hlen := congrArg List.length hL
    rw [length_tick, List.length_append, zeros, List.length_map] at hlen
    have hfront : atNode (tick (lengthen (delay (p :: D)) (p :: D))) = .timer p.1 := rfl
    rw [hL] at h₁ hfront
    generalize expiring (lengthen (delay (p :: D)) (p :: D)) = E at h₁ hfront hlen
    have hlen' : E.length + R.length ≤ fuel := hlen ▸ hf
    obtain ⟨s, D', hloop, hs, hD', hfired⟩ :=
      h₁.isrLoop_silent v hcb E [] fuel hR (by omega) hlen'
    rw [List.map_nil, List.nil_append] at hfired
    have hnd : E.Nodup := by
      have h₂ := h₁.nodup
      rw [keys_append, keys_zeros] at h₂
      exact (List.nodup_append.mp h₂).1
    have hmem := h₁.mem_expiring hR hset
    rw [Countdowns.isr_eq_expire _ E hnd hmem] at hs
    refine ⟨s.st, s.fired, D', ?_, hs, hD', h.length_le hs fun t ht => ?_, hfired.symm ▸ hnd,
      hfired.symm ▸ hmem⟩
    · have hempty : ndlistIsEmpty st.list .gTimerSentinel = false := by
        rw [← Bool.not_eq_true, h.isEmpty_iff]
        exact List.cons_ne_nil p D
      unfold ncoreTimerIsr
      rw [hempty]
      show (isrEnter st >>= _) = _
      rw [henter, ok_bind, ← hfront, hloop]
      rfl
    · have h₂ := Countdowns.isr_isSome ht
      rwa [show M.later (delay (p :: D)) t = (M t).map _ from rfl, Option.isSome_map] at h₂

end

/-! ## when a timer is called -/

/-- the callback of `u` is not made in the next `n` ISR calls -/
def NotCalled (v : Bool) (fuel : ℕ) (u : T) : ℕ → TimerCtx T F → Prop
  | 0, _ => True
  | n + 1, st => ∃ st' log, ncoreTimerIsr v fuel (fun _ _ => []) st = .ok (st', log) ∧
      u ∉ log.map Prod.fst ∧ NotCalled v fuel u n st'

/-- the callback of `u` is first made in the `k`-th of the next ISR calls -/
def FiresAfter (v : Bool) (fuel : ℕ) (u : T) : ℕ → TimerCtx T F → Prop
  | 0, _ => False
  | k + 1, st => ∃ st' log, ncoreTimerIsr v fuel (fun _ _ => []) st = .ok (st', log) ∧
      (u ∈ log.map Prod.fst ∧ k = 0 ∨ u ∉ log.map Prod.fst ∧ FiresAfter v fuel u k st')

section
variable {v : Bool} {fuel : ℕ} {u : T} {c : Countdown F}

theorem Counted.isr_seen (v : Bool) {st : TimerCtx T F} {D : List (T × ℕ)} {M : Countdowns T F}
    (h : Counted st D M) (hf : D.length ≤ fuel) (hu : M u = some c) :
    ∃ st' log D' M', ncoreTimerIsr v fuel (fun _ _ => []) st = .ok (st', log) ∧
      Counted st' D' M' ∧ D'.length ≤ fuel ∧ delay D' = 0 ∧ 0 < delay D + c.left ∧
      (u ∈ log.map Prod.fst ↔ delay D + c.left = 1) ∧
      (delay D + c.left ≠ 1 → M' u = some { c with left := delay D + c.left - 1 }) := by
  obtain ⟨st', log, D', hrun, h', hD', hlen, _, hmem⟩ :=
    h.isrSilent_counted v (show Silent (fun _ _ => []) from fun _ _ => rfl) hf
  refine ⟨st', log, D', _, hrun, h', hlen.trans hf, delay_eq_zero hD',
    h.settled_later u _ (Countdowns.later_some hu), (hmem u).trans (Countdowns.later_left hu),
    fun hne => ?_⟩
  rw [Countdowns.isr_later hu, if_neg hne]

/-- a timer is not called while its countdown and the delay last -/
theorem Counted.notCalled (n : ℕ) : ∀ {st : TimerCtx T F} {D : List (T × ℕ)} {M : Countdowns T F}
    {c : Countdown F}, Counted st D M → D.length ≤ fuel → M u = some c → n < delay D + c.left →
    NotCalled v fuel u n st := by
  induction n with
  | zero => exact fun _ _ _ _ => trivial
  | succ n ih =>
    intro st D M c h hf hu hn
    obtain ⟨st', log, D', M', hrun, h', hf', hD', _, hmem, hnext⟩ := h.isr_seen v hf hu
    have hne : delay D + c.left ≠ 1 := by omega
    refine ⟨st', log, hrun, fun hm => hne (hmem.mp hm), ih h' hf' (hnext hne) ?_⟩
    rw [hD']
    show n < 0 + (delay D + c.left - 1)
    omega

/-- **A timer is called when its countdown and the delay are over.** -/
theorem Counted.firesAfter_iff (k : ℕ) : ∀ {st : TimerCtx T F} {D : List (T × ℕ)}
    {M : Countdowns T F} {c : Countdown F}, Counted st D M → D.length ≤ fuel → M u = some c →
    (FiresAfter v fuel u k st ↔ delay D + c.left = k) := by
  induction k with
  | zero =>
    intro st D M c h hf hu
    obtain ⟨_, _, _, _, _, _, _, _, hpos, _⟩ := h.isr_seen v hf hu
    exact ⟨False.elim, fun h0 => absurd h0 (Nat.ne_of_gt hpos)⟩
  | succ k ih =>
    intro st D M c h hf hu
    obtain ⟨st', log, D', M', hrun, h', hf', hD', hpos, hmem, hnext⟩ := h.isr_seen v hf hu
    have hstep : FiresAfter v fuel u (k + 1) st ↔
        (u ∈ log.map Prod.fst ∧ k = 0 ∨ u ∉ log.map Prod.fst ∧ FiresAfter v fuel u k st') := by
      refine ⟨fun ⟨st₂, log₂, hrun₂, hfires⟩ => ?_, fun hfires => ⟨st', log, hrun, hfires⟩⟩
      rw [hrun] at hrun₂
      obtain ⟨rfl, rfl⟩ := Prod.mk.inj (Except.ok.inj hrun₂)
      exact hfires
    rw [hstep, hmem]
    by_cases h1 : delay D + c.left = 1
    · rw [h1]
      omega
    · rw [ih h' hf' (hnext h1), hD']
      show _ ∨ _ ∧ 0 + (delay D + c.left - 1) = k ↔ _
      omega

end

/-! ## the start -/

/-- a start is honoured and disturbs no other timer: the new timer is not called in the next `tick`
ISR calls, and every other running one is called after as many as without the start -/
def StartHonoured (v : Bool) (fuel : ℕ) (st : TimerCtx T F) (t : T) (tick : ℕ) (fn : F)
    (flags : ℕ) : Prop :=
  ∃ st', ntimerStartI v fuel st t tick fn flags = .ok st' ∧ NotCalled v fuel t tick st' ∧
    ∀ u, u ≠ t → ntimerIsRunningI st u = true →
      ∃ k, FiresAfter v fuel u k st ∧ FiresAfter v fuel u k st'

/-- a timer with ticks to count does not come in front of one with none -/
theorem delay_insert {tick : ℕ} (h : 0 < tick) (t : T) (D : List (T × ℕ)) :
    delay (insert t tick D) = delay D := by
  cases D with
  | nil =>
    refine delay_eq_zero fun p hp => ?_
    obtain rfl := Option.some.inj hp
    exact h
  | cons q D =>
    obtain ⟨b, d⟩ := q
    by_cases hd : d < tick
    · rw [insert_lt hd]
      cases d <;> rfl
    · have hpos : ∀ p ∈ ((b, d) :: D).head?, 0 < p.2 := by
        intro p hp
        obtain rfl := Option.some.inj hp
        exact h.trans_le (Nat.not_lt.mp hd)
      rw [delay_eq_zero hpos, delay_eq_zero (insert_head_pos h t hpos)]

/-- the incremented tick that has gone round goes in front -/
theorem delay_insert_zero (t : T) (D : List (T × ℕ)) : delay (insert t 0 D) = 2 ^ 32 := by
  rw [insert_ge (fun p _ => Nat.zero_le p.2)]
  rfl

theorem tick_succ_mod {tick : ℕ} (h : tick ≤ uint32Max) :
    tick < uint32Max ∧ (tick + 1) % 2 ^ 32 = tick + 1 ∨ tick = uint32Max ∧ (tick + 1) % 2 ^ 32 = 0 := by
  unfold uint32Max at h ⊢
  omega

/-- **Starts with any tick.**  A start is honoured and disturbs no other timer iff its tick is less
than `UINT32_MAX`, or the timer in front, if there is one, has nothing to count. -/
theorem startHonoured_iff (v : Bool) {fuel : ℕ} {st : TimerCtx T F} {D : List (T × ℕ)}
    {M : Countdowns T F} (h : Counted st D M) {t : T} (ht : ntimerIsRunningI st t = false)
    {tick : ℕ} (h1 : 1 ≤ tick) (h2 : tick ≤ uint32Max) (fn : F) (flags : ℕ) (hf : D.length < fuel) :
    StartHonoured v fuel st t tick fn flags ↔ tick < uint32Max ∨ ∀ p ∈ D.head?, p.2 = 0 := by
  have hMt : M t = none := by
    rw [← Bool.not_eq_true, h.isRunning_iff, h.mem_keys, Option.not_isSome_iff_eq_none] at ht
    exact ht
  obtain ⟨st', hrun, h', _⟩ := h.ntimerStartI_counted v fn flags hMt h1 hf.le
  have hf' : (insert t ((tick + 1) % 2 ^ 32) D).length ≤ fuel := (length_insert ..).le.trans hf
  have hother : ∀ u, u ≠ t → ∀ c, M u = some c → ∀ k, (FiresAfter v fuel u k st ↔ delay D + c.left = k) ∧
      (FiresAfter v fuel u k st' ↔ delay (insert t ((tick + 1) % 2 ^ 32) D) + c.left = k) :=
    fun u hu c hc k => ⟨h.firesAfter_iff k hf.le hc,
      h'.firesAfter_iff k hf' ((Function.update_of_ne hu _ _).trans hc)⟩
  refine ⟨fun ⟨st₂, hrun₂, _, hfires⟩ => ?_, fun hcond => ⟨st', hrun, ?_, fun u hu hrunning => ?_⟩⟩
  · obtain rfl := Except.ok.inj (hrun.symm.trans hrun₂)
    rcases tick_succ_mod h2 with ⟨hlt, _⟩ | ⟨_, hmod⟩
    · exact .inl hlt
    · -- the timer in front is called `2 ^ 32` calls late, unless it was so before
      refine .inr fun p hp => ?_
      obtain ⟨D', rfl⟩ : ∃ D', D = p :: D' := ⟨_, List.eq_cons_of_mem_head? hp⟩
      have hpD : p.1 ∈ keys (p :: D') := List.mem_cons_self
      have hpt : p.1 ≠ t := fun e => h.notMem hMt (e ▸ hpD)
      obtain ⟨c, hc⟩ := Option.isSome_iff_exists.mp ((h.mem_keys _).mp hpD)
      obtain ⟨k, hk, hk'⟩ := hfires p.1 hpt ((h.isRunning_iff _).mpr hpD)
      rw [(hother p.1 hpt c hc k).1] at hk
      rw [(hother p.1 hpt c hc k).2, hmod, delay_insert_zero] at hk'
      have hdelay : delay (p :: D') = 2 ^ 32 := by omega
      by_contra hpos
      rw [delay_eq_zero (fun q hq => Option.some.inj hq ▸ Nat.pos_of_ne_zero hpos)] at hdelay
      exact absurd hdelay (by decide)
  · refine h'.notCalled tick hf' (Function.update_self ..) ?_
    show tick < delay _ + (tick + 1) % 2 ^ 32
    rcases tick_succ_mod h2 with ⟨_, hmod⟩ | ⟨rfl, hmod⟩
    · rw [hmod]
      exact Nat.lt_of_lt_of_le (Nat.lt_succ_self tick) (Nat.le_add_left _ _)
    · rw [hmod, delay_insert_zero]
      exact (by decide : uint32Max < 2 ^ 32 + 0)
  · have hu' := (h.isRunning_iff u).mp hrunning
    obtain ⟨c, hc⟩ := Option.isSome_iff_exists.mp ((h.mem_keys u).mp hu')
    refine ⟨delay D + c.left, (hother u hu c hc _).1.mpr rfl, (hother u hu c hc _).2.mpr ?_⟩
    congr 1
    rcases tick_succ_mod h2 with ⟨_, hmod⟩ | ⟨hmax, hmod⟩
    · rw [hmod]
      exact delay_insert (Nat.succ_pos tick) t D
    · rw [hmod, delay_insert_zero]
      obtain ⟨p, D', rfl⟩ : ∃ p D', D = p :: D' := by
        cases D with
        | nil => exact absurd hu' List.not_mem_nil
        | cons p D' => exact ⟨p, D', rfl⟩
      have hp : p.2 = 0 := (hcond.resolve_left (fun hlt => Nat.ne_of_lt hlt hmax)) p rfl
      obtain ⟨a, d⟩ := p
      obtain rfl : d = 0 := hp
      rfl

theorem counted_one : ∃ st, ntimerStartI true 2 (TimerCtx.init : TimerCtx Bool Unit) true 1 () 0 = .ok st ∧
    Counted st [(true, 2)] (Function.update Countdowns.stopped true (some ⟨2, 0, ()⟩)) := by
  have h₀ : Counted (TimerCtx.init : TimerCtx Bool Unit) [] Countdowns.stopped := Sim.init.counted
  obtain ⟨st, hrun, h, _⟩ := h₀.ntimerStartI_counted true () 0 rfl le_rfl (Nat.zero_le 2)
  exact ⟨st, hrun, h⟩

theorem startHonoured_beside :
    ∃ st, ntimerStartI true 2 (TimerCtx.init : TimerCtx Bool Unit) true 1 () 0 = .ok st ∧
      StartHonoured true 2 st false 5 () 0 := by
  obtain ⟨st, hrun, h⟩ := counted_one
  refine ⟨st, hrun, (startHonoured_iff true h ?_ (by decide) (by decide) () 0 (by decide)).mpr
    (.inl (by decide))⟩
  rw [← Bool.not_eq_true, h.isRunning_iff]
  exact (by decide : false ∉ [true])

/-- a timer that is to be called after two ISR calls is not, once another one is started with
`UINT32_MAX` ticks -/
theorem startHonoured_max :
    ∃ st, ntimerStartI true 2 (TimerCtx.init : TimerCtx Bool Unit) true 1 () 0 = .ok st ∧
      ¬ StartHonoured true 2 st false uint32Max () 0 := by
  obtain ⟨st, hrun, h⟩ := counted_one
  refine ⟨st, hrun, fun ⟨st₂, hrun₂, _, hfires⟩ => ?_⟩
  have hmax : 1 ≤ uint32Max := by decide
  have hfuel : [(true, 2)].length ≤ 2 := by decide
  obtain ⟨st', hrun', h', _⟩ := h.ntimerStartI_counted (t := false) true () 0 rfl hmax hfuel
  obtain rfl := Except.ok.inj (hrun'.symm.trans hrun₂)
  obtain ⟨k, hk, hk'⟩ := hfires true (by decide) ((h.isRunning_iff true).mpr (by decide))
  rw [h.firesAfter_iff k (by decide) rfl] at hk
  rw [h'.firesAfter_iff k (by decide) rfl] at hk'
  exact absurd (hk.trans hk'.symm) (by decide)

end NeonEds

import NeonEds.Timer.Early

/-!
# One-shot timers that start themselves again

The timer that is fired early can itself be started again in front of the one whose callback is
over: the ISR loop then comes back to a timer that it has fired before, and with equal ticks it
never ends.

* `RearmClash`          the callback of the last expired timer starts it again with just the ticks
                        left of the next timer, and this one has fired before or does the same;
* `returnsOnce_iff_rearmClash`  an ISR call ends, with every timer fired once at most, iff there is
                        no such clash.
-/

set_option linter.unusedSectionVars false

namespace NeonEds
open Exec DeltaList

variable {T F : Type} [DecidableEq T]

/-- a callback makes no call, or starts its own one-shot timer again -/
def OwnRestarts (M : Countdowns T F) (cb : ℕ → T → List (TimerCall T F)) : Prop :=
  ∀ i t, cb i t = [] ∨ (∀ c, M t = some c → c.period = 0) ∧
    ∃ tick fn flags, cb i t = [.start t tick fn flags] ∧ 1 ≤ tick ∧ tick < uint32Max

/-- the timers of `E` expire in turn after those in `fired`, `D` is the list behind them -/
def RearmClash (cb : ℕ → T → List (TimerCall T F)) (M : Countdowns T F) :
    List T → List (T × ℕ) → List T → Prop
  | _, _, [] => False
  | fired, D, [e] => ∃ f r D', reinsert e (M.period e) D = (f, r) :: D' ∧
      r ∈ starts (cb fired.length e) ∧ (f ∈ fired ∨ r ∈ starts (cb (fired.length + 1) f))
  | fired, D, e :: u :: E => RearmClash cb M (fired ++ [e])
      (listCalls (reinsert e (M.period e) D) (cb fired.length e)) (u :: E)

/-- **One ISR call ends and fires no timer twice.** -/
def ReturnsOnce (v : Bool) (fuel : ℕ) (cb : ℕ → T → List (TimerCall T F)) (st : TimerCtx T F) :
    Prop :=
  ∃ st' log, ncoreTimerIsr v fuel cb st = .ok (st', log) ∧ (log.map Prod.fst).Nodup

/-- what `ReturnsOnce` says, from a loop head on -/
def EndsOnce (v : Bool) (fuel : ℕ) (cb : ℕ → T → List (TimerCall T F)) (k : ℕ)
    (s : IsrState T F) : Prop :=
  ∃ s', whileLoop isrLive (isrBody v fuel cb) k s = .ok s' ∧ (s'.fired.map Prod.fst).Nodup

section
variable {v : Bool} {fuel : ℕ} {cb : ℕ → T → List (TimerCall T F)} {M : Countdowns T F}
  {s s' : IsrState T F}

theorem endsOnce_succ (hlive : isrLive s = true) (hb : isrBody v fuel cb s = .ok s') (k : ℕ) :
    EndsOnce v fuel cb (k + 1) s ↔ EndsOnce v fuel cb k s' := by
  unfold EndsOnce
  rw [whileLoop_succ hlive hb]

theorem endsOnce_exit (hlive : isrLive s = false) (hs : (s.fired.map Prod.fst).Nodup) (k : ℕ) :
    EndsOnce v fuel cb k s := ⟨s, whileLoop_exit hlive k, hs⟩

theorem fired_prefix {n : ℕ} (h : iterLoop isrLive (isrBody v fuel cb) n s = .ok s') :
    s.fired <+: s'.fired := by
  refine iterLoop_rel (fun a b : IsrState T F => a.fired <+: b.fired)
    (fun a => List.prefix_rfl) (fun a b c => List.IsPrefix.trans) (fun a b _ hb => ?_) n s s' h
  obtain ⟨t, f, _, hf⟩ := fired_of_isrBody hb
  rw [hf]
  exact List.prefix_append ..

/-- a loop that goes on with a timer it has fired does not end in time or fires it twice -/
theorem not_endsOnce {u : T} (hlive : isrLive s = true) (hcur : s.current = .timer u)
    (hu : u ∈ s.fired.map Prod.fst) (k : ℕ) : ¬ EndsOnce v fuel cb k s := by
  rintro ⟨s', hs', hnd⟩
  obtain ⟨hiter, hexit⟩ := whileLoop_eq_ok.mp hs'
  cases k with
  | zero =>
    injection hiter with hiter
    rw [← hiter, hlive] at hexit
    cases hexit
  | succ k =>
    rw [iterLoop, if_pos hlive] at hiter
    obtain ⟨s₁, hs₁, hrest⟩ := bind_eq_ok.mp hiter
    obtain ⟨t, f, ht, hf⟩ := fired_of_isrBody hs₁
    have htu : t = u := by
      have := ht.symm.trans hcur
      injection this
    obtain ⟨l, hl⟩ := fired_prefix hrest
    rw [← hl, hf, htu, List.map_append, List.map_append] at hnd
    have hnd' := (List.nodup_append.mp hnd).1
    exact (List.nodup_append.mp hnd').2.2 u hu u (by simp) rfl

theorem OwnRestarts.onlyStarts (h : OwnRestarts M cb) (i : ℕ) (t : T) : OnlyStarts (cb i t) := by
  rcases h i t with h | ⟨_, tick, fn, flags, h, _⟩
  · rw [h]
    exact fun c hc => absurd hc List.not_mem_nil
  · rw [h]
    exact fun c hc => ⟨t, tick, fn, flags, List.mem_singleton.mp hc⟩

theorem OwnRestarts.calls_of_ne (h : OwnRestarts M cb) (M' : Countdowns T F) (i : ℕ) {t u : T}
    (hu : u ≠ t) : M'.calls (cb i t) u = M' u := by
  rcases h i t with h | ⟨_, tick, fn, flags, h, _⟩
  · rw [h]
    rfl
  · rw [h]
    exact Function.update_of_ne hu _ _

theorem OwnRestarts.replay_of_notMem (h : OwnRestarts M cb) {u : T} (E : List T) :
    ∀ (i : ℕ) (M' : Countdowns T F), u ∉ E → M'.replay cb i E u = M' u := by
  induction E with
  | nil => exact fun i M' _ => rfl
  | cons t E ih =>
    intro i M' hu
    rw [List.mem_cons, not_or] at hu
    rw [Countdowns.replay, ih _ _ hu.2, h.calls_of_ne _ _ hu.1, M'.expire_of_ne hu.1]

theorem OwnRestarts.period_eq (h : OwnRestarts M cb) {u : T} {E : List T} (hu : u ∉ E) :
    (M.tick.replay cb 0 E u).map Countdown.period = (M u).map Countdown.period := by
  rw [h.replay_of_notMem _ _ _ hu]
  show ((M u).map _).map _ = _
  rw [Option.map_map]
  rfl

/-- a timer that starts itself again was not reloaded -/
theorem OwnRestarts.legal (h : OwnRestarts M cb) {M' : Countdowns T F} {t : T}
    (hM : (M' t).map Countdown.period = (M t).map Countdown.period) (i : ℕ) :
    LegalCalls (M'.expire t) (cb i t) ∧ (cb i t = [] ∨ M'.period t = 0 ∧ (cb i t).length = 1) := by
  have hper : (∀ c, M t = some c → c.period = 0) → ∀ c, M' t = some c → c.period = 0 := by
    intro h0 c hc
    rw [hc] at hM
    obtain ⟨c₀, hc₀, hp⟩ := Option.map_eq_some_iff.mp hM.symm
    rw [← hp]
    exact h0 c₀ hc₀
  rcases h i t with h | ⟨h0, tick, fn, flags, h, h1, h2⟩
  · rw [h]
    exact ⟨trivial, Or.inl rfl⟩
  · have hM't := hper h0
    rw [h]
    refine ⟨⟨⟨?_, h1, h2⟩, trivial⟩, Or.inr ⟨?_, rfl⟩⟩
    · rw [M'.expire_self]
      cases hc : M' t with
      | none => rfl
      | some c => exact if_pos (hM't c hc)
    · unfold Countdowns.period
      cases hc : M' t with
      | none => rfl
      | some c => exact hM't c hc

theorem Sim.isrRestart_step (v : Bool) {fuel : ℕ} {cb : ℕ → T → List (TimerCall T F)}
    {M M' : Countdowns T F} (log : List (T × F)) (hown : OwnRestarts M cb) {st : TimerCtx T F} {pre D : List (T × ℕ)}
    {t : T} (h : Sim st (pre ++ (t, 0) :: D) M')
    (hM : (M' t).map Countdown.period = (M t).map Countdown.period)
    (hf : (pre ++ D).length + 2 ≤ fuel) :
    ∃ s' f, isrBody v fuel cb ⟨st, .timer t, log⟩ = .ok s' ∧ s'.fired = log ++ [(t, f)] ∧
      s'.current = atNode (reinsert t (M.period t) (pre ++ D)) ∧
      (∃ st₁, Sim st₁ (reinsert t (M.period t) (pre ++ D)) (M'.expire t)) ∧
      Sim s'.st (listCalls (reinsert t (M.period t) (pre ++ D)) (cb log.length t))
        ((M'.expire t).calls (cb log.length t)) ∧
      (listCalls (reinsert t (M.period t) (pre ++ D)) (cb log.length t)).length
        ≤ (pre ++ D).length + 1 := by
  obtain ⟨hl, hcase⟩ := hown.legal hM log.length
  have hlen : (cb log.length t).length ≤ 1 := by
    rcases hcase with h0 | ⟨_, h1⟩
    · rw [h0]
      exact Nat.zero_le _
    · exact h1.le
  have hf' : (pre ++ D).length + 1 + (cb log.length t).length ≤ fuel := by omega
  obtain ⟨c, s', hc, _, hbody, hfired, hcur, hsim₁, hsim'⟩ := h.isrBody_calls v log hl hf'
  have hper : M.period t = c.period := by
    unfold Countdowns.period
    rw [← hM, hc]
    rfl
  rw [← hper] at hcur hsim₁ hsim'
  refine ⟨s', c.fn, hbody, hfired, hcur, hsim₁, hsim', ?_⟩
  rcases hcase with h0 | ⟨hp, h1⟩
  · rw [h0]
    exact length_reinsert_le ..
  · have hre : reinsert t (M.period t) (pre ++ D) = pre ++ D := by
      rw [hper, ← Countdowns.period_eq hc]
      exact if_pos hp
    have := length_listCalls_le (cb log.length t) (pre ++ D)
    rw [hre]
    omega

/-- the timer that the last callback starts again stands in front of the next one, which is left
with nothing -/
theorem OwnRestarts.listCalls_eq (h : OwnRestarts M cb) {i : ℕ} {e f : T} {r : ℕ}
    {D : List (T × ℕ)} (hr : r ∈ starts (cb i e)) :
    listCalls ((f, r) :: D) (cb i e) = [(e, r)] ++ (f, 0) :: D := by
  rcases h i e with h | ⟨_, tick, fn, flags, h, _⟩
  · rw [h] at hr
    exact absurd hr List.not_mem_nil
  · rw [h] at hr ⊢
    have hrt : r = tick + 1 := List.mem_singleton.mp hr
    show insert e (tick + 1) ((f, r) :: D) = _
    rw [← hrt, insert_ge (fun p hp => by injection hp with hp; rw [← hp])]
    show (e, r) :: (f, r - r) :: D = _
    rw [Nat.sub_self]
    rfl

/-- the last expired timer and the timer behind it, which the loop fires early -/
theorem endsOnce_after_clash (v : Bool) {k : ℕ} (hown : OwnRestarts M cb) {s : IsrState T F}
    {e f : T} {r : ℕ} {D : List (T × ℕ)} {M' : Countdowns T F}
    (h : Sim s.st ([(e, r)] ++ (f, 0) :: D) M') (hr : 0 < r)
    (hnd : (s.fired.map Prod.fst).Nodup) (he : e ∈ s.fired.map Prod.fst)
    (hfnew : f ∉ s.fired.map Prod.fst) (hcur : s.current = .timer f) (hlive : isrLive s = true)
    (hM : (M' f).map Countdown.period = (M f).map Countdown.period)
    (hf : ([(e, r)] ++ D).length + 2 ≤ fuel) :
    EndsOnce v fuel cb (k + 1) s ↔ ¬ r ∈ starts (cb s.fired.length f) := by
  obtain ⟨st, current, log⟩ := s
  change current = .timer f at hcur
  subst hcur
  obtain ⟨s', fn, hbody, hfired, hcur', ⟨st₁, hsim₁⟩, hsim', _⟩ :=
    h.isrRestart_step v log hown hM hf
  rw [endsOnce_succ hlive hbody]
  have hpos : ∀ p ∈ (reinsert f (M.period f) ([(e, r)] ++ D)).head?, 0 < p.2 :=
    reinsert_head_pos f _ (by intro p hp; injection hp with hp; rw [← hp]; exact hr)
  have hlast := isrLive_last_iff (hown.onlyStarts log.length f) hsim₁ hpos hsim' s'.fired
  rw [← hcur'] at hlast
  change isrLive s' = true ↔ _ at hlast
  have hnd' : (s'.fired.map Prod.fst).Nodup := by
    rw [hfired, List.map_append]
    exact List.nodup_append.mpr ⟨hnd, List.nodup_singleton _, by
      intro a ha b hb
      have hbf : b = f := List.mem_singleton.mp hb
      exact fun hab => hfnew (hbf ▸ hab ▸ ha)⟩
  rcases hown log.length f with hcb | ⟨hper, tick, g, flags, hcb, _⟩
  · rw [hcb] at hlast ⊢
    have hdead : isrLive s' = false := by
      rw [← Bool.not_eq_true, hlast]
      rintro ⟨u, c, _, _, hmem⟩
      exact List.not_mem_nil hmem
    exact iff_of_true (endsOnce_exit hdead hnd' k) List.not_mem_nil
  · -- a one-shot timer: the list begins with `e` again
    have hre : reinsert f (M.period f) ([(e, r)] ++ D) = (e, r) :: D := by
      refine if_pos ?_
      unfold Countdowns.period
      cases hc : M f with
      | none => rfl
      | some c => exact hper c hc
    rw [hre] at hsim₁ hcur'
    rw [hsim₁.least_iff (· ∈ starts (cb log.length f))] at hlast
    by_cases hmem : r ∈ starts (cb log.length f)
    · refine iff_of_false (not_endsOnce (hlast.mpr hmem) hcur' ?_ k) (fun hn => hn hmem)
      rw [hfired, List.map_append]
      exact List.mem_append_left _ he
    · have hdead : isrLive s' = false := by
        rw [← Bool.not_eq_true, hlast]
        exact hmem
      exact iff_of_true (endsOnce_exit hdead hnd' k) hmem

theorem endsOnce_after_last (v : Bool) {k : ℕ} (hown : OwnRestarts M cb) {s : IsrState T F} {e : T}
    {log : List (T × F)} {R : List (T × ℕ)} {st₁ : TimerCtx T F} {M₁ : Countdowns T F}
    (hfst : s.fired.map Prod.fst = log.map Prod.fst ++ [e]) (hcur : s.current = atNode R)
    (hnd : (s.fired.map Prod.fst).Nodup) (hsim₁ : Sim st₁ R M₁) (hpos : ∀ p ∈ R.head?, 0 < p.2)
    (hsim : Sim s.st (listCalls R (cb log.length e)) (M.tick.replay cb 0 (s.fired.map Prod.fst)))
    (hf : (listCalls R (cb log.length e)).length + 1 ≤ fuel) (hk : 1 ≤ k) :
    EndsOnce v fuel cb k s ↔ ¬ ∃ f r D', R = (f, r) :: D' ∧ r ∈ starts (cb log.length e) ∧
      (f ∈ log.map Prod.fst ∨ r ∈ starts (cb (log.length + 1) f)) := by
  have hlast := isrLive_last_iff (hown.onlyStarts log.length e) hsim₁ hpos hsim s.fired
  rw [← hcur] at hlast
  change isrLive s = true ↔ _ at hlast
  cases R with
  | nil =>
    refine iff_of_true (endsOnce_exit ?_ hnd k) (by rintro ⟨f, r, D', h, _⟩; cases h)
    rw [← Bool.not_eq_true, hlast]
    rintro ⟨u, c, hc, _⟩
    have hm := (hsim₁.mem_keys u).mpr (by rw [hc]; rfl)
    cases hm
  | cons p D' =>
    obtain ⟨f, r⟩ := p
    rw [hsim₁.least_iff (· ∈ starts (cb log.length e))] at hlast
    by_cases hmem : r ∈ starts (cb log.length e)
    · -- the loop goes on with `f`
      have hlive := hlast.mpr hmem
      rw [hown.listCalls_eq hmem] at hsim hf
      have hef : f ≠ e := by
        have hn := hsim.nodup
        simp only [keys_cons, List.singleton_append, List.nodup_cons, List.mem_cons, not_or] at hn
        exact Ne.symm hn.1.1
      by_cases hfm : f ∈ log.map Prod.fst
      · refine iff_of_false (not_endsOnce hlive hcur ?_ k)
          (fun hn => hn ⟨f, r, D', rfl, hmem, Or.inl hfm⟩)
        rw [hfst]
        exact List.mem_append_left _ hfm
      · have hfnew : f ∉ s.fired.map Prod.fst := by
          rw [hfst, List.mem_append, List.mem_singleton]
          exact fun h => h.elim hfm hef
        have hnum : s.fired.length = log.length + 1 := by
          have := congrArg List.length hfst
          simpa using this
        have hfuel : ([(e, r)] ++ D').length + 2 ≤ fuel := by
          simp only [List.length_append, List.length_cons, List.length_nil] at hf ⊢
          omega
        obtain ⟨k, rfl⟩ : ∃ j, k = j + 1 := ⟨k - 1, by omega⟩
        rw [endsOnce_after_clash v hown hsim (hpos (f, r) rfl) hnd (by rw [hfst]; simp) hfnew hcur
          hlive (hown.period_eq hfnew) hfuel, hnum]
        refine not_congr ⟨fun h => ⟨f, r, D', rfl, hmem, Or.inr h⟩, ?_⟩
        rintro ⟨f', r', D'', heq, _, h⟩
        injection heq with heq _
        injection heq with h1 h2
        subst h1 h2
        exact h.resolve_left hfm
    · refine iff_of_true (endsOnce_exit ?_ hnd k) ?_
      · rw [← Bool.not_eq_true, hlast]
        exact hmem
      · rintro ⟨f', r', D'', heq, h, _⟩
        injection heq with heq _
        injection heq with h1 h2
        subst h1 h2
        exact hmem h

theorem endsOnce_iff_rearmClash (v : Bool) (hown : OwnRestarts M cb) (E : List T) :
    ∀ (s : IsrState T F) (R : List (T × ℕ)) (k : ℕ),
      Sim s.st (zeros E ++ R) (M.tick.replay cb 0 (s.fired.map Prod.fst)) →
      (∀ p ∈ R.head?, 0 < p.2) → StandsAt E s → (s.fired.map Prod.fst ++ E).Nodup →
      (zeros E ++ R).length + 1 ≤ fuel → E.length + 1 ≤ k →
      (EndsOnce v fuel cb k s ↔ ¬ RearmClash cb M (s.fired.map Prod.fst) R E) := by
  induction E with
  | nil =>
    intro s R k _ _ hat hnd _ _
    rw [List.append_nil] at hnd
    exact iff_of_true (endsOnce_exit hat hnd k) not_false
  | cons e E ih =>
    intro s R k hsim hR hat hnd hf hk
    obtain ⟨st, current, log⟩ := s
    obtain ⟨hcur, hlive⟩ := hat
    change current = .timer e at hcur
    subst hcur
    change (log.map Prod.fst ++ e :: E).Nodup at hnd
    have he : e ∉ log.map Prod.fst := fun hm => (List.nodup_append.mp hnd).2.2 e hm e (by simp) rfl
    have hfront : Sim st ([] ++ (e, 0) :: (zeros E ++ R)) (M.tick.replay cb 0 (log.map Prod.fst)) :=
      hsim
    have hf' : ([] ++ (zeros E ++ R)).length + 2 ≤ fuel := hf
    obtain ⟨s', fn, hbody, hfired, hcur', ⟨st₁, hsim₁⟩, hsim', hlen⟩ :=
      hfront.isrRestart_step v log hown (hown.period_eq he) hf'
    rw [List.nil_append, reinsert_zeros] at hcur' hsim₁ hsim' hlen
    have hpos := reinsert_head_pos e (M.period e) hR
    have hlog : (log.map Prod.fst).length = log.length := List.length_map ..
    obtain ⟨k, rfl⟩ : ∃ j, k = j + 1 := ⟨k - 1, by omega⟩
    rw [endsOnce_succ hlive hbody]
    have hfst : s'.fired.map Prod.fst = log.map Prod.fst ++ [e] := by
      rw [hfired, List.map_append]
      rfl
    have hrep := replay_concat cb M.tick hfired
    rw [← hrep] at hsim'
    have hnd' : (s'.fired.map Prod.fst ++ E).Nodup := by
      rw [hfst, List.append_assoc, List.singleton_append]
      exact hnd
    cases E with
    | nil =>
      rw [List.append_nil] at hnd'
      rw [zeros_nil, List.nil_append] at hcur' hsim₁ hsim' hlen
      show _ ↔ ¬ ∃ f r D', reinsert e (M.period e) R = (f, r) :: D' ∧
        r ∈ starts (cb (log.map Prod.fst).length e) ∧ (f ∈ log.map Prod.fst ∨
          r ∈ starts (cb ((log.map Prod.fst).length + 1) f))
      rw [hlog]
      refine endsOnce_after_last v hown hfst hcur' hnd' hsim₁ hpos hsim' ?_ (Nat.le_of_succ_le_succ hk)
      simp only [List.nil_append, zeros_nil] at hf' hlen
      omega
    | cons u E =>
      obtain ⟨hlist, hpos'⟩ := listCalls_starts (hown.onlyStarts log.length e) (u :: E) hpos
      rw [hlist] at hsim' hlen
      have hrt : s'.st.rtick (.timer u) = 0 := hsim'.rtick (u, 0) (by simp)
      have hat' : StandsAt (u :: E) s' := ⟨hcur', decide_eq_true (hcur' ▸ hrt)⟩
      have hlen' : (zeros (u :: E) ++ listCalls (reinsert e (M.period e) R)
          (cb log.length e)).length + 1 ≤ fuel := by
        simp only [List.nil_append] at hf'
        omega
      have hk' : (u :: E).length + 1 ≤ k := by
        rw [List.length_cons] at hk
        omega
      rw [ih s' _ k hsim' hpos' hat' hnd' hlen' hk', hfst]
      show _ ↔ ¬ RearmClash cb M (log.map Prod.fst ++ [e])
        (listCalls (reinsert e (M.period e) R) (cb (log.map Prod.fst).length e)) (u :: E)
      rw [hlog]

end

theorem Sim.returnsOnce_start {st : TimerCtx T F} {D : List (T × ℕ)} {M : Countdowns T F}
    (h : Sim st D M) (hM : M.Settled) :
    ∃ st', Sim st' (tick D) M.tick ∧ ∀ (v : Bool) (fuel : ℕ) (cb : ℕ → T → List (TimerCall T F)),
      ReturnsOnce v fuel cb st ↔ EndsOnce v fuel cb fuel ⟨st', atNode (tick D), []⟩ := by
  obtain ⟨st', hsim, hrun⟩ := h.isrStart_sim hM
  refine ⟨st', hsim, fun v fuel cb => ?_⟩
  unfold ReturnsOnce EndsOnce
  rw [(hrun v fuel cb).2]
  constructor
  · rintro ⟨st₁, log, hw, hnd⟩
    obtain ⟨s, hs, hok⟩ := bind_eq_ok.mp hw
    injection hok with hok
    injection hok with h1 h2
    exact ⟨s, hs, h2 ▸ hnd⟩
  · rintro ⟨s, hs, hnd⟩
    exact ⟨s.st, s.fired, by rw [hs, ok_bind], hnd⟩

/-- **An ISR call whose callbacks may start their own one-shot timers again ends, with no timer
fired twice, iff there is no clash.** -/
theorem returnsOnce_iff_rearmClash (v : Bool) {fuel : ℕ} {cb : ℕ → T → List (TimerCall T F)}
    {st : TimerCtx T F} {D : List (T × ℕ)} {M : Countdowns T F} (h : Sim st D M) (hM : M.Settled)
    (hown : OwnRestarts M cb) (hf : D.length + 1 ≤ fuel) :
    ReturnsOnce v fuel cb st ↔
      ¬ RearmClash cb M [] ((tick D).drop (expiring D).length) (expiring D) := by
  obtain ⟨st', hsim, hiff⟩ := h.returnsOnce_start hM
  obtain ⟨R, hD, hR⟩ := tick_eq_zeros D
  have hdrop : (tick D).drop (expiring D).length = R := by
    have hlen : (expiring D).length = (zeros (expiring D)).length := (List.length_map ..).symm
    rw [hD, hlen, List.drop_left]
  have hk : (expiring D).length + 1 ≤ fuel := (Nat.succ_le_succ (length_expiring_le D)).trans hf
  have hnd := h.expiring_nodup
  rw [hiff, hdrop]
  rw [← length_tick D] at hf
  rw [hD] at hsim hf ⊢
  exact endsOnce_iff_rearmClash v hown (expiring D) ⟨st', _, []⟩ R fuel hsim hR (hsim.counted.standsAt hR [])
    hnd hf hk

/-! ### two timers that start themselves again -/

theorem ownRestarts_restart :
    OwnRestarts (Countdowns.stopped.after twoTimers) restart := by
  refine fun i t => Or.inr ⟨fun c hc => ?_, 1, (), 0, rfl, by decide, by decide⟩
  cases t with
  | true => cases hc; rfl
  | false => cases hc; rfl

theorem returnsOnce_iff_rearmClash_twoTimers : ∃ st, (ReturnsOnce false 4 restart st ↔
    ¬ RearmClash restart (Countdowns.stopped.after twoTimers) []
      ((tick [(true, 1), (false, 2)]).drop (expiring [(true, 1), (false, 2)]).length)
      (expiring [(true, 1), (false, 2)])) := by
  obtain ⟨outs, st, _, hsim⟩ := twoTimers_sim
  exact ⟨st, returnsOnce_iff_rearmClash false hsim twoTimers_settled ownRestarts_restart
    (by decide)⟩

/-- each of the two timers puts itself in front of the other, and the ISR goes on between them -/
theorem twoTimers_endless : ∃ outs st, runOps false 4 TimerCtx.init twoTimers = .ok (outs, st) ∧
    Sim st [(true, 1), (false, 2)] (Countdowns.stopped.after twoTimers) ∧
    OwnRestarts (Countdowns.stopped.after twoTimers) restart ∧
    (∃ s, isrSteps false 4 restart 3 st = .ok s ∧
      s.fired = [(true, ()), (false, ()), (true, ())]) ∧
    ∀ v fuel, 3 ≤ fuel → ¬ ReturnsOnce v fuel restart st := by
  obtain ⟨outs, st, hrun, hsim⟩ := twoTimers_sim
  have hst : st = _ := (congrArg Prod.snd (Except.ok.inj hrun)).symm
  refine ⟨outs, st, hrun, hsim, ownRestarts_restart, ⟨_, by subst hst; exact ⟨rfl, rfl⟩⟩,
    fun v fuel hf h => ?_⟩
  obtain ⟨st', hsim', hiff⟩ := hsim.returnsOnce_start twoTimers_settled
  have hends := (hiff v fuel restart).mp h
  refine (endsOnce_iff_rearmClash v ownRestarts_restart [true] ⟨st', _, []⟩ [(false, 2)] fuel
    hsim' (by simp) (hsim'.counted.standsAt (E := [true]) (R := [(false, 2)]) (by simp) []) (by simp) hf
    (by show 2 ≤ fuel; omega)).mp hends ?_
  exact ⟨false, 2, [], rfl, List.mem_singleton_self 2, Or.inr (List.mem_singleton_self 2)⟩

end NeonEds

import NeonEds.Lib.Periodic
import NeonEds.Timer.AnyTick

/-!
# Repeating timers

`ntimer_start_i` increments its tick, for the part of a tick that may have passed when a timer is
started, and sets the reload value to the incremented tick too: a timer started with `n` ticks is
called every `n + 1` ticks.

* `AdmittedRun`          any calls that the API check admits, with callbacks that leave the timers
                         alone;
* `Counted.runOps_counted`  in such a run a repeating timer is a periodic countdown modulo `2 ^ 32`;
* `Sim.runOps_exact`     and an exact one where no timer is started with `UINT32_MAX` ticks;
* `timer_evenlySpaced_iff`  so its callbacks are `n` ticks apart only where there are less than two.
-/

set_option linter.unusedSectionVars false

namespace NeonEds
open Exec DeltaList Periodic

variable {T F : Type} [DecidableEq T]

/-- what the API check asks of a call; the callbacks leave the timers alone -/
def AdmittedOp (st : TimerCtx T F) : TimerOp T F → Prop
  | .start t tick _ _ => ntimerIsRunningI st t = false ∧ 1 ≤ tick ∧ tick ≤ uint32Max
  | .isr cb => Silent cb
  | _ => True

def AdmittedRun (v : Bool) (fuel : ℕ) : TimerCtx T F → List (TimerOp T F) → Prop
  | _, [] => True
  | st, op :: ops => AdmittedOp st op ∧
      ∀ out st', runOp v fuel st op = .ok (out, st') → AdmittedRun v fuel st' ops

/-- a start with less than `UINT32_MAX` ticks, or another call -/
def BelowMax : TimerOp T F → Prop
  | .start _ tick _ _ => tick < uint32Max
  | _ => True

/-- what a call shows of the timer `t`: the ISR is a tick, with the callbacks that it makes -/
def event (t : T) : TimerOp T F → TimerOut T F → Option ℕ
  | .isr _, .fired log => some ((log.map Prod.fst).count t)
  | .isr _, _ => some 0
  | _, _ => none

def events (t : T) (ops : List (TimerOp T F)) (outs : List (TimerOut T F)) : List (Option ℕ) :=
  List.zipWith (event t) ops outs

def isIsr : TimerOp T F → Bool
  | .isr _ => true
  | _ => false

/-- the number of ISR calls -/
def isrCount (ops : List (TimerOp T F)) : ℕ := ops.countP isIsr

section
variable {v : Bool} {fuel : ℕ} {st st' : TimerCtx T F} {op : TimerOp T F} {ops ops' : List (TimerOp T F)}
  {out : TimerOut T F} {outs : List (TimerOut T F)} {t : T}

theorem event_isSome (t : T) (op : TimerOp T F) (out : TimerOut T F) : (event t op out).isSome = isIsr op := by
  cases op with
  | isr cb => cases out <;> rfl
  | _ => rfl

theorem ticks_events (t : T) (ops : List (TimerOp T F)) : ∀ outs : List (TimerOut T F),
    outs.length = ops.length → ticks (events t ops outs) = isrCount ops := by
  induction ops with
  | nil => exact fun _ _ => rfl
  | cons op ops ih =>
    intro outs hlen
    cases outs with
    | nil => cases hlen
    | cons out outs =>
      have htail := ih outs (Nat.succ.inj hlen)
      unfold ticks isrCount at htail ⊢
      rw [show events t (op :: ops) (out :: outs) = event t op out :: events t ops outs from rfl,
        List.countP_cons, List.countP_cons, htail, event_isSome]

theorem runOps_length (ops : List (TimerOp T F)) : ∀ {st : TimerCtx T F} {outs : List (TimerOut T F)},
    runOps v fuel st ops = .ok (outs, st') → outs.length = ops.length := by
  induction ops with
  | nil =>
    intro st outs h
    obtain ⟨rfl, _⟩ := Prod.mk.inj (Except.ok.inj h)
    rfl
  | cons op ops ih =>
    intro st outs h
    obtain ⟨⟨out, st₁⟩, _, h⟩ := bind_eq_ok.mp h
    obtain ⟨⟨outs₁, st₂⟩, hrun, h⟩ := bind_eq_ok.mp h
    obtain ⟨rfl, rfl⟩ := Prod.mk.inj (Except.ok.inj h)
    exact congrArg Nat.succ (ih hrun)

theorem AdmittedRun.split (ops : List (TimerOp T F)) : ∀ {st : TimerCtx T F},
    AdmittedRun v fuel st (ops ++ ops') → AdmittedRun v fuel st ops ∧
      ∀ outs st', runOps v fuel st ops = .ok (outs, st') → AdmittedRun v fuel st' ops' := by
  induction ops with
  | nil =>
    intro st h
    refine ⟨trivial, fun outs st' hrun => ?_⟩
    obtain ⟨_, rfl⟩ := Prod.mk.inj (Except.ok.inj hrun)
    exact h
  | cons op ops ih =>
    intro st h
    refine ⟨⟨h.1, fun out st₁ hrun => (ih (h.2 out st₁ hrun)).1⟩, fun outs st' hrun => ?_⟩
    obtain ⟨⟨out, st₁⟩, hop, hrun⟩ := bind_eq_ok.mp hrun
    obtain ⟨⟨outs₁, st₂⟩, hrest, hrun⟩ := bind_eq_ok.mp hrun
    obtain ⟨_, rfl⟩ := Prod.mk.inj (Except.ok.inj hrun)
    exact (ih (h.2 out st₁ hop)).2 outs₁ st₂ hrest

/-- without a start with `UINT32_MAX` ticks the callers keep to the documentation -/
theorem AdmittedRun.legal (ops : List (TimerOp T F)) : ∀ {st : TimerCtx T F},
    AdmittedRun v fuel st ops → (∀ op ∈ ops, BelowMax op) → LegalRun Silent v fuel st ops := by
  induction ops with
  | nil => exact fun _ _ => trivial
  | cons op ops ih =>
    intro st h hmax
    refine ⟨?_, fun out st' hrun => ih (h.2 out st' hrun) fun op' hop' => hmax op' (List.mem_cons_of_mem _ hop')⟩
    have hop := h.1
    have hbelow := hmax op List.mem_cons_self
    cases op with
    | start t tick fn flags => exact ⟨hop.1, hop.2.1, hbelow⟩
    | isr cb => exact hop
    | _ => trivial

end

/-! ## a repeating timer in a run -/

section
variable {st : TimerCtx T F} {D : List (T × ℕ)} {M : Countdowns T F}

theorem delay_add_modEq (D : List (T × ℕ)) (l : ℕ) : delay D + l ≡ l [MOD 2 ^ 32] := by
  match D with
  | [] => rw [show delay ([] : List (T × ℕ)) = 0 from rfl, Nat.zero_add]
  | (_, 0) :: _ => exact Nat.modulus_add_modEq_iff.mpr rfl
  | (_, _ + 1) :: _ => exact congrArg (· % 2 ^ 32) (Nat.zero_add l)

theorem step_isr {m l n : ℕ} {c : Countdown F} {log : List (T × F)} {t : T}
    (hnd : (log.map Prod.fst).Nodup) (hmem : t ∈ log.map Prod.fst ↔ l = 1) (hl : 0 < l)
    (hmod : l ≡ n [MOD m]) (hper : c.period ≠ 0) :
    ∃ l', Step m c.period n (some ((log.map Prod.fst).count t)) l' ∧
      (if l = 1 then c.reload else some { c with left := l - 1 }) = some { c with left := l' } := by
  by_cases h1 : l = 1
  · rw [List.count_eq_one_of_mem hnd (hmem.mpr h1), if_pos h1]
    exact ⟨c.period, .call (h1 ▸ hmod), if_neg hper⟩
  · rw [List.count_eq_zero_of_not_mem (fun ht => h1 (hmem.mp ht)), if_neg h1]
    have hpred : l - 1 + 1 = l := Nat.sub_add_cancel hl
    exact ⟨l - 1, .wait (hpred.symm ▸ hmod) (by omega), rfl⟩

/-- **An admitted call**: the list stays well formed, and a repeating timer that is not cancelled
counts on modulo `2 ^ 32`. -/
theorem Counted.runOp_counted (v : Bool) {fuel : ℕ} {op : TimerOp T F} (h : Counted st D M)
    (ha : AdmittedOp st op) (hf : D.length ≤ fuel) :
    ∃ out st' D' M', runOp v fuel st op = .ok (out, st') ∧ Counted st' D' M' ∧
      D'.length ≤ D.length + 1 ∧ ∀ t c, M t = some c → c.period ≠ 0 → op ≠ .cancel t →
        ∃ l, Step (2 ^ 32) c.period c.left (event t op out) l ∧ M' t = some { c with left := l } := by
  cases op with
  | start u tick fn flags =>
    obtain ⟨hu, h1, _⟩ := ha
    have hMu : M u = none := by
      rw [← Bool.not_eq_true, h.isRunning_iff, h.mem_keys, Option.not_isSome_iff_eq_none] at hu
      exact hu
    obtain ⟨st', hrun, h', _⟩ := h.ntimerStartI_counted v fn flags hMu h1 hf
    refine ⟨.done, st', _, _, ?_, h', (length_insert ..).le, fun t c hc _ _ => ⟨c.left, .skip rfl, ?_⟩⟩
    · show (ntimerStartI v fuel st u tick fn flags >>= _) = _
      rw [hrun]
      rfl
    · have htu : t ≠ u := fun e => Option.some_ne_none c (hc.symm.trans (e ▸ hMu))
      exact (Function.update_of_ne htu _ _).trans hc
  | cancel u =>
    obtain ⟨st', D', M', hrun, h', hlen, hother⟩ := h.ntimerCancelI_counted v u
    refine ⟨.done, st', D', M', ?_, h', hlen.trans (Nat.le_succ _), fun t c hc _ hop => ?_⟩
    · show (ntimerCancelI v st u >>= _) = _
      rw [hrun]
      rfl
    · obtain ⟨l, hl, hM'⟩ := hother t c (fun e => hop (e ▸ rfl)) hc
      exact ⟨l, .skip hl, hM'⟩
  | isRunning u =>
    exact ⟨_, st, D, M, rfl, h, Nat.le_succ _, fun t c hc _ _ => ⟨c.left, .skip rfl, hc⟩⟩
  | remaining u =>
    have hrun := h.toListed.ntimerRemaining_eq u hf
    generalize (DeltaList.due D u).getD 0 = x at hrun
    refine ⟨.ticks (x % 2 ^ 32), _, D, M, ?_, h.setWrapped (st.wrapped || decide (2 ^ 32 ≤ x)),
      Nat.le_succ _, fun t c hc _ _ => ⟨c.left, .skip rfl, hc⟩⟩
    show (ntimerRemaining fuel st u >>= _) = _
    rw [hrun]
    rfl
  | isr cb =>
    obtain ⟨st', log, D', hrun, h', _, hlen, hnd, hmem⟩ := h.isrSilent_counted v ha hf
    refine ⟨.fired log, st', D', _, ?_, h', hlen.trans (Nat.le_succ _), fun t c hc hper _ => ?_⟩
    · show (ncoreTimerIsr v fuel cb st >>= _) = _
      rw [hrun]
      rfl
    · rw [Countdowns.isr_later hc]
      exact step_isr hnd ((hmem t).trans (Countdowns.later_left hc))
        (h.settled_later t _ (Countdowns.later_some hc)) (delay_add_modEq D c.left) hper

/-- **An admitted run** ends without a fault, and a repeating timer that is not cancelled is a periodic
countdown modulo `2 ^ 32`. -/
theorem Counted.runOps_counted (v : Bool) {fuel : ℕ} (ops : List (TimerOp T F)) :
    ∀ {st : TimerCtx T F} {D : List (T × ℕ)} {M : Countdowns T F}, Counted st D M →
      AdmittedRun v fuel st ops → D.length + ops.length ≤ fuel →
      ∃ outs st' D' M', runOps v fuel st ops = .ok (outs, st') ∧ Counted st' D' M' ∧
        D'.length ≤ D.length + ops.length ∧ ∀ t c, M t = some c → c.period ≠ 0 →
          (∀ op ∈ ops, op ≠ .cancel t) → ∃ l, Run (2 ^ 32) c.period c.left (events t ops outs) l := by
  induction ops with
  | nil => exact fun h _ _ => ⟨[], _, _, _, rfl, h, le_rfl, fun t c _ _ _ => ⟨c.left, .nil _⟩⟩
  | cons op ops ih =>
    intro st D M h ha hf
    rw [List.length_cons] at hf ⊢
    have hD : D.length ≤ fuel := by omega
    obtain ⟨out, st₁, D₁, M₁, hop, h₁, hlen₁, hstep⟩ := h.runOp_counted v ha.1 hD
    obtain ⟨outs, st', D', M', hrun, h', hlen, hrest⟩ := ih h₁ (ha.2 out st₁ hop) (by omega)
    refine ⟨out :: outs, st', D', M', runOps_cons hop hrun, h', by omega, fun t c hc hper hne => ?_⟩
    obtain ⟨l₁, hstep, hc₁⟩ := hstep t c hc hper (hne op List.mem_cons_self)
    obtain ⟨l, hl⟩ := hrest t _ hc₁ hper fun op' hop' => hne op' (List.mem_cons_of_mem _ hop')
    exact ⟨l, .cons hstep hl⟩

theorem Countdowns.step_exact {op : TimerOp T F} {out : TimerOut T F} {t : T} {c : Countdown F}
    (hM : M.Settled) (hout : M.Out op out) (hc : M t = some c) (hper : c.period ≠ 0)
    (hcancel : op ≠ .cancel t) (hstart : ∀ tick fn flags, op ≠ .start t tick fn flags) :
    ∃ l, Step 0 c.period c.left (event t op out) l ∧ M.next op t = some { c with left := l } := by
  cases op with
  | start u tick fn flags =>
    refine ⟨c.left, .skip rfl, (Function.update_of_ne (fun e => ?_) _ _).trans hc⟩
    exact hstart tick fn flags (e ▸ rfl)
  | cancel u =>
    refine ⟨c.left, .skip rfl, (Function.update_of_ne (fun e => ?_) _ _).trans hc⟩
    exact hcancel (e ▸ rfl)
  | isRunning u => exact ⟨c.left, .skip rfl, hc⟩
  | remaining u => exact ⟨c.left, .skip rfl, hc⟩
  | isr cb =>
    obtain ⟨log, rfl, hnd, hall⟩ := hout
    have hmem : t ∈ log.map Prod.fst ↔ c.left = 1 := by
      rw [List.mem_map]
      refine ⟨fun ⟨p, hp, ht⟩ => ?_, fun h1 => ⟨(t, c.fn), (hall t c.fn).mpr ⟨c, hc, h1, rfl⟩, rfl⟩⟩
      obtain ⟨c', hc', h1, _⟩ := (hall p.1 p.2).mp hp
      rw [ht, hc] at hc'
      obtain rfl := Option.some.inj hc'
      exact h1
    have hisr : M.isr t = if c.left = 1 then c.reload else some { c with left := c.left - 1 } := by
      show (M t).bind _ = _
      rw [hc]
      rfl
    show ∃ l, _ ∧ M.isr t = _
    rw [hisr]
    exact step_isr hnd hmem (hM t c hc) rfl hper

theorem Sim.runOps_exact (v : Bool) {fuel : ℕ} {t : T} (ops : List (TimerOp T F)) :
    ∀ {st : TimerCtx T F} {D : List (T × ℕ)} {M : Countdowns T F} {c : Countdown F}, Sim st D M →
      M.Settled → LegalRun Silent v fuel st ops → D.length + ops.length ≤ fuel → M t = some c →
      c.period ≠ 0 → (∀ op ∈ ops, op ≠ .cancel t) →
      ∃ outs st' l, runOps v fuel st ops = .ok (outs, st') ∧
        Run 0 c.period c.left (events t ops outs) l := by
  induction ops with
  | nil => exact fun _ _ _ _ _ _ _ => ⟨[], _, _, rfl, .nil _⟩
  | cons op ops ih =>
    intro st D M c h hM hl hf hc hper hne
    rw [List.length_cons] at hf
    have hD : D.length ≤ fuel := by omega
    have hstart : ∀ tick fn flags, op ≠ .start t tick fn flags := by
      intro tick fn flags hop
      subst hop
      have hrunning := hl.1.1
      rw [h.isRunning_eq, hc] at hrunning
      cases hrunning
    obtain ⟨out, st₁, D₁, hop, h₁, hlen, hset, hout⟩ := h.runOp_silent v hM hl.1 hD
    obtain ⟨l₁, hstep, hc₁⟩ :=
      Countdowns.step_exact hM hout hc hper (hne op List.mem_cons_self) hstart
    obtain ⟨outs, st', l, hrun, hrest⟩ := ih h₁ hset (hl.2 out st₁ hop) (by omega) hc₁ hper
      fun op' hop' => hne op' (List.mem_cons_of_mem _ hop')
    exact ⟨out :: outs, st', l, runOps_cons hop hrun, .cons hstep hrest⟩

end

theorem not_modEq_succ (n : ℕ) : ¬ n ≡ n + 1 [MOD 2 ^ 32] := by
  unfold Nat.ModEq
  omega

theorem tick_succ_lt {n : ℕ} (h : n < uint32Max) : n + 1 < 2 ^ 32 := Nat.succ_lt_succ h

theorem Counted.repeat_counted (v : Bool) {fuel : ℕ} {st : TimerCtx T F} {D : List (T × ℕ)}
    {M : Countdowns T F} (h : Counted st D M) {t : T} {n : ℕ} (fn : F) {flags : ℕ} (hn : n < uint32Max)
    (hrep : flags &&& ntimerAttrRepeat ≠ 0) (ht : ntimerIsRunningI st t = false) (h1 : 1 ≤ n)
    (hf : D.length ≤ fuel) :
    ∃ st' D' M', runOp v fuel st (.start t n fn flags) = .ok (.done, st') ∧ Counted st' D' M' ∧
      D'.length = D.length + 1 ∧ M' t = some ⟨n + 1, n + 1, fn⟩ := by
  have hMt : M t = none := by
    rw [← Bool.not_eq_true, h.isRunning_iff, h.mem_keys, Option.not_isSome_iff_eq_none] at ht
    exact ht
  obtain ⟨st', hrun, h', _⟩ := h.ntimerStartI_counted v fn flags hMt h1 hf
  refine ⟨st', _, _, ?_, h', length_insert .., ?_⟩
  · show (ntimerStartI v fuel st t n fn flags >>= _) = _
    rw [hrun]
    rfl
  · rw [Function.update_self, Nat.mod_eq_of_lt (tick_succ_lt hn), reloadOf, if_pos hrep]

/-- in an admitted run the callbacks of a repeating timer are `n` ticks apart only where there are less
than two, as in less than two periods of `n + 1` ticks -/
theorem Counted.repeat_run (v : Bool) {fuel : ℕ} {st : TimerCtx T F} {D : List (T × ℕ)}
    {M : Countdowns T F} (h : Counted st D M) {t : T} {n : ℕ} {fn : F} {seg : List (TimerOp T F)}
    (hn : n < uint32Max) (ht : M t = some ⟨n + 1, n + 1, fn⟩) (ha : AdmittedRun v fuel st seg)
    (hseg : ∀ op ∈ seg, op ≠ .cancel t) (hf : D.length + seg.length ≤ fuel) :
    ∃ outs st', runOps v fuel st seg = .ok (outs, st') ∧
      (EvenlySpaced n (callTimes 0 (events t seg outs)) ↔ (callTimes 0 (events t seg outs)).length ≤ 1) ∧
      (isrCount seg < 2 * (n + 1) → (callTimes 0 (events t seg outs)).length ≤ 1) := by
  obtain ⟨outs, st', _, _, hrun, _, _, hrepeat⟩ := h.runOps_counted v seg ha hf
  obtain ⟨l, hl⟩ := hrepeat t _ ht (Nat.succ_ne_zero n) hseg
  have hchain := (hl.chain (Nat.ModEq.refl (0 + (n + 1))) le_rfl).tail
  have hcount : (callTimes 0 (events t seg outs)).length * (n + 1) ≤ ticks (events t seg outs) :=
    hl.length_mul_le (tick_succ_lt hn)
  rw [ticks_events t seg outs (runOps_length seg hrun)] at hcount
  refine ⟨outs, st', hrun, evenlySpaced_iff (not_modEq_succ n) hchain, fun hlt => ?_⟩
  by_contra htwo
  have hmul := Nat.mul_le_mul_right (n + 1) (Nat.not_le.mp htwo)
  omega

theorem Sim.repeat_run (v : Bool) {fuel : ℕ} {st : TimerCtx T F} {D : List (T × ℕ)}
    {M : Countdowns T F} (h : Sim st D M) (hM : M.Settled) {t : T} {n : ℕ} {fn : F}
    {seg : List (TimerOp T F)} (ht : M t = some ⟨n + 1, n + 1, fn⟩) (hl : LegalRun Silent v fuel st seg)
    (hseg : ∀ op ∈ seg, op ≠ .cancel t) (hf : D.length + seg.length ≤ fuel) :
    ∃ outs st', runOps v fuel st seg = .ok (outs, st') ∧
      (callTimes 0 (events t seg outs)).length = isrCount seg / (n + 1) := by
  obtain ⟨outs, st', l, hrun, hexact⟩ := h.runOps_exact v seg hM hl hf ht (Nat.succ_ne_zero n) hseg
  have hlen := hexact.length_callTimes 0 (Nat.succ_pos n) le_rfl
  rw [ticks_events t seg outs (runOps_length seg hrun), Nat.sub_self, Nat.add_zero] at hlen
  exact ⟨outs, st', hrun, hlen⟩

theorem sim_before (v : Bool) {fuel : ℕ} {pre : List (TimerOp T F)} {outs : List (TimerOut T F)}
    {st : TimerCtx T F} (ha : AdmittedRun v fuel TimerCtx.init pre) (hmax : ∀ op ∈ pre, BelowMax op)
    (hf : pre.length ≤ fuel) (hrun : runOps v fuel TimerCtx.init pre = .ok (outs, st)) :
    ∃ D M, Sim st D M ∧ M.Settled ∧ D.length ≤ pre.length := by
  obtain ⟨outs', st', D, hrun', _, hsim, hset, hlen⟩ := Sim.init.runOps_sim v pre
    Countdowns.settled_stopped (ha.legal pre hmax) (by rwa [List.length_nil, Nat.zero_add])
  obtain ⟨_, rfl⟩ := Prod.mk.inj (Except.ok.inj (hrun.symm.trans hrun'))
  rw [List.length_nil, Nat.zero_add] at hlen
  exact ⟨D, _, hsim, hset, hlen⟩

/-- **A repeating timer drifts.**  In every run in which a timer is started with `n` ticks and then
not cancelled its callbacks are `n` ISR calls apart iff there are less than two of them, so in less
than `2 * (n + 1)` ISR calls; and only then, if no timer is started with `UINT32_MAX` ticks. -/
theorem timer_evenlySpaced_iff (v : Bool) {fuel : ℕ} (pre seg : List (TimerOp T F)) (t : T) {n : ℕ}
    (fn : F) {flags : ℕ} (hn : n < uint32Max) (hrep : flags &&& ntimerAttrRepeat ≠ 0)
    (hadm : AdmittedRun v fuel TimerCtx.init (pre ++ .start t n fn flags :: seg))
    (hseg : ∀ op ∈ seg, op ≠ .cancel t) (hf : (pre ++ .start t n fn flags :: seg).length ≤ fuel) :
    ∃ outs₀ st₀ st₁ outs st' times, runOps v fuel TimerCtx.init pre = .ok (outs₀, st₀) ∧
      runOp v fuel st₀ (.start t n fn flags) = .ok (.done, st₁) ∧
      runOps v fuel st₁ seg = .ok (outs, st') ∧ times = callTimes 0 (events t seg outs) ∧
      (EvenlySpaced n times ↔ times.length ≤ 1) ∧
      (isrCount seg < 2 * (n + 1) → EvenlySpaced n times) ∧
      ((∀ op ∈ pre ++ seg, BelowMax op) → (EvenlySpaced n times ↔ isrCount seg < 2 * (n + 1))) := by
  rw [List.length_append, List.length_cons] at hf
  obtain ⟨hpre, hrest⟩ := hadm.split pre
  have h₀ : Counted (TimerCtx.init : TimerCtx T F) [] Countdowns.stopped := Sim.init.counted
  obtain ⟨outs₀, st₀, D₀, M₀, hrun₀, h₀, hlen₀, _⟩ := h₀.runOps_counted v pre hpre (by simp; omega)
  rw [List.length_nil, Nat.zero_add] at hlen₀
  obtain ⟨⟨hstopped, h1, _⟩, hseg'⟩ := hrest outs₀ st₀ hrun₀
  have hD₀ : D₀.length ≤ fuel := by omega
  obtain ⟨st₁, D₁, M₁, hstart, h₁, hlen₁, ht₁⟩ := h₀.repeat_counted v fn hn hrep hstopped h1 hD₀
  have hadm₁ := hseg' .done st₁ hstart
  obtain ⟨outs, st', hrun, hspaced, hfew⟩ := h₁.repeat_run v hn ht₁ hadm₁ hseg (by omega)
  refine ⟨outs₀, st₀, st₁, outs, st', _, hrun₀, hstart, hrun, rfl, hspaced,
    fun hlt => hspaced.mpr (hfew hlt), fun hmax => ?_⟩
  obtain ⟨D, M, hsim, hset, hlen⟩ := sim_before v hpre
    (fun op hop => hmax op (List.mem_append_left _ hop)) (by omega) hrun₀
  have hlegal : LegalOp Silent st₀ (.start t n fn flags) := ⟨hstopped, h1, hn⟩
  have hD : D.length ≤ fuel := by omega
  obtain ⟨out, st₂, D₂, hstart₂, hsim₂, hlen₂, hset₂, _⟩ := hsim.runOp_silent v hset hlegal hD
  obtain ⟨_, rfl⟩ := Prod.mk.inj (Except.ok.inj (hstart.symm.trans hstart₂))
  have ht₂ : M.next (.start t n fn flags) t = some ⟨n + 1, n + 1, fn⟩ := by
    show Function.update M t _ t = _
    rw [Function.update_self, if_pos hrep]
  obtain ⟨outs₂, st₂, hrun₂, hexact⟩ := hsim₂.repeat_run v hset₂ ht₂
    (hadm₁.legal seg fun op hop => hmax op (List.mem_append_right _ hop)) hseg (by omega)
  obtain ⟨rfl, _⟩ := Prod.mk.inj (Except.ok.inj (hrun.symm.trans hrun₂))
  rw [hspaced, hexact, Nat.lt_succ_iff.symm, Nat.div_lt_iff_lt_mul (Nat.succ_pos n)]

/-- two ticks, and another timer is cancelled between them -/
def cancelBetween : List (TimerOp Bool Unit) :=
  [.isr (fun _ _ => []), .cancel true, .isr (fun _ _ => [])]

/-- a repeating timer beside another one, which is cancelled -/
theorem timer_evenlySpaced_beside :
    ∃ outs₀ st₀ st₁ outs st' times,
      runOps true 6 (TimerCtx.init : TimerCtx Bool Unit) [.start true 5 () 1] = .ok (outs₀, st₀) ∧
      runOp true 6 st₀ (.start false 1 () 2) = .ok (.done, st₁) ∧
      runOps true 6 st₁ cancelBetween = .ok (outs, st') ∧
      times = callTimes 0 (events false cancelBetween outs) ∧
      (EvenlySpaced 1 times ↔ times.length ≤ 1) ∧
      (isrCount cancelBetween < 2 * (1 + 1) → EvenlySpaced 1 times) ∧
      ((∀ op ∈ [TimerOp.start true 5 () 1] ++ cancelBetween, BelowMax op) →
        (EvenlySpaced 1 times ↔ isrCount cancelBetween < 2 * (1 + 1))) := by
  refine timer_evenlySpaced_iff true [.start true 5 () 1] cancelBetween false () (by decide)
    (by decide) ⟨⟨by decide, by decide, by decide⟩, fun out st h => ?_⟩ (fun op hop => ?_) (by decide)
  · obtain ⟨_, rfl⟩ := Prod.mk.inj (Except.ok.inj h)
    exact ⟨⟨by decide, by decide, by decide⟩, fun _ _ _ => ⟨fun _ _ => rfl, fun _ _ _ => ⟨trivial,
      fun _ _ _ => ⟨fun _ _ => rfl, fun _ _ _ => trivial⟩⟩⟩⟩
  · intro hcancel
    subst hcancel
    rcases List.mem_cons.mp hop with h | hop
    · cases h
    rcases List.mem_cons.mp hop with h | hop
    · cases h
    · cases List.mem_singleton.mp hop

/-- a timer started with one tick and no other: its callbacks come in every second ISR call -/
theorem timer_everySecond : ∃ st outs st',
    runOp true 2 (TimerCtx.init : TimerCtx Unit Unit) (.start () 1 () ntimerAttrRepeat) = .ok (.done, st) ∧
      runOps true 2 st (List.replicate 4 (.isr (fun _ _ => []))) = .ok (outs, st') ∧
      callTimes 0 (events () (List.replicate 4 (.isr (fun _ _ => []))) outs) = [2, 4] ∧
      ¬ EvenlySpaced 1 [2, 4] :=
  ⟨_, _, _, rfl, rfl, by decide, by decide⟩

end NeonEds

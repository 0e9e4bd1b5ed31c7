import NeonEds.Timer.Refine

/-!
# Callbacks that start timers

`insert_timer` takes the ticks of a new timer off the timer that it is put in front of, and the ISR
loop reads the ticks of the timer that was next before the callback.  When the callback of the last
expired timer starts one with just the ticks that are left of this next timer, the loop reads zero
and fires it early.

* `StartsAtNext`                 the callback of the last expired timer does that;
* `isrHeadsSound_iff_startsAtNext`  only timers at zero are fired in an ISR call iff it does not.
-/

set_option linter.unusedSectionVars false

namespace NeonEds
open Exec DeltaList

variable {T F : Type} [DecidableEq T]

def OnlyStarts (cs : List (TimerCall T F)) : Prop :=
  ∀ c ∈ cs, ∃ t tick fn flags, c = TimerCall.start t tick fn flags

theorem OnlyStarts.tail {c : TimerCall T F} {cs : List (TimerCall T F)}
    (h : OnlyStarts (c :: cs)) : OnlyStarts cs := fun x hx => h x (List.mem_cons_of_mem _ hx)

/-- the timers of `E` expire in turn, the callback of the first is number `i`; the callback of the
last starts a timer with the ticks that are then left of the next one to expire -/
def StartsAtNext (cb : ℕ → T → List (TimerCall T F)) : ℕ → Countdowns T F → List T → Prop
  | _, _, [] => False
  | i, M, [t] => ∃ u c, M.expire t u = some c ∧
      (∀ u' c', M.expire t u' = some c' → c.left ≤ c'.left) ∧ c.left ∈ starts (cb i t)
  | i, M, t :: u :: E => StartsAtNext cb (i + 1) ((M.expire t).calls (cb i t)) (u :: E)

/-- the number of calls of the callbacks for the timers of `E` -/
def callCount (cb : ℕ → T → List (TimerCall T F)) : ℕ → List T → ℕ
  | _, [] => 0
  | i, t :: E => (cb i t).length + callCount cb (i + 1) E

/-! ### what starting does to the list -/

/-- the started timers go behind those at zero, and are not at zero -/
theorem listCalls_starts {cs : List (TimerCall T F)} (hcs : OnlyStarts cs) :
    ∀ (E : List T) {R : List (T × ℕ)}, (∀ p ∈ R.head?, 0 < p.2) →
      listCalls (zeros E ++ R) cs = zeros E ++ listCalls R cs ∧
        ∀ p ∈ (listCalls R cs).head?, 0 < p.2 := by
  induction cs with
  | nil => exact fun E R hR => ⟨rfl, hR⟩
  | cons c cs ih =>
    intro E R hR
    obtain ⟨t, tick, fn, flags, rfl⟩ := hcs c (List.mem_cons_self ..)
    have hpos := insert_head_pos (Nat.succ_pos tick) t hR
    have hins := insert_zeros (Nat.succ_pos tick) t E R
    show listCalls (insert t (tick + 1) (zeros E ++ R)) cs
      = zeros E ++ listCalls (insert t (tick + 1) R) cs ∧ _
    rw [hins]
    exact ih hcs.tail E hpos

/-- a timer on the list is left with nothing of its own iff one is started with its countdown -/
theorem listCalls_starts_middle {cs : List (TimerCall T F)} (hcs : OnlyStarts cs) (f : T) :
    ∀ (pre : List (T × ℕ)) (x : ℕ) (post : List (T × ℕ)), ∃ pre' x' post',
      listCalls (pre ++ (f, x) :: post) cs = pre' ++ (f, x') :: post' ∧
      total pre' + x' = total pre + x ∧ (x' = 0 ↔ x = 0 ∨ total pre + x ∈ starts cs) := by
  induction cs with
  | nil => exact fun pre x post => ⟨pre, x, post, rfl, rfl, by simp [starts]⟩
  | cons c cs ih =>
    intro pre x post
    obtain ⟨t, tick, fn, flags, rfl⟩ := hcs c (List.mem_cons_self ..)
    obtain ⟨pre₁, x₁, post₁, heq₁, htot₁, hx₁⟩ := insert_middle t f pre (tick + 1) x post
    obtain ⟨pre', x', post', heq, htot, hx⟩ := ih hcs.tail pre₁ x₁ post₁
    refine ⟨pre', x', post', ?_, htot.trans htot₁, ?_⟩
    · show listCalls (insert t (tick + 1) _) cs = _
      rw [heq₁, heq]
    · show _ ↔ x = 0 ∨ total pre + x ∈ (tick + 1) :: starts cs
      rw [hx, hx₁, htot₁, List.mem_cons, or_assoc,
        @eq_comm _ (tick + 1)]

/-! ### the loop -/

theorem Sim.least_iff {st : TimerCtx T F} {f : T} {r : ℕ} {D : List (T × ℕ)} {M : Countdowns T F}
    (h : Sim st ((f, r) :: D) M) (P : ℕ → Prop) :
    (∃ u c, M u = some c ∧ (∀ u' c', M u' = some c' → c.left ≤ c'.left) ∧ P c.left) ↔ P r := by
  obtain ⟨c₀, hc₀, hl₀⟩ := h.head_left rfl
  have hmin : ∀ u c, M u = some c → r ≤ c.left := by
    intro u c hc
    have hd := h.due u
    rw [hc] at hd
    exact head_le_due hd
  constructor
  · rintro ⟨u, c, hc, hle, hP⟩
    have h1 := hmin u c hc
    have h2 := hle f c₀ hc₀
    rwa [show r = c.left by omega]
  · intro hP
    exact ⟨f, c₀, hc₀, fun u' c' hc' => hl₀ ▸ hmin u' c' hc', hl₀.symm ▸ hP⟩

/-- after the callback of the last expired timer the loop goes on iff a timer was started with the
countdown of the next one -/
theorem isrLive_last_iff {st' : TimerCtx T F} {st : TimerCtx T F} {R : List (T × ℕ)}
    {M M' : Countdowns T F} {cs : List (TimerCall T F)} (hcs : OnlyStarts cs) (h : Sim st R M)
    (hR : ∀ p ∈ R.head?, 0 < p.2) (h' : Sim st' (listCalls R cs) M') (log : List (T × F)) :
    isrLive ⟨st', atNode R, log⟩ = true ↔ ∃ u c, M u = some c ∧
      (∀ u' c', M u' = some c' → c.left ≤ c'.left) ∧ c.left ∈ starts cs := by
  cases R with
  | nil =>
    have hs : st'.rtick .gTimerSentinel = uint32Max := h'.sentinel
    refine iff_of_false (fun hlive => ?_) ?_
    · cases hs.symm.trans (of_decide_eq_true hlive)
    · rintro ⟨u, c, hc, _⟩
      have hm := (h.mem_keys u).mpr (by rw [hc]; rfl)
      cases hm
  | cons p R =>
    obtain ⟨f, r⟩ := p
    have hr : 0 < r := hR (f, r) rfl
    rw [h.least_iff (· ∈ starts cs)]
    obtain ⟨pre', x', post', heq, _, hx⟩ := listCalls_starts_middle hcs f [] r R
    have hrt : st'.rtick (.timer f) = x' := by
      rw [List.nil_append] at heq
      rw [heq] at h'
      exact h'.rtick (f, x') (by simp)
    show decide (st'.rtick (.timer f) = 0) = true ↔ _
    rw [decide_eq_true_iff, hrt, hx, total_nil, Nat.zero_add, or_iff_right (Nat.ne_of_gt hr)]

theorem headsSound_iff_startsAtNext (v : Bool) {fuel : ℕ} {cb : ℕ → T → List (TimerCall T F)}
    (hcb : ∀ i t, OnlyStarts (cb i t)) (M : Countdowns T F) (E : List T) :
    ∀ (s : IsrState T F) (R : List (T × ℕ)),
      Sim s.st (zeros E ++ R) (M.replay cb 0 (s.fired.map Prod.fst)) → (∀ p ∈ R.head?, 0 < p.2) →
      M.OnlyDue cb 0 s.fired → StandsAt E s →
      (M.replay cb 0 (s.fired.map Prod.fst)).LegalCallbacks cb s.fired.length E →
      (zeros E ++ R).length + callCount cb s.fired.length E ≤ fuel →
      (HeadsSound v fuel cb M s ↔
        ¬ StartsAtNext cb s.fired.length (M.replay cb 0 (s.fired.map Prod.fst)) E) := by
  induction E with
  | nil =>
    intro s R hsim hR hdue hat _ _
    exact iff_of_true (headsSound_exit ⟨hdue, _, hsim⟩ hat) not_false
  | cons t E ih =>
    intro s R hsim hR hdue hat hl hf
    have hsound : LoopSound cb M s := ⟨hdue, _, hsim⟩
    obtain ⟨st, current, log⟩ := s
    obtain ⟨hcur, hlive⟩ := hat
    change current = .timer t at hcur
    subst hcur
    change (zeros E ++ R).length + 1 + ((cb log.length t).length + callCount cb (log.length + 1) E)
      ≤ fuel at hf
    have hfront : Sim st ([] ++ (t, 0) :: (zeros E ++ R)) (M.replay cb 0 (log.map Prod.fst)) := hsim
    have hf' : ([] ++ (zeros E ++ R)).length + 1 + (cb log.length t).length ≤ fuel := by
      rw [List.nil_append]
      omega
    obtain ⟨c, s', hc, hleft, hbody, hfired, hcur, ⟨st₁, hsim₁⟩, hsim'⟩ :=
      hfront.isrBody_calls v log hl.1 hf'
    rw [List.nil_append, reinsert_zeros] at hcur hsim₁ hsim'
    have hpos := reinsert_head_pos t c.period hR
    have hlenR := length_reinsert_le t c.period R
    generalize reinsert t c.period R = R₁ at hcur hsim₁ hsim' hpos hlenR
    obtain ⟨hlist, hpos'⟩ := listCalls_starts (hcb log.length t) E hpos
    rw [hlist] at hsim'
    have hrep := replay_concat cb M hfired
    have hdue' : M.OnlyDue cb 0 s'.fired := by
      rw [hfired, Countdowns.onlyDue_concat]
      exact ⟨hdue, c, hc, hleft, rfl⟩
    rw [headsSound_succ hsound hlive hbody]
    have hnum : s'.fired.length = log.length + 1 := by rw [hfired, List.length_append]; rfl
    rw [← hrep] at hsim'
    obtain ⟨st', current', fired'⟩ := s'
    change current' = _ at hcur
    subst hcur
    cases E with
    | nil =>
      -- the loop is over, unless the timer that is next now shows no ticks
      have hlast := isrLive_last_iff (hcb log.length t) hsim₁ hpos hsim' fired'
      show _ ↔ ¬ ∃ u c, _
      rw [← hlast]
      by_cases hlive' : isrLive (⟨st', atNode R₁, fired'⟩ : IsrState T F) = true
      · have hset := hsim'.settled hpos'
        exact iff_of_false (not_headsSound hlive' fun u _ c' hc' => hset u c' hc')
          (fun h => h hlive')
      · exact iff_of_true (headsSound_exit ⟨hdue', _, hsim'⟩ (Bool.not_eq_true _ ▸ hlive')) hlive'
    | cons u E =>
      have hrt : st'.rtick (.timer u) = 0 := hsim'.rtick (u, 0) (by simp)
      have hlenC := length_listCalls_le (cb log.length t) R₁
      change _ ↔ ¬ StartsAtNext cb (log.length + 1) _ (u :: E)
      have hl' := hl.2
      change Countdowns.LegalCallbacks cb (log.length + 1) _ (u :: E) at hl'
      change (M.replay cb 0 (fired'.map Prod.fst)) = _ at hrep
      change fired'.length = _ at hnum
      rw [← hrep, ← hnum] at hl' ⊢
      rw [← hnum] at hf
      refine ih _ _ hsim' hpos' hdue' ⟨rfl, decide_eq_true hrt⟩ hl' ?_
      show (zeros (u :: E) ++ listCalls R₁ (cb log.length t)).length
        + callCount cb fired'.length (u :: E) ≤ fuel
      rw [List.length_append] at hf ⊢
      omega

/-- **In an ISR call whose callbacks only start timers, only timers at zero are fired iff the
callback of the last of them does not start a timer with the ticks left of the next one.** -/
theorem isrHeadsSound_iff_startsAtNext (v : Bool) {fuel : ℕ} {cb : ℕ → T → List (TimerCall T F)}
    {st : TimerCtx T F} {D : List (T × ℕ)} {M : Countdowns T F} (h : Sim st D M) (hM : M.Settled)
    (hcb : ∀ i t, OnlyStarts (cb i t)) (hl : M.tick.LegalCallbacks cb 0 (expiring D))
    (hf : D.length + callCount cb 0 (expiring D) ≤ fuel) :
    IsrHeadsSound v fuel cb st M ↔ ¬ StartsAtNext cb 0 M.tick (expiring D) := by
  obtain ⟨st', hsim, hiff⟩ := h.isrSound_start hM
  obtain ⟨R, hD, hR⟩ := tick_eq_zeros D
  rw [(hiff v fuel cb).1]
  rw [← length_tick D] at hf
  rw [hD] at hsim ⊢
  refine headsSound_iff_startsAtNext v hcb M.tick (expiring D) ⟨st', _, []⟩ R hsim hR trivial
    (hsim.counted.standsAt hR []) hl ?_
  rwa [← hD]

/-! ### two timers, the second one with twice the period of the first -/

/-- a timer that fires after two ticks and one that fires after four; one tick passes -/
def twoTimers : List (TimerOp Bool Unit) :=
  [.start true 1 () 0, .start false 3 () 0, .isr (fun _ _ => [])]

/-- every callback starts its own timer again -/
def restart (_ : ℕ) (t : Bool) : List (TimerCall Bool Unit) := [.start t 1 () 0]

theorem twoTimers_sim : ∃ outs st, runOps false 4 TimerCtx.init twoTimers = .ok (outs, st) ∧
    Sim st [(true, 1), (false, 2)] (Countdowns.stopped.after twoTimers) := by
  have hl : LegalRun Silent false 4 TimerCtx.init twoTimers := by
    refine ⟨⟨by decide, by decide, by decide⟩, fun out st h => ?_⟩
    have hst : st = _ := (congrArg Prod.snd (Except.ok.inj h)).symm
    subst hst
    exact ⟨⟨by decide, by decide, by decide⟩, fun _ _ _ => ⟨fun _ _ => rfl, fun _ _ _ => trivial⟩⟩
  obtain ⟨outs, st, D, hrun, _, hsim, _⟩ := Sim.init.runOps_sim false twoTimers
    Countdowns.settled_stopped hl (by decide)
  refine ⟨outs, st, hrun, ?_⟩
  have hst : st = _ := (congrArg Prod.snd (Except.ok.inj hrun)).symm
  have hD : D = [(true, 1), (false, 2)] := by
    refine hsim.toRep.unique ⟨⟨?_, by decide⟩, ?_, ?_, ?_, by decide, hsim.noWrap⟩
    · subst hst
      exact ⟨⟨rfl, rfl⟩, ⟨rfl, rfl⟩, rfl, rfl⟩
    · subst hst
      simp only [List.forall_mem_cons]
      exact ⟨rfl, rfl, fun p hp => absurd hp List.not_mem_nil⟩
    · exact hsim.sentinel
    · exact fun t ht => absurd (by cases t <;> decide) ht
  rwa [hD] at hsim

theorem twoTimers_settled : (Countdowns.stopped.after twoTimers).Settled := by
  intro t c hc
  cases t with
  | true => cases hc; decide
  | false => cases hc; decide

theorem onlyStarts_restart (i : ℕ) (t : Bool) : OnlyStarts (restart i t) :=
  fun _ hc => ⟨t, 1, (), 0, List.mem_singleton.mp hc⟩

theorem twoTimers_legal : (Countdowns.stopped.after twoTimers).tick.LegalCallbacks restart 0
    (expiring [(true, 1), (false, 2)]) :=
  ⟨⟨⟨rfl, by decide, by decide⟩, trivial⟩, trivial⟩

/-- the timer with two ticks left is fired when the other one starts again with two ticks -/
theorem twoTimers_early : ∃ outs st, runOps false 4 TimerCtx.init twoTimers = .ok (outs, st) ∧
    Sim st [(true, 1), (false, 2)] (Countdowns.stopped.after twoTimers) ∧
    (∀ i t, OnlyStarts (restart i t)) ∧
    (Countdowns.stopped.after twoTimers).tick.LegalCallbacks restart 0
      (expiring [(true, 1), (false, 2)]) ∧
    (∃ s, isrSteps false 4 restart 2 st = .ok s ∧ s.fired = [(true, ()), (false, ())]) ∧
    ¬ IsrHeadsSound false 4 restart st (Countdowns.stopped.after twoTimers) := by
  obtain ⟨outs, st, hrun, hsim⟩ := twoTimers_sim
  have hst : st = _ := (congrArg Prod.snd (Except.ok.inj hrun)).symm
  refine ⟨outs, st, hrun, hsim, onlyStarts_restart, twoTimers_legal,
    ⟨_, by subst hst; exact ⟨rfl, rfl⟩⟩, fun h => ?_⟩
  obtain ⟨s, hs, hdue, _⟩ := h 2
  subst hst
  have hs' : s = _ := (Except.ok.inj hs).symm
  subst hs'
  obtain ⟨c, hc, hleft, _⟩ := hdue.2.1
  cases hc
  cases hleft

theorem isrHeadsSound_iff_startsAtNext_twoTimers : ∃ st,
    (IsrHeadsSound false 4 restart st (Countdowns.stopped.after twoTimers) ↔
      ¬ StartsAtNext restart 0 (Countdowns.stopped.after twoTimers).tick
        (expiring [(true, 1), (false, 2)])) := by
  obtain ⟨outs, st, _, hsim⟩ := twoTimers_sim
  exact ⟨st, isrHeadsSound_iff_startsAtNext false hsim twoTimers_settled onlyStarts_restart
    twoTimers_legal (by decide)⟩

end NeonEds

import Mathlib.Data.List.Induction
import NeonEds.Timer.Counted

/-!
# The timer list represents independent countdowns

`Sim st D M`: the list of `st` is the delta list `D`, and the countdowns of `D` are those of `M`.
Each function of `timer.c` keeps it:

* `Sim.ntimerStartI_sim`    `Countdowns.start`;
* `Sim.ntimerCancelI_sim`   `Countdowns.cancel`;
* `Sim.isrEnter_sim`        `Countdowns.tick`;
* `Sim.isrBody_sim`         `Countdowns.expire` of the timer at which the ISR loop stands, in one
                            iteration of the loop up to the calls of the callback.

`Sim.ntimerRemaining_eq` and `Rep.isRunning_iff` say what the two queries return.
-/

set_option linter.unusedSectionVars false

namespace NeonEds
open Exec DeltaList

variable {T F : Type} [DecidableEq T]

/-- the delta list counts the countdowns `M`, reload values and callbacks are those of `M` -/
structure Sim (st : TimerCtx T F) (D : List (T × ℕ)) (M : Countdowns T F) : Prop extends Rep st D where
  due : ∀ t, DeltaList.due D t = (M t).map Countdown.left
  attr : ∀ t c, M t = some c → st.itick (.timer t) = c.period ∧ (st.timer (.timer t)).fn = some c.fn
  period : ∀ t c, M t = some c → c.period ≤ uint32Max

theorem Counted.sim {st : TimerCtx T F} {D : List (T × ℕ)} {M : Countdowns T F} (h : Counted st D M)
    (ht : DeltaList.total D ≤ uint32Max) (hw : st.wrapped = false) : Sim st D M :=
  ⟨⟨h.ring, h.rtick, h.sentinel, h.stopped, ht, hw⟩, h.due, h.attr, h.period⟩

namespace Sim
variable {st : TimerCtx T F} {D : List (T × ℕ)} {M : Countdowns T F}

theorem counted (h : Sim st D M) : Counted st D M := ⟨h.toRep.listed, h.due, h.attr, h.period⟩

theorem mem_keys (h : Sim st D M) (t : T) : t ∈ keys D ↔ (M t).isSome := h.counted.mem_keys t

theorem head_left (h : Sim st D M) {a : T} {d : ℕ} {D' : List (T × ℕ)} (hD : D = (a, d) :: D') :
    ∃ c, M a = some c ∧ c.left = d := by
  have hd := h.due a
  rw [hD, due_cons_self] at hd
  obtain ⟨c, hc, hl⟩ := Option.map_eq_some_iff.mp hd.symm
  exact ⟨c, hc, hl⟩

theorem head_pos (h : Sim st D M) (hM : M.Settled) : ∀ p ∈ D.head?, 0 < p.2 := by
  intro p hp
  obtain ⟨c, hc, hl⟩ := h.head_left (a := p.1) (d := p.2) (List.eq_cons_of_mem_head? hp)
  rw [← hl]
  exact hM _ _ hc

theorem init : Sim (TimerCtx.init : TimerCtx T F) [] Countdowns.stopped where
  ring := Circular.nil_iff.mpr ⟨rfl, rfl⟩
  rtick := by simp
  sentinel := rfl
  stopped := fun _ _ => rfl
  total := Nat.zero_le _
  noWrap := rfl
  due := fun _ => rfl
  attr := fun _ _ h => by cases h
  period := fun _ _ h => by cases h

theorem ntimerStartI_sim (v : Bool) {fuel : ℕ} {t : T} {tick : ℕ} (fn : F) (flags : ℕ)
    (h : Sim st D M) (ht : M t = none) (h1 : 1 ≤ tick) (h2 : tick < uint32Max)
    (hf : D.length ≤ fuel) :
    ∃ st', ntimerStartI v fuel st t tick fn flags = .ok st' ∧
      Sim st' (insert t (tick + 1) D) (M.start t tick fn flags) := by
  have hlt : tick + 1 < 2 ^ 32 := by
    unfold uint32Max at h2
    omega
  obtain ⟨st', hrun, hcounted, hw⟩ := h.counted.ntimerStartI_counted v fn flags ht h1 hf
  rw [Nat.mod_eq_of_lt hlt] at hcounted
  rw [decide_eq_false (Nat.not_le.mpr hlt), Bool.or_false, h.noWrap] at hw
  exact ⟨st', hrun, hcounted.sim (total_insert_le t _ D h2 h.total) hw⟩

theorem of_sameAttr {st' : TimerCtx T F} {D' : List (T × ℕ)} {M' : Countdowns T F} (h : Sim st D M)
    (hr : Rep st' D') (ha : SameAttr st' st) (hdue : ∀ t, DeltaList.due D' t = (M' t).map Countdown.left)
    (hM : ∀ {t c'}, M' t = some c' → ∃ c, M t = some c ∧ c.period = c'.period ∧ c.fn = c'.fn) :
    Sim st' D' M' :=
  (h.counted.of_sameAttr hr.listed ha hdue hM).sim hr.total hr.noWrap

theorem ntimerCancelI_sim (v : Bool) (h : Sim st D M) (t : T) :
    ∃ st', ntimerCancelI v st t = .ok st' ∧ Sim st' (erase t D) (M.cancel t) ∧
      ∀ x ∉ keys (erase t D), st'.rtick (.timer x) = st.rtick (.timer x) := by
  obtain ⟨st', hrun, hr, ha, hrt⟩ := ntimerCancelI_rep v h.toRep t
  refine ⟨st', hrun, h.of_sameAttr hr ha (fun x => ?_) Countdowns.cancel_eq_some, hrt⟩
  rw [due_erase h.nodup]
  by_cases hx : x = t
  · rw [if_pos hx, hx, Countdowns.cancel, Function.update_self]
    rfl
  · rw [if_neg hx, Countdowns.cancel, Function.update_of_ne hx]
    exact h.due x

theorem isrEnter_sim {p : T × ℕ} (h : Sim st (p :: D) M) (hp : 0 < p.2) :
    ∃ st', isrEnter st = .ok ⟨st', .timer p.1, []⟩ ∧ Sim st' (tick (p :: D)) M.tick := by
  obtain ⟨st', hrun, hr, ha⟩ := isrEnter_rep h.toRep hp
  refine ⟨st', hrun, h.of_sameAttr hr ha (fun x => ?_) Countdowns.tick_eq_some⟩
  rw [due_tick (by intro q hq; injection hq with hq; exact hq ▸ hp), h.due]
  show ((M x).map _).map _ = ((M x).map _).map _
  rw [Option.map_map, Option.map_map]
  rfl

end Sim

theorem Sim.total_drop {st : TimerCtx T F} {pre D : List (T × ℕ)} {M : Countdowns T F} {a : T}
    (h : Sim st (pre ++ (a, 0) :: D) M) : DeltaList.total (pre ++ D) ≤ uint32Max := by
  have htot := h.total
  rw [total_append, total_cons] at htot
  rw [total_append]
  omega

/-- **One iteration of the ISR loop**, up to the calls of the callback: the timer at which the loop
stands expires and its callback runs. -/
theorem Sim.isrBody_sim (v : Bool) {fuel : ℕ} {st : TimerCtx T F} {pre D : List (T × ℕ)}
    {M : Countdowns T F} {a : T} (h : Sim st (pre ++ (a, 0) :: D) M)
    (hf : (pre ++ D).length ≤ fuel) (cb : ℕ → T → List (TimerCall T F)) (log : List (T × F)) :
    ∃ c st', M a = some c ∧ c.left = DeltaList.total pre ∧
      Sim st' (reinsert a c.period (pre ++ D)) (M.expire a) ∧
      isrBody v fuel cb ⟨st, .timer a, log⟩ = (runCalls v fuel st' (cb log.length a) >>= fun st'' =>
        .ok ⟨st'', atNode (reinsert a c.period (pre ++ D)), log ++ [(a, c.fn)]⟩) := by
  obtain ⟨c, st', hc, hl, hcounted, hw, hbody⟩ := h.counted.isrBody_counted v hf cb log
  have htot := total_reinsert_le a (h.period a c hc) h.total_drop
  exact ⟨c, st', hc, hl, hcounted.sim htot (hw.trans h.noWrap), hbody⟩

/-! ### the remaining ticks of a timer -/

/-- the node at which a part of the delta list ends: the sentinel when it is empty -/
def lastNode (D : List (T × ℕ)) : TimerNode T :=
  ((keys D).map TimerNode.timer).getLast?.getD .gTimerSentinel

@[simp] theorem lastNode_nil : lastNode ([] : List (T × ℕ)) = .gTimerSentinel := rfl
@[simp] theorem lastNode_concat (D : List (T × ℕ)) (p : T × ℕ) :
    lastNode (D ++ [p]) = .timer p.1 := by
  simp [lastNode, keys]

theorem Listed.prev_mem {st : TimerCtx T F} {pre post : List (T × ℕ)} {p : T × ℕ}
    (h : Listed st (pre ++ p :: post)) : ndlistPrev st.list (.timer p.1) = .ok (lastNode pre) := by
  have hr := h.ring
  rw [keys_append, List.map_append] at hr
  show deref _ = _
  rcases List.eq_nil_or_concat pre with rfl | ⟨as, q, rfl⟩
  · rw [Circular.prev_head hr]
    rfl
  · rw [List.concat_eq_append] at hr ⊢
    rw [keys_append, List.map_append, List.append_assoc] at hr
    rw [lastNode_concat, Circular.prev_mem hr]
    rfl

theorem Listed.remainingBody_eq {st : TimerCtx T F} {pre post : List (T × ℕ)} {p : T × ℕ}
    (h : Listed st (pre ++ p :: post)) (sum : ℕ) (w : Bool) :
    remainingBody st ((sum, w), .timer p.1)
      = .ok (((sum + p.2) % 2 ^ 32, w || decide (2 ^ 32 ≤ sum + p.2)), lastNode pre) := by
  show (ndlistPrev st.list (.timer p.1) >>= fun q =>
    Except.ok (((sum + st.rtick (.timer p.1)) % 2 ^ 32,
      w || decide (2 ^ 32 ≤ sum + st.rtick (.timer p.1))), q)) = _
  rw [h.prev_mem, h.rtick p (by simp), ok_bind]

theorem Listed.remaining_loop {st : TimerCtx T F} (pre : List (T × ℕ)) :
    ∀ (post : List (T × ℕ)) (sum : ℕ) (w : Bool) (fuel : ℕ), Listed st (pre ++ post) → sum < 2 ^ 32 →
      pre.length ≤ fuel →
      whileLoop (fun s => decide (s.2 ≠ .gTimerSentinel)) (remainingBody st) fuel
        ((sum, w), lastNode pre) = .ok (((sum + DeltaList.total pre) % 2 ^ 32,
          w || decide (2 ^ 32 ≤ sum + DeltaList.total pre)), .gTimerSentinel) := by
  induction pre using List.reverseRecOn with
  | nil =>
    intro post sum w fuel _ hs _
    rw [total_nil, Nat.add_zero, Nat.mod_eq_of_lt hs, decide_eq_false (Nat.not_le.mpr hs), Bool.or_false]
    exact whileLoop_exit (by simp) fuel
  | append_singleton pre p ih =>
    intro post sum w fuel h hs hf
    rw [List.append_assoc, List.singleton_append] at h
    rw [total_append, show p = (p.1, p.2) from rfl, total_cons, total_nil, Nat.add_zero]
    rw [List.length_append, List.length_singleton] at hf
    obtain ⟨n, rfl⟩ : ∃ n, fuel = n + 1 := ⟨fuel - 1, by omega⟩
    have hlt : (sum + p.2) % 2 ^ 32 < 2 ^ 32 := Nat.mod_lt _ (Nat.two_pow_pos 32)
    rw [lastNode_concat, whileLoop_succ (by simp) (h.remainingBody_eq sum w), ih _ _ _ _ h hlt (by omega)]
    have hsum : ((sum + p.2) % 2 ^ 32 + DeltaList.total pre) % 2 ^ 32
        = (sum + (DeltaList.total pre + p.2)) % 2 ^ 32 := by omega
    have hwrap : (decide (2 ^ 32 ≤ sum + p.2) ||
        decide (2 ^ 32 ≤ (sum + p.2) % 2 ^ 32 + DeltaList.total pre))
        = decide (2 ^ 32 ≤ sum + (DeltaList.total pre + p.2)) := by
      rw [← Bool.decide_or]
      exact decide_eq_decide.mpr (by omega)
    rw [hsum, Bool.or_assoc, hwrap]

/-- `ntimer_remaining` returns the ticks up to the timer modulo `2 ^ 32` -/
theorem Listed.ntimerRemaining_eq {st : TimerCtx T F} {D : List (T × ℕ)} (h : Listed st D) (t : T)
    {fuel : ℕ} (hf : D.length ≤ fuel) :
    ntimerRemaining fuel st t = .ok (((due D t).getD 0) % 2 ^ 32,
      { st with wrapped := st.wrapped || decide (2 ^ 32 ≤ (due D t).getD 0) }) := by
  unfold ntimerRemaining
  by_cases ht : t ∈ keys D
  · rw [if_pos ((h.isRunning_iff t).mpr ht)]
    obtain ⟨d, pre, post, rfl, hpre⟩ := exists_of_mem_keys ht
    rw [due_append hpre, due_cons_self]
    have hd : d ≤ uint32Max := h.le (t, d) (by simp)
    have hlt : d < 2 ^ 32 := Nat.lt_succ_of_le hd
    have hbody := h.remainingBody_eq 0 st.wrapped
    show (remainingBody st ((0, st.wrapped), .timer t) >>= _) = _
    rw [hbody, ok_bind, Nat.zero_add, Nat.mod_eq_of_lt hlt, decide_eq_false (Nat.not_le.mpr hlt),
      Bool.or_false, h.remaining_loop pre _ d _ fuel hlt (by simp at hf; omega), Nat.add_comm d]
    rfl
  · have hrun : ntimerIsRunningI st t = false := by
      rw [← Bool.not_eq_true, h.isRunning_iff]
      exact ht
    rw [hrun, due_eq_none ht]
    show Except.ok (0, st) = Except.ok (0, { st with wrapped := st.wrapped || false })
    rw [Bool.or_false]

/-- **`ntimer_remaining` returns the countdown of the timer**, `0` for one that does not run. -/
theorem Sim.ntimerRemaining_eq {st : TimerCtx T F} {D : List (T × ℕ)} {M : Countdowns T F}
    (h : Sim st D M) (t : T) {fuel : ℕ} (hf : D.length ≤ fuel) :
    ntimerRemaining fuel st t = .ok (((M t).map Countdown.left).getD 0, st) := by
  have hlt : (DeltaList.due D t).getD 0 < 2 ^ 32 :=
    Nat.lt_succ_of_le ((due_le_total D t).trans h.total)
  rw [h.toRep.listed.ntimerRemaining_eq t hf, Nat.mod_eq_of_lt hlt,
    decide_eq_false (Nat.not_le.mpr hlt), Bool.or_false, h.due]

end NeonEds

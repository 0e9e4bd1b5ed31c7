import NeonEds.Timer.Rep
import NeonEds.Timer.Countdown

/-!
# Timer lists that count down

`Counted st D M`: the list of `st` is the delta list `D` with whatever relative ticks, and the
countdowns of `D` are those of `M`.  Unlike `Sim` it does not say that no tick has wrapped, so it
holds after a start with `UINT32_MAX` ticks as well.

* `Counted.ntimerStartI_counted`  the new timer counts the incremented tick modulo `2 ^ 32`;
* `Counted.ntimerCancelI_counted`  the other timers count on modulo `2 ^ 32`;
* `Counted.isrExpire_counted`     `Countdowns.expire` of the timer at which the ISR loop stands;
* `Counted.isrBody_counted`       an iteration of the ISR loop up to the calls of the callback.
-/

set_option linter.unusedSectionVars false

namespace NeonEds
open Exec DeltaList

variable {T F : Type} [DecidableEq T]

/-- the delta list counts the countdowns `M`, reload values and callbacks are those of `M` -/
structure Counted (st : TimerCtx T F) (D : List (T × ℕ)) (M : Countdowns T F) : Prop
    extends Listed st D where
  due : ∀ t, DeltaList.due D t = (M t).map Countdown.left
  attr : ∀ t c, M t = some c → st.itick (.timer t) = c.period ∧ (st.timer (.timer t)).fn = some c.fn
  period : ∀ t c, M t = some c → c.period ≤ uint32Max

/-- the delta list after the timer in front has expired -/
def reinsert (a : T) (period : ℕ) (D : List (T × ℕ)) : List (T × ℕ) :=
  if period = 0 then D else insert a period D

theorem due_reinsert {a : T} {D : List (T × ℕ)} (ha : a ∉ keys D) (period : ℕ) (x : T) :
    due (reinsert a period D) x
      = if x = a then (if period = 0 then none else some period) else due D x := by
  unfold reinsert
  by_cases hp : period = 0
  · rw [if_pos hp, if_pos hp]
    by_cases hx : x = a
    · rw [if_pos hx, hx, due_eq_none ha]
    · rw [if_neg hx]
  · rw [if_neg hp, if_neg hp]
    exact due_insert ha period x

theorem notMem_of_middle {a : T} {d : ℕ} {pre D : List (T × ℕ)} (h : (keys (pre ++ (a, d) :: D)).Nodup) :
    a ∉ keys (pre ++ D) := by
  rw [keys_append, keys_cons, List.nodup_middle, List.nodup_cons, ← keys_append] at h
  exact h.1

theorem isrExpire_listed (v : Bool) {fuel : ℕ} {st : TimerCtx T F} {pre D : List (T × ℕ)} {a : T}
    (h : Listed st (pre ++ (a, 0) :: D)) (hi : st.itick (.timer a) ≤ uint32Max)
    (hf : (pre ++ D).length ≤ fuel) :
    ∃ st', isrExpire v fuel st (.timer a)
        = .ok (st', atNode (reinsert a (st.itick (.timer a)) (pre ++ D))) ∧
      Listed st' (reinsert a (st.itick (.timer a)) (pre ++ D)) ∧ SameAttr st' st ∧
      st'.wrapped = st.wrapped := by
  have ha := notMem_of_middle h.nodup
  obtain ⟨st₁, hrun₁, hl₁, ht₁, hw₁⟩ := removeTimer_listed v h
  have hattr₁ : SameAttr st₁ st := fun n => ⟨by rw [TimerCtx.itick, ht₁]; rfl, by rw [ht₁]⟩
  have hi₁ : st₁.itick (.timer a) = st.itick (.timer a) := (hattr₁ _).1
  by_cases hp : st.itick (.timer a) = 0
  · have hre : reinsert a (st.itick (.timer a)) (pre ++ D) = pre ++ D := if_pos hp
    rw [hre]
    refine ⟨st₁, ?_, hl₁, hattr₁, hw₁⟩
    unfold isrExpire
    rw [hrun₁, ok_bind, hi₁, if_neg (not_not_intro hp), ok_bind]
    show (ndlistNext st₁.list _ >>= _) = _
    rw [hl₁.next_sentinel]
    rfl
  · have hre : reinsert a (st.itick (.timer a)) (pre ++ D) = insert a (st.itick (.timer a)) (pre ++ D) :=
      if_neg hp
    rw [hre]
    have hset : Listed (st₁.setRtick (.timer a) (st.itick (.timer a))) (pre ++ D) := hl₁.setTimer ha _
    obtain ⟨st', hrun₂, hl', hattr', hw'⟩ := insertTimer_listed hset ha
      (by rw [rtick_setRtick_self]; exact hi) hf
    rw [rtick_setRtick_self] at hl'
    refine ⟨st', ?_, hl', (hattr'.trans (sameAttr_setRtick _ _ _)).trans hattr₁, hw'.trans hw₁⟩
    unfold isrExpire
    rw [hrun₁, ok_bind, hi₁, if_pos hp, hrun₂, ok_bind]
    show (ndlistNext st'.list _ >>= _) = _
    rw [hl'.next_sentinel]
    rfl

/-- the reload value that a start with the incremented tick sets -/
def reloadOf (tick flags : ℕ) : ℕ := if flags &&& ntimerAttrRepeat ≠ 0 then tick else 0

theorem reloadOf_le (tick flags : ℕ) : reloadOf tick flags ≤ tick := by
  unfold reloadOf
  split
  · exact Nat.le_refl tick
  · exact Nat.zero_le tick

namespace Counted
variable {st : TimerCtx T F} {D : List (T × ℕ)} {M : Countdowns T F}

theorem mem_keys (h : Counted st D M) (t : T) : t ∈ keys D ↔ (M t).isSome := by
  rw [← due_isSome, h.due, Option.isSome_map]

theorem notMem (h : Counted st D M) {t : T} (ht : M t = none) : t ∉ keys D := by
  rw [h.mem_keys, ht]
  exact Bool.false_ne_true

theorem of_sameAttr {st' : TimerCtx T F} {D' : List (T × ℕ)} {M' : Countdowns T F}
    (h : Counted st D M) (hr : Listed st' D') (ha : SameAttr st' st)
    (hdue : ∀ t, DeltaList.due D' t = (M' t).map Countdown.left)
    (hM : ∀ {t c'}, M' t = some c' → ∃ c, M t = some c ∧ c.period = c'.period ∧ c.fn = c'.fn) :
    Counted st' D' M' := by
  refine ⟨hr, hdue, fun t c' hc' => ?_, fun t c' hc' => ?_⟩
  · obtain ⟨c, hc, hper, hfn⟩ := hM hc'
    rw [(ha _).1, (ha _).2, ← hper, ← hfn]
    exact h.attr t c hc
  · obtain ⟨c, hc, hper, _⟩ := hM hc'
    rw [← hper]
    exact h.period t c hc

theorem of_started {st' : TimerCtx T F} {D' : List (T × ℕ)} {t : T} {c' : Countdown F}
    (h : Counted st D M) (hl : Listed st' D')
    (hdue : ∀ x, DeltaList.due D' x = if x = t then some c'.left else DeltaList.due D x)
    (hself : st'.itick (.timer t) = c'.period ∧ (st'.timer (.timer t)).fn = some c'.fn)
    (hother : ∀ x, x ≠ t → st'.itick (.timer x) = st.itick (.timer x) ∧
      (st'.timer (.timer x)).fn = (st.timer (.timer x)).fn)
    (hper : c'.period ≤ uint32Max) : Counted st' D' (Function.update M t (some c')) := by
  have hM : ∀ x c, Function.update M t (some c') x = some c →
      (x = t ∧ c = c') ∨ (x ≠ t ∧ M x = some c) := by
    intro x c hc
    by_cases hx : x = t
    · rw [hx, Function.update_self] at hc
      exact .inl ⟨hx, (Option.some.inj hc).symm⟩
    · rw [Function.update_of_ne hx] at hc
      exact .inr ⟨hx, hc⟩
  refine ⟨hl, fun x => ?_, fun x c hc => ?_, fun x c hc => ?_⟩
  · rw [hdue]
    by_cases hx : x = t
    · rw [if_pos hx, hx, Function.update_self]
      rfl
    · rw [if_neg hx, Function.update_of_ne hx]
      exact h.due x
  · rcases hM x c hc with ⟨rfl, rfl⟩ | ⟨hx, hc⟩
    · exact hself
    · rw [(hother x hx).1, (hother x hx).2]
      exact h.attr x c hc
  · rcases hM x c hc with ⟨_, rfl⟩ | ⟨_, hc⟩
    · exact hper
    · exact h.period x c hc

theorem setWrapped (h : Counted st D M) (w : Bool) : Counted { st with wrapped := w } D M :=
  ⟨⟨h.ring, h.rtick, h.sentinel, h.stopped, h.le⟩, h.due, h.attr, h.period⟩

/-- **`ntimer_start_i` on a timer that does not run**, with any tick. -/
theorem ntimerStartI_counted (v : Bool) {fuel : ℕ} {t : T} {tick : ℕ} (fn : F) (flags : ℕ)
    (h : Counted st D M) (ht : M t = none) (h1 : 1 ≤ tick) (hf : D.length ≤ fuel) :
    ∃ st', ntimerStartI v fuel st t tick fn flags = .ok st' ∧
      Counted st' (insert t ((tick + 1) % 2 ^ 32) D) (Function.update M t
        (some ⟨(tick + 1) % 2 ^ 32, reloadOf ((tick + 1) % 2 ^ 32) flags, fn⟩)) ∧
      st'.wrapped = (st.wrapped || decide (2 ^ 32 ≤ tick + 1)) := by
  have htk := h.notMem ht
  have hrun : ntimerIsRunningI st t = false := by
    rw [← Bool.not_eq_true, h.isRunning_iff]
    exact htk
  let st₀ : TimerCtx T F := { st with wrapped := st.wrapped || decide (2 ^ 32 ≤ tick + 1) }
  have h₀ : Counted st₀ D M := h.setWrapped _
  have hle : (tick + 1) % 2 ^ 32 ≤ uint32Max := Nat.le_of_lt_succ (Nat.mod_lt _ (Nat.two_pow_pos 32))
  have hstart : ntimerStartI v fuel st t tick fn flags = insertTimer fuel (st₀.setTimer (.timer t)
      ⟨(tick + 1) % 2 ^ 32, reloadOf ((tick + 1) % 2 ^ 32) flags, some fn⟩) (.timer t) := by
    unfold ntimerStartI
    rw [require_of (show 0 < tick from h1), ok_bind, require_of hrun, ok_bind]
    rfl
  rw [hstart]
  generalize (tick + 1) % 2 ^ 32 = tick' at hle ⊢
  have hper := (reloadOf_le tick' flags).trans hle
  generalize reloadOf tick' flags = per at hper ⊢
  have hself : (st₀.setTimer (.timer t) ⟨tick', per, some fn⟩).timer (.timer t)
      = ⟨tick', per, some fn⟩ := Function.update_self ..
  have hrt : (st₀.setTimer (.timer t) ⟨tick', per, some fn⟩).rtick (.timer t) = tick' :=
    congrArg Ntimer.rtick hself
  obtain ⟨st', hrun', hl, hattr, hw⟩ := insertTimer_listed (h₀.toListed.setTimer htk ⟨tick', per, some fn⟩)
    htk (by rw [hrt]; exact hle) hf
  rw [hrt] at hl
  refine ⟨st', hrun', h.of_started hl (due_insert htk tick') ?_ (fun x hx => ?_) hper, hw⟩
  · rw [(hattr _).1, (hattr _).2, TimerCtx.itick, hself]
    exact ⟨rfl, rfl⟩
  · have hne : (st₀.setTimer (.timer t) ⟨tick', per, some fn⟩).timer (.timer x) = st.timer (.timer x) :=
      Function.update_of_ne (by simpa using hx) _ _
    rw [(hattr _).1, (hattr _).2, TimerCtx.itick, hne]
    exact ⟨rfl, rfl⟩

/-- **`ntimer_cancel_i`**: the timer stops, the others count on modulo `2 ^ 32`. -/
theorem ntimerCancelI_counted (v : Bool) (h : Counted st D M) (a : T) :
    ∃ st' D' M', ntimerCancelI v st a = .ok st' ∧ Counted st' D' M' ∧ D'.length ≤ D.length ∧
      ∀ t c, t ≠ a → M t = some c →
        ∃ l, l ≡ c.left [MOD 2 ^ 32] ∧ M' t = some { c with left := l } := by
  by_cases ha : a ∈ keys D
  · obtain ⟨d, pre, post, rfl, hpre⟩ := exists_of_mem_keys ha
    obtain ⟨st', hrun, hl, hattr, _, _⟩ := ntimerCancelI_listed v h.toListed
    refine ⟨st', _, fun t => (DeltaList.due (pre ++ addHead d post) t).bind fun l =>
      (M t).map fun c => { c with left := l }, hrun, h.of_sameAttr hl hattr (fun t => ?_)
      (fun {t c'} hc' => ?_), ?_, fun t c hta hc => ?_⟩
    · cases hd : DeltaList.due (pre ++ addHead d post) t with
      | none => rfl
      | some l =>
        have ht : t ∈ keys (pre ++ addHead d post) := (due_isSome _ t).mp (by rw [hd]; rfl)
        have htD : t ∈ keys (pre ++ (a, d) :: post) := by
          rw [keys_append, keys_addHead, ← keys_append] at ht
          rw [keys_append, keys_cons]
          exact List.perm_middle.mem_iff.mpr (List.mem_cons_of_mem _ (keys_append pre post ▸ ht))
        obtain ⟨c, hc⟩ := Option.isSome_iff_exists.mp ((h.mem_keys t).mp htD)
        show some l = ((M t).map _).map _
        rw [hc]
        rfl
    · obtain ⟨l, _, hm⟩ := Option.bind_eq_some_iff.mp hc'
      obtain ⟨c, hc, rfl⟩ := Option.map_eq_some_iff.mp hm
      exact ⟨c, hc, rfl, rfl⟩
    · have hlen : (addHead d post).length = post.length := by cases post <;> rfl
      rw [List.length_append, List.length_append, hlen, List.length_cons]
      omega
    · have hdue : DeltaList.due (pre ++ lengthen d post) t = some c.left := by
        rw [← erase_append hpre, due_erase h.nodup, if_neg hta, h.due, hc]
        rfl
      obtain ⟨l, hl, hmod⟩ := due_addHead hdue
      refine ⟨l, hmod, ?_⟩
      show (DeltaList.due (pre ++ addHead d post) t).bind _ = _
      rw [hl]
      show (M t).map _ = _
      rw [hc]
      rfl
  · exact ⟨st, D, M, ntimerCancelI_stopped v h.toListed ha, h, le_rfl,
      fun t c _ hc => ⟨c.left, rfl, hc⟩⟩

/-- the timer at which the ISR loop stands has as many ticks left as there are in front of it -/
theorem left_of_mem {pre : List (T × ℕ)} {a : T} (h : Counted st (pre ++ (a, 0) :: D) M) :
    ∃ c, M a = some c ∧ c.left = DeltaList.total pre := by
  have hpre : a ∉ keys pre := fun hm => notMem_of_middle h.nodup (keys_append pre D ▸ List.mem_append_left _ hm)
  have hd := h.due a
  rw [due_append hpre, due_cons_self] at hd
  exact Option.map_eq_some_iff.mp hd.symm

/-- **One expiry**: the timer at which the loop stands leaves the list, a repeating one comes back
with its reload value, and `current` is the timer that is in front now. -/
theorem isrExpire_counted (v : Bool) {fuel : ℕ} {pre : List (T × ℕ)} {a : T}
    (h : Counted st (pre ++ (a, 0) :: D) M) (hf : (pre ++ D).length ≤ fuel) :
    ∃ c st', M a = some c ∧ c.left = DeltaList.total pre ∧
      isrExpire v fuel st (.timer a) = .ok (st', atNode (reinsert a c.period (pre ++ D))) ∧
      Counted st' (reinsert a c.period (pre ++ D)) (M.expire a) ∧
      st'.callback (.timer a) = some (a, c.fn) ∧ st'.wrapped = st.wrapped := by
  obtain ⟨c, hc, hleft⟩ := h.left_of_mem
  obtain ⟨hi, hfn⟩ := h.attr a c hc
  obtain ⟨st', hrun, hl, hattr, hw⟩ :=
    isrExpire_listed v h.toListed (by rw [hi]; exact h.period a c hc) hf
  rw [hi] at hrun hl
  refine ⟨c, st', hc, hleft, hrun,
    h.of_sameAttr hl hattr (fun x => ?_) Countdowns.expire_eq_some, ?_, hw⟩
  · rw [due_reinsert (notMem_of_middle h.nodup)]
    by_cases hx : x = a
    · rw [if_pos hx, hx, M.expire_self, hc]
      show _ = c.reload.map _
      unfold Countdown.reload
      split
      · rfl
      · rfl
    · rw [if_neg hx, M.expire_of_ne hx, ← h.due, due_drop_zero hx]
  · show ((st'.timer (.timer a)).fn).map _ = _
    rw [(hattr _).2, hfn]
    rfl

/-- **One iteration of the ISR loop**, up to the calls of the callback: the timer at which the loop
stands expires and its callback runs. -/
theorem isrBody_counted (v : Bool) {fuel : ℕ} {pre : List (T × ℕ)} {a : T}
    (h : Counted st (pre ++ (a, 0) :: D) M) (hf : (pre ++ D).length ≤ fuel)
    (cb : ℕ → T → List (TimerCall T F)) (log : List (T × F)) :
    ∃ c st', M a = some c ∧ c.left = DeltaList.total pre ∧
      Counted st' (reinsert a c.period (pre ++ D)) (M.expire a) ∧ st'.wrapped = st.wrapped ∧
      isrBody v fuel cb ⟨st, .timer a, log⟩ = (runCalls v fuel st' (cb log.length a) >>= fun st'' =>
        .ok ⟨st'', atNode (reinsert a c.period (pre ++ D)), log ++ [(a, c.fn)]⟩) := by
  obtain ⟨c, st', hc, hl, hrun, hcounted, hcall, hw⟩ := h.isrExpire_counted v hf
  refine ⟨c, st', hc, hl, hcounted, hw, ?_⟩
  show (isrExpire v fuel st (.timer a) >>= _) = _
  rw [hrun, ok_bind]
  show (deref (st'.callback (.timer a)) >>= _) = _
  rw [hcall]
  rfl

end Counted

theorem total_reinsert_le (a : T) {period M : ℕ} {D : List (T × ℕ)} (hp : period ≤ M)
    (hD : DeltaList.total D ≤ M) : DeltaList.total (reinsert a period D) ≤ M := by
  unfold reinsert
  split
  · exact hD
  · exact total_insert_le a period D hp hD

end NeonEds

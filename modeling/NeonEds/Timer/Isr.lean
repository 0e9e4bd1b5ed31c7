import NeonEds.Timer.Sim

/-!
# Inside an ISR call

While the ISR loop runs, the timers that have reached zero stand in front of the list and the
callbacks may start and stop timers.

* `replay`            the countdowns after some timers have expired and their callbacks have run;
* `OnlyDue`           each callback in a log belongs to a timer that is at zero when it is made;
* `expiring D`        the timers that reach zero at the next tick, in the order of the list;
* `IsrSound`          at every loop head of one ISR call the log is `OnlyDue` and the list counts the
                      countdowns of its replay, and the call ends with every countdown positive;
* `Sim.runCalls_sim`  legal calls of a callback keep the representation, `Sim.isrBody_calls` an
                      iteration with such a callback;
* `Sim.isrStart_sim`  the first loop head of an ISR call.
-/

set_option linter.unusedSectionVars false

namespace NeonEds
open Exec DeltaList

variable {T F : Type} [DecidableEq T]

/-! ### the calls of a callback -/

/-- the timers that are stopped by some calls -/
def cancels : List (TimerCall T F) → List T
  | [] => []
  | .start .. :: cs => cancels cs
  | .cancel t :: cs => t :: cancels cs

/-- the ticks of the timers that are started by some calls, as they go on the list -/
def starts : List (TimerCall T F) → List ℕ
  | [] => []
  | .start _ tick _ _ :: cs => (tick + 1) :: starts cs
  | .cancel _ :: cs => starts cs

/-- what the documentation asks of a call -/
def LegalCall (M : Countdowns T F) : TimerCall T F → Prop
  | .start t tick _ _ => M t = none ∧ 1 ≤ tick ∧ tick < uint32Max
  | .cancel _ => True

def LegalCalls : Countdowns T F → List (TimerCall T F) → Prop
  | _, [] => True
  | M, c :: cs => LegalCall M c ∧ LegalCalls (M.call c) cs

def listCall (D : List (T × ℕ)) : TimerCall T F → List (T × ℕ)
  | .start t tick _ _ => insert t (tick + 1) D
  | .cancel t => erase t D

def listCalls (D : List (T × ℕ)) (cs : List (TimerCall T F)) : List (T × ℕ) := cs.foldl listCall D

theorem length_listCall_le (D : List (T × ℕ)) (c : TimerCall T F) :
    (listCall D c).length ≤ D.length + 1 := by
  cases c with
  | start t tick fn flags => exact (length_insert ..).le
  | cancel t => exact (length_erase_le ..).trans (Nat.le_succ _)

theorem length_listCalls_le (cs : List (TimerCall T F)) :
    ∀ D : List (T × ℕ), (listCalls D cs).length ≤ D.length + cs.length := by
  induction cs with
  | nil => exact fun D => Nat.le_refl _
  | cons c cs ih =>
    intro D
    have h1 := ih (listCall D c)
    have h2 := length_listCall_le D c
    show (listCalls (listCall D c) cs).length ≤ _
    rw [List.length_cons]
    omega

/-- **Legal calls keep the representation.** -/
theorem Sim.runCalls_sim (v : Bool) {fuel : ℕ} (cs : List (TimerCall T F)) :
    ∀ {st : TimerCtx T F} {D : List (T × ℕ)} {M : Countdowns T F}, Sim st D M → LegalCalls M cs →
      D.length + cs.length ≤ fuel →
      ∃ st', runCalls v fuel st cs = .ok st' ∧ Sim st' (listCalls D cs) (M.calls cs) := by
  induction cs with
  | nil => exact fun h _ _ => ⟨_, rfl, h⟩
  | cons c cs ih =>
    intro st D M h hl hf
    rw [List.length_cons] at hf
    have hlen := length_listCall_le D c
    obtain ⟨st₁, hrun, hsim⟩ : ∃ st₁, runCall v fuel st c = .ok st₁ ∧
        Sim st₁ (listCall D c) (M.call c) := by
      cases c with
      | start t tick fn flags =>
        obtain ⟨ht, h1, h2⟩ := hl.1
        exact h.ntimerStartI_sim v fn flags ht h1 h2 (by omega)
      | cancel t =>
        obtain ⟨st₁, hrun, hsim, _⟩ := h.ntimerCancelI_sim v t
        exact ⟨st₁, hrun, hsim⟩
    obtain ⟨st', hrun', hsim'⟩ := ih hsim hl.2 (by omega)
    refine ⟨st', ?_, hsim'⟩
    show (runCall v fuel st c >>= _) = _
    rw [hrun, ok_bind, hrun']

/-! ### the countdowns during an ISR call -/

namespace Countdowns

/-- the reload value, `0` for a timer that does not run -/
def period (M : Countdowns T F) (t : T) : ℕ := ((M t).map Countdown.period).getD 0

theorem period_eq {M : Countdowns T F} {t : T} {c : Countdown F} (h : M t = some c) :
    M.period t = c.period := by rw [period, h]; rfl

/-- the timers of a list expire one after the other; the callback of each runs in its turn, from
number `i` on -/
def replay (cb : ℕ → T → List (TimerCall T F)) : ℕ → Countdowns T F → List T → Countdowns T F
  | _, M, [] => M
  | i, M, t :: E => replay cb (i + 1) ((M.expire t).calls (cb i t)) E

theorem replay_append (cb : ℕ → T → List (TimerCall T F)) (E E' : List T) :
    ∀ (i : ℕ) (M : Countdowns T F),
      replay cb i M (E ++ E') = replay cb (i + E.length) (replay cb i M E) E' := by
  induction E with
  | nil => exact fun i M => rfl
  | cons t E ih =>
    intro i M
    rw [List.cons_append, replay, ih, List.length_cons, replay,
      show i + 1 + E.length = i + (E.length + 1) by omega]

/-- each timer of the log is at zero, with this callback, when it expires -/
def OnlyDue (cb : ℕ → T → List (TimerCall T F)) : ℕ → Countdowns T F → List (T × F) → Prop
  | _, _, [] => True
  | i, M, (t, f) :: l => (∃ c, M t = some c ∧ c.left = 0 ∧ c.fn = f) ∧
      OnlyDue cb (i + 1) ((M.expire t).calls (cb i t)) l

theorem onlyDue_concat (cb : ℕ → T → List (TimerCall T F)) (t : T) (f : F) (l : List (T × F)) :
    ∀ (i : ℕ) (M : Countdowns T F), OnlyDue cb i M (l ++ [(t, f)]) ↔ OnlyDue cb i M l ∧
      ∃ c, replay cb i M (l.map Prod.fst) t = some c ∧ c.left = 0 ∧ c.fn = f := by
  induction l with
  | nil =>
    intro i M
    exact and_comm
  | cons p l ih =>
    obtain ⟨t', f'⟩ := p
    intro i M
    show _ ∧ OnlyDue cb (i + 1) _ (l ++ [(t, f)]) ↔ (_ ∧ OnlyDue cb (i + 1) _ l) ∧ _
    rw [ih, and_assoc]
    exact Iff.rfl

/-- the calls of every callback are legal when it makes them -/
def LegalCallbacks (cb : ℕ → T → List (TimerCall T F)) : ℕ → Countdowns T F → List T → Prop
  | _, _, [] => True
  | i, M, t :: E => LegalCalls (M.expire t) (cb i t) ∧
      LegalCallbacks cb (i + 1) ((M.expire t).calls (cb i t)) E

end Countdowns

/-! ### the list during an ISR call -/

/-- the timers that reach zero at the next tick, in the order of the list -/
def expiring (D : List (T × ℕ)) : List T := keys ((tick D).takeWhile (fun p => decide (p.2 = 0)))

theorem takeWhile_zeros {E : List T} {R : List (T × ℕ)} (hR : ∀ p ∈ R.head?, 0 < p.2) :
    (zeros E ++ R).takeWhile (fun p => decide (p.2 = 0)) = zeros E := by
  induction E with
  | nil =>
    cases R with
    | nil => rfl
    | cons p R =>
      have : ¬ p.2 = 0 := Nat.ne_of_gt (hR p rfl)
      simp [this]
  | cons a E ih => simpa using ih

/-- after the tick the expiring timers stand in front, with nothing left -/
theorem tick_eq_zeros (D : List (T × ℕ)) :
    ∃ R, tick D = zeros (expiring D) ++ R ∧ ∀ p ∈ R.head?, 0 < p.2 := by
  obtain ⟨E, R, hD, hR⟩ := exists_zeros (tick D)
  refine ⟨R, ?_, hR⟩
  rw [expiring, hD, takeWhile_zeros hR, keys_zeros]

theorem length_tick (D : List (T × ℕ)) : (tick D).length = D.length := by
  cases D <;> rfl

theorem length_expiring_le (D : List (T × ℕ)) : (expiring D).length ≤ D.length := by
  obtain ⟨R, hR, _⟩ := tick_eq_zeros D
  have h := congrArg List.length hR
  rw [length_tick, List.length_append, zeros, List.length_map] at h
  omega

theorem Sim.expiring_nodup {st : TimerCtx T F} {D : List (T × ℕ)} {M : Countdowns T F}
    (h : Sim st D M) : (expiring D).Nodup := by
  have hnd := h.nodup
  rw [← keys_shorten 1 D, show shorten 1 D = tick D from rfl] at hnd
  unfold expiring
  exact hnd.sublist ((List.takeWhile_sublist _).map _)

/-- a timer that is reloaded goes behind those that have reached zero -/
theorem reinsert_zeros (a : T) (period : ℕ) (E : List T) (R : List (T × ℕ)) :
    reinsert a period (zeros E ++ R) = zeros E ++ reinsert a period R := by
  unfold reinsert
  split
  · rfl
  · exact insert_zeros (by omega) a E R

theorem reinsert_head_pos (a : T) (period : ℕ) {R : List (T × ℕ)} (hR : ∀ p ∈ R.head?, 0 < p.2) :
    ∀ p ∈ (reinsert a period R).head?, 0 < p.2 := by
  unfold reinsert
  split
  · exact hR
  · exact insert_head_pos (by omega) a hR

theorem length_reinsert_le (a : T) (period : ℕ) (D : List (T × ℕ)) :
    (reinsert a period D).length ≤ D.length + 1 := by
  unfold reinsert
  split
  · omega
  · exact (length_insert ..).le

theorem Sim.settled {st : TimerCtx T F} {R : List (T × ℕ)} {M : Countdowns T F}
    (h : Sim st R M) (hR : ∀ p ∈ R.head?, 0 < p.2) : M.Settled := by
  intro t c hc
  have hd := h.due t
  rw [hc] at hd
  have hz := (due_zeros (E := []) hR t)
  rw [zeros_nil, List.nil_append, hd] at hz
  rcases Nat.eq_zero_or_pos c.left with h0 | h0
  · exact absurd (hz.mp (by rw [Option.map_some, h0])) (by simp)
  · exact h0

theorem Listed.isrLive_zeros {st : TimerCtx T F} {E : List T} {t : T} {R : List (T × ℕ)}
    (h : Listed st (zeros (t :: E) ++ R)) (log : List (T × F)) :
    isrLive ⟨st, .timer t, log⟩ = true :=
  decide_eq_true (h.rtick (t, 0) (by simp))

theorem Listed.isrLive_settled {st : TimerCtx T F} {R : List (T × ℕ)} (h : Listed st R)
    (hR : ∀ p ∈ R.head?, 0 < p.2) (log : List (T × F)) : isrLive ⟨st, atNode R, log⟩ = false := by
  have hr := (show Listed st ([] ++ R) from h).rtick_atNode
  refine decide_eq_false ?_
  show ¬ st.rtick (atNode R) = 0
  rw [hr]
  cases R with
  | nil => exact fun h => by cases h
  | cons p R => exact Nat.ne_of_gt (hR p rfl)

/-- where the loop stands: at the first timer of `E`, or at its end -/
def StandsAt (E : List T) (s : IsrState T F) : Prop :=
  match E with
  | [] => isrLive s = false
  | t :: _ => s.current = .timer t ∧ isrLive s = true

theorem Listed.standsAt {st : TimerCtx T F} {E : List T} {R : List (T × ℕ)}
    (h : Listed st (zeros E ++ R)) (hR : ∀ p ∈ R.head?, 0 < p.2) (log : List (T × F)) :
    StandsAt E ⟨st, atNode (zeros E ++ R), log⟩ := by
  cases E with
  | nil => exact h.isrLive_settled hR log
  | cons t E => exact ⟨rfl, h.isrLive_zeros log⟩

/-- **The first loop head of an ISR call**: one tick has passed. -/
theorem Sim.isrStart_sim {st : TimerCtx T F} {D : List (T × ℕ)} {M : Countdowns T F}
    (h : Sim st D M) (hM : M.Settled) :
    ∃ st', Sim st' (tick D) M.tick ∧ ∀ (v : Bool) (fuel : ℕ) (cb : ℕ → T → List (TimerCall T F)),
      (∀ n, isrSteps v fuel cb n st
        = iterLoop isrLive (isrBody v fuel cb) n ⟨st', atNode (tick D), []⟩) ∧
      ncoreTimerIsr v fuel cb st = (whileLoop isrLive (isrBody v fuel cb) fuel
        ⟨st', atNode (tick D), []⟩ >>= fun s => .ok (s.st, s.fired)) := by
  cases D with
  | nil =>
    have he : ndlistIsEmpty st.list .gTimerSentinel = true := h.isEmpty_iff.mpr rfl
    have hexit : isrLive (⟨st, .gTimerSentinel, []⟩ : IsrState T F) = false :=
      h.toRep.listed.isrLive_settled (by simp) []
    have htick : M.tick = M := by
      funext t
      have := h.due t
      show (M t).map _ = _
      cases hc : M t with
      | none => rfl
      | some c => rw [hc] at this; cases this
    refine ⟨st, htick.symm ▸ h, fun v fuel cb => ⟨fun n => ?_, ?_⟩⟩
    · unfold isrSteps
      rw [he]
      exact (iterLoop_exit hexit n).symm
    · unfold ncoreTimerIsr
      rw [he]
      show Except.ok (st, []) = (whileLoop isrLive (isrBody v fuel cb) fuel _ >>= _)
      rw [show tick ([] : List (T × ℕ)) = [] from rfl, atNode_nil, whileLoop_exit hexit]
      rfl
  | cons p D =>
    have he : ndlistIsEmpty st.list .gTimerSentinel = false := by
      rw [← Bool.not_eq_true, h.isEmpty_iff]
      exact List.cons_ne_nil _ _
    obtain ⟨st', hrun, hsim⟩ := h.isrEnter_sim (h.head_pos hM p rfl)
    refine ⟨st', hsim, fun v fuel cb => ⟨fun n => ?_, ?_⟩⟩
    · unfold isrSteps
      rw [he]
      show (isrEnter st >>= _) = _
      rw [hrun]
      rfl
    · unfold ncoreTimerIsr
      rw [he]
      show (isrEnter st >>= _) = _
      rw [hrun]
      rfl

theorem Sim.isrBody_calls (v : Bool) {fuel : ℕ} {cb : ℕ → T → List (TimerCall T F)}
    {st : TimerCtx T F} {pre D : List (T × ℕ)} {M : Countdowns T F} {t : T} (log : List (T × F))
    (h : Sim st (pre ++ (t, 0) :: D) M) (hl : LegalCalls (M.expire t) (cb log.length t))
    (hf : (pre ++ D).length + 1 + (cb log.length t).length ≤ fuel) :
    ∃ c s', M t = some c ∧ c.left = DeltaList.total pre ∧
      isrBody v fuel cb ⟨st, .timer t, log⟩ = .ok s' ∧ s'.fired = log ++ [(t, c.fn)] ∧
      s'.current = atNode (reinsert t c.period (pre ++ D)) ∧
      (∃ st₁, Sim st₁ (reinsert t c.period (pre ++ D)) (M.expire t)) ∧
      Sim s'.st (listCalls (reinsert t c.period (pre ++ D)) (cb log.length t))
        ((M.expire t).calls (cb log.length t)) := by
  have hD : (pre ++ D).length ≤ fuel := by omega
  obtain ⟨c, st₁, hc, hleft, hsim, hbody⟩ := h.isrBody_sim v hD cb log
  have hlen := length_reinsert_le t c.period (pre ++ D)
  have hcalls : (reinsert t c.period (pre ++ D)).length + (cb log.length t).length ≤ fuel := by omega
  obtain ⟨st₂, hrun, hsim₂⟩ := hsim.runCalls_sim v _ hl hcalls
  rw [hrun, ok_bind] at hbody
  exact ⟨c, _, hc, hleft, hbody, rfl, rfl, ⟨st₁, hsim⟩, hsim₂⟩

/-! ### soundness of one ISR call -/

/-- a loop head of the ISR, for the countdowns `M` from after the tick: the callbacks so far were
due, and the list counts the countdowns that they have left -/
def LoopSound (cb : ℕ → T → List (TimerCall T F)) (M : Countdowns T F) (s : IsrState T F) : Prop :=
  M.OnlyDue cb 0 s.fired ∧ ∃ D, Sim s.st D (M.replay cb 0 (s.fired.map Prod.fst))

/-- every loop head of one ISR call is sound -/
def IsrHeadsSound (v : Bool) (fuel : ℕ) (cb : ℕ → T → List (TimerCall T F)) (st : TimerCtx T F)
    (M : Countdowns T F) : Prop :=
  ∀ n, ∃ s, isrSteps v fuel cb n st = .ok s ∧ LoopSound cb M.tick s

/-- **One ISR call is sound**: every loop head is, and the call ends with no timer at zero. -/
def IsrSound (v : Bool) (fuel : ℕ) (cb : ℕ → T → List (TimerCall T F)) (st : TimerCtx T F)
    (M : Countdowns T F) : Prop :=
  IsrHeadsSound v fuel cb st M ∧ ∃ st' log, ncoreTimerIsr v fuel cb st = .ok (st', log) ∧
    (M.tick.replay cb 0 (log.map Prod.fst)).Settled

/-- what `IsrHeadsSound` says, from a loop head on -/
def HeadsSound (v : Bool) (fuel : ℕ) (cb : ℕ → T → List (TimerCall T F)) (M : Countdowns T F)
    (s : IsrState T F) : Prop :=
  ∀ n, ∃ s', iterLoop isrLive (isrBody v fuel cb) n s = .ok s' ∧ LoopSound cb M s'

/-- what `IsrSound` says, from a loop head on -/
def SoundFrom (v : Bool) (fuel : ℕ) (cb : ℕ → T → List (TimerCall T F)) (M : Countdowns T F)
    (k : ℕ) (s : IsrState T F) : Prop :=
  HeadsSound v fuel cb M s ∧ ∃ s', whileLoop isrLive (isrBody v fuel cb) k s = .ok s' ∧
    (M.replay cb 0 (s'.fired.map Prod.fst)).Settled

section
variable {v : Bool} {fuel : ℕ} {cb : ℕ → T → List (TimerCall T F)} {M : Countdowns T F}
  {s s' : IsrState T F}

theorem headsSound_succ (hs : LoopSound cb M s) (hlive : isrLive s = true)
    (hb : isrBody v fuel cb s = .ok s') :
    HeadsSound v fuel cb M s ↔ HeadsSound v fuel cb M s' := by
  refine ⟨fun h n => ?_, fun h n => ?_⟩
  · have := h (n + 1)
    rwa [iterLoop_succ hlive hb] at this
  · cases n with
    | zero => exact ⟨s, rfl, hs⟩
    | succ n =>
      rw [iterLoop_succ hlive hb]
      exact h n

theorem soundFrom_succ (hs : LoopSound cb M s) (hlive : isrLive s = true)
    (hb : isrBody v fuel cb s = .ok s') (k : ℕ) :
    SoundFrom v fuel cb M (k + 1) s ↔ SoundFrom v fuel cb M k s' := by
  unfold SoundFrom
  rw [whileLoop_succ hlive hb, headsSound_succ hs hlive hb]

theorem headsSound_exit (hs : LoopSound cb M s) (hlive : isrLive s = false) :
    HeadsSound v fuel cb M s := fun n => ⟨s, iterLoop_exit hlive n, hs⟩

theorem soundFrom_exit (hs : LoopSound cb M s) (hlive : isrLive s = false)
    (hM : (M.replay cb 0 (s.fired.map Prod.fst)).Settled) (k : ℕ) : SoundFrom v fuel cb M k s :=
  ⟨headsSound_exit hs hlive, s, whileLoop_exit hlive k, hM⟩

theorem callback_eq_some {st : TimerCtx T F} {n : TimerNode T} {p : T × F}
    (h : st.callback n = some p) : n = .timer p.1 := by
  cases n with
  | gTimerSentinel => cases h
  | timer t =>
    obtain ⟨f, _, rfl⟩ := Option.map_eq_some_iff.mp h
    rfl

theorem fired_of_isrBody (h : isrBody v fuel cb s = .ok s') :
    ∃ t f, s.current = .timer t ∧ s'.fired = s.fired ++ [(t, f)] := by
  unfold isrBody at h
  obtain ⟨⟨st, current⟩, _, h⟩ := bind_eq_ok.mp h
  obtain ⟨⟨t, f⟩, ht, h⟩ := bind_eq_ok.mp h
  obtain ⟨st', _, h⟩ := bind_eq_ok.mp h
  injection h with h
  refine ⟨t, f, ?_, by rw [← h]⟩
  cases hcall : st.callback s.current with
  | none => rw [hcall] at ht; cases ht
  | some p =>
    rw [hcall] at ht
    injection ht with ht
    rw [callback_eq_some hcall, ht]

/-- a loop that goes on with a timer that is stopped, or has ticks left, is not sound -/
theorem not_headsSound (hlive : isrLive s = true)
    (hu : ∀ u, s.current = .timer u → ∀ c, M.replay cb 0 (s.fired.map Prod.fst) u = some c →
      0 < c.left) : ¬ HeadsSound v fuel cb M s := by
  intro h
  obtain ⟨s', hs', hsound⟩ := h 1
  rw [iterLoop, if_pos hlive] at hs'
  obtain ⟨s₁, hs₁, h₁⟩ := bind_eq_ok.mp hs'
  injection h₁ with h₁
  obtain ⟨u, f, hcur, hf⟩ := fired_of_isrBody hs₁
  have hdue := hsound.1
  rw [← h₁, hf, Countdowns.onlyDue_concat] at hdue
  obtain ⟨c, hc, hl, _⟩ := hdue.2
  exact Nat.ne_of_gt (hu u hcur c hc) hl

variable (cb M) in
theorem replay_concat {log : List (T × F)} {t : T} {f : F} (hf : s'.fired = log ++ [(t, f)]) :
    M.replay cb 0 (s'.fired.map Prod.fst)
      = ((M.replay cb 0 (log.map Prod.fst)).expire t).calls (cb log.length t) := by
  rw [hf, List.map_append, Countdowns.replay_append, List.length_map, Nat.zero_add]
  rfl

end

/-- **An ISR call is sound iff its first loop head is.** -/
theorem Sim.isrSound_start {st : TimerCtx T F} {D : List (T × ℕ)} {M : Countdowns T F}
    (h : Sim st D M) (hM : M.Settled) :
    ∃ st', Sim st' (tick D) M.tick ∧ ∀ (v : Bool) (fuel : ℕ) (cb : ℕ → T → List (TimerCall T F)),
      (IsrHeadsSound v fuel cb st M ↔
        HeadsSound v fuel cb M.tick ⟨st', atNode (tick D), []⟩) ∧
      (IsrSound v fuel cb st M ↔
        SoundFrom v fuel cb M.tick fuel ⟨st', atNode (tick D), []⟩) := by
  obtain ⟨st', hsim, hrun⟩ := h.isrStart_sim hM
  refine ⟨st', hsim, fun v fuel cb => ?_⟩
  have hheads : IsrHeadsSound v fuel cb st M ↔
      HeadsSound v fuel cb M.tick ⟨st', atNode (tick D), []⟩ :=
    forall_congr' fun n => by rw [(hrun v fuel cb).1]
  refine ⟨hheads, ?_⟩
  unfold IsrSound SoundFrom
  rw [(hrun v fuel cb).2, hheads]
  refine and_congr_right fun _ => ⟨?_, ?_⟩
  · rintro ⟨st₁, log, hw, hset⟩
    obtain ⟨s, hs, hok⟩ := bind_eq_ok.mp hw
    injection hok with hok
    injection hok with h1 h2
    exact ⟨s, hs, h2 ▸ hset⟩
  · rintro ⟨s, hs, hset⟩
    exact ⟨s.st, s.fired, by rw [hs, ok_bind], hset⟩

end NeonEds

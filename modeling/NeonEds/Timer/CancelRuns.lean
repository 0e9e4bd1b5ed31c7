import NeonEds.Timer.Runs
import NeonEds.Timer.Cancel

/-!
# Runs with callbacks that cancel timers

`runSound_iff_keepsNext`: in a legal run whose callbacks only cancel timers every call is sound iff
in no ISR call a callback cancels the timer that expires right after its own.
-/

set_option linter.unusedSectionVars false

namespace NeonEds
open Exec DeltaList

variable {T F : Type} [DecidableEq T]

def CancelOnly (cb : ℕ → T → List (TimerCall T F)) : Prop := ∀ i t, OnlyCancels (cb i t)

/-- the countdowns after a call with the callbacks it has made -/
def Countdowns.nextWith (M : Countdowns T F) : TimerOp T F → TimerOut T F → Countdowns T F
  | .isr cb, .fired log => M.tick.replay cb 0 (log.map Prod.fst)
  | op, _ => M.next op

/-- what the two queries say about every timer -/
def Reports (fuel : ℕ) (st : TimerCtx T F) (M : Countdowns T F) : Prop :=
  ∀ t, ntimerIsRunningI st t = (M t).isSome ∧ ntimerRemaining fuel st t = .ok (M.left t, st)

/-- **A run is sound**: every ISR call is, and after every call the list is the list of the running
timers, with their countdowns. -/
def RunSound (v : Bool) (fuel : ℕ) : TimerCtx T F → Countdowns T F → List (TimerOp T F) → Prop
  | _, _, [] => True
  | st, M, op :: ops => (∀ cb, op = .isr cb → IsrSound v fuel cb st M) ∧
      ∃ out st', runOp v fuel st op = .ok (out, st') ∧ (∃ D, Sim st' D (M.nextWith op out)) ∧
        Reports fuel st' (M.nextWith op out) ∧ RunSound v fuel st' (M.nextWith op out) ops

/-- in every ISR call of the run the callbacks leave the next expiring timer alone -/
def RunKeepsNext (v : Bool) (fuel : ℕ) : TimerCtx T F → List (TimerOp T F) → Prop
  | _, [] => True
  | st, op :: ops => (∀ cb, op = .isr cb → ∀ D, Rep st D → KeepsNext cb 0 (expiring D)) ∧
      ∀ out st', runOp v fuel st op = .ok (out, st') → RunKeepsNext v fuel st' ops

theorem Sim.reports {st : TimerCtx T F} {D : List (T × ℕ)} {M : Countdowns T F} (h : Sim st D M)
    {fuel : ℕ} (hf : D.length ≤ fuel) : Reports fuel st M :=
  fun t => ⟨h.isRunning_eq t, h.ntimerRemaining_eq t hf⟩

theorem Countdowns.nextWith_of_ne {M : Countdowns T F} {op : TimerOp T F}
    (h : ∀ cb, op ≠ .isr cb) (out : TimerOut T F) : M.nextWith op out = M.next op := by
  cases op with
  | isr cb => exact absurd rfl (h cb)
  | start => rfl
  | cancel => rfl
  | isRunning => rfl
  | remaining => rfl

theorem Countdowns.replay_isSome {cb : ℕ → T → List (TimerCall T F)} (hcb : CancelOnly cb)
    (E : List T) : ∀ (i : ℕ) (M : Countdowns T F) (t : T), (M.replay cb i E t).isSome →
      (M t).isSome := by
  induction E with
  | nil => exact fun i M t h => h
  | cons e E ih =>
    intro i M t h
    have h1 := ih _ _ _ h
    rw [calls_cancels (hcb i e)] at h1
    split at h1
    · cases h1
    · by_cases ht : t = e
      · rw [ht, expire_self] at h1
        rw [ht]
        cases hM : M e with
        | none => rw [hM] at h1; cases h1
        | some c => rfl
      · rwa [expire_of_ne M ht] at h1

theorem Countdowns.tick_isSome (M : Countdowns T F) (t : T) :
    (M.tick t).isSome = (M t).isSome := Option.isSome_map

/-- **A step of a run**: when the ISR calls in it are sound, the step is sound. -/
theorem Sim.step_cancelOnly (v : Bool) {fuel : ℕ} {st : TimerCtx T F} {D : List (T × ℕ)}
    {M : Countdowns T F} (h : Sim st D M) (hM : M.Settled) {op : TimerOp T F}
    (hl : LegalOp CancelOnly st op) (hs : ∀ cb, op = .isr cb → IsrSound v fuel cb st M)
    (hf : D.length ≤ fuel) :
    ∃ out st' D', runOp v fuel st op = .ok (out, st') ∧ Sim st' D' (M.nextWith op out) ∧
      D'.length ≤ D.length + 1 ∧ (M.nextWith op out).Settled := by
  by_cases hop : ∃ cb, op = .isr cb
  · obtain ⟨cb, rfl⟩ := hop
    obtain ⟨st', log, D', hrun, _, hsim, hset⟩ := (hs cb rfl).exists_sim h hM
    have hlen : D'.length ≤ D.length := by
      refine h.counted.length_le hsim.counted fun t ht => ?_
      rw [← M.tick_isSome]
      exact Countdowns.replay_isSome hl _ 0 M.tick t ht
    refine ⟨.fired log, st', D', ?_, hsim, hlen.trans (Nat.le_succ _), hset⟩
    show (ncoreTimerIsr v fuel cb st >>= _) = _
    rw [hrun]
    rfl
  · have hne : ∀ cb, op ≠ .isr cb := fun cb e => hop ⟨cb, e⟩
    obtain ⟨out, st', D', hrun, hsim, hlen, hset, _⟩ := h.runOp_sim v hM hl hne hf
    rw [← Countdowns.nextWith_of_ne hne out] at hsim hset
    exact ⟨out, st', D', hrun, hsim, hlen, hset⟩

theorem RunSound.tail {v : Bool} {fuel : ℕ} {st st' : TimerCtx T F} {M : Countdowns T F}
    {op : TimerOp T F} {ops : List (TimerOp T F)} {out : TimerOut T F}
    (h : RunSound v fuel st M (op :: ops)) (hrun : runOp v fuel st op = .ok (out, st')) :
    RunSound v fuel st' (M.nextWith op out) ops := by
  obtain ⟨_, out₁, st₁, hrun₁, _, _, hsound⟩ := h
  have heq := Except.ok.inj (hrun.symm.trans hrun₁)
  injection heq with ho hs
  subst ho hs
  exact hsound

theorem Sim.runSound_iff (v : Bool) {fuel : ℕ} (ops : List (TimerOp T F)) :
    ∀ {st : TimerCtx T F} {D : List (T × ℕ)} {M : Countdowns T F}, Sim st D M → M.Settled →
      LegalRun CancelOnly v fuel st ops → D.length + ops.length ≤ fuel →
      (RunSound v fuel st M ops ↔ RunKeepsNext v fuel st ops) := by
  induction ops with
  | nil => exact fun _ _ _ _ => Iff.rfl
  | cons op ops ih =>
    intro st D M h hM hl hf
    rw [List.length_cons] at hf
    have hD : D.length ≤ fuel := by omega
    have hisr : (∀ cb, op = .isr cb → IsrSound v fuel cb st M) ↔
        ∀ cb, op = .isr cb → ∀ D, Rep st D → KeepsNext cb 0 (expiring D) := by
      refine forall_congr' fun cb => forall_congr' fun hop => ?_
      subst hop
      rw [isrSound_iff_keepsNext v h hM hl.1 hD]
      exact ⟨fun hk D' hD' => h.toRep.unique hD' ▸ hk, fun hk => hk D h.toRep⟩
    unfold RunSound RunKeepsNext
    rw [← hisr]
    refine and_congr_right fun hs => ?_
    obtain ⟨out, st', D', hrun, hsim, hlen, hset⟩ := h.step_cancelOnly v hM hl.1 hs hD
    have hiff := ih hsim hset (hl.2 out st' hrun) (by omega)
    constructor
    · intro hsound out₂ st₂ hrun₂
      have heq := Except.ok.inj (hrun.symm.trans hrun₂)
      injection heq with ho hs'
      subst ho hs'
      exact hiff.mp (RunSound.tail ⟨hs, hsound⟩ hrun)
    · intro hk
      exact ⟨out, st', hrun, ⟨D', hsim⟩, hsim.reports (by omega), hiff.mpr (hk out st' hrun)⟩

/-- **Cancelling from callbacks is safe iff no callback cancels the timer that expires right after
its own.** -/
theorem runSound_iff_keepsNext (v : Bool) (fuel : ℕ) (ops : List (TimerOp T F))
    (hl : LegalRun CancelOnly v fuel TimerCtx.init ops) (hf : ops.length ≤ fuel) :
    RunSound v fuel TimerCtx.init Countdowns.stopped ops ↔
      RunKeepsNext v fuel TimerCtx.init ops :=
  Sim.init.runSound_iff v ops Countdowns.settled_stopped hl (by simpa using hf)

/-- two timers, and a callback of one that cancels the other; both started with the same tick -/
def cancelOther : List (TimerOp Bool Unit) :=
  [.start true 1 () 0, .start false 1 () 0, .isr (fun _ _ => []),
    .isr (fun _ t => if t then [] else [.cancel true])]

theorem cancelOther_legal (v : Bool) : LegalRun CancelOnly v 4 TimerCtx.init cancelOther := by
  have hcb : CancelOnly (fun _ t => if t then [] else [.cancel true] :
      ℕ → Bool → List (TimerCall Bool Unit)) := by
    intro i t
    cases t with
    | true => exact fun c hc => by cases hc
    | false => exact fun c hc => ⟨true, List.mem_singleton.mp hc⟩
  have hrest : ∀ st, ntimerIsRunningI st false = false → LegalRun CancelOnly v 4 st
      (cancelOther.drop 1) := fun st hst => ⟨⟨hst, by decide, by decide⟩, fun _ _ _ =>
    ⟨fun _ _ _ hc => absurd hc List.not_mem_nil, fun _ _ _ => ⟨hcb, fun _ _ _ => trivial⟩⟩⟩
  refine ⟨⟨by decide, by decide, by decide⟩, fun out st h => hrest st ?_⟩
  cases v with
  | true =>
    have hst : st = _ := (congrArg Prod.snd (Except.ok.inj h)).symm
    subst hst
    rfl
  | false =>
    have hst : st = _ := (congrArg Prod.snd (Except.ok.inj h)).symm
    subst hst
    rfl

theorem runSound_iff_keepsNext_cancelOther :
    RunSound false 4 TimerCtx.init Countdowns.stopped cancelOther ↔
      RunKeepsNext false 4 TimerCtx.init cancelOther :=
  runSound_iff_keepsNext false 4 cancelOther (cancelOther_legal false) (by decide)

/-- without API validation the cancelled timer is fired, with it a NULL pointer is followed -/
theorem cancelOther_unsound :
    (LegalRun CancelOnly false 4 TimerCtx.init cancelOther ∧
      ¬ RunSound false 4 TimerCtx.init Countdowns.stopped cancelOther) ∧
    (LegalRun CancelOnly true 4 TimerCtx.init cancelOther ∧
      ¬ RunSound true 4 TimerCtx.init Countdowns.stopped cancelOther) ∧
    runOps true 4 TimerCtx.init cancelOther = .error .null := by
  refine ⟨⟨cancelOther_legal false, fun h => ?_⟩, ⟨cancelOther_legal true, fun h => ?_⟩, rfl⟩
  · obtain ⟨s, hs, hdue, _⟩ := ((((h.tail rfl).tail rfl).tail rfl).1 _ rfl).1 2
    rw [← Except.ok.inj hs] at hdue
    obtain ⟨c, hc, _⟩ := hdue.2.1
    cases hc
  · obtain ⟨s, hs, _⟩ := ((((h.tail rfl).tail rfl).tail rfl).1 _ rfl).1 2
    cases hs

end NeonEds

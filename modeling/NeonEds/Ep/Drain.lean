import Mathlib.Algebra.BigOperators.Group.Finset.Piecewise
import NeonEds.Ep.EpaRuns
import NeonEds.Ep.Wakeups

/-!
# The scheduler loop empties the queues

`backlog` counts the dispatches that are still to be made: one for the `NSM_INIT` of an agent, one for each
event in a queue.  While nothing is sent and no agent is registered (`EpaStep.Quiet`) every choice of the
loop makes one of them, the greatest priority first, or goes to the idle thread, which shares the level 0
with the agents of priority 0 and takes its turns there.

* `EpaInv.quietStep`   what one step does;
* `epaRun_drains`      in a quiet run every event that is due is passed once, in the order of its queue;
                       after enough choices nothing is left.
-/

set_option linter.unusedSectionVars false

namespace NeonEds
open Exec Mailbox

variable {T D E M : Type} [DecidableEq T] [DecidableEq D] [DecidableEq E]

/-- nothing is sent and no agent is registered -/
def EpaStep.Quiet : EpaStep T D E M → Prop
  | .register _ => False
  | .send _ _ => False
  | .sendAhead _ _ => False
  | _ => True

def EpaStep.isSchedule : EpaStep T D E M → Bool
  | .schedule => true
  | _ => false

/-- the choices of the loop in a run -/
def schedules (steps : List (EpaStep T D E M)) : ℕ := steps.countP EpaStep.isSchedule

/-- the initial dispatch of `t` runs -/
def EpaCtl.initialises : EpaCtl T E → T → Bool
  | .initialising t', t => decide (t' = t)
  | _, _ => false

/-- the dispatches that are still to be made for `t` -/
def backlogOf (ctx : EpaSys T D E M) (registered : T → Bool) (t : T) : ℕ :=
  (nqueueItems (ctx.queue t)).length +
    if registered t = true ∧ ctx.sched.fn (.app t) = some .init ∧ ctx.ctl.initialises t = false
    then 1 else 0

def backlog [Fintype T] (ctx : EpaSys T D E M) (registered : T → Bool) : ℕ :=
  ∑ t, backlogOf ctx registered t

/-- the agent that a note is about -/
def noteAgent : Note T E → T
  | .put t _ => t
  | .putAhead t _ => t
  | .start t => t
  | .pass t _ => t

/-- the note of a dispatch -/
def IsDispatch : Note T E → Prop
  | .start _ => True
  | .pass _ _ => True
  | _ => False

/-- the dispatches of `t` that a note tells -/
def madeFor (t : T) (note : Option (Note T E)) : ℕ :=
  note.elim 0 fun n => if noteAgent n = t then 1 else 0

/-- the idle thread had the last turn at its level -/
def IdleLast (cfg : SchedConfig) (sched : SchedCtx 32 T EpaFn) : Prop :=
  ∃ q rest, Ready cfg sched (fun _ => true) q ∧ q 0 = rest ++ [.idle]

section
variable {cfg : SchedConfig} {fuel : ℕ} {saturates : Bool} {ctx ctx' : EpaSys T D E M}
  {registered : T → Bool} {m : Mailbox T E}

/-! ### inversion of the steps of the loop -/

theorem finish_cases {note : Option (Note T E)}
    (hl : LegalEpaStep ctx registered (.finish : EpaStep T D E M))
    (h : runEpaStep cfg fuel saturates ctx .finish = .ok (note, ctx')) :
    ∃ t sched, nthreadRemoveI cfg ctx.sched (.app t) = .ok sched ∧ ctx.ctl.endsFor t ∧ note = none ∧
      ctx'.queue = ctx.queue ∧ ctx'.ctl = .loop ∧
      ((ctx.ctl = .initialising t ∧
          ctx'.sched = (edsScheduler cfg fuel).setDispatch sched t .dispatch) ∨
        (∃ e, ctx.ctl = .dispatched t e) ∧ ctx'.sched = sched) := by
  rcases hl with ⟨t, hctl⟩ | ⟨t, e, hctl⟩
  · unfold runEpaStep at h
    simp only [hctl] at h
    obtain ⟨ctx₁, hend, h⟩ := bind_eq_ok.mp h
    obtain ⟨rfl, rfl⟩ := Prod.mk.inj (Except.ok.inj h)
    obtain ⟨sched, hrem, hend⟩ := bind_eq_ok.mp hend
    rw [← Except.ok.inj hend]
    exact ⟨t, sched, hrem, .inl hctl, rfl, rfl, rfl, .inl ⟨hctl, rfl⟩⟩
  · unfold runEpaStep at h
    simp only [hctl] at h
    obtain ⟨ctx₁, hend, h⟩ := bind_eq_ok.mp h
    obtain ⟨rfl, rfl⟩ := Prod.mk.inj (Except.ok.inj h)
    obtain ⟨sched, hrem, hend⟩ := bind_eq_ok.mp hend
    rw [← Except.ok.inj hend]
    exact ⟨t, sched, hrem, .inr ⟨e, hctl⟩, rfl, rfl, rfl, .inr ⟨⟨e, hctl⟩, rfl⟩⟩

/-! ### what is due -/

theorem dueOf_of_loop (hctl : ctx.ctl = .loop) (h : EpaInv cfg ctx registered m) (t : T) :
    backlogOf ctx registered t = ctx.sched.ref (.app t) := by
  have href := h.ref t
  unfold wakeups at href
  unfold backlogOf
  simp only [hctl, EpaCtl.initialises, EpaCtl.dispatches, and_true] at href ⊢
  exact href.symm

theorem dueOf_congr {t : T} (hfn : ctx'.sched.fn (.app t) = ctx.sched.fn (.app t))
    (hq : ctx'.queue t = ctx.queue t) (hctl : ctx'.ctl.initialises t = ctx.ctl.initialises t) :
    backlogOf ctx' registered t = backlogOf ctx registered t := by
  unfold backlogOf
  rw [hfn, hq, hctl]

theorem dueOf_of_started {t : T} (h : ctx.sched.fn (.app t) = some .dispatch ∨
    ctx.ctl.initialises t = true) : backlogOf ctx registered t = (nqueueItems (ctx.queue t)).length := by
  unfold backlogOf
  rw [if_neg, Nat.add_zero]
  rintro ⟨_, hfn, hini⟩
  rcases h with h | h
  · rw [h] at hfn
    cases hfn
  · rw [h] at hini
    cases hini

theorem madeFor_none (t : T) : madeFor t (none : Option (Note T E)) = 0 := rfl

theorem madeFor_start (t : T) : madeFor t (some (.start t : Note T E)) = 1 := if_pos rfl

theorem madeFor_pass (t : T) (e : E) : madeFor t (some (.pass t e)) = 1 := if_pos rfl

theorem madeFor_of_ne {t : T} {n : Note T E} (h : noteAgent n ≠ t) : madeFor t (some n) = 0 :=
  if_neg h

/-- what a quiet step does: it makes at most one of the dispatches that are due -/
structure QuietStep (cfg : SchedConfig) (ctx ctx' : EpaSys T D E M) (registered : T → Bool)
    (step : EpaStep T D E M) (note : Option (Note T E)) : Prop where
  prio : ctx'.sched.prio = ctx.sched.prio
  ref_le : ∀ t, ctx'.sched.ref (.app t) ≤ ctx.sched.ref (.app t)
  isDispatch : ∀ n, note = some n → IsDispatch n ∧ step.isSchedule = true
  remaining : ∀ t, backlogOf ctx' registered t + madeFor t note = backlogOf ctx registered t
  made : ∀ n, note = some n → 0 < ctx.sched.ref (.app (noteAgent n))
  /-- the agent has the greatest priority of those that have references -/
  highest : ∀ n, note = some n → ∀ t, 0 < ctx.sched.ref (.app t) →
    ctx.sched.prio (.app t) ≤ ctx.sched.prio (.app (noteAgent n))
  /-- the idle thread is chosen when nothing is due above the level 0, and not twice in turn when something
  is due there -/
  idle : step.isSchedule = true → note = none → IdleLast cfg ctx'.sched ∧
    (∀ t, 0 < ctx.sched.ref (.app t) → ctx.sched.prio (.app t) = 0 ∧ ¬ IdleLast cfg ctx.sched)
  keepsIdle : step.isSchedule = false → IdleLast cfg ctx.sched → IdleLast cfg ctx'.sched

theorem QuietStep.refl {step : EpaStep T D E M} (hs : step.isSchedule = false)
    (hsched : ctx'.sched = ctx.sched) (hq : ctx'.queue = ctx.queue)
    (hctl : ctx'.ctl.initialises = ctx.ctl.initialises) :
    QuietStep cfg ctx ctx' registered step none := by
  refine ⟨by rw [hsched], fun t => by rw [hsched], fun n hn => (by cases hn), fun t => ?_,
    fun n hn => (by cases hn), fun n hn => (by cases hn), fun hs' => ?_, fun _ h => by rw [hsched]; exact h⟩
  · exact dueOf_congr (by rw [hsched]) (by rw [hq]) (by rw [hctl])
  · rw [hs] at hs'
    cases hs'

/-- the idle thread and another one share the level 0 -/
theorem Ready.not_idleLast {q : ℕ → List (ThreadId T)} {rest : List (ThreadId T)} {t : T}
    (hq : Ready cfg ctx.sched (fun _ => true) q) (h0 : q 0 = .idle :: rest) (ht : .app t ∈ q 0) :
    ¬ IdleLast cfg ctx.sched := by
  rintro ⟨q', rest', hq', h0'⟩
  rw [← hq'.unique hq, h0] at h0'
  have hnd := hq.nodup 0
  rw [h0, List.nodup_cons] at hnd
  cases rest' with
  | nil =>
    rw [h0, (List.cons.inj h0').2] at ht
    simp at ht
  | cons x rest' =>
    rw [(List.cons.inj h0').2] at hnd
    exact hnd.1 (List.mem_append_right _ (List.mem_singleton_self _))

theorem EpaInv.quietSchedule (h : EpaInv cfg ctx registered m) (hcfg : OneBucketPerLevel cfg)
    (hctl : ctx.ctl = .loop) {note : Option (Note T E)} {m' : Mailbox T E}
    (hrun : runEpaStep cfg fuel saturates ctx .schedule = .ok (note, ctx'))
    (hm : m.follow note = some m') (h' : EpaInv cfg ctx' registered m') :
    QuietStep cfg ctx ctx' registered .schedule note := by
  obtain ⟨q, hq⟩ := h.ready
  obtain ⟨p, u, rest, hqp, hmax⟩ := hq.exists_highest
  obtain ⟨sched, hsch, hready, href, hprio, _⟩ := schedScheduleI_ready hcfg fuel hq hqp hmax
  have hfn : sched.fn = ctx.sched.fn := schedScheduleI_fn hsch
  obtain ⟨_, hu, hpos⟩ := (hq.mem p u).mp (by rw [hqp]; exact List.mem_cons_self)
  have hbelow : ∀ t, 0 < ctx.sched.ref (.app t) → ctx.sched.prio (.app t) ≤ p := fun t ht =>
    hmax _ (List.ne_nil_of_mem ((hq.mem _ (.app t)).mpr ⟨rfl, rfl, ht⟩))
  have hini : ∀ t, ctx.ctl.initialises t = false := fun t => by rw [hctl]; rfl
  have hvf : vfDispatchI { ctx with sched := sched } (.thread u) = .ok (note, ctx') := by
    rw [runEpaStep, hsch, ok_bind] at hrun
    exact hrun
  rcases vfDispatchI_cases hvf with ⟨rfl, rfl, rfl⟩ | ⟨t, rfl, hft, rfl, rfl⟩ | ⟨t, rfl, hft, rfl, rfl⟩
  · -- the idle thread: nothing is due above the level 0
    have hp : p = 0 := hu.symm.trans hq.idle.2.1
    subst hp
    refine ⟨hprio, fun t => by rw [href], fun n hn => (by cases hn), fun t => ?_,
      fun n hn => (by cases hn), fun n hn => (by cases hn),
      fun _ _ => ⟨⟨_, rest, hready, Function.update_self ..⟩, fun t ht => ?_⟩,
      fun hs => (by cases hs)⟩
    · exact dueOf_congr (congrFun hfn _) rfl rfl
    · have h0 := Nat.le_zero.mp (hbelow t ht)
      exact ⟨h0, hq.not_idleLast hqp ((hq.mem 0 _).mpr ⟨rfl, h0, ht⟩)⟩
  · refine ⟨hprio, fun t => by rw [href], fun n hn => ⟨?_, rfl⟩, fun v => ?_,
      fun n hn => ?_, fun n hn v hv => ?_, fun _ hn => (by cases hn), fun hs => (by cases hs)⟩
    · rw [← Option.some.inj hn]
      trivial
    · by_cases hv : t = v
      · subst hv
        have hreg := (h'.initialising t rfl).1
        have hafter : backlogOf { ctx with sched := sched, ctl := .initialising t } registered t
            = (nqueueItems (ctx.queue t)).length :=
          dueOf_of_started (.inr (show decide (t = t) = true from decide_eq_true rfl))
        have hbefore : backlogOf ctx registered t = (nqueueItems (ctx.queue t)).length + 1 := by
          rw [backlogOf, if_pos ⟨hreg, hfn ▸ hft, hini t⟩]
        rw [madeFor_start, hbefore]
        exact congrArg (· + 1) hafter
      · rw [madeFor_of_ne (show noteAgent (Note.start t) ≠ v from hv), Nat.add_zero]
        exact dueOf_congr (congrFun hfn _) rfl ((decide_eq_false hv).trans (hini v).symm)
    · rw [← Option.some.inj hn]
      exact hpos
    · rw [← Option.some.inj hn]
      exact (hbelow v hv).trans (Nat.le_of_eq hu.symm)
  · refine ⟨hprio, fun t => by rw [epaDispatchStart]; exact Nat.le_of_eq (congrFun href _),
      fun n hn => ⟨?_, rfl⟩, fun v => ?_, fun n hn => ?_, fun n hn v hv => ?_,
      fun _ hn => (by cases hn), fun hs => (by cases hs)⟩
    · rw [← Option.some.inj hn]
      trivial
    · by_cases hv : t = v
      · subst hv
        obtain ⟨_, _, i, rest', hp, hp'⟩ := next_pass hm
        have hlen := congrArg List.length (h.items t)
        have hlen' := congrArg List.length (h'.items t)
        rw [hp] at hlen
        rw [hp', Function.update_self] at hlen'
        have hafter : backlogOf (epaDispatchStart { ctx with sched := sched } t) registered t
            = (nqueueItems ((epaDispatchStart { ctx with sched := sched } t).queue t)).length :=
          dueOf_of_started (.inl hft)
        rw [madeFor_pass, hafter, dueOf_of_started (.inl (hfn ▸ hft)), hlen, hlen', List.length_map,
          List.map_cons, List.length_cons, List.length_map]
      · rw [madeFor_of_ne (show noteAgent (Note.pass t _) ≠ v from hv), Nat.add_zero]
        exact dueOf_congr (congrFun hfn _) (Function.update_of_ne (Ne.symm hv) ..) (hini v).symm
    · rw [← Option.some.inj hn]
      exact hpos
    · rw [← Option.some.inj hn]
      exact (hbelow v hv).trans (Nat.le_of_eq hu.symm)

theorem EpaInv.quietFinish (h : EpaInv cfg ctx registered m) (hcfg : OneBucketPerLevel cfg)
    {note : Option (Note T E)} (hl : LegalEpaStep ctx registered (.finish : EpaStep T D E M))
    (hrun : runEpaStep cfg fuel saturates ctx .finish = .ok (note, ctx')) :
    QuietStep cfg ctx ctx' registered .finish note := by
  obtain ⟨t, sched, hrem, hends, rfl, hqueue, hctl, hcases⟩ := finish_cases hl hrun
  obtain ⟨hreg, hs, hpos⟩ := h.of_endsFor hends
  obtain ⟨q, hq⟩ := h.ready
  obtain ⟨sched', q', hrem', hready, href, hprio, hq'⟩ :=
    nthreadRemoveI_ready hcfg hq (t := t) rfl hpos (Nat.lt_of_succ_lt (h.ref_lt hcfg t))
  obtain rfl := Except.ok.inj (hrem.symm.trans hrem')
  have hfn : sched.fn = ctx.sched.fn := nthreadRemoveI_fn hrem
  have hini : ∀ v, ctx'.ctl.initialises v = false := fun v => by rw [hctl]; rfl
  have hle : ∀ v, sched.ref (.app v) ≤ ctx.sched.ref (.app v) := by
    intro v
    rw [href]
    by_cases hv : v = t
    · rw [hv, Function.update_self]
      exact Nat.sub_le ..
    · rw [Function.update_of_ne (fun hc => hv (ThreadId.app.inj hc))]
  have hlast : IdleLast cfg ctx.sched → IdleLast cfg sched := by
    rintro ⟨q₀, rest, hq₀, h0⟩
    rw [hq.unique hq₀] at h0
    rcases hq' 0 with h0' | h0'
    · exact ⟨q', rest, hready, h0'.trans h0⟩
    · refine ⟨q', rest.erase (.app t), hready, h0'.trans ?_⟩
      rw [h0, List.erase_append]
      by_cases hm : ThreadId.app t ∈ rest
      · rw [if_pos hm]
      · rw [if_neg hm, List.erase_of_not_mem hm, List.erase_of_not_mem (by simp)]
  rcases hcases with ⟨hctl₀, hsched⟩ | ⟨⟨e, hctl₀⟩, hsched⟩
  · have hfn' := setDispatch_fn cfg fuel sched t .dispatch
    refine ⟨by rw [hsched]; exact hprio, fun v => ?_, fun n hn => (by cases hn), fun v => ?_,
      fun n hn => (by cases hn), fun n hn => (by cases hn), fun hs => (by cases hs), fun _ hc => ?_⟩
    · rw [hsched, setDispatch_ref]
      exact hle v
    · rw [madeFor_none, Nat.add_zero]
      by_cases hv : v = t
      · rw [hv, dueOf_of_started (.inl (by rw [hsched, hfn', Function.update_self])),
          dueOf_of_started (.inr (by rw [hctl₀]; exact decide_eq_true rfl)), hqueue]
      · refine dueOf_congr ?_ (by rw [hqueue]) ?_
        · rw [hsched, hfn', Function.update_of_ne (fun hc => hv (ThreadId.app.inj hc)), hfn]
        · rw [hini, hctl₀]
          exact (decide_eq_false (Ne.symm hv)).symm
    · obtain ⟨q₁, rest, hq₁, h0⟩ := hlast hc
      rw [hsched]
      exact ⟨q₁, rest, setDispatch_ready fuel hq₁ t .dispatch, h0⟩
  · refine ⟨by rw [hsched]; exact hprio, fun v => by rw [hsched]; exact hle v,
      fun n hn => (by cases hn), fun v => ?_, fun n hn => (by cases hn), fun n hn => (by cases hn),
      fun hs => (by cases hs), fun _ hc => by rw [hsched]; exact hlast hc⟩
    rw [madeFor_none, Nat.add_zero]
    exact dueOf_congr (by rw [hsched, hfn]) (by rw [hqueue]) (by rw [hini, hctl₀]; rfl)

/-- **A quiet step** makes one of the dispatches that are due, or none. -/
theorem EpaInv.quietStep (h : EpaInv cfg ctx registered m) (hcfg : OneBucketPerLevel cfg)
    {step : EpaStep T D E M} (hq : step.Quiet) (hl : LegalEpaStep ctx registered step)
    {note : Option (Note T E)} {m' : Mailbox T E}
    (hrun : runEpaStep cfg fuel saturates ctx step = .ok (note, ctx'))
    (hm : m.follow note = some m') (h' : EpaInv cfg ctx' (registeredAfter registered step) m') :
    QuietStep cfg ctx ctx' registered step note := by
  cases step with
  | register t => exact absurd hq id
  | send t e => exact absurd hq id
  | sendAhead t e => exact absurd hq id
  | schedule => exact h.quietSchedule hcfg hl.1 hrun hm h'
  | returns =>
    obtain ⟨t, e, hctl⟩ := hl
    unfold runEpaStep at hrun
    simp only [hctl] at hrun
    obtain ⟨rfl, rfl⟩ := Prod.mk.inj (Except.ok.inj hrun)
    refine QuietStep.refl rfl rfl rfl ?_
    rw [hctl]
    rfl
  | finish => exact h.quietFinish hcfg hl hrun
  | memory mem deferred =>
    obtain ⟨rfl, rfl⟩ := Prod.mk.inj (Except.ok.inj hrun)
    exact QuietStep.refl rfl rfl rfl rfl

/-! ## runs -/

theorem registeredAfter_quiet {step : EpaStep T D E M} (hq : step.Quiet) :
    registeredAfter registered step = registered := by
  cases step with
  | register t => exact absurd hq id
  | _ => rfl

section
variable [Fintype T]

theorem QuietStep.backlog_eq {step : EpaStep T D E M} {note : Option (Note T E)}
    (h : QuietStep cfg ctx ctx' registered step note) :
    backlog ctx' registered + note.toList.length = backlog ctx registered := by
  have hsum : ∑ t, madeFor t note = note.toList.length := by
    cases note with
    | none => exact Finset.sum_const_zero
    | some n => exact Finset.sum_ite_eq _ _ _ |>.trans (if_pos (Finset.mem_univ _))
  rw [← hsum, backlog, ← Finset.sum_add_distrib]
  exact Finset.sum_congr rfl fun t _ => h.remaining t

theorem EpaInv.exists_ref (h : EpaInv cfg ctx registered m) (hctl : ctx.ctl = .loop)
    (hdue : backlog ctx registered ≠ 0) : ∃ t, 0 < ctx.sched.ref (.app t) := by
  obtain ⟨t, _, ht⟩ := Finset.exists_ne_zero_of_sum_ne_zero hdue
  rw [dueOf_of_loop hctl h] at ht
  exact ⟨t, Nat.pos_of_ne_zero ht⟩

/-- what a quiet run does -/
structure QuietRun (cfg : SchedConfig) (ctx ctx' : EpaSys T D E M) (registered : T → Bool)
    (steps : List (EpaStep T D E M)) (notes : List (Note T E)) : Prop where
  prio : ctx'.sched.prio = ctx.sched.prio
  isDispatch : ∀ n ∈ notes, IsDispatch n
  made : ∀ n ∈ notes, 0 < ctx.sched.ref (.app (noteAgent n))
  count : backlog ctx' registered + notes.length = backlog ctx registered
  descending : notes.Pairwise fun n n' =>
    ctx.sched.prio (.app (noteAgent n')) ≤ ctx.sched.prio (.app (noteAgent n))
  turns : backlog ctx' registered ≠ 0 → schedules steps ≤ 2 * notes.length + 1 ∧
    (IdleLast cfg ctx.sched → schedules steps ≤ 2 * notes.length)
  turnsAbove : (∀ t, 0 < ctx.sched.prio (.app t)) → backlog ctx' registered ≠ 0 →
    schedules steps ≤ notes.length

theorem QuietRun.nil : QuietRun cfg ctx ctx registered [] [] :=
  ⟨rfl, by simp, by simp, rfl, .nil, fun _ => ⟨Nat.zero_le _, fun _ => Nat.zero_le _⟩,
    fun _ _ => Nat.zero_le _⟩

theorem QuietRun.cons {ctx₁ : EpaSys T D E M} {step : EpaStep T D E M}
    {steps : List (EpaStep T D E M)} {note : Option (Note T E)} {notes : List (Note T E)}
    (h : EpaInv cfg ctx registered m) (hl : LegalEpaStep ctx registered step)
    (hs : QuietStep cfg ctx ctx₁ registered step note)
    (hr : QuietRun cfg ctx₁ ctx' registered steps notes) :
    QuietRun cfg ctx ctx' registered (step :: steps) (note.toList ++ notes) := by
  have hcount := hs.backlog_eq
  have hcount' := hr.count
  have hmade : ∀ n ∈ notes, 0 < ctx.sched.ref (.app (noteAgent n)) :=
    fun n hn => Nat.lt_of_lt_of_le (hr.made n hn) (hs.ref_le _)
  have hlen : (note.toList ++ notes).length = note.toList.length + notes.length :=
    List.length_append
  have hsched : schedules (step :: steps)
      = schedules steps + if step.isSchedule = true then 1 else 0 := List.countP_cons
  have hdesc := hr.descending
  rw [hs.prio] at hdesc
  have hone : ∀ n ∈ note.toList ++ notes, note = some n ∨ n ∈ notes := by
    intro n hn
    rcases List.mem_append.mp hn with hn | hn
    · exact .inl (Option.mem_toList.mp hn)
    · exact .inr hn
  -- the idle thread is chosen while something is due: not twice in turn, and never above the level 0
  have hidle : step.isSchedule = true → note = none → backlog ctx' registered ≠ 0 →
      IdleLast cfg ctx₁.sched ∧ ¬ IdleLast cfg ctx.sched ∧
        ∃ t, ctx.sched.prio (.app t) = 0 := by
    intro hstep hnone hdue
    have hctl : ctx.ctl = .loop := by
      cases step with
      | schedule => exact hl.1
      | _ => cases hstep
    obtain ⟨hlast, hall⟩ := hs.idle hstep hnone
    obtain ⟨t, ht⟩ := h.exists_ref hctl (by omega)
    exact ⟨hlast, (hall t ht).2, t, (hall t ht).1⟩
  refine ⟨hr.prio.trans hs.prio, fun n hn => ?_, fun n hn => ?_, ?_, ?_, fun hdue => ?_,
    fun habove hdue => ?_⟩
  · rcases hone n hn with hn | hn
    · exact (hs.isDispatch n hn).1
    · exact hr.isDispatch n hn
  · rcases hone n hn with hn | hn
    · exact hs.made n hn
    · exact hmade n hn
  · rw [hlen]
    omega
  · refine List.pairwise_append.mpr ⟨?_, hdesc, fun n hn n' hn' => ?_⟩
    · cases note with
      | none => exact .nil
      | some n => exact List.pairwise_singleton ..
    · exact hs.highest n (Option.mem_toList.mp hn) _ (hmade n' hn')
  · obtain ⟨hturns, hlast⟩ := hr.turns hdue
    rw [hsched, hlen]
    cases hstep : step.isSchedule with
    | false =>
      rw [if_neg Bool.false_ne_true]
      exact ⟨by omega, fun hc => by have := hlast (hs.keepsIdle hstep hc); omega⟩
    | true =>
      rw [if_pos rfl]
      cases hnote : note with
      | none =>
        obtain ⟨hlast₁, hnot, _⟩ := hidle hstep hnote hdue
        have := hlast hlast₁
        exact ⟨by omega, fun hc => absurd hc hnot⟩
      | some n =>
        show _ ≤ 2 * (1 + notes.length) + 1 ∧ (_ → _ ≤ 2 * (1 + notes.length))
        exact ⟨by omega, fun _ => by omega⟩
  · have hturns := hr.turnsAbove (fun t => by rw [hs.prio]; exact habove t) hdue
    rw [hsched, hlen]
    cases hstep : step.isSchedule with
    | false =>
      rw [if_neg Bool.false_ne_true]
      omega
    | true =>
      rw [if_pos rfl]
      cases hnote : note with
      | none =>
        obtain ⟨_, _, t, ht⟩ := hidle hstep hnote hdue
        exact absurd ht (Nat.ne_of_gt (habove t))
      | some n =>
        show _ ≤ 1 + notes.length
        omega

theorem EpaInv.quietRun (hcfg : OneBucketPerLevel cfg) (steps : List (EpaStep T D E M)) :
    ∀ {ctx : EpaSys T D E M} {m : Mailbox T E}, EpaInv cfg ctx registered m →
      (∀ step ∈ steps, step.Quiet) → LegalEpaRun cfg fuel saturates ctx registered steps →
      ∃ notes ctx' m', epaRun cfg fuel saturates ctx steps = .ok (notes, ctx') ∧
        m.followAll notes = some m' ∧ EpaInv cfg ctx' registered m' ∧
        QuietRun cfg ctx ctx' registered steps notes := by
  induction steps with
  | nil => exact fun h _ _ => ⟨[], _, _, rfl, rfl, h, .nil⟩
  | cons step steps ih =>
    intro ctx m h hq hl
    have hstep := hq step List.mem_cons_self
    obtain ⟨note, ctx₁, m₁, hrun, hm, h₁, _⟩ := h.step hcfg fuel saturates hl.1
    have hs := h.quietStep hcfg hstep hl.1 hrun hm h₁
    have hl₁ := hl.2 note ctx₁ hrun
    rw [registeredAfter_quiet hstep] at h₁ hl₁
    obtain ⟨notes, ctx', m', hrun', hm', h', hr⟩ :=
      ih h₁ (fun s hs => hq s (List.mem_cons_of_mem _ hs)) hl₁
    refine ⟨note.toList ++ notes, ctx', m', ?_, ?_, h', hr.cons h hl.1 hs⟩
    · rw [epaRun_cons hrun, hrun', ok_bind]
    · rw [followAll_append, follow_followAll, hm]
      exact hm'

/-- the loop makes enough choices for what is due; the idle thread takes no more than every other one, and
one more, and none when no agent shares its priority -/
def EnoughTurns (ctx : EpaSys T D E M) (registered : T → Bool) (turns : ℕ) : Prop :=
  2 * backlog ctx registered < turns ∨
    (∀ t, 0 < ctx.sched.prio (.app t)) ∧ backlog ctx registered ≤ turns

namespace QuietRun

variable {steps : List (EpaStep T D E M)} {notes : List (Note T E)} {m' : Mailbox T E}

theorem passed (hr : QuietRun cfg ctx ctx' registered steps notes) (h : EpaInv cfg ctx registered m)
    (h' : EpaInv cfg ctx' registered m') (hm : m.followAll notes = some m') (t : T) :
    passedTo t notes ++ nqueueItems (ctx'.queue t) = nqueueItems (ctx.queue t) := by
  have hput : putTo t notes = [] := by
    refine List.filterMap_eq_nil_iff.mpr fun n hn => ?_
    cases n with
    | put u e => exact absurd (hr.isDispatch _ hn) id
    | putAhead u e => exact absurd (hr.isDispatch _ hn) id
    | _ => rfl
  have hfifo := followAll_fifo hm t fun e hn => hr.isDispatch _ hn
  rw [hput, List.append_nil, ← h.items, ← h'.items] at hfifo
  exact hfifo.symm

theorem drained (hr : QuietRun cfg ctx ctx' registered steps notes)
    (hturns : EnoughTurns ctx registered (schedules steps)) : backlog ctx' registered = 0 := by
  have hcount := hr.count
  by_contra hdue
  rcases hturns with hlt | ⟨habove, hle⟩
  · have := (hr.turns hdue).1
    omega
  · have := hr.turnsAbove habove hdue
    omega

end QuietRun

/-- what the loop has made of the events that were pending at `ctx` -/
structure Drains (ctx ctx' : EpaSys T D E M) (registered : T → Bool)
    (steps : List (EpaStep T D E M)) (notes : List (Note T E)) : Prop where
  /-- the events of every agent in the order of its queue -/
  inOrder : ∀ t, passedTo t notes ++ nqueueItems (ctx'.queue t) = nqueueItems (ctx.queue t)
  /-- every dispatch that was due is made or still due -/
  count : backlog ctx' registered + notes.length = backlog ctx registered
  /-- greater priorities first -/
  descending : notes.Pairwise fun n n' =>
    ctx.sched.prio (.app (noteAgent n')) ≤ ctx.sched.prio (.app (noteAgent n))
  /-- the idle thread takes no more than every other turn, and one -/
  drained : 2 * backlog ctx registered < schedules steps → backlog ctx' registered = 0
  /-- above the level 0 it takes none -/
  drainedAbove : (∀ t, 0 < ctx.sched.prio (.app t)) → backlog ctx registered ≤ schedules steps →
    backlog ctx' registered = 0

/-- **The scheduler loop empties the queues.** -/
theorem epaRun_drains (hcfg : OneBucketPerLevel cfg)
    (hreach : EpaReach cfg fuel saturates ctx registered) (steps : List (EpaStep T D E M))
    (hq : ∀ step ∈ steps, step.Quiet) (hl : LegalEpaRun cfg fuel saturates ctx registered steps) :
    ∃ notes ctx', epaRun cfg fuel saturates ctx steps = .ok (notes, ctx') ∧
      Drains ctx ctx' registered steps notes := by
  obtain ⟨m, h⟩ := hreach.inv hcfg
  obtain ⟨notes, ctx', m', hrun, hm, h', hr⟩ := h.quietRun hcfg steps hq hl
  exact ⟨notes, ctx', hrun, hr.passed h h' hm, hr.count, hr.descending,
    fun hlt => hr.drained (.inl hlt), fun habove hle => hr.drained (.inr ⟨habove, hle⟩)⟩

end

end

/-- an agent that is registered and has one event -/
def oneAgentDue : EpaSys Unit Unit Unit Unit :=
  match epaRun cfg32 0 false oneAgent [.register (), .send () ()] with
  | .ok (_, ctx) => ctx
  | .error _ => oneAgent

theorem oneAgentDue_reach : EpaReach cfg32 0 false oneAgentDue
    (Function.update (fun _ => false) () true) :=
  .step (.step (.boot oneAgent_boot) (show LegalEpaStep _ _ (.register ()) from rfl) rfl)
    (show LegalEpaStep _ _ (.send () ()) from trivial) rfl

/-- its initial dispatch and the dispatch of the event -/
def oneAgentTurns : List (EpaStep Unit Unit Unit Unit) :=
  [.schedule, .finish, .schedule, .returns, .finish]

theorem oneAgentTurns_legal : LegalEpaRun cfg32 0 false oneAgentDue
    (Function.update (fun _ => false) () true) oneAgentTurns := by
  refine ⟨⟨rfl, fun _ _ => rfl⟩, fun n₁ ctx₁ h₁ => ?_⟩
  obtain rfl := (Prod.mk.inj (Except.ok.inj h₁)).2
  refine ⟨Or.inl ⟨(), rfl⟩, fun n₂ ctx₂ h₂ => ?_⟩
  obtain rfl := (Prod.mk.inj (Except.ok.inj h₂)).2
  refine ⟨⟨rfl, fun _ _ => rfl⟩, fun n₃ ctx₃ h₃ => ?_⟩
  obtain rfl := (Prod.mk.inj (Except.ok.inj h₃)).2
  refine ⟨⟨(), (), rfl⟩, fun n₄ ctx₄ h₄ => ?_⟩
  obtain rfl := (Prod.mk.inj (Except.ok.inj h₄)).2
  exact ⟨Or.inr ⟨(), (), rfl⟩, fun _ _ _ => trivial⟩

theorem epaRun_drains_oneAgent : ∃ notes ctx',
    epaRun cfg32 0 false oneAgentDue oneAgentTurns = .ok (notes, ctx') ∧
      Drains oneAgentDue ctx' (Function.update (fun _ => false) () true) oneAgentTurns notes :=
  epaRun_drains cfg32_oneBucketPerLevel oneAgentDue_reach oneAgentTurns
    (by simp [oneAgentTurns, EpaStep.Quiet]) oneAgentTurns_legal

end NeonEds

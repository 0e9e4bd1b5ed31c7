import NeonEds.Ep.Delivery
import NeonEds.Lib.MailboxRuns

/-!
# The notes of a run of agents

`epaRun` runs the steps one after the other and collects their notes.  `EpaInv.notes`: a legal run does
not fault, its notes are right, and `EpaInv` holds at its end.
-/

set_option linter.unusedSectionVars false

namespace NeonEds
open Exec Mailbox

variable {T D E M : Type} [DecidableEq T] [DecidableEq D] [DecidableEq E]

def epaRun (cfg : SchedConfig) (fuel : ℕ) (saturates : Bool) :
    EpaSys T D E M → List (EpaStep T D E M) → Exec (List (Note T E) × EpaSys T D E M)
  | ctx, [] => .ok ([], ctx)
  | ctx, step :: steps => do
    let (note, ctx) ← runEpaStep cfg fuel saturates ctx step
    let (notes, ctx) ← epaRun cfg fuel saturates ctx steps
    return (note.toList ++ notes, ctx)

section
variable {S : Type} {sch : Scheduler S T} {saturates : Bool} {ctx ctx' : EpaCtx S T D E M} {t : T}
  {e : E} {error : Nerror}

theorem nepaSendEventI_sched (h : nepaSendEventI sch saturates ctx t e = .ok (error, ctx')) :
    ctx'.ctl = ctx.ctl ∧ (sch.insertI ctx.sched t = .ok ctx'.sched ∨ ctx'.sched = ctx.sched) := by
  unfold nepaSendEventI at h
  by_cases hlim : neventRef (ctx.event e) < neventRefLimit
  · rw [if_pos hlim] at h
    by_cases hfull : nqueueIsFull (ctx.queue t) = false
    · obtain ⟨sched, hins, h⟩ := bind_eq_ok.mp ((if_pos hfull).symm.trans h)
      rw [← (Prod.mk.inj (Except.ok.inj h)).2]
      exact ⟨rfl, .inl hins⟩
    · have h' := (if_neg hfull).symm.trans h
      rw [← (Prod.mk.inj (Except.ok.inj h')).2]
      exact ⟨rfl, .inr rfl⟩
  · rw [if_neg hlim] at h
    rw [← (Prod.mk.inj (Except.ok.inj h)).2]
    exact ⟨rfl, .inr rfl⟩

theorem nepaSendEventAheadI_sched
    (h : nepaSendEventAheadI sch saturates ctx t e = .ok (error, ctx')) :
    ctx'.ctl = ctx.ctl ∧ (sch.insertI ctx.sched t = .ok ctx'.sched ∨ ctx'.sched = ctx.sched) := by
  unfold nepaSendEventAheadI at h
  by_cases hlim : neventRef (ctx.event e) < neventRefLimit
  · rw [if_pos hlim] at h
    by_cases hfull : nqueueIsFull (ctx.queue t) = false
    · obtain ⟨sched, hins, h⟩ := bind_eq_ok.mp ((if_pos hfull).symm.trans h)
      rw [← (Prod.mk.inj (Except.ok.inj h)).2]
      exact ⟨rfl, .inl hins⟩
    · have h' := (if_neg hfull).symm.trans h
      rw [← (Prod.mk.inj (Except.ok.inj h')).2]
      exact ⟨rfl, .inr rfl⟩
  · rw [if_neg hlim] at h
    rw [← (Prod.mk.inj (Except.ok.inj h)).2]
    exact ⟨rfl, .inr rfl⟩

end

section
variable {cfg : SchedConfig} {fuel : ℕ} {saturates : Bool} {ctx ctx' : EpaSys T D E M}
  {registered : T → Bool} {m : Mailbox T E}

theorem vfDispatchI_cases {u : ThreadId T} {note : Option (Note T E)}
    (h : vfDispatchI ctx (.thread u) = .ok (note, ctx')) :
    (u = .idle ∧ note = none ∧ ctx' = ctx) ∨
    (∃ t, u = .app t ∧ ctx.sched.fn (.app t) = some .init ∧ note = some (.start t) ∧
      ctx' = { ctx with ctl := .initialising t }) ∨
    (∃ t, u = .app t ∧ ctx.sched.fn (.app t) = some .dispatch ∧
      note = some (.pass t (nqueueGet (ctx.queue t)).1) ∧ ctx' = epaDispatchStart ctx t) := by
  cases u with
  | idle =>
    simp only [vfDispatchI] at h
    split at h
    · obtain ⟨rfl, rfl⟩ := Prod.mk.inj (Except.ok.inj h)
      exact .inl ⟨rfl, rfl, rfl⟩
    · cases h
  | app t =>
    simp only [vfDispatchI] at h
    split at h
    · obtain ⟨rfl, rfl⟩ := Prod.mk.inj (Except.ok.inj h)
      exact .inr (.inl ⟨t, rfl, ‹_›, rfl, rfl⟩)
    · obtain ⟨rfl, rfl⟩ := Prod.mk.inj (Except.ok.inj h)
      exact .inr (.inr ⟨t, rfl, ‹_›, rfl, rfl⟩)
    · cases h

theorem epaRun_cons {step : EpaStep T D E M} {steps : List (EpaStep T D E M)}
    {note : Option (Note T E)} (h : runEpaStep cfg fuel saturates ctx step = .ok (note, ctx')) :
    epaRun cfg fuel saturates ctx (step :: steps)
      = (epaRun cfg fuel saturates ctx' steps >>= fun r => .ok (note.toList ++ r.1, r.2)) := by
  rw [epaRun, h, ok_bind]
  rfl

/-- **A legal run does not fault, and its notes are right.** -/
theorem EpaInv.notes (hcfg : OneBucketPerLevel cfg) (fuel : ℕ) (saturates : Bool)
    (steps : List (EpaStep T D E M)) :
    ∀ {ctx : EpaSys T D E M} {registered : T → Bool} {m : Mailbox T E},
      EpaInv cfg ctx registered m → LegalEpaRun cfg fuel saturates ctx registered steps →
      ∃ notes ctx' m', epaRun cfg fuel saturates ctx steps = .ok (notes, ctx') ∧
        m.followAll notes = some m' ∧ EpaInv cfg ctx' (steps.foldl registeredAfter registered) m' := by
  induction steps with
  | nil => exact fun h _ => ⟨[], _, _, rfl, rfl, h⟩
  | cons step steps ih =>
    intro ctx registered m h hl
    obtain ⟨note, ctx₁, m₁, hrun, hm, h₁, _⟩ := h.step hcfg fuel saturates hl.1
    obtain ⟨notes, ctx', m', hrun', hm', h'⟩ := ih h₁ (hl.2 note ctx₁ hrun)
    refine ⟨note.toList ++ notes, ctx', m', ?_, ?_, h'⟩
    · rw [epaRun_cons hrun, hrun', ok_bind]
    · rw [followAll_append, follow_followAll, hm]
      exact hm'

end

end NeonEds

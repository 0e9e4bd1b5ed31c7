import Mathlib.Data.List.Nodup
import Mathlib.Tactic.Common

/-!
# A worker that runs jobs in batches

Jobs are requested at any time and join `pending`, unless they are waiting already.  The worker
takes all pending jobs as its batch, runs one after the other, and drops a job from the batch after
it has run.  A run is a list of requests and of single steps of the worker, its events are the
beginning and the end of a batch and the start of a job.

`Honoured j es`: in the events `es` the job `j` starts before the end of the first batch that begins
in `es`.  `honoured_of_owed`, `not_honoured_of_busy`: after a request this is so in every run iff the
job is not the one the worker is busy with.

* `mem_pending_run`  which jobs have joined `pending` in a run;
* `run_passLabels`   a batch in which only the running jobs make requests.
-/

inductive BatchPhase (J : Type*) where
  | idle
  | taking
  | taken
  | testing
  | picking
  | picked (j : J)
  | running (j : J)
  | finished (j : J)
  deriving DecidableEq

inductive BatchEvent (J : Type*) where
  | begun
  | start (j : J)
  | ended
  deriving DecidableEq

inductive BatchLabel (J : Type*) where
  | request (j : J)
  | work

structure Batch (J : Type*) where
  pending : List J
  working : List J
  phase : BatchPhase J

set_option linter.unusedSectionVars false

namespace Batch
variable {J : Type*} [DecidableEq J]

def request (s : Batch J) (j : J) : Batch J :=
  if j ∈ s.pending ∨ j ∈ s.working then s else { s with pending := j :: s.pending }

/-- one step of the worker -/
def work (s : Batch J) : Batch J × Option (BatchEvent J) :=
  match s.phase with
  | .idle => ({ s with phase := .taking }, some .begun)
  | .taking => (⟨s.working, s.pending, .taken⟩, none)
  | .taken => ({ s with phase := .testing }, none)
  | .testing =>
    if s.working = [] then ({ s with phase := .idle }, some .ended)
    else ({ s with phase := .picking }, none)
  | .picking =>
    match s.working with
    | [] => (s, none)
    | j :: _ => ({ s with phase := .picked j }, none)
  | .picked j => ({ s with phase := .running j }, some (.start j))
  | .running j => ({ s with phase := .finished j }, none)
  | .finished _ => (⟨s.pending, s.working.tail, .testing⟩, none)

def step (s : Batch J) : BatchLabel J → Batch J × Option (BatchEvent J)
  | .request j => (s.request j, none)
  | .work => s.work

/-- the state after a run, with the events -/
def run (s : Batch J) : List (BatchLabel J) → Batch J × List (BatchEvent J)
  | [] => (s, [])
  | l :: ls =>
    let r := (s.step l).1.run ls
    (r.1, (s.step l).2.toList ++ r.2)

/-- the job was started and is not yet dropped -/
def Busy (s : Batch J) (j : J) : Prop := s.phase = .running j ∨ s.phase = .finished j

/-- the batch in each phase -/
def PhaseOk (s : Batch J) : Prop :=
  match s.phase with
  | .idle | .taking => s.working = []
  | .taken | .testing => True
  | .picking => s.working ≠ []
  | .picked j | .running j | .finished j => s.working.head? = some j

structure Inv (s : Batch J) : Prop where
  nodup : (s.pending ++ s.working).Nodup
  phase : s.PhaseOk

/-- a start of the job is still to come -/
def Owed (s : Batch J) (j : J) : Prop := j ∈ s.pending ∨ (j ∈ s.working ∧ ¬ s.Busy j)

/-- the start is to come in the present batch -/
def Due (s : Batch J) (j : J) : Prop :=
  match s.phase with
  | .idle => False
  | .taking => j ∈ s.pending
  | _ => j ∈ s.working ∧ ¬ s.Busy j

/-- `j` starts before the end of the first batch that begins in `es` -/
def Honoured (j : J) (es : List (BatchEvent J)) : Prop :=
  ∀ e₁ e₂ e₃, es = e₁ ++ .begun :: (e₂ ++ .ended :: e₃) → BatchEvent.start j ∈ e₁ ++ e₂

variable {s : Batch J} {j : J}

/-! ## single steps -/

theorem Inv.request (h : s.Inv) (j : J) : (s.request j).Inv := by
  unfold Batch.request
  split
  · exact h
  · rename_i hj
    rw [not_or] at hj
    refine ⟨?_, h.phase⟩
    rw [List.cons_append, List.nodup_cons, List.mem_append, not_or]
    exact ⟨hj, h.nodup⟩

theorem Inv.work (h : s.Inv) : s.work.1.Inv := by
  obtain ⟨pending, working, phase⟩ := s
  obtain ⟨hnd, hph⟩ := h
  cases phase with
  | idle => exact ⟨hnd, hph⟩
  | taking => exact ⟨List.nodup_append_comm.mp hnd, trivial⟩
  | taken => exact ⟨hnd, trivial⟩
  | testing =>
    cases working with
    | nil => exact ⟨hnd, rfl⟩
    | cons j w => exact ⟨hnd, List.cons_ne_nil j w⟩
  | picking =>
    cases working with
    | nil => exact absurd rfl hph
    | cons j w => exact ⟨hnd, rfl⟩
  | picked j => exact ⟨hnd, hph⟩
  | running j => exact ⟨hnd, hph⟩
  | finished j => exact ⟨hnd.sublist ((List.tail_sublist working).append_left pending), trivial⟩

theorem Inv.step (h : s.Inv) (l : BatchLabel J) : (s.step l).1.Inv := by
  cases l with
  | request j => exact h.request j
  | work => exact h.work

theorem owed_request (hb : ¬ s.Busy j) : (s.request j).Owed j := by
  unfold Batch.request
  by_cases hj : j ∈ s.pending ∨ j ∈ s.working
  · rw [if_pos hj]
    exact hj.imp_right (fun hw => ⟨hw, hb⟩)
  · rw [if_neg hj]
    exact .inl List.mem_cons_self

theorem Owed.request (h : s.Owed j) (i : J) : (s.request i).Owed j := by
  unfold Batch.request
  split
  · exact h
  · exact h.imp_left (List.mem_cons_of_mem i)

theorem work_pending (ht : s.phase ≠ .taking) : s.work.1.pending = s.pending := by
  obtain ⟨pending, working, phase⟩ := s
  cases phase with
  | taking => exact absurd rfl ht
  | testing => cases working <;> rfl
  | picking => cases working <;> rfl
  | _ => rfl

theorem Inv.work_working (hi : s.Inv) (ht : s.phase ≠ .taking) (h : j ∈ s.working ∧ ¬ s.Busy j)
    (hno : s.work.2 ≠ some (.start j)) : j ∈ s.work.1.working ∧ ¬ s.work.1.Busy j := by
  obtain ⟨pending, working, phase⟩ := s
  obtain ⟨hnd, hph⟩ := hi
  cases phase with
  | idle => exact ⟨h.1, by simp [Busy, Batch.work]⟩
  | taking => exact absurd rfl ht
  | taken => exact ⟨h.1, by simp [Busy, Batch.work]⟩
  | testing =>
    cases working with
    | nil => exact absurd h.1 List.not_mem_nil
    | cons i w => exact ⟨h.1, by simp [Busy, Batch.work]⟩
  | picking =>
    cases working with
    | nil => exact absurd rfl hph
    | cons i w => exact ⟨h.1, by simp [Busy, Batch.work]⟩
  | picked i =>
    have hij : i ≠ j := fun e => hno (by rw [e]; rfl)
    exact ⟨h.1, by simp [Busy, Batch.work, hij]⟩
  | running i =>
    have hij : i ≠ j := fun e => h.2 (.inl (by rw [e]))
    exact ⟨h.1, by simp [Busy, Batch.work, hij]⟩
  | finished i =>
    have hij : i ≠ j := fun e => h.2 (.inr (by rw [e]))
    refine ⟨?_, by simp [Busy, Batch.work]⟩
    cases working with
    | nil => exact absurd h.1 List.not_mem_nil
    | cons k w =>
      obtain rfl : k = i := Option.some.inj hph
      exact (List.mem_cons.mp h.1).resolve_left (Ne.symm hij)

theorem Owed.work (hi : s.Inv) (h : s.Owed j) (hno : s.work.2 ≠ some (.start j)) :
    s.work.1.Owed j := by
  by_cases ht : s.phase = .taking
  · obtain ⟨pending, working, phase⟩ := s
    obtain rfl : phase = .taking := ht
    rcases h with h | ⟨h, _⟩
    · exact .inr ⟨h, by simp [Busy, Batch.work]⟩
    · exact .inl h
  · rcases h with h | h
    · rw [← work_pending ht] at h
      exact .inl h
    · exact .inr (hi.work_working ht h hno)

theorem Owed.step (hi : s.Inv) (h : s.Owed j) (l : BatchLabel J)
    (hno : (s.step l).2 ≠ some (.start j)) : (s.step l).1.Owed j := by
  cases l with
  | request i => exact h.request i
  | work => exact h.work hi hno

/-- a batch begins with all that is owed -/
theorem Owed.due (hi : s.Inv) (h : s.Owed j) (l : BatchLabel J)
    (hbegun : (s.step l).2 = some .begun) : (s.step l).1.Due j := by
  cases l with
  | request i => cases hbegun
  | work =>
    obtain ⟨pending, working, phase⟩ := s
    obtain ⟨hnd, hph⟩ := hi
    change (Batch.work _).2 = _ at hbegun
    cases phase with
    | idle =>
      rcases h with h | ⟨h, _⟩
      · exact h
      · rw [show working = [] from hph] at h
        exact absurd h List.not_mem_nil
    | testing => cases working <;> cases hbegun
    | picking => cases working <;> cases hbegun
    | taking => cases hbegun
    | taken => cases hbegun
    | picked i => cases hbegun
    | running i => cases hbegun
    | finished i => cases hbegun

/-- the batch does not end while a start is due -/
theorem Due.work (hi : s.Inv) (h : s.Due j) (hno : s.work.2 ≠ some (.start j)) :
    s.work.2 ≠ some .ended ∧ s.work.1.Due j := by
  obtain ⟨pending, working, phase⟩ := s
  cases phase with
  | idle => exact h.elim
  | taking => exact ⟨by simp [Batch.work], h, by simp [Busy, Batch.work]⟩
  | testing =>
    cases working with
    | nil => exact absurd h.1 List.not_mem_nil
    | cons i w => exact ⟨by simp [Batch.work], hi.work_working nofun h hno⟩
  | picking =>
    cases working with
    | nil => exact absurd rfl hi.phase
    | cons i w => exact ⟨by simp [Batch.work], hi.work_working nofun h hno⟩
  | _ => exact ⟨by simp [Batch.work], hi.work_working nofun h hno⟩

theorem Due.request (h : s.Due j) (i : J) : (s.request i).Due j := by
  obtain ⟨pending, working, phase⟩ := s
  unfold Batch.request
  split
  · exact h
  · cases phase with
    | taking => exact List.mem_cons_of_mem i h
    | _ => exact h

theorem Due.step (hi : s.Inv) (h : s.Due j) (l : BatchLabel J)
    (hno : (s.step l).2 ≠ some (.start j)) :
    (s.step l).2 ≠ some .ended ∧ (s.step l).1.Due j := by
  cases l with
  | request i => exact ⟨by simp [Batch.step], h.request i⟩
  | work => exact h.work hi hno

/-! ## runs -/

theorem Due.run (ls : List (BatchLabel J)) : ∀ {s : Batch J}, s.Inv → s.Due j →
    ∀ e₂ e₃, (s.run ls).2 = e₂ ++ .ended :: e₃ → BatchEvent.start j ∈ e₂ := by
  induction ls with
  | nil =>
    intro s _ _ e₂ e₃ he
    exact absurd he.symm (by simp [Batch.run])
  | cons l ls ih =>
    intro s hi h e₂ e₃ he
    change (s.step l).2.toList ++ ((s.step l).1.run ls).2 = _ at he
    by_cases hstart : (s.step l).2 = some (.start j)
    · rw [hstart] at he
      cases e₂ with
      | nil => cases he
      | cons e e₂ => exact List.mem_cons.mpr (.inl (List.cons.inj he).1)
    · obtain ⟨hend, hdue⟩ := h.step hi l hstart
      cases hev : (s.step l).2 with
      | none =>
        rw [hev] at he
        exact ih (hi.step l) hdue e₂ e₃ he
      | some ev =>
        rw [hev] at he hend
        cases e₂ with
        | nil => exact absurd (congrArg some (List.cons.inj he).1) hend
        | cons e e₂ => exact List.mem_cons_of_mem e (ih (hi.step l) hdue e₂ e₃ (List.cons.inj he).2)

theorem honoured_of_owed (ls : List (BatchLabel J)) : ∀ {s : Batch J}, s.Inv → s.Owed j →
    Honoured j (s.run ls).2 := by
  induction ls with
  | nil =>
    intro s _ _ e₁ e₂ e₃ he
    exact absurd he.symm (by simp [Batch.run])
  | cons l ls ih =>
    intro s hi h e₁ e₂ e₃ he
    change (s.step l).2.toList ++ ((s.step l).1.run ls).2 = _ at he
    by_cases hstart : (s.step l).2 = some (.start j)
    · rw [hstart] at he
      cases e₁ with
      | nil => cases he
      | cons e e₁ => exact List.mem_cons.mpr (.inl (List.cons.inj he).1)
    · have howed := h.step hi l hstart
      cases hev : (s.step l).2 with
      | none =>
        rw [hev] at he
        exact ih (hi.step l) howed e₁ e₂ e₃ he
      | some ev =>
        rw [hev] at he
        cases e₁ with
        | nil =>
          -- the batch begins here
          have hbegun : (s.step l).2 = some .begun := hev.trans (congrArg some (List.cons.inj he).1)
          exact (h.due hi l hbegun).run ls (hi.step l) e₂ e₃ (List.cons.inj he).2
        | cons e e₁ =>
          exact List.mem_cons_of_mem e (ih (hi.step l) howed e₁ e₂ e₃ (List.cons.inj he).2)

theorem run_append (s : Batch J) (ls ls' : List (BatchLabel J)) :
    s.run (ls ++ ls') = (((s.run ls).1.run ls').1, (s.run ls).2 ++ ((s.run ls).1.run ls').2) := by
  induction ls generalizing s with
  | nil => rfl
  | cons l ls ih =>
    rw [List.cons_append, Batch.run, ih]
    exact Prod.ext rfl (List.append_assoc _ _ _).symm

theorem exists_drain (pending : List J) (w : List J) :
    ∃ n, run ⟨pending, w, .testing⟩ (List.replicate n .work) =
      (⟨pending, [], .idle⟩, w.map .start ++ [.ended]) := by
  induction w with
  | nil => exact ⟨1, rfl⟩
  | cons j w ih =>
    obtain ⟨n, hn⟩ := ih
    refine ⟨5 + n, ?_⟩
    rw [List.replicate_add, run_append]
    have h5 : run ⟨pending, j :: w, .testing⟩ (List.replicate 5 .work) =
        (⟨pending, w, .testing⟩, [.start j]) := by
      simp [List.replicate, run, step, work]
    rw [h5, hn]
    rfl

/-- a request while the job runs may be lost: with no other request the job is not started in the rest
of the batch nor in the next one -/
theorem not_honoured_of_busy (hi : s.Inv) (hb : s.Busy j) :
    ∃ n, ¬ Honoured j ((s.request j).run (List.replicate n .work)).2 := by
  obtain ⟨pending, working, phase⟩ := s
  obtain ⟨hnd, hph⟩ := hi
  have hhead : working.head? = some j := by
    rcases hb with hb | hb
    · change phase = _ at hb
      rw [hb] at hph
      exact hph
    · change phase = _ at hb
      rw [hb] at hph
      exact hph
  cases working with
  | nil => cases hhead
  | cons i w =>
    obtain rfl : i = j := Option.some.inj hhead
    have hreq : request ⟨pending, i :: w, phase⟩ i = ⟨pending, i :: w, phase⟩ :=
      if_pos (.inr List.mem_cons_self)
    have hnw : i ∉ pending ++ w := (List.nodup_middle.mp hnd).notMem
    rw [List.mem_append, not_or] at hnw
    -- the rest of this batch, the next batch
    obtain ⟨n₁, h₁⟩ := exists_drain pending w
    obtain ⟨n₂, h₂⟩ := exists_drain [] pending
    obtain ⟨n₀, h₀⟩ : ∃ n₀, run ⟨pending, i :: w, phase⟩ (List.replicate n₀ .work) =
        (⟨pending, w, .testing⟩, []) := by
      rcases hb with hb | hb
      · change phase = _ at hb
        rw [hb]
        exact ⟨2, rfl⟩
      · change phase = _ at hb
        rw [hb]
        exact ⟨1, rfl⟩
    have h₃ : run (⟨pending, [], .idle⟩ : Batch J) (List.replicate 3 .work) =
        (⟨[], pending, .testing⟩, [.begun]) := rfl
    refine ⟨n₀ + (n₁ + (3 + n₂)), ?_⟩
    rw [hreq, List.replicate_add, run_append, h₀, List.replicate_add, run_append, h₁,
      List.replicate_add, run_append, h₃, h₂]
    intro hhon
    have hmem := hhon (w.map .start ++ [.ended]) (pending.map .start) [] (by simp)
    simp [hnw.1, hnw.2] at hmem

/-! ## the jobs that wait after a run -/

theorem step_pending (ht : s.phase ≠ .taking) (l : BatchLabel J) :
    j ∈ (s.step l).1.pending ↔
      j ∈ s.pending ∨ (l = .request j ∧ j ∉ s.pending ∧ j ∉ s.working) := by
  cases l with
  | work =>
    show j ∈ s.work.1.pending ↔ _
    rw [work_pending ht]
    simp
  | request i =>
    show j ∈ (s.request i).pending ↔ _
    unfold Batch.request
    by_cases hi : i ∈ s.pending ∨ i ∈ s.working
    · rw [if_pos hi]
      constructor
      · exact .inl
      · intro hj
        rcases hj with hj | ⟨hij, hp, hw⟩
        · exact hj
        · exact absurd (BatchLabel.request.inj hij ▸ hi) (not_or.mpr ⟨hp, hw⟩)
    · rw [if_neg hi]
      rw [not_or] at hi
      constructor
      · intro hj
        rcases List.mem_cons.mp hj with rfl | hj
        · exact .inr ⟨rfl, hi⟩
        · exact .inl hj
      · intro hj
        rcases hj with hj | ⟨hij, _⟩
        · exact List.mem_cons_of_mem i hj
        · exact List.mem_cons.mpr (.inl (BatchLabel.request.inj hij).symm)

/-- the lists change places only after a batch has begun -/
theorem step_phase_ne_taking (ht : s.phase ≠ .taking) (l : BatchLabel J)
    (hno : (s.step l).2 ≠ some .begun) : (s.step l).1.phase ≠ .taking := by
  obtain ⟨pending, working, phase⟩ := s
  cases l with
  | request i =>
    show (Batch.request _ i).phase ≠ _
    unfold Batch.request
    split <;> exact ht
  | work =>
    cases phase with
    | idle => exact absurd rfl hno
    | taking => exact absurd rfl ht
    | testing => cases working <;> simp [Batch.step, Batch.work]
    | picking => cases working <;> simp [Batch.step, Batch.work]
    | _ => simp [Batch.step, Batch.work]

/-- while no batch begins, a job joins the waiting ones by a request made when it was in no list -/
theorem mem_pending_run (ls : List (BatchLabel J)) : ∀ {s : Batch J}, s.phase ≠ .taking →
    .begun ∉ (s.run ls).2 → (j ∈ (s.run ls).1.pending ↔ j ∈ s.pending ∨
      ∃ ls₁ ls₂, ls = ls₁ ++ .request j :: ls₂ ∧
        j ∉ (s.run ls₁).1.pending ∧ j ∉ (s.run ls₁).1.working) := by
  induction ls with
  | nil =>
    intro s _ _
    simp [Batch.run]
  | cons l ls ih =>
    intro s ht hno
    change .begun ∉ (s.step l).2.toList ++ ((s.step l).1.run ls).2 at hno
    rw [List.mem_append, not_or, Option.mem_toList] at hno
    show j ∈ ((s.step l).1.run ls).1.pending ↔ _
    rw [ih (step_phase_ne_taking ht l hno.1) hno.2, step_pending ht]
    constructor
    · intro hj
      rcases hj with (hj | ⟨rfl, hfree⟩) | ⟨ls₁, ls₂, rfl, hfree⟩
      · exact .inl hj
      · exact .inr ⟨[], ls, rfl, hfree⟩
      · exact .inr ⟨l :: ls₁, ls₂, rfl, hfree⟩
    · intro hj
      rcases hj with hj | ⟨ls₁, ls₂, hls, hfree⟩
      · exact .inl (.inl hj)
      · cases ls₁ with
        | nil => exact .inl (.inr ⟨(List.cons.inj hls).1, hfree⟩)
        | cons l' ls₁ =>
          obtain ⟨rfl, hrest⟩ := List.cons.inj hls
          exact .inr ⟨ls₁, ls₂, hrest, hfree⟩

/-! ## a pass -/

/-- the steps that finish the batch `w`, where `calls done j` are the requests made while `j` runs
after the jobs `done` -/
def passLabels (calls : List J → J → List J) : List J → List J → List (BatchLabel J)
  | _, [] => [.work]
  | done, j :: w => .work :: .work :: .work :: ((calls done j).map .request ++
      .work :: .work :: passLabels calls (done ++ [j]) w)

theorem run_requests (js : List J) : ∀ s : Batch J,
    ∃ pending, s.run (js.map .request) = ({ s with pending := pending }, []) := by
  induction js with
  | nil => exact fun s => ⟨s.pending, rfl⟩
  | cons j js ih =>
    intro s
    obtain ⟨pending, hp⟩ := ih (s.request j)
    refine ⟨pending, ?_⟩
    have hrest : ({ s.request j with pending := pending } : Batch J) = { s with pending := pending } := by
      unfold Batch.request
      split <;> rfl
    rw [List.map_cons, Batch.run]
    show (((s.request j).run _).1, ((s.request j).run _).2) = _
    rw [hp, hrest]

theorem request_mem_passLabels {calls : List J → J → List J} {i : J} {w : List J} :
    ∀ {done : List J}, BatchLabel.request i ∈ passLabels calls done w →
      ∃ done', ∃ j ∈ w, i ∈ calls done' j := by
  induction w with
  | nil => exact fun h => nomatch List.mem_singleton.mp h
  | cons j w ih =>
    intro done h
    simp only [passLabels, List.mem_cons, List.mem_append, List.mem_map, reduceCtorEq, false_or] at h
    rcases h with ⟨k, hk, hki⟩ | h
    · exact ⟨done, j, List.mem_cons_self, BatchLabel.request.inj hki ▸ hk⟩
    · obtain ⟨done', k, hk, hi⟩ := ih h
      exact ⟨done', k, List.mem_cons_of_mem j hk, hi⟩

theorem run_passLabels (calls : List J → J → List J) (w : List J) : ∀ done pending : List J,
    ∃ pending', run ⟨pending, w, .testing⟩ (passLabels calls done w) =
      (⟨pending', [], .idle⟩, w.map .start ++ [.ended]) := by
  induction w with
  | nil => exact fun _ pending => ⟨pending, rfl⟩
  | cons j w ih =>
    intro done pending
    obtain ⟨p₁, h₁⟩ := run_requests (calls done j) ⟨pending, j :: w, .running j⟩
    obtain ⟨p₂, h₂⟩ := ih (done ++ [j]) p₁
    refine ⟨p₂, ?_⟩
    have hstart : run ⟨pending, j :: w, .testing⟩ [.work, .work, .work] =
        (⟨pending, j :: w, .running j⟩, [.start j]) := by simp [run, step, work]
    show run _ ([.work, .work, .work] ++ (_ ++ ([.work, .work] ++ _))) = _
    rw [run_append, hstart, run_append, h₁, run_append]
    show (_, [_] ++ ([] ++ ([] ++ (run ⟨p₁, w, .testing⟩ _).2))) = _
    rw [show run ⟨p₁, j :: w, .running j⟩ [.work, .work] = (⟨p₁, w, .testing⟩, []) from rfl, h₂]
    rfl

end Batch

import NeonEds.Sched.Deferred

/-!
# One pass of deferred work (source/deferred.c)

`deferredPass` is a call of `ncore_deferred_work` in which only the functions of the jobs call
`nsched_deferred_do`: each of its statements is `ncoreDeferredWork`, and the calls of a function come
while `deferred->fn` is executed.  The pass returns what was done, as a run of `deferredRun`.

* `deferredPass_run`      a pass is a run;
* `deferredPass_testing`  the loop ends, with the steps `Batch.passLabels`;
* `deferredPass_exact`    each pending job is executed once, and no other.
-/

namespace NeonEds
open Exec

section
variable {J : Type} [DecidableEq J]

/-- `ncore_deferred_work` from `c` on until it returns, with what was done; `fn done j` are the jobs
that the function of `j` gives to `nsched_deferred_do` when it is called after those of `done` -/
def deferredPass (v : Bool) (fn : List J → J → List J) : ℕ → List J → DeferredCtx J →
    Exec (DeferredCtx J × List (BatchLabel J))
  | 0, _, _ => .error .fuel
  | fuel + 1, done, c => do
    let s ← ncoreDeferredWork v c
    match s.2 with
    | some .ended => .ok (s.1, [.work])
    | some (.start j) => do
      let c ← (fn done j).foldlM (nschedDeferredDo v) s.1
      let r ← deferredPass v fn fuel (done ++ [j]) c
      .ok (r.1, .work :: ((fn done j).map .request ++ r.2))
    | _ => do
      let r ← deferredPass v fn fuel done s.1
      .ok (r.1, .work :: r.2)

/-- the job is a node of the list `g_ctx.a` or of the list `g_ctx.b` -/
def DeferredCtx.IsListed (c : DeferredCtx J) (j : J) : Prop :=
  ∃ s xs, (s = .a ∨ s = .b) ∧ Circular c.list s xs ∧ .job j ∈ xs

/-- in the run `ls` from `c` on, `j` is activated at a time when it is in neither list -/
def ActivatedFree (v : Bool) (c : DeferredCtx J) (ls : List (BatchLabel J)) (j : J) : Prop :=
  ∃ ls₁ ls₂ c₁ es₁, ls = ls₁ ++ .request j :: ls₂ ∧ deferredRun v c ls₁ = .ok (c₁, es₁) ∧
    ¬ c₁.IsListed j

/-- the pass `ls` from `c` to `c'`, where the jobs `pending` wait at its beginning and the jobs
`pending'` at its end -/
structure DeferredPass (v : Bool) (js : List J) (c c' : DeferredCtx J) (ls : List (BatchLabel J))
    (pending pending' : List J) : Prop where
  /-- the jobs executed are the pending ones, each of them once -/
  starts : deferredRun v c ls = .ok (c', .begun :: (pending.map .start ++ [.ended]))
  once : pending.Nodup
  /-- the working list is empty, on the pending list no job is twice -/
  after : ∃ p w, DeferredRep v js c' ⟨pending', [], .idle⟩ p w
  once' : pending'.Nodup
  activated : ∀ j, j ∈ pending' ↔ ActivatedFree v c ls j
  /-- in every state between, both lists are well formed and have no job in common -/
  between : ∀ ls₁ ls₂, ls = ls₁ ++ ls₂ → ∃ c₁ es₁ s₁ p₁ w₁,
    deferredRun v c ls₁ = .ok (c₁, es₁) ∧ DeferredRep v js c₁ s₁ p₁ w₁

variable {v : Bool} {js : List J} {c c' : DeferredCtx J} {s : Batch J} {p w : DeferredNode J}
  {fn : List J → J → List J} {fuel : ℕ} {done : List J} {ls : List (BatchLabel J)}

theorem DeferredRep.isListed_iff (h : DeferredRep v js c s p w) (j : J) :
    c.IsListed j ↔ j ∈ s.pending ∨ j ∈ s.working := by
  constructor
  · intro ⟨l, xs, hl, hring, hj⟩
    have hpw : l = p ∨ l = w := by
      rcases h.sentinels with ⟨rfl, rfl⟩ | ⟨rfl, rfl⟩
      · exact hl
      · exact hl.symm
    rcases hpw with rfl | rfl
    · rw [hring.unique h.pendingRing] at hj
      exact .inl (job_mem.mp hj)
    · rw [hring.unique h.workingRing] at hj
      exact .inr (job_mem.mp hj)
  · intro hj
    have hab : (p = .a ∨ p = .b) ∧ (w = .a ∨ w = .b) := by
      rcases h.sentinels with ⟨rfl, rfl⟩ | ⟨rfl, rfl⟩ <;> simp
    rcases hj with hj | hj
    · exact ⟨p, _, hab.1, h.pendingRing, job_mem.mpr hj⟩
    · exact ⟨w, _, hab.2, h.workingRing, job_mem.mpr hj⟩

/-! ## a pass is a run -/

theorem deferredRun_requests (reqs : List J) : ∀ c : DeferredCtx J,
    deferredRun v c (reqs.map .request ++ ls) =
      (reqs.foldlM (nschedDeferredDo v) c >>= fun c => deferredRun v c ls) := by
  induction reqs with
  | nil => exact fun c => (ok_bind ..).symm
  | cons j reqs ih =>
    intro c
    rw [List.map_cons, List.cons_append, deferredRun, List.foldlM_cons, deferredStep]
    cases nschedDeferredDo v c j with
    | error e => rfl
    | ok c₁ =>
      rw [ok_bind, ok_bind, ok_bind, ih c₁]
      cases (reqs.foldlM (nschedDeferredDo v) c₁ >>= fun c => deferredRun v c ls) <;> rfl

theorem deferredRun_work {r : DeferredCtx J × Option (BatchEvent J)} {es : List (BatchEvent J)}
    (hw : ncoreDeferredWork v c = .ok r) (hr : deferredRun v r.1 ls = .ok (c', es)) :
    deferredRun v c (.work :: ls) = .ok (c', r.2.toList ++ es) := by
  rw [deferredRun, deferredStep, hw, ok_bind, hr, ok_bind]

/-- what a pass says it has done, it has done -/
theorem deferredPass_run (fuel : ℕ) : ∀ {done : List J} {c c' : DeferredCtx J} {ls},
    deferredPass v fn fuel done c = .ok (c', ls) → ∃ es, deferredRun v c ls = .ok (c', es) := by
  induction fuel with
  | zero => exact fun h => nomatch h
  | succ fuel ih =>
    intro done c c' ls h
    rw [deferredPass] at h
    obtain ⟨⟨c₁, ev⟩, hw, h⟩ := bind_eq_ok.mp h
    have hquiet : (deferredPass v fn fuel done c₁ >>= fun r => .ok (r.1, .work :: r.2)) =
        .ok (c', ls) → ∃ es, deferredRun v c ls = .ok (c', es) := by
      intro h
      obtain ⟨⟨c₂, ls₂⟩, hr, h⟩ := bind_eq_ok.mp h
      obtain ⟨rfl, rfl⟩ := Prod.mk.inj (Except.ok.inj h)
      obtain ⟨es, hes⟩ := ih hr
      exact ⟨_, deferredRun_work hw hes⟩
    match ev with
    | none => exact hquiet h
    | some .begun => exact hquiet h
    | some .ended =>
      obtain ⟨rfl, rfl⟩ := Prod.mk.inj (Except.ok.inj h)
      exact ⟨_, deferredRun_work hw rfl⟩
    | some (.start j) =>
      obtain ⟨c₂, hreq, h⟩ := bind_eq_ok.mp h
      obtain ⟨⟨c₃, ls₂⟩, hr, h⟩ := bind_eq_ok.mp h
      obtain ⟨rfl, rfl⟩ := Prod.mk.inj (Except.ok.inj h)
      obtain ⟨es, hes⟩ := ih hr
      have hcalls : deferredRun v c₁ ((fn done j).map .request ++ ls₂) = .ok (c₃, es) := by
        rw [deferredRun_requests, hreq, ok_bind, hes]
      exact ⟨_, deferredRun_work hw hcalls⟩

/-! ## the loop -/

theorem deferredPass_quiet {c₁ : DeferredCtx J} {ev : Option (BatchEvent J)}
    (hw : ncoreDeferredWork v c = .ok (c₁, ev)) (hev : ev = none ∨ ev = some .begun)
    (hr : deferredPass v fn fuel done c₁ = .ok (c', ls)) :
    deferredPass v fn (fuel + 1) done c = .ok (c', .work :: ls) := by
  rw [deferredPass, hw, ok_bind]
  rcases hev with rfl | rfl
  · show (deferredPass v fn fuel done c₁ >>= _) = _
    rw [hr, ok_bind]
  · show (deferredPass v fn fuel done c₁ >>= _) = _
    rw [hr, ok_bind]

theorem deferredPass_start {c₁ c₂ : DeferredCtx J} {j : J}
    (hw : ncoreDeferredWork v c = .ok (c₁, some (.start j)))
    (hreq : (fn done j).foldlM (nschedDeferredDo v) c₁ = .ok c₂)
    (hr : deferredPass v fn fuel (done ++ [j]) c₂ = .ok (c', ls)) :
    deferredPass v fn (fuel + 1) done c = .ok (c', .work :: ((fn done j).map .request ++ ls)) := by
  rw [deferredPass, hw, ok_bind]
  show ((fn done j).foldlM (nschedDeferredDo v) c₁ >>= _) = _
  rw [hreq, ok_bind, hr, ok_bind]

theorem DeferredRep.requests (h : DeferredRep v js c s p w) {reqs : List J}
    (hreqs : ∀ i ∈ reqs, i ∈ js) : ∃ c' pending p' w', reqs.foldlM (nschedDeferredDo v) c = .ok c' ∧
      DeferredRep v js c' { s with pending := pending } p' w' := by
  have hl : DeferredLegal js (reqs.map .request) := by
    intro j hj
    obtain ⟨i, hi, hij⟩ := List.mem_map.mp hj
    exact BatchLabel.request.inj hij ▸ hreqs i hi
  obtain ⟨c', p', w', hrun, h'⟩ := h.run _ hl
  obtain ⟨pending, hp⟩ := Batch.run_requests reqs s
  rw [hp] at hrun h'
  rw [← List.append_nil (reqs.map _), deferredRun_requests] at hrun
  obtain ⟨c₁, hfold, hrun⟩ := bind_eq_ok.mp hrun
  obtain ⟨rfl, _⟩ := Prod.mk.inj (Except.ok.inj hrun)
  exact ⟨c₁, pending, p', w', hfold, h'⟩

/-- from the condition of the loop on: five statements for each job of the working list -/
theorem deferredPass_testing (hfn : ∀ done, ∀ j ∈ js, ∀ i ∈ fn done j, i ∈ js) (batch : List J) :
    ∀ (fuel : ℕ) (done : List J) {pending : List J} {c : DeferredCtx J} {p w : DeferredNode J},
      DeferredRep v js c ⟨pending, batch, .testing⟩ p w → 5 * batch.length < fuel →
        ∃ c', deferredPass v fn fuel done c = .ok (c', Batch.passLabels fn done batch) := by
  induction batch with
  | nil =>
    intro fuel done pending c p w h hf
    obtain ⟨fuel, rfl⟩ : ∃ k, fuel = k + 1 := ⟨fuel - 1, by omega⟩
    obtain ⟨c₁, _, _, hw, _⟩ := h.work
    refine ⟨c₁, ?_⟩
    rw [deferredPass, hw, ok_bind]
    rfl
  | cons j batch ih =>
    intro fuel done pending c p w h hf
    rw [List.length_cons] at hf
    obtain ⟨fuel, rfl⟩ : ∃ k, fuel = k + 5 := ⟨fuel - 5, by omega⟩
    have hj : j ∈ js := h.subset j (.inr List.mem_cons_self)
    obtain ⟨c₁, _, _, hw₁, h₁⟩ := h.work
    obtain ⟨c₂, _, _, hw₂, h₂⟩ := h₁.work
    obtain ⟨c₃, _, _, hw₃, h₃⟩ := h₂.work
    obtain ⟨c₄, pending₄, _, _, hreq, h₄⟩ := h₃.requests (hfn done j hj)
    obtain ⟨c₅, _, _, hw₅, h₅⟩ := h₄.work
    obtain ⟨c₆, _, _, hw₆, h₆⟩ := h₅.work
    obtain ⟨c', hrest⟩ := ih fuel (done ++ [j]) h₆ (by omega)
    refine ⟨c', ?_⟩
    exact deferredPass_quiet hw₁ (.inl rfl) (deferredPass_quiet hw₂ (.inl rfl)
      (deferredPass_start hw₃ hreq (deferredPass_quiet hw₅ (.inl rfl)
        (deferredPass_quiet hw₆ (.inl rfl) hrest))))

/-! ## the whole pass -/

theorem DeferredRep.activatedFree_iff (h : DeferredRep v js c s p w) (hl : DeferredLegal js ls)
    (j : J) : ActivatedFree v c ls j ↔ ∃ ls₁ ls₂, ls = ls₁ ++ .request j :: ls₂ ∧
      j ∉ (s.run ls₁).1.pending ∧ j ∉ (s.run ls₁).1.working := by
  have hbegin : ∀ ls₁ ls₂, ls = ls₁ ++ BatchLabel.request j :: ls₂ → ∃ c₁,
      deferredRun v c ls₁ = .ok (c₁, (s.run ls₁).2) ∧
        (c₁.IsListed j ↔ j ∈ (s.run ls₁).1.pending ∨ j ∈ (s.run ls₁).1.working) := by
    intro ls₁ ls₂ hls
    obtain ⟨c₁, p₁, w₁, hrun, h₁⟩ := h.run ls₁
      (fun i hi => hl i (hls ▸ List.mem_append_left _ hi))
    exact ⟨c₁, hrun, h₁.isListed_iff j⟩
  constructor
  · intro ⟨ls₁, ls₂, c₁, es₁, hls, hrun, hfree⟩
    obtain ⟨c₂, hrun', hiff⟩ := hbegin ls₁ ls₂ hls
    obtain ⟨rfl, _⟩ := Prod.mk.inj (Except.ok.inj (hrun.symm.trans hrun'))
    rw [hiff, not_or] at hfree
    exact ⟨ls₁, ls₂, hls, hfree⟩
  · intro ⟨ls₁, ls₂, hls, hfree⟩
    obtain ⟨c₁, hrun, hiff⟩ := hbegin ls₁ ls₂ hls
    rw [← not_or, ← hiff] at hfree
    exact ⟨ls₁, ls₂, c₁, _, hls, hrun, hfree⟩

/-- the jobs that wait after a batch are those that were activated in it when they were free -/
theorem DeferredRep.activatedFree_pass {pending pending' : List J}
    (h : DeferredRep v js c ⟨pending, [], .idle⟩ p w)
    (hl : DeferredLegal js (.work :: .work :: .work :: ls))
    (hbatch : Batch.run ⟨[], pending, .testing⟩ ls =
      (⟨pending', [], .idle⟩, pending.map .start ++ [.ended])) (j : J) :
    j ∈ pending' ↔ ActivatedFree v c (.work :: .work :: .work :: ls) j := by
  -- once the lists have changed places no batch begins
  have hno : .begun ∉ (Batch.run ⟨[], pending, .taken⟩ (.work :: ls)).2 := by
    show .begun ∉ (Batch.run ⟨[], pending, .testing⟩ ls).2
    rw [hbatch]
    simp
  have hmem := Batch.mem_pending_run (j := j) (.work :: ls)
    (s := ⟨[], pending, .taken⟩) (by simp) hno
  rw [show (Batch.run ⟨[], pending, .taken⟩ (.work :: ls)).1 = ⟨pending', [], .idle⟩ from
    congrArg Prod.fst hbatch] at hmem
  rw [h.activatedFree_iff hl, show j ∈ pending' ↔ _ from hmem]
  constructor
  · intro hj
    rcases hj with hj | ⟨ls₁, ls₂, hls₁, hfree⟩
    · cases hj
    · exact ⟨.work :: .work :: ls₁, ls₂, by rw [hls₁]; rfl, hfree⟩
  · intro ⟨ls₁, ls₂, hls₁, hfree⟩
    match ls₁, hls₁ with
    | .work :: .work :: ls₁, hls₁ =>
      exact .inr ⟨ls₁, ls₂, (List.cons.inj (List.cons.inj hls₁).2).2, hfree⟩

/-- **A pass ends, and it is exact.** -/
theorem deferredPass_exact {pending : List J} (h : DeferredRep v js c ⟨pending, [], .idle⟩ p w)
    (hfn : ∀ done, ∀ j ∈ js, ∀ i ∈ fn done j, i ∈ js) (hf : 5 * pending.length + 4 ≤ fuel) :
    ∃ c' ls pending', deferredPass v fn fuel [] c = .ok (c', ls) ∧
      DeferredPass v js c c' ls pending pending' := by
  obtain ⟨fuel, rfl⟩ : ∃ k, fuel = k + 3 := ⟨fuel - 3, by omega⟩
  -- the lists change places
  obtain ⟨c₁, _, _, hw₁, h₁⟩ := h.work
  obtain ⟨c₂, _, _, hw₂, h₂⟩ := h₁.work
  obtain ⟨c₃, _, _, hw₃, h₃⟩ := h₂.work
  obtain ⟨c', hloop⟩ := deferredPass_testing hfn pending fuel [] h₃ (by omega)
  have hpass := deferredPass_quiet hw₁ (.inr rfl) (deferredPass_quiet hw₂ (.inl rfl)
    (deferredPass_quiet hw₃ (.inl rfl) hloop))
  obtain ⟨es, hrun⟩ := deferredPass_run _ hpass
  obtain ⟨pending', hbatch⟩ := Batch.run_passLabels fn pending [] []
  generalize hls : Batch.passLabels fn [] pending = ls at hpass hrun hbatch
  have hlegal : DeferredLegal js (.work :: .work :: .work :: ls) := by
    intro i hi
    have hmem : BatchLabel.request i ∈ Batch.passLabels fn [] pending := by
      rw [hls]
      simpa using hi
    obtain ⟨done, j, hj, hij⟩ := Batch.request_mem_passLabels hmem
    exact hfn done j (h.subset j (.inl hj)) i hij
  have hwhole : Batch.run ⟨pending, [], .idle⟩ (.work :: .work :: .work :: ls) =
      (⟨pending', [], .idle⟩, .begun :: (pending.map .start ++ [.ended])) := by
    show ((Batch.run ⟨[], pending, .testing⟩ ls).1, _ :: (Batch.run ⟨[], pending, .testing⟩ ls).2) = _
    rw [hbatch]
  obtain ⟨c₄, p', w', hrun', h'⟩ := h.run _ hlegal
  rw [hwhole] at hrun' h'
  obtain ⟨rfl, rfl⟩ := Prod.mk.inj (Except.ok.inj (hrun.symm.trans hrun'))
  refine ⟨c', _, pending', hpass, hrun, ?_, ⟨p', w', h'⟩, ?_, fun j => ?_, ?_⟩
  · exact (List.append_nil pending) ▸ h.inv.nodup
  · exact (List.append_nil pending') ▸ h'.inv.nodup
  · exact h.activatedFree_pass hlegal hbatch j
  · intro ls₁ ls₂ hls₁
    obtain ⟨c₁, p₁, w₁, hrun₁, h₁⟩ := h.run ls₁
      (fun i hi => hlegal i (hls₁ ▸ List.mem_append_left _ hi))
    exact ⟨c₁, _, _, p₁, w₁, hrun₁, h₁⟩

/-- a function that activates its own job, which is ignored, and another one -/
theorem deferredPass_exact_self : ∃ c₀ c, deferredStart true [true, false] = .ok c₀ ∧
    nschedDeferredDo true c₀ true = .ok c ∧ ∃ c' ls pending',
      deferredPass true (fun _ _ => [true, false]) 9 [] c = .ok (c', ls) ∧
        DeferredPass true [false, true] c c' ls [true] pending' := by
  obtain ⟨c₀, hstart, h₀⟩ := deferredStart_rep true
    (show [true, false] ≠ [] by simp) (by simp)
  obtain ⟨c, hreq, h⟩ := h₀.request (j := true) (by simp)
  refine ⟨c₀, c, hstart, hreq, ?_⟩
  have hpending : DeferredRep true [false, true] c ⟨[true], [], .idle⟩ .a .b := by
    simpa [Batch.request] using h
  exact deferredPass_exact hpending (fun _ _ _ i _ => by cases i <;> simp) (Nat.le_refl 9)

end

end NeonEds

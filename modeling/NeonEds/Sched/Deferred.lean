import NeonEds.Base.Dlist
import NeonEds.Lib.BatchWorker

/-!
# Deferred jobs (source/deferred.c)

A job that is to run is on the pending list; `ncore_deferred_work` exchanges the pending list with
the empty working list and runs the jobs of the latter.  `WorkPc` is the statement that
`ncore_deferred_work` is at, so that an interrupt may call `nsched_deferred_do` between any two of
its statements; what a job function calls comes while the worker is at `running`.

`DeferredRep`: the lists are the two lists of a `Batch`.  `deferredRun_honoured_iff`: a request is
honoured in every continuation iff the function of its job is not being executed.
-/

set_option linter.unusedSectionVars false

namespace NeonEds
open Exec

/-- the nodes of the lists `g_ctx.a` and `g_ctx.b` -/
inductive DeferredNode (J : Type) where
  | a
  | b
  | job (j : J)
  deriving DecidableEq

/-- the statements of `ncore_deferred_work`, with the local variables in use -/
inductive WorkPc (J : Type) where
  /-- not called -/
  | idle
  /-- `g_ctx.pending = g_ctx.working` -/
  | taking (tmp : Option (DeferredNode J))
  /-- `g_ctx.working = tmp` -/
  | taken (tmp : Option (DeferredNode J))
  /-- the condition of the loop -/
  | testing
  /-- `current = ndlist_next(g_ctx.working)` -/
  | picking
  /-- the call of `deferred->fn` -/
  | picked (current : DeferredNode J)
  /-- `deferred->fn` is being executed -/
  | running (current : DeferredNode J)
  /-- `ndlist_remove(current)` -/
  | finished (current : DeferredNode J)
  deriving DecidableEq

/-- `g_ctx`, `is_initialized`, the list members and signatures of the jobs, and where
`ncore_deferred_work` is -/
structure DeferredCtx (J : Type) where
  list : Links (DeferredNode J)
  pending : Option (DeferredNode J)
  working : Option (DeferredNode J)
  isInitialized : Bool
  /-- `NSIGNATURE_OF(deferred) == NSIGNATURE_DEFER` -/
  signature : J → Bool
  pc : WorkPc J

section
variable {J : Type} [DecidableEq J] (v : Bool)

/-- zeroed memory -/
def DeferredCtx.init : DeferredCtx J := ⟨⟨fun _ => none, fun _ => none⟩, none, none, false,
  fun _ => false, .idle⟩

/-- the static part of `nsched_deferred_init` -/
def deferredPrepare (c : DeferredCtx J) : DeferredCtx J :=
  if c.isInitialized = false then
    { c with
      isInitialized := true
      list := ndlistInit (ndlistInit c.list .a) .b
      pending := some .a
      working := some .b }
  else c

def nschedDeferredInit (c : DeferredCtx J) (j : J) : Exec (DeferredCtx J) := do
  require v (c.signature j = false)
  let c := deferredPrepare c
  .ok { c with
    list := ndlistInit c.list (.job j)
    signature := if v then Function.update c.signature j true else c.signature }

def nschedDeferredDo (c : DeferredCtx J) (j : J) : Exec (DeferredCtx J) := do
  require v (c.signature j = true)
  if ndlistIsEmpty c.list (.job j) then do
    let pending ← deref c.pending
    let list ← ndlistAddAfter c.list pending (.job j)
    .ok { c with list := list }
  else .ok c

/-- `PORT_C_CONTAINER_OF` of a sentinel is no job -/
def ndlistToDeferred : DeferredNode J → Exec J
  | .job j => .ok j
  | _ => .error .bounds

/-- one statement of `ncore_deferred_work`; at `idle` it is called and begins -/
def ncoreDeferredWork (c : DeferredCtx J) : Exec (DeferredCtx J × Option (BatchEvent J)) :=
  match c.pc with
  | .idle => .ok ({ c with pc := .taking c.pending }, some .begun)
  | .taking tmp => .ok ({ c with pending := c.working, pc := .taken tmp }, none)
  | .taken tmp => .ok ({ c with working := tmp, pc := .testing }, none)
  | .testing => do
    let working ← deref c.working
    if ndlistIsEmpty c.list working then .ok ({ c with pc := .idle }, some .ended)
    else .ok ({ c with pc := .picking }, none)
  | .picking => do
    let working ← deref c.working
    let current ← ndlistNext c.list working
    .ok ({ c with pc := .picked current }, none)
  | .picked current => do
    let j ← ndlistToDeferred current
    require v (c.signature j = true)
    .ok ({ c with pc := .running current }, some (.start j))
  | .running current => .ok ({ c with pc := .finished current }, none)
  | .finished current => do
    let list ← ndlistRemove v c.list current
    .ok ({ c with list := list, pc := .testing }, none)

def deferredStep (c : DeferredCtx J) : BatchLabel J →
    Exec (DeferredCtx J × Option (BatchEvent J))
  | .request j => do
    let c ← nschedDeferredDo v c j
    .ok (c, none)
  | .work => ncoreDeferredWork v c

/-- a run, with its events -/
def deferredRun (c : DeferredCtx J) : List (BatchLabel J) →
    Exec (DeferredCtx J × List (BatchEvent J))
  | [] => .ok (c, [])
  | l :: ls => do
    let s ← deferredStep v c l
    let r ← deferredRun s.1 ls
    .ok (r.1, s.2.toList ++ r.2)

/-- the jobs `js` are initialised -/
def deferredStart (js : List J) : Exec (DeferredCtx J) :=
  js.foldlM (nschedDeferredInit v) DeferredCtx.init

/-- only initialised jobs are requested -/
def DeferredLegal (js : List J) (ls : List (BatchLabel J)) : Prop :=
  ∀ j, BatchLabel.request j ∈ ls → j ∈ js

/-- `deferred->fn` is being executed, or has returned to a worker that has not yet removed the job -/
def DeferredCtx.IsExecuting (c : DeferredCtx J) (j : J) : Prop :=
  c.pc = .running (.job j) ∨ c.pc = .finished (.job j)

end

/-! ## the lists as a batch -/

section
variable {J : Type} [DecidableEq J] {v : Bool}

/-- the statement for each phase; `p` and `w` are the sentinels of the pending list and of the batch -/
def WorkPcRep (p w : DeferredNode J) : BatchPhase J → WorkPc J
  | .idle => .idle
  | .taking => .taking (some p)
  | .taken => .taken (some w)
  | .testing => .testing
  | .picking => .picking
  | .picked j => .picked (.job j)
  | .running j => .running (.job j)
  | .finished j => .finished (.job j)

/-- the lists at `p` and `w` hold the batch `s` of the jobs `js` -/
structure DeferredRep (v : Bool) (js : List J) (c : DeferredCtx J) (s : Batch J)
    (p w : DeferredNode J) : Prop where
  sentinels : (p = .a ∧ w = .b) ∨ (p = .b ∧ w = .a)
  pending : c.pending = some p
  working : c.working = some (if s.phase = .taken then p else w)
  pc : c.pc = WorkPcRep p w s.phase
  pendingRing : Circular c.list p (s.pending.map .job)
  workingRing : Circular c.list w (s.working.map .job)
  free : ∀ j ∈ js, j ∉ s.pending → j ∉ s.working → c.list.next (.job j) = some (.job j)
  subset : ∀ j, j ∈ s.pending ∨ j ∈ s.working → j ∈ js
  signature : v = true → ∀ j ∈ js, c.signature j = true
  inv : s.Inv

theorem require_imp {p : Prop} [Decidable p] (h : v = true → p) : require v p = .ok ⟨⟩ := by
  cases v with
  | false => exact require_false
  | true => exact require_of (h rfl)

variable {js : List J} {c : DeferredCtx J} {s : Batch J} {p w : DeferredNode J}

namespace DeferredRep

theorem job_ne (h : DeferredRep v js c s p w) (j : J) : DeferredNode.job j ≠ p ∧ .job j ≠ w := by
  rcases h.sentinels with ⟨rfl, rfl⟩ | ⟨rfl, rfl⟩ <;> simp

theorem sentinel_ne (h : DeferredRep v js c s p w) : p ≠ w := by
  rcases h.sentinels with ⟨rfl, rfl⟩ | ⟨rfl, rfl⟩ <;> simp

theorem not_mem_both (h : DeferredRep v js c s p w) {j : J} (hp : j ∈ s.pending) :
    j ∉ s.working := fun hw => (List.nodup_append.mp h.inv.nodup).2.2 j hp j hw rfl

theorem job_mem {l : List J} {j : J} : DeferredNode.job j ∈ l.map DeferredNode.job ↔ j ∈ l := by
  simp

/-- the link of a job shows whether it waits -/
theorem isEmpty_iff (h : DeferredRep v js c s p w) {j : J} (hj : j ∈ js) :
    ndlistIsEmpty c.list (.job j) = true ↔ ¬ (j ∈ s.pending ∨ j ∈ s.working) := by
  unfold ndlistIsEmpty
  rw [decide_eq_true_iff, not_or]
  constructor
  · intro hnext
    exact ⟨fun hp => h.pendingRing.next_ne_self (job_mem.mpr hp) hnext,
      fun hw => h.workingRing.next_ne_self (job_mem.mpr hw) hnext⟩
  · exact fun hno => h.free j hj hno.1 hno.2

theorem request (h : DeferredRep v js c s p w) {j : J} (hj : j ∈ js) :
    ∃ c', nschedDeferredDo v c j = .ok c' ∧ DeferredRep v js c' (s.request j) p w := by
  unfold nschedDeferredDo
  rw [require_imp (fun hv => h.signature hv j hj), ok_bind]
  have hempty := h.isEmpty_iff hj
  by_cases hwait : j ∈ s.pending ∨ j ∈ s.working
  · have hreq : s.request j = s := if_pos hwait
    rw [if_neg (fun he => hempty.mp he hwait), hreq]
    exact ⟨c, rfl, h⟩
  · have hreq : s.request j = { s with pending := j :: s.pending } := if_neg hwait
    have hinv := h.inv.request j
    rw [hreq] at hinv
    rw [not_or] at hwait
    obtain ⟨hne, hnw⟩ := h.job_ne j
    obtain ⟨L', hadd, hring, heq⟩ := ndlistAddAfter_ring h.pendingRing
      (n := .job j) (by simp [hne, hwait.1])
    rw [if_pos (hempty.mpr (not_or.mpr hwait)), h.pending, deref_some, ok_bind, hadd, ok_bind, hreq]
    refine ⟨_, rfl, h.sentinels, rfl, h.working, h.pc, hring, ?_, ?_, ?_, h.signature, hinv⟩
    · apply h.workingRing.congr
      intro x hx
      apply heq
      rcases List.mem_cons.mp hx with rfl | hx
      · have := h.sentinel_ne
        have hjob := fun i => (h.job_ne i).2
        simp [Ne.symm this, Ne.symm hnw, hjob]
      · obtain ⟨i, hi, rfl⟩ := List.mem_map.mp hx
        have hij : i ≠ j := fun e => hwait.2 (e ▸ hi)
        have hip : i ∉ s.pending := fun hp => h.not_mem_both hp hi
        simp [hij, (h.job_ne i).1, hip]
    · intro i hi hip hiw
      rw [List.mem_cons, not_or] at hip
      rw [(heq (.job i) (by simp [hip.1, (h.job_ne i).1, hip.2])).1]
      exact h.free i hi hip.2 hiw
    · rintro i (hi | hi)
      · rcases List.mem_cons.mp hi with rfl | hi
        · exact hj
        · exact h.subset i (.inl hi)
      · exact h.subset i (.inr hi)

theorem setPhase (h : DeferredRep v js c s p w) (phase : BatchPhase J)
    (hw : c.working = some (if phase = .taken then p else w))
    (hinv : ({ s with phase := phase } : Batch J).Inv) :
    DeferredRep v js { c with pc := WorkPcRep p w phase } { s with phase := phase } p w :=
  ⟨h.sentinels, h.pending, hw, rfl, h.pendingRing, h.workingRing, h.free, h.subset, h.signature,
    hinv⟩

theorem remove (h : DeferredRep v js c s p w) {j : J} (hph : s.phase = .finished j) :
    ∃ L', ndlistRemove v c.list (.job j) = .ok L' ∧
      DeferredRep v js { c with list := L', pc := .testing } ⟨s.pending, s.working.tail, .testing⟩
        p w := by
  have hinv : (Batch.work s).1.Inv := h.inv.work
  have hhead : s.working.head? = some j := by
    have := h.inv.phase
    unfold Batch.PhaseOk at this
    rw [hph] at this
    exact this
  obtain ⟨pending, working, phase⟩ := s
  change phase = _ at hph
  subst hph
  cases working with
  | nil => cases hhead
  | cons i rest =>
    obtain rfl : i = j := Option.some.inj hhead
    obtain ⟨L', hrem, hring, hself, heq⟩ := ndlistRemove_ring v
      (show Circular c.list w ([] ++ DeferredNode.job i :: rest.map .job) from h.workingRing)
    refine ⟨L', hrem, h.sentinels, h.pending, h.working, rfl, ?_, hring, ?_, ?_, h.signature, hinv⟩
    · apply h.pendingRing.congr
      intro x hx
      apply heq
      rcases List.mem_cons.mp hx with rfl | hx
      · have hjob := fun i => (h.job_ne i).1
        simp [h.sentinel_ne, Ne.symm (hjob i), hjob]
      · obtain ⟨k, hk, rfl⟩ := List.mem_map.mp hx
        have hkw : k ∉ i :: rest := h.not_mem_both hk
        rw [List.mem_cons, not_or] at hkw
        simp [(h.job_ne k).2, hkw.1, hkw.2]
    · intro k hk hkp hkw
      by_cases hki : k = i
      · rw [hki]
        exact hself
      · have hkw' : k ∉ rest := hkw
        rw [(heq (.job k) (by simp [(h.job_ne k).2, hki, hkw'])).1]
        exact h.free k hk hkp (by simp [hki, hkw'])
    · rintro k (hk | hk)
      · exact h.subset k (.inl hk)
      · exact h.subset k (.inr (List.mem_cons_of_mem i hk))

theorem work (h : DeferredRep v js c s p w) :
    ∃ c' p' w', ncoreDeferredWork v c = .ok (c', s.work.2) ∧ DeferredRep v js c' s.work.1 p' w' := by
  have hinv := h.inv.work
  obtain ⟨list, pendingList, workingList, isInitialized, signature, pc⟩ := c
  obtain ⟨pending, working, phase⟩ := s
  obtain rfl : pendingList = some p := h.pending
  obtain rfl : workingList = some (if phase = .taken then p else w) := h.working
  obtain rfl : pc = WorkPcRep p w phase := h.pc
  cases phase with
  | idle => exact ⟨_, p, w, rfl, h.setPhase .taking rfl hinv⟩
  | taking =>
    -- the lists change places
    exact ⟨_, w, p, rfl, h.sentinels.symm.imp And.symm And.symm, rfl, rfl, rfl, h.workingRing,
      h.pendingRing, fun j hj hp hw => h.free j hj hw hp, fun j hj => h.subset j hj.symm,
      h.signature, hinv⟩
  | taken => exact ⟨_, p, w, rfl, h.sentinels, rfl, rfl, rfl, h.pendingRing, h.workingRing,
      h.free, h.subset, h.signature, hinv⟩
  | testing =>
    have hempty := ndlistIsEmpty_iff h.workingRing
    show ∃ c' p' w', (if ndlistIsEmpty list w = true then Except.ok _ else Except.ok _ : Exec _) = _ ∧ _
    cases working with
    | nil =>
      rw [if_pos (hempty.mpr rfl)]
      exact ⟨_, p, w, rfl, h.setPhase .idle rfl hinv⟩
    | cons j rest =>
      rw [if_neg (fun he => by cases hempty.mp he)]
      exact ⟨_, p, w, rfl, h.setPhase .picking rfl hinv⟩
  | picking =>
    cases working with
    | nil => exact absurd rfl h.inv.phase
    | cons j rest =>
      have hnext : ndlistNext list w = .ok (.job j) := by
        unfold ndlistNext
        rw [Circular.next_cons h.workingRing, deref_some]
      show ∃ c' p' w', (ndlistNext list w >>= fun current => Except.ok _) = _ ∧ _
      rw [hnext, ok_bind]
      exact ⟨_, p, w, rfl, h.setPhase (.picked j) rfl hinv⟩
  | picked j =>
    have hj : j ∈ js := h.subset j (.inr (List.mem_of_mem_head? h.inv.phase))
    show ∃ c' p' w', (require v (signature j = true) >>= fun _ => Except.ok _) = _ ∧ _
    rw [require_imp (fun hv => h.signature hv j hj), ok_bind]
    exact ⟨_, p, w, rfl, h.setPhase (.running j) rfl hinv⟩
  | running j => exact ⟨_, p, w, rfl, h.setPhase (.finished j) rfl hinv⟩
  | finished j =>
    obtain ⟨L', hrem, hrep⟩ := h.remove rfl
    show ∃ c' p' w', (ndlistRemove v list (.job j) >>= fun L => Except.ok _) = _ ∧ _
    rw [hrem, ok_bind]
    exact ⟨_, p, w, rfl, hrep⟩

theorem step (h : DeferredRep v js c s p w) {l : BatchLabel J}
    (hl : ∀ j, l = .request j → j ∈ js) :
    ∃ c' p' w', deferredStep v c l = .ok (c', (s.step l).2) ∧
      DeferredRep v js c' (s.step l).1 p' w' := by
  cases l with
  | request j =>
    obtain ⟨c', hreq, hrep⟩ := h.request (hl j rfl)
    refine ⟨c', p, w, ?_, hrep⟩
    show (nschedDeferredDo v c j >>= fun c => .ok (c, none)) = _
    rw [hreq, ok_bind]
    rfl
  | work => exact h.work

theorem run (ls : List (BatchLabel J)) : ∀ {c : DeferredCtx J} {s : Batch J}
    {p w : DeferredNode J}, DeferredRep v js c s p w → DeferredLegal js ls →
    ∃ c' p' w', deferredRun v c ls = .ok (c', (s.run ls).2) ∧
      DeferredRep v js c' (s.run ls).1 p' w' := by
  induction ls with
  | nil => exact fun h _ => ⟨_, _, _, rfl, h⟩
  | cons l ls ih =>
    intro c s p w h hl
    obtain ⟨c₁, p₁, w₁, hstep, h₁⟩ := h.step (fun j e => hl j (e ▸ List.mem_cons_self))
    obtain ⟨c₂, p₂, w₂, hrun, h₂⟩ := ih h₁ (fun j hj => hl j (List.mem_cons_of_mem l hj))
    refine ⟨c₂, p₂, w₂, ?_, h₂⟩
    rw [deferredRun, hstep, ok_bind, hrun, ok_bind]
    rfl

theorem isExecuting_iff (h : DeferredRep v js c s p w) (j : J) : c.IsExecuting j ↔ s.Busy j := by
  unfold DeferredCtx.IsExecuting Batch.Busy
  rw [h.pc]
  cases s.phase <;> simp [WorkPcRep]

end DeferredRep

/-! ## the start -/

theorem deferredPrepare_init :
    DeferredRep v ([] : List J) (deferredPrepare DeferredCtx.init) ⟨[], [], .idle⟩ .a .b where
  sentinels := .inl ⟨rfl, rfl⟩
  pending := rfl
  working := rfl
  pc := rfl
  pendingRing := by
    show Circular _ _ []
    rw [Circular.nil_iff]
    simp [deferredPrepare, DeferredCtx.init, ndlistInit]
  workingRing := by
    show Circular _ _ []
    rw [Circular.nil_iff]
    simp [deferredPrepare, DeferredCtx.init, ndlistInit]
  free := by
    intro j hj
    cases hj
  subset := by
    rintro j (hj | hj) <;> cases hj
  signature := by
    intro _ j hj
    cases hj
  inv := ⟨List.nodup_nil, rfl⟩

theorem DeferredRep.initJob (h : DeferredRep v js c ⟨[], [], .idle⟩ p w) (j : J) :
    DeferredRep v (j :: js)
      { c with
        list := ndlistInit c.list (.job j)
        signature := if v then Function.update c.signature j true else c.signature }
      ⟨[], [], .idle⟩ p w where
  sentinels := h.sentinels
  pending := h.pending
  working := h.working
  pc := h.pc
  pendingRing := by
    apply h.pendingRing.congr
    intro x hx
    obtain rfl : x = p := List.mem_singleton.mp hx
    simp [Links.EqAt, ndlistInit, Ne.symm (h.job_ne j).1]
  workingRing := by
    apply h.workingRing.congr
    intro x hx
    obtain rfl : x = w := List.mem_singleton.mp hx
    simp [Links.EqAt, ndlistInit, Ne.symm (h.job_ne j).2]
  free := by
    intro i hi hp hw
    by_cases hij : i = j
    · simp [hij, ndlistInit]
    · have := h.free i ((List.mem_cons.mp hi).resolve_left hij) hp hw
      simpa [hij, ndlistInit] using this
  subset := by
    rintro i (hi | hi) <;> cases hi
  signature := by
    intro hv i hi
    rw [if_pos hv]
    show Function.update c.signature j true i = true
    by_cases hij : i = j
    · rw [hij, Function.update_self]
    · rw [Function.update_of_ne hij]
      exact h.signature hv i ((List.mem_cons.mp hi).resolve_left hij)
  inv := h.inv

theorem nschedDeferredInit_ok {j : J} (hsig : c.signature j = false)
    (h : DeferredRep v js (deferredPrepare c) ⟨[], [], .idle⟩ p w) :
    ∃ c', nschedDeferredInit v c j = .ok c' ∧ DeferredRep v (j :: js) c' ⟨[], [], .idle⟩ p w ∧
      c'.isInitialized = true ∧ ∀ i, i ≠ j → c'.signature i = c.signature i := by
  have hprep : (deferredPrepare c).isInitialized = true ∧
      (deferredPrepare c).signature = c.signature := by
    unfold deferredPrepare
    split
    · exact ⟨rfl, rfl⟩
    · rename_i hi
      exact ⟨by simpa using hi, rfl⟩
  unfold nschedDeferredInit
  rw [require_of hsig, ok_bind]
  refine ⟨_, rfl, h.initJob j, hprep.1, ?_⟩
  intro i hij
  show (if v then Function.update (deferredPrepare c).signature j true
    else (deferredPrepare c).signature) i = _
  rw [hprep.2]
  split
  · rw [Function.update_of_ne hij]
  · rfl

theorem nschedDeferredInit_foldlM (v : Bool) (todo : List J) : ∀ {js : List J} {c : DeferredCtx J},
    c.isInitialized = true → DeferredRep v js c ⟨[], [], .idle⟩ .a .b → todo.Nodup →
    (∀ j ∈ todo, c.signature j = false) →
    ∃ c', todo.foldlM (nschedDeferredInit v) c = .ok c' ∧
      DeferredRep v (todo.reverse ++ js) c' ⟨[], [], .idle⟩ .a .b := by
  induction todo with
  | nil => exact fun _ h _ _ => ⟨_, rfl, h⟩
  | cons j todo ih =>
    intro js c hinit h hnd hsig
    rw [List.nodup_cons] at hnd
    have hprep : deferredPrepare c = c := if_neg (by rw [hinit]; simp)
    obtain ⟨c₁, hj, h₁, hinit₁, hsig₁⟩ := nschedDeferredInit_ok (hsig j List.mem_cons_self)
      (hprep.symm ▸ h)
    obtain ⟨c₂, hfold, h₂⟩ := ih hinit₁ h₁ hnd.2 (by
      intro i hi
      rw [hsig₁ i (fun e => hnd.1 (e ▸ hi))]
      exact hsig i (List.mem_cons_of_mem j hi))
    refine ⟨c₂, ?_, ?_⟩
    · rw [List.foldlM_cons, hj, ok_bind, hfold]
    · rw [List.reverse_cons, List.append_assoc]
      exact h₂

theorem deferredStart_rep (v : Bool) {js : List J} (hne : js ≠ []) (hnd : js.Nodup) :
    ∃ c, deferredStart v js = .ok c ∧ DeferredRep v js.reverse c ⟨[], [], .idle⟩ .a .b := by
  cases js with
  | nil => exact absurd rfl hne
  | cons j todo =>
    rw [List.nodup_cons] at hnd
    obtain ⟨c₁, hj, h₁, hinit₁, hsig₁⟩ :=
      nschedDeferredInit_ok (c := DeferredCtx.init) (j := j) rfl deferredPrepare_init
    obtain ⟨c₂, hfold, h₂⟩ := nschedDeferredInit_foldlM v todo hinit₁ h₁ hnd.2 (by
      intro i hi
      exact hsig₁ i (fun e => hnd.1 (e ▸ hi)))
    refine ⟨c₂, ?_, ?_⟩
    · unfold deferredStart
      rw [List.foldlM_cons, hj, ok_bind, hfold]
    · rw [List.reverse_cons]
      exact h₂

/-- **A request is honoured unless the function of its job is being executed.** -/
theorem deferredRun_honoured_iff (v : Bool) {js : List J} (hnd : js.Nodup)
    {ls : List (BatchLabel J)} (hl : DeferredLegal js ls) {d : J} (hd : d ∈ js) :
    ∃ c₀ c es, deferredStart v js = .ok c₀ ∧ deferredRun v c₀ ls = .ok (c, es) ∧
      ((∀ ls', DeferredLegal js ls' →
          ∃ c' es', deferredRun v c (.request d :: ls') = .ok (c', es') ∧ Batch.Honoured d es') ↔
        ¬ c.IsExecuting d) := by
  obtain ⟨c₀, hstart, h₀⟩ := deferredStart_rep v (List.ne_nil_of_mem hd) hnd
  have hlegal : ∀ {ls}, DeferredLegal js ls → DeferredLegal js.reverse ls :=
    fun hl j hj => List.mem_reverse.mpr (hl j hj)
  obtain ⟨c, p, w, hrun, h⟩ := h₀.run ls (hlegal hl)
  generalize Batch.run (⟨[], [], .idle⟩ : Batch J) ls = r at hrun h
  obtain ⟨c₁, p₁, w₁, hreq, h₁⟩ := h.step (l := .request d)
    (fun j e => List.mem_reverse.mpr (BatchLabel.request.inj e ▸ hd))
  -- a run after the request is a run of the batch
  have hafter : ∀ ls', DeferredLegal js ls' → ∃ c',
      deferredRun v c (.request d :: ls') = .ok (c', ((r.1.request d).run ls').2) := by
    intro ls' hl'
    obtain ⟨c', p', w', hrun', _⟩ := h₁.run ls' (hlegal hl')
    refine ⟨c', ?_⟩
    rw [deferredRun, hreq, ok_bind, hrun', ok_bind]
    rfl
  refine ⟨c₀, c, _, hstart, hrun, ?_⟩
  rw [h.isExecuting_iff]
  constructor
  · intro hall hb
    obtain ⟨n, hn⟩ := Batch.not_honoured_of_busy h.inv hb
    have hwork : DeferredLegal js (List.replicate n .work) := by
      intro j hj
      exact absurd (List.eq_of_mem_replicate hj) (by simp)
    obtain ⟨c', hrun'⟩ := hafter _ hwork
    obtain ⟨c'', es', hrun'', hhon⟩ := hall _ hwork
    rw [hrun'] at hrun''
    obtain ⟨-, rfl⟩ := Prod.mk.inj (Except.ok.inj hrun'')
    exact hn hhon
  · intro hb ls' hl'
    obtain ⟨c', hrun'⟩ := hafter ls' hl'
    exact ⟨c', _, hrun', Batch.honoured_of_owed ls' (h.inv.request d) (Batch.owed_request hb)⟩

theorem deferredRun_honoured_iff_bool :
    ∃ c₀ c es, deferredStart true [true, false] = .ok c₀ ∧
      deferredRun true c₀ [.request true, .work] = .ok (c, es) ∧
      ((∀ ls', DeferredLegal [true, false] ls' → ∃ c' es',
          deferredRun true c (.request true :: ls') = .ok (c', es') ∧ Batch.Honoured true es') ↔
        ¬ c.IsExecuting true) :=
  deferredRun_honoured_iff true (by decide) (fun j _ => by cases j <;> decide) (by decide)

/-- a job that asks for itself: the worker ends this batch and the next one without a start -/
theorem deferredRun_not_honoured : ∃ c₀ c es, deferredStart true [()] = .ok c₀ ∧
    deferredRun true c₀ (.request () :: List.replicate 6 .work) = .ok (c, es) ∧
    ¬ ∀ ls', DeferredLegal [()] ls' → ∃ c' es',
      deferredRun true c (.request () :: ls') = .ok (c', es') ∧ Batch.Honoured () es' := by
  obtain ⟨r, hr, hes⟩ := map_eq_ok (show (do
      let c₀ ← deferredStart true [()]
      let r ← deferredRun true c₀ (.request () :: List.replicate 6 .work)
      deferredRun true r.1 (.request () :: List.replicate 7 .work)).map Prod.snd =
        .ok [.ended, .begun, .ended] by decide +kernel)
  obtain ⟨c₀, hstart, hr⟩ := bind_eq_ok.mp hr
  obtain ⟨⟨c, es⟩, hrun, hr⟩ := bind_eq_ok.mp hr
  refine ⟨c₀, c, es, hstart, hrun, ?_⟩
  intro hall
  obtain ⟨c', es', hrun', hhon⟩ := hall (List.replicate 7 .work)
    (fun _ _ => List.mem_singleton.mpr rfl)
  obtain rfl : r = (c', es') := Except.ok.inj (hr.symm.trans hrun')
  have hmem := hhon [.ended] [] [] hes
  simp at hmem

end

end NeonEds

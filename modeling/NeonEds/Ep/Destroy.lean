import NeonEds.Ep.Construct

/-!
# Destroying an agent

`DestroyReleases`: the references that the queue of the agent held are given up, and the events that
nothing holds any more go back to their allocators, each once.

* `drainLoop_ok`                 the loop of `nepa_destroy` empties the queue and changes no event, for
                                 it calls `nevent_destroy` alone;
* `nepaDestroy_ok`               `nepa_destroy` returns and gives the four blocks of the agent back;
* `nepaDestroy_releases_iff`     the references are given up iff only static events are queued.
-/

set_option linter.unusedSectionVars false

namespace NeonEds
open Exec BlockLedger

variable {S E M N : Type} [DecidableEq E] [DecidableEq M]

/-- from `mem` to `mem'` the events `items` left a queue; `others e` slots of other queues hold the event
`e` -/
structure DestroyReleases (mem mem' : EventMem E M) (items : List E) (others : E → ℕ) : Prop where
  count : ∀ e ∈ items, (mem.event e).attrib ≠ 0#32 → (mem'.event e).ref.toInt = others e
  same : ∀ e, e ∉ items ∨ (mem.event e).attrib = 0#32 → mem'.event e = mem.event e
  frees : ∃ fs : List E, mem'.frees = fs.map (fun e => ((mem.event e).mem, e)) ++ mem.frees ∧
    fs.Nodup ∧ ∀ e, e ∈ fs ↔ e ∈ items ∧ (mem.event e).attrib = neventAttrDynamic ∧ others e = 0

/-- every dynamic event of the queue has a reference for each slot that holds it -/
def SlotsCounted (mem : EventMem E M) (items : List E) (others : E → ℕ) : Prop :=
  ∀ e ∈ items, (mem.event e).attrib ≠ 0#32 →
    (mem.event e).ref.toInt = (others e + items.count e : ℕ)

/-! ## the loop -/

theorem neventDestroyI_of_held {mem : EventMem E M} {e : E}
    (h : (mem.event e).attrib ≠ 0#32 → 0 < (mem.event e).ref.toInt) : neventDestroyI mem e = mem := by
  refine if_neg (fun hzero => ?_)
  unfold neventRef at hzero
  rw [EventOkAt.toInt_eq_zero_iff, BitVec.or_eq_zero_iff, BitVec.xor_eq_zero_iff] at hzero
  have hne : (mem.event e).attrib ≠ 0#32 := by
    rw [hzero.2]
    decide
  have hpos := h hne
  rw [hzero.1, BitVec.toInt_zero] at hpos
  exact absurd hpos (lt_irrefl 0)

theorem drainLoop_ok {mem : EventMem E M} (n : ℕ) : ∀ {qu : Nqueue E}, QueueOk qu →
    (∀ e ∈ nqueueItems qu, (mem.event e).attrib ≠ 0#32 → 0 < (mem.event e).ref.toInt) →
    (nqueueItems qu).length ≤ n → ∃ rest, drainLoop n (qu, mem) = .ok (rest, mem) := by
  induction n with
  | zero =>
    intro qu hq _ hn
    have hnil : nqueueItems qu = [] := List.length_eq_zero_iff.mp (Nat.le_zero.mp hn)
    have hexit : drainCond (qu, mem) = false := by
      unfold drainCond
      rw [hq.isEmpty_iff.mpr hnil]
      rfl
    exact ⟨qu, whileLoop_exit hexit 0⟩
  | succ n ih =>
    intro qu hq hheld hn
    cases hitems : nqueueItems qu with
    | nil =>
      have hexit : drainCond (qu, mem) = false := by
        unfold drainCond
        rw [hq.isEmpty_iff.mpr hitems]
        rfl
      exact ⟨qu, whileLoop_exit hexit _⟩
    | cons e items =>
      have hcond : drainCond (qu, mem) = true := by
        unfold drainCond
        rw [Bool.not_eq_true', Bool.eq_false_iff, Ne, hq.isEmpty_iff, hitems]
        exact List.cons_ne_nil e items
      obtain ⟨hget, hok, hrest, _⟩ := nqueueGet_ok hq hitems
      rw [hitems] at hheld hn
      have hbody : neventDestroyI mem (nqueueGet qu).1 = mem := by
        rw [hget]
        exact neventDestroyI_of_held (hheld e List.mem_cons_self)
      have hrun : drainLoop (n + 1) (qu, mem) = drainLoop n ((nqueueGet qu).2, mem) := by
        refine whileLoop_succ hcond ?_ n
        show Except.ok ((nqueueGet qu).2, neventDestroyI mem (nqueueGet qu).1) = _
        rw [hbody]
      rw [hrun]
      refine ih hok ?_ ?_
      · rw [hrest]
        exact fun x hx => hheld x (List.mem_cons_of_mem e hx)
      · rw [hrest]
        rw [List.length_cons] at hn
        omega

/-! ## `nepa_destroy` -/

section
variable {P : DynPort} {threads : ThreadOps S} {ctx : DynCtx S E M N} {m : M} {epa n : ℕ}

/-- the ledger after the block at `a` was given back -/
def BlockLedger.without (l : BlockLedger M) (m : M) (a : ℕ) : BlockLedger M :=
  { l with live := Function.update l.live a none, given := (m, a) :: l.given }

theorem isLive_without {l : BlockLedger M} {a b k : ℕ} (h : l.IsLive m a k) (hne : a ≠ b) :
    (l.without m b).IsLive m a k := by
  obtain ⟨size, hlive, hk⟩ := h
  exact ⟨size, (Function.update_of_ne hne ..).trans hlive, hk⟩

theorem dynFree_ok (ctx : DynCtx S E M N) {a k : ℕ} (h : ctx.blocks.IsLive m a k) :
    dynFree ctx (some m) a = .ok { ctx with blocks := ctx.blocks.without m a } := by
  unfold dynFree
  rw [deref_some, ok_bind, give_of_isLive h]
  rfl

theorem nsmFree_ok (ctx : DynCtx S E M N) {sm : ℕ} (h : ctx.blocks.IsLive m sm P.nsm)
    (hmem : (ctx.sm sm).mem = some m) :
    ∃ x, nsmFree P ctx sm
      = .ok { ctx with blocks := ctx.blocks.without m sm, sm := Function.update ctx.sm sm x } := by
  refine ⟨⟨some m, none, none, (ctx.sm sm).wspace⟩, ?_⟩
  unfold nsmFree readSm writeSm
  rw [use_of_isLive h, ok_bind, pure_eq, ok_bind, ok_bind, pure_eq, ok_bind, hmem]
  exact (if_pos rfl).trans (dynFree_ok (ctx.setSm sm _) h)

theorem nqueueFree_ok (ctx : DynCtx S E M N) {queue buf k : ℕ} (hq : ctx.blocks.IsLive m queue P.nqueue)
    (hb : ctx.blocks.IsLive m buf k) (hne : queue ≠ buf) (hmem : (ctx.queue queue).mem = some m)
    (hbuf : (ctx.queue queue).buf = buf) :
    nqueueFree P ctx queue
      = .ok { ctx with blocks := (ctx.blocks.without m buf).without m queue } := by
  have hq' : (ctx.blocks.without m buf).IsLive m queue P.nqueue := isLive_without hq hne
  unfold nqueueFree readQueue
  rw [use_of_isLive hq, ok_bind, pure_eq, ok_bind, hmem, hbuf, dynFree_ok ctx hb, ok_bind,
    use_of_isLive hq', ok_bind, pure_eq, ok_bind, hmem]
  exact dynFree_ok _ hq'

/-- **`nepa_destroy` returns**, changes no event and gives the blocks of the agent back. -/
theorem nepaDestroy_ok (hepa : EpaInMemory P m ctx epa n)
    (hq : QueueOk (ctx.queue (ctx.epa epa).queue).qu)
    (hheld : ∀ e ∈ nqueueItems (ctx.queue (ctx.epa epa).queue).qu,
      (ctx.event e).attrib ≠ 0#32 → 0 < (ctx.event e).ref.toInt)
    (hterm : ∃ sched, threads.term ctx.sched epa = .ok sched) :
    ∃ ctx', nepaDestroy P threads ctx epa = .ok ctx' ∧ ctx'.toEventMem = ctx.toEventMem ∧
      ctx'.blocks.given = [epa, (ctx.epa epa).queue, (ctx.queue (ctx.epa epa).queue).buf,
        (ctx.epa epa).sm].map (fun a => (m, a)) ++ ctx.blocks.given := by
  obtain ⟨sched, hterm⟩ := hterm
  obtain ⟨hmem, hqmem, hsmem⟩ := hepa.owner
  obtain ⟨queue, hqueue⟩ : ∃ queue, (ctx.epa epa).queue = queue := ⟨_, rfl⟩
  obtain ⟨buf, hbuf⟩ : ∃ buf, (ctx.queue queue).buf = buf := ⟨_, rfl⟩
  obtain ⟨sm, hsm⟩ : ∃ sm, (ctx.epa epa).sm = sm := ⟨_, rfl⟩
  have hqlive := hepa.queueLive
  have hblive := hepa.bufLive
  have hslive := hepa.smLive
  have hnodup := hepa.distinct
  rw [hqueue] at hqlive hqmem hq hheld
  rw [hqueue, hbuf] at hblive
  rw [hsm] at hslive hsmem
  rw [hqueue, hbuf, hsm] at hnodup
  simp only [List.nodup_cons, List.mem_cons, List.not_mem_nil, or_false, not_or,
    not_false_eq_true, List.nodup_nil, and_true] at hnodup
  obtain ⟨⟨heq, heb, hes⟩, ⟨hqb, hqs⟩, hbs⟩ := hnodup
  -- the state machine goes
  obtain ⟨x, hfree⟩ := nsmFree_ok (P := P) { ctx with sched := sched } hslive hsmem
  obtain ⟨rest, hdrain⟩ := drainLoop_ok _ hq hheld (Nat.le.intro hq.length)
  -- the queue, drained, goes with its buffer
  let l₁ := ctx.blocks.without m sm
  let q₁ := Function.update ctx.queue queue { ctx.queue queue with qu := rest }
  have hq₁ : l₁.IsLive m queue P.nqueue := isLive_without hqlive hqs
  have hb₁ : l₁.IsLive m buf n := isLive_without hblive hbs
  have hself : q₁ queue = { ctx.queue queue with qu := rest } := Function.update_self ..
  have hfree₁ := nqueueFree_ok (P := P) { ctx with
    sched := sched, blocks := l₁, sm := Function.update ctx.sm sm x, queue := q₁ }
    hq₁ hb₁ hqb ((congrArg NqueueObj.mem hself).trans hqmem)
    ((congrArg NqueueObj.buf hself).trans hbuf)
  let l₂ := (l₁.without m buf).without m queue
  have he₂ : l₂.IsLive m epa P.nepa :=
    isLive_without (isLive_without (isLive_without hepa.epaLive hes) heb) heq
  have hfree₂ := dynFree_ok { ctx with
    sched := sched, blocks := l₂, sm := Function.update ctx.sm sm x, queue := q₁ } he₂
  refine ⟨{ ctx with
    sched := sched, blocks := l₂.without m epa, sm := Function.update ctx.sm sm x, queue := q₁ },
    ?_, rfl, by rw [hqueue, hbuf, hsm]; rfl⟩
  unfold nepaDestroy readEpa
  rw [use_of_isLive hepa.epaLive, ok_bind, pure_eq, ok_bind, hterm, ok_bind, hsm, hfree, ok_bind]
  unfold readQueue writeQueue
  rw [hqueue]
  show ((l₁.use queue P.nqueue >>= _) >>= _) = _
  rw [use_of_isLive hq₁, ok_bind, pure_eq, ok_bind]
  show (drainLoop (nqueueSize (ctx.queue queue).qu) ((ctx.queue queue).qu, ctx.toEventMem) >>= _) = _
  rw [hdrain, ok_bind]
  show ((l₁.use queue P.nqueue >>= _) >>= _) = _
  rw [use_of_isLive hq₁, ok_bind, pure_eq, ok_bind]
  show (nqueueFree P _ queue >>= _) = _
  refine (congrArg (· >>= _) hfree₁).trans ?_
  rw [ok_bind]
  show ((l₂.use epa P.nepa >>= _) >>= _) = _
  rw [use_of_isLive he₂, ok_bind, pure_eq, ok_bind]
  show dynFree _ (ctx.epa epa).mem epa = _
  rw [hmem]
  exact hfree₂

/-- **Destroying an agent releases its events** iff all of them are static. -/
theorem nepaDestroy_releases_iff (others : E → ℕ) (hepa : EpaInMemory P m ctx epa n)
    (hq : QueueOk (ctx.queue (ctx.epa epa).queue).qu)
    (hcount : SlotsCounted ctx.toEventMem (nqueueItems (ctx.queue (ctx.epa epa).queue).qu) others)
    (hterm : ∃ sched, threads.term ctx.sched epa = .ok sched) :
    ∃ ctx', nepaDestroy P threads ctx epa = .ok ctx' ∧
      (DestroyReleases ctx.toEventMem ctx'.toEventMem
          (nqueueItems (ctx.queue (ctx.epa epa).queue).qu) others ↔
        ∀ e ∈ nqueueItems (ctx.queue (ctx.epa epa).queue).qu, (ctx.event e).attrib = 0#32) := by
  have hpos : ∀ e ∈ nqueueItems (ctx.queue (ctx.epa epa).queue).qu,
      (ctx.event e).attrib ≠ 0#32 → (others e : ℤ) < (ctx.event e).ref.toInt := by
    intro e he ha
    have hslots := List.count_pos_iff.mpr he
    rw [hcount e he ha]
    omega
  obtain ⟨ctx', hrun, hmem, _⟩ := nepaDestroy_ok hepa hq
    (fun e he ha => lt_of_le_of_lt (Int.natCast_nonneg _) (hpos e he ha)) hterm
  refine ⟨ctx', hrun, ?_⟩
  rw [hmem]
  constructor
  · intro h e he
    by_contra ha
    have hlt := hpos e he ha
    rw [h.count e he ha] at hlt
    exact absurd hlt (lt_irrefl _)
  · intro h
    refine ⟨fun e he ha => absurd (h e he) ha, fun _ _ => rfl, [], rfl, List.nodup_nil, fun e => ?_⟩
    refine iff_of_false List.not_mem_nil (fun hc => ?_)
    have hzero := hc.2.1.symm.trans (h e hc.1)
    exact absurd hzero (by decide)

end

/-! ## an agent with one event -/

theorem edsThreads_term {cfg : SchedConfig} (hcfg : OneBucketPerLevel cfg) (fuel prio : ℕ)
    {sched : SchedCtx 32 ℕ (Option EpaFn)} {live : ThreadId ℕ → Bool} {q : ℕ → List (ThreadId ℕ)}
    (h : Ready cfg sched live q) {epa : ℕ} (hlive : live (.app epa) = true) :
    ∃ sched', (edsThreads cfg fuel prio).term sched epa = .ok sched' := by
  obtain ⟨sched', _, hrun, _⟩ := nthreadTerm_ready hcfg h hlive
  exact ⟨sched', hrun⟩

/-- the thread of the agent at 1000 -/
def agentThread : SchedCtx 32 ℕ (Option EpaFn) :=
  match nthreadInit cfg32 0 (some .idle) SchedCtx.init (.app 1000) 3 none with
  | .ok sched => sched
  | .error _ => SchedCtx.init

theorem agentThread_term : ∃ sched, (edsThreads cfg32 0 3).term agentThread 1000 = .ok sched := by
  have hstate : SchedState cfg32 (SchedCtx.init : SchedCtx 32 ℕ (Option EpaFn)) (fun _ => false) :=
    Or.inl ⟨rfl, rfl⟩
  obtain ⟨sched, hrun, ⟨q, hq⟩, _⟩ := hstate.init cfg32_oneBucketPerLevel 0 (some .idle) (t := 1000)
    rfl (show 3 < 32 by decide) (by decide) none
  have hsched : agentThread = sched := by
    unfold agentThread
    rw [hrun]
  rw [hsched]
  exact edsThreads_term cfg32_oneBucketPerLevel 0 3 hq rfl

/-- an agent at 1000, its queue at 2000 with the buffer at 3000, its state machine at 4000; one event is
queued -/
def agentWithEvent (event : Nevent Unit) : DynCtx (SchedCtx 32 ℕ (Option EpaFn)) Unit Unit Unit :=
  { emptyMemory fourBlocks with
    event := fun _ => event
    blocks := ((((⟨fun _ => none, [], []⟩ : BlockLedger Unit).take () 1000 64).take () 2000 32).take
      () 3000 16).take () 4000 32
    epa := fun _ => ⟨some (), 4000, 2000⟩
    queue := fun _ => ⟨some (), nqueuePutFifo (nqueueInit 2 (fun _ => ())) (), 3000⟩
    sm := fun _ => ⟨some (), some .hsm, some (), 0⟩
    sched := agentThread }

theorem agentWithEvent_inMemory (event : Nevent Unit) :
    EpaInMemory dynPort64 () (agentWithEvent event) 1000 16 where
  epaLive := ⟨64, rfl, le_refl _⟩
  queueLive := ⟨32, rfl, le_refl _⟩
  bufLive := ⟨16, rfl, le_refl _⟩
  smLive := ⟨32, rfl, le_refl _⟩
  distinct := show [1000, 2000, 3000, 4000].Nodup by decide
  owner := ⟨rfl, rfl, rfl⟩

def staticEvent : Nevent Unit := { mem := none, id := 0, attrib := 0#32, ref := 0#32 }

theorem nepaDestroy_releases_iff_staticEvent : ∃ ctx',
    nepaDestroy dynPort64 (edsThreads cfg32 0 3) (agentWithEvent staticEvent) 1000 = .ok ctx' ∧
      DestroyReleases (agentWithEvent staticEvent).toEventMem ctx'.toEventMem [()] (fun _ => 0) := by
  have hq := (nqueuePutFifo_ok (nqueueInit_ok (le_refl 1) (by decide) (fun _ : ℕ => ())).1 rfl ()).1
  obtain ⟨ctx', hrun, hiff⟩ := nepaDestroy_releases_iff (fun _ => 0)
    (agentWithEvent_inMemory staticEvent) hq (fun _ _ ha => absurd rfl ha) agentThread_term
  exact ⟨ctx', hrun, hiff.mpr fun _ _ => rfl⟩

def dynamicEvent : Nevent Unit :=
  { mem := some (), id := 0, attrib := neventAttrDynamic, ref := 1#32 }

/-- the only reference is that of the queue; the event keeps it and is not freed -/
theorem dynamicEvent_not_released : ∃ ctx',
    nepaDestroy dynPort64 (edsThreads cfg32 0 3) (agentWithEvent dynamicEvent) 1000 = .ok ctx' ∧
      ¬ DestroyReleases (agentWithEvent dynamicEvent).toEventMem ctx'.toEventMem [()]
        (fun _ => 0) := by
  have hq := (nqueuePutFifo_ok (nqueueInit_ok (le_refl 1) (by decide) (fun _ : ℕ => ())).1 rfl ()).1
  obtain ⟨ctx', hrun, hmem, _⟩ := nepaDestroy_ok (agentWithEvent_inMemory dynamicEvent) hq
    (fun _ _ _ => show (0 : ℤ) < 1 by decide) agentThread_term
  refine ⟨ctx', hrun, fun h => ?_⟩
  have hcount := h.count () (List.mem_singleton_self ()) (by decide)
  rw [hmem] at hcount
  exact absurd (show (1 : ℤ) = 0 from hcount) (by decide)

end NeonEds

import NeonEds.Ep.Counted
import NeonEds.Ep.Delivery

/-!
# Fetching deferred events

`nepa_defer_fetch_one` and `nepa_defer_fetch_all` take the front out of the deferred queue and give up
its reference before they send it.

* `FetchKeeps`               no event is lost: the deferred queue is a part that moved to the back of
                             the working queue and a part that stayed;
* `deferFetch_moves`         one pass, when the working queue has a place and the event a reference;
* `deferFetch_loses`         one pass otherwise: the event is in neither queue;
* `fetchLoop_ends`           the loop moves everything or loses an event;
* `deferFetch_keeps_iff`     nothing is lost iff everything that is to be fetched fits.
-/

set_option linter.unusedSectionVars false

namespace NeonEds
open Exec

variable {S T D E M : Type} [DecidableEq T] [DecidableEq D] [DecidableEq E]

/-- no event is lost, and the events that stayed have their references -/
structure FetchKeeps (ctx ctx' : EpaCtx S T D E M) (t : T) (d : D) (error : Nerror) : Prop where
  multiset : (nqueueItems (ctx'.deferred d) ++ nqueueItems (ctx'.queue t)).Perm
    (nqueueItems (ctx.deferred d) ++ nqueueItems (ctx.queue t))
  moved : ∃ moved, nqueueItems (ctx.deferred d) = moved ++ nqueueItems (ctx'.deferred d) ∧
    nqueueItems (ctx'.queue t) = nqueueItems (ctx.queue t) ++ moved
  refs : error = .noResource ∨ error = .noReference →
    ∀ e ∈ nqueueItems (ctx'.deferred d), (ctx'.event e).ref = (ctx.event e).ref

/-- the working queue has a place for each of the events, and each has a reference left once that of
the deferred queue is given up -/
def FetchFits (saturates : Bool) (ctx : EpaCtx S T D E M) (t : T) (events : List E) : Prop :=
  events.length ≤ (ctx.queue t).empty ∧
    ∀ e ∈ events, neventRef (neventRefDown saturates (ctx.event e)) < neventRefLimit

/-- the deferred queue holds a reference to each of its events, which `nepa_defer_event` took -/
def DeferredHeld (ctx : EpaCtx S T D E M) (d : D) : Prop :=
  ∀ e ∈ nqueueItems (ctx.deferred d), (ctx.event e).attrib ≠ 0#32 → 0 < (ctx.event e).ref.toInt

theorem EventsOk.deferredHeld [Fintype T] [Fintype D] {ctx : EpaCtx S T D E M}
    {static live sent : E → Bool} (h : EventsOk ctx static live sent) (d : D) :
    DeferredHeld ctx d := by
  intro e he ha
  have hslot := List.count_pos_iff.mpr he
  have hsum := Finset.sum_eq_add_sum_sdiff_singleton_of_mem (Finset.mem_univ d)
    (fun d => (nqueueItems (ctx.deferred d)).count e)
  have hplaces : 0 < places ctx e := by
    unfold places
    omega
  rcases h.live_of_place (Nat.ne_of_gt hplaces) with hs | hl
  · exact absurd ((h.refs e).static hs).1 ha
  · rw [(h.refs e).count hl]
    exact Int.natCast_pos.mpr hplaces

/-! ## one event -/

theorem refUp_refDown {event : Nevent M} (h : event.attrib ≠ 0#32 → 0 < event.ref.toInt)
    (saturates : Bool) : neventRefUp saturates (neventRefDown saturates event) = event := by
  by_cases ha : event.attrib = 0#32
  · have hdown : neventRefDown saturates event = event := if_neg (fun hc => hc ha)
    rw [hdown]
    exact if_neg (fun hc => hc ha)
  · have hpos := h ha
    have hlt := BitVec.toInt_lt (x := event.ref)
    obtain ⟨n, hn⟩ : ∃ n : ℕ, event.ref.toInt = (n + 1 : ℕ) := ⟨event.ref.toInt.toNat - 1, by omega⟩
    have hsub := toInt_sub_one hn
    have hzero : ¬ (saturates = true ∧ event.ref = 0#32) := by
      intro hc
      rw [hc.2, BitVec.toInt_zero] at hpos
      exact absurd hpos (lt_irrefl 0)
    have hmax : ¬ (saturates = true ∧ event.ref - 1#32 = int32Max) := by
      intro hc
      rw [hc.2] at hsub
      have hint : int32Max.toInt = 2147483647 := rfl
      omega
    have hdown : neventRefDown saturates event = { event with ref := event.ref - 1#32 } := by
      unfold neventRefDown ncoreAtomicDec
      rw [if_pos ha, if_neg hzero]
    have hup : neventRefUp saturates { event with ref := event.ref - 1#32 }
        = { event with ref := event.ref - 1#32 + 1#32 } := by
      unfold neventRefUp ncoreAtomicInc
      rw [if_pos ha, if_neg hmax]
    rw [hdown, hup, BitVec.sub_add_cancel]

section
variable {sch : Scheduler S T} {saturates : Bool} {ctx ctx' : EpaCtx S T D E M} {t : T} {d : D}
  {e : E} {rest : List E}

/-- the front of the deferred queue is now at the back of the working queue -/
structure FetchMoved (ctx ctx' : EpaCtx S T D E M) (t : T) (d : D) (e : E) (rest : List E) :
    Prop where
  queueOk : QueueOk (ctx'.queue t)
  deferredOk : QueueOk (ctx'.deferred d)
  queue : nqueueItems (ctx'.queue t) = nqueueItems (ctx.queue t) ++ [e]
  deferred : nqueueItems (ctx'.deferred d) = rest
  room : (ctx'.queue t).empty + 1 = (ctx.queue t).empty
  event : ctx'.event = ctx.event

theorem deferFetch_eq (hd : QueueOk (ctx.deferred d))
    (hitems : nqueueItems (ctx.deferred d) = e :: rest) :
    deferFetch sch saturates d t ctx = nepaSendEventI sch saturates
      ((ctx.setDeferred d (nqueueGet (ctx.deferred d)).2).withMem (ctx.refDown saturates e)) t e := by
  rw [← (nqueueGet_ok hd hitems).1]
  rfl

theorem deferFetch_moves (hq : QueueOk (ctx.queue t)) (hd : QueueOk (ctx.deferred d))
    (hheld : DeferredHeld ctx d) (hitems : nqueueItems (ctx.deferred d) = e :: rest)
    (hfits : FetchFits saturates ctx t [e]) :
    (∃ fault sched, sch.insertI sched t = .error fault ∧
        deferFetch sch saturates d t ctx = .error fault) ∨
      ∃ ctx', deferFetch sch saturates d t ctx = .ok (.none, ctx') ∧
        FetchMoved ctx ctx' t d e rest := by
  have hmem : e ∈ nqueueItems (ctx.deferred d) := by
    rw [hitems]
    exact List.mem_cons_self
  have hplace : 1 ≤ (ctx.queue t).empty := hfits.1
  have hroom : nqueueIsFull (ctx.queue t) = false := decide_eq_false (by omega)
  have hlim : neventRef ((ctx.refDown saturates e).event e) < neventRefLimit := by
    rw [EventMem.refDown_self]
    exact hfits.2 e (List.mem_singleton_self e)
  obtain ⟨_, hdok, hdrest, _⟩ := nqueueGet_ok hd hitems
  obtain ⟨hqok, hqitems, _⟩ := nqueuePutFifo_ok hq hroom e
  obtain ⟨ctx₁, hctx₁⟩ : ∃ ctx₁ : EpaCtx S T D E M, ctx₁ =
      ((ctx.setDeferred d (nqueueGet (ctx.deferred d)).2).withMem
        (EventMem.refUp saturates (ctx.refDown saturates e) e)).setQueue t
          (nqueuePutFifo (ctx.queue t) e) := ⟨_, rfl⟩
  have hrun : deferFetch sch saturates d t ctx = (do
      let sched ← sch.insertI ctx.sched t
      return (.none, { ctx₁ with sched := sched })) := by
    rw [deferFetch_eq hd hitems, hctx₁]
    exact (if_pos hlim).trans (if_pos hroom)
  cases hins : sch.insertI ctx.sched t with
  | error fault =>
    rw [hins] at hrun
    exact Or.inl ⟨fault, ctx.sched, hins, hrun⟩
  | ok sched =>
    rw [hins] at hrun
    have hqueue : ctx₁.queue t = nqueuePutFifo (ctx.queue t) e := by
      rw [hctx₁]
      exact Function.update_self ..
    have hdeferred : ctx₁.deferred d = (nqueueGet (ctx.deferred d)).2 := by
      rw [hctx₁]
      exact Function.update_self ..
    have hevent : ctx₁.event = ctx.event := by
      have hback : neventRefUp saturates ((ctx.refDown saturates e).event e) = ctx.event e := by
        rw [EventMem.refDown_self]
        exact refUp_refDown (hheld e hmem) saturates
      rw [hctx₁]
      funext x
      by_cases hx : x = e
      · rw [hx]
        exact (EventMem.refUp_self ..).trans hback
      · exact (EventMem.refUp_of_ne _ _ hx).trans (EventMem.refDown_of_ne _ _ hx)
    refine Or.inr ⟨_, hrun, ?_, ?_, ?_, ?_, ?_, hevent⟩
    · show QueueOk (ctx₁.queue t)
      rw [hqueue]
      exact hqok
    · show QueueOk (ctx₁.deferred d)
      rw [hdeferred]
      exact hdok
    · show nqueueItems (ctx₁.queue t) = _
      rw [hqueue]
      exact hqitems
    · show nqueueItems (ctx₁.deferred d) = _
      rw [hdeferred]
      exact hdrest
    · show (ctx₁.queue t).empty + 1 = _
      rw [hqueue, nqueuePutFifo_eq hq hroom]
      exact Nat.sub_add_cancel hplace

theorem deferFetch_loses (hd : QueueOk (ctx.deferred d))
    (hitems : nqueueItems (ctx.deferred d) = e :: rest)
    (hfits : ¬ FetchFits saturates ctx t [e]) :
    ∃ error ctx', deferFetch sch saturates d t ctx = .ok (error, ctx') ∧ error ≠ .none ∧
      ctx'.queue = ctx.queue ∧ nqueueItems (ctx'.deferred d) = rest := by
  have hrest : nqueueItems
      ((ctx.setDeferred d (nqueueGet (ctx.deferred d)).2).deferred d) = rest := by
    show nqueueItems (Function.update ctx.deferred d _ d) = rest
    rw [Function.update_self]
    exact (nqueueGet_ok hd hitems).2.2.1
  rw [deferFetch_eq hd hitems]
  by_cases hlim : neventRef ((ctx.refDown saturates e).event e) < neventRefLimit
  · have hfull : ¬ nqueueIsFull (ctx.queue t) = false := by
      intro hroom
      have hne := of_decide_eq_false hroom
      refine hfits ⟨?_, fun x hx => ?_⟩
      · show 1 ≤ (ctx.queue t).empty
        omega
      · rw [List.mem_singleton.mp hx, ← EventMem.refDown_self saturates ctx.toEventMem e]
        exact hlim
    exact ⟨_, _, (if_pos hlim).trans (if_neg hfull), nofun, rfl, hrest⟩
  · exact ⟨_, _, if_neg hlim, nofun, rfl, hrest⟩

/-! ## a whole fetch -/

/-- how the fetch of `events` ends -/
inductive FetchEnds (saturates : Bool) (ctx ctx' : EpaCtx S T D E M) (t : T) (d : D) (events : List E)
    (error : Nerror) : Prop where
  | moved (fits : FetchFits saturates ctx t events) (none : error = .none)
      (deferred : nqueueItems (ctx.deferred d) = events ++ nqueueItems (ctx'.deferred d))
      (queue : nqueueItems (ctx'.queue t) = nqueueItems (ctx.queue t) ++ events)
  | lost (not_fits : ¬ FetchFits saturates ctx t events)
      (length : (nqueueItems (ctx'.deferred d)).length + (nqueueItems (ctx'.queue t)).length <
        (nqueueItems (ctx.deferred d)).length + (nqueueItems (ctx.queue t)).length)

theorem FetchEnds.keeps_iff {events : List E} {error : Nerror}
    (h : FetchEnds saturates ctx ctx' t d events error) :
    FetchKeeps ctx ctx' t d error ↔ FetchFits saturates ctx t events := by
  cases h with
  | moved fits none deferred queue =>
    refine iff_of_true ⟨?_, ⟨events, deferred, queue⟩, fun hc => ?_⟩ fits
    · rw [deferred, queue, List.append_assoc]
      refine List.Perm.trans ?_ List.perm_append_comm
      rw [List.append_assoc]
    · rw [none] at hc
      rcases hc with hc | hc
      · cases hc
      · cases hc
  | lost not_fits length =>
    refine iff_of_false (fun h => ?_) not_fits
    have hlen := h.multiset.length_eq
    rw [List.length_append, List.length_append] at hlen
    omega

theorem FetchEnds.refl : FetchEnds saturates ctx ctx t d [] .none :=
  .moved ⟨Nat.zero_le _, fun _ he => absurd he List.not_mem_nil⟩ rfl rfl (List.append_nil _).symm

theorem FetchMoved.ends {ctx₁ : EpaCtx S T D E M} {events : List E} {error : Nerror}
    (h : FetchMoved ctx ctx₁ t d e rest) (hitems : nqueueItems (ctx.deferred d) = e :: rest)
    (hfits : FetchFits saturates ctx t [e])
    (hends : FetchEnds saturates ctx₁ ctx' t d events error) :
    FetchEnds saturates ctx ctx' t d (e :: events) error := by
  have hiff : FetchFits saturates ctx t (e :: events) ↔ FetchFits saturates ctx₁ t events := by
    have hroom := h.room
    unfold FetchFits
    rw [h.event, List.length_cons, List.forall_mem_cons]
    constructor
    · rintro ⟨hlen, _, hrefs⟩
      exact ⟨by omega, hrefs⟩
    · rintro ⟨hlen, hrefs⟩
      exact ⟨by omega, hfits.2 e (List.mem_singleton_self e), hrefs⟩
  cases hends with
  | moved fits none deferred queue =>
    refine .moved (hiff.mpr fits) none ?_ ?_
    · rw [hitems, ← h.deferred, deferred, List.cons_append]
    · rw [queue, h.queue, List.append_assoc, List.singleton_append]
  | lost not_fits length =>
    refine .lost (fun hc => not_fits (hiff.mp hc)) ?_
    rw [h.deferred, h.queue, List.length_append, List.length_singleton] at length
    rw [hitems, List.length_cons]
    omega

theorem FetchEnds.of_loses {events : List E} {error : Nerror}
    (hitems : nqueueItems (ctx.deferred d) = e :: rest) (hnot : ¬ FetchFits saturates ctx t [e])
    (hqueue : ctx'.queue = ctx.queue) (hrest : nqueueItems (ctx'.deferred d) = rest) :
    FetchEnds saturates ctx ctx' t d (e :: events) error := by
  refine .lost (fun hc => hnot ⟨?_, fun x hx => ?_⟩) ?_
  · have hlen := hc.1
    rw [List.length_cons] at hlen
    show 1 ≤ (ctx.queue t).empty
    omega
  · rw [List.mem_singleton.mp hx]
    exact hc.2 e List.mem_cons_self
  · rw [hqueue, hrest, hitems, List.length_cons]
    omega

theorem nepaDeferFetchOne_ends (hq : QueueOk (ctx.queue t)) (hd : QueueOk (ctx.deferred d))
    (hheld : DeferredHeld ctx d) :
    (∃ fault sched, sch.insertI sched t = .error fault ∧
        nepaDeferFetchOne sch saturates ctx t d = .error fault) ∨
      ∃ error ctx', nepaDeferFetchOne sch saturates ctx t d = .ok (error, ctx') ∧
        FetchEnds saturates ctx ctx' t d ((nqueueItems (ctx.deferred d)).take 1) error := by
  have hempty := hd.isEmpty_iff
  cases hitems : nqueueItems (ctx.deferred d) with
  | nil =>
    have hne : ¬ nqueueIsEmpty (ctx.deferred d) = false := by
      rw [hempty.mpr hitems]
      exact Bool.noConfusion
    exact Or.inr ⟨_, _, if_neg hne, FetchEnds.refl⟩
  | cons e rest =>
    have hsome : nqueueIsEmpty (ctx.deferred d) = false := by
      rw [Bool.eq_false_iff, Ne, hempty, hitems]
      exact List.cons_ne_nil e rest
    have hrun : nepaDeferFetchOne sch saturates ctx t d = deferFetch sch saturates d t ctx :=
      if_pos hsome
    rw [hrun]
    by_cases hfits : FetchFits saturates ctx t [e]
    · rcases deferFetch_moves hq hd hheld hitems hfits with hfault | ⟨ctx', h, hmoved⟩
      · exact Or.inl hfault
      · exact Or.inr ⟨_, _, h, hmoved.ends hitems hfits FetchEnds.refl⟩
    · obtain ⟨error, ctx', h, _, hqueue, hrest⟩ := deferFetch_loses hd hitems hfits
      exact Or.inr ⟨_, _, h, .of_loses hitems hfits hqueue hrest⟩

/-- **The loop moves everything or loses an event**; the induction is on the bound, which the deferred
queue keeps. -/
theorem fetchLoop_ends (n : ℕ) : ∀ {ctx : EpaCtx S T D E M}, QueueOk (ctx.queue t) →
    QueueOk (ctx.deferred d) → DeferredHeld ctx d → (nqueueItems (ctx.deferred d)).length ≤ n →
    (∃ fault sched, sch.insertI sched t = .error fault ∧
        fetchLoop sch saturates d t n (.none, ctx) = .error fault) ∨
      ∃ error ctx', fetchLoop sch saturates d t n (.none, ctx) = .ok (error, ctx') ∧
        FetchEnds saturates ctx ctx' t d (nqueueItems (ctx.deferred d)) error := by
  induction n with
  | zero =>
    intro ctx _ hd _ hn
    have hnil : nqueueItems (ctx.deferred d) = [] := List.length_eq_zero_iff.mp (Nat.le_zero.mp hn)
    have hexit : fetchCond d (Nerror.none, ctx) = false := by
      show (true && !nqueueIsEmpty (ctx.deferred d)) = false
      rw [hd.isEmpty_iff.mpr hnil]
      rfl
    rw [hnil]
    exact Or.inr ⟨_, _, whileLoop_exit hexit 0, FetchEnds.refl⟩
  | succ n ih =>
    intro ctx hq hd hheld hn
    cases hitems : nqueueItems (ctx.deferred d) with
    | nil =>
      have hexit : fetchCond d (Nerror.none, ctx) = false := by
        show (true && !nqueueIsEmpty (ctx.deferred d)) = false
        rw [hd.isEmpty_iff.mpr hitems]
        rfl
      exact Or.inr ⟨_, _, whileLoop_exit hexit _, FetchEnds.refl⟩
    | cons e rest =>
      have hsome : nqueueIsEmpty (ctx.deferred d) = false := by
        rw [Bool.eq_false_iff, Ne, hd.isEmpty_iff, hitems]
        exact List.cons_ne_nil e rest
      have hcond : fetchCond d (Nerror.none, ctx) = true := by
        show (true && !nqueueIsEmpty (ctx.deferred d)) = true
        rw [hsome]
        rfl
      by_cases hfits : FetchFits saturates ctx t [e]
      · rcases deferFetch_moves hq hd hheld hitems hfits with
          ⟨fault, sched, hins, h⟩ | ⟨ctx₁, h, hmoved⟩
        · refine Or.inl ⟨fault, sched, hins, ?_⟩
          show whileLoop _ _ (n + 1) _ = _
          rw [whileLoop, iterLoop, if_pos hcond]
          show (deferFetch sch saturates d t ctx >>= _) >>= _ = _
          rw [h]
          rfl
        · have hrun : fetchLoop sch saturates d t (n + 1) (.none, ctx)
              = fetchLoop sch saturates d t n (.none, ctx₁) := whileLoop_succ hcond h n
          have hheld₁ : DeferredHeld ctx₁ d := by
            intro x hx
            rw [hmoved.event]
            refine hheld x ?_
            rw [hitems, ← hmoved.deferred]
            exact List.mem_cons_of_mem e hx
          have hlen : (nqueueItems (ctx₁.deferred d)).length ≤ n := by
            rw [hitems, List.length_cons] at hn
            rw [hmoved.deferred]
            omega
          rw [hrun]
          rcases ih hmoved.queueOk hmoved.deferredOk hheld₁ hlen with hfault | ⟨error, ctx', h', hends⟩
          · exact Or.inl hfault
          · rw [hmoved.deferred] at hends
            exact Or.inr ⟨error, ctx', h', hmoved.ends hitems hfits hends⟩
      · obtain ⟨error, ctx', h, herr, hqueue, hrest⟩ := deferFetch_loses hd hitems hfits
        have hexit : fetchCond d (error, ctx') = false := by
          show (decide (error = .none) && !nqueueIsEmpty (ctx'.deferred d)) = false
          rw [decide_eq_false herr]
          rfl
        have hrun : fetchLoop sch saturates d t (n + 1) (.none, ctx) = .ok (error, ctx') :=
          (whileLoop_succ hcond h n).trans (whileLoop_exit hexit n)
        exact Or.inr ⟨error, ctx', hrun, .of_loses hitems hfits hqueue hrest⟩

theorem nepaDeferFetchAll_ends (hq : QueueOk (ctx.queue t)) (hd : QueueOk (ctx.deferred d))
    (hheld : DeferredHeld ctx d) :
    (∃ fault sched, sch.insertI sched t = .error fault ∧
        nepaDeferFetchAll sch saturates ctx t d = .error fault) ∨
      ∃ error ctx', nepaDeferFetchAll sch saturates ctx t d = .ok (error, ctx') ∧
        FetchEnds saturates ctx ctx' t d (nqueueItems (ctx.deferred d)) error := by
  have hlen := hd.length
  exact fetchLoop_ends _ hq hd hheld (by omega)

end

/-- the outcome of a fetch of `events`: the scheduler faults, or the fetch returns and keeps the events
iff they fit -/
def FetchKeepsIffFits (sch : Scheduler S T) (saturates : Bool) (ctx : EpaCtx S T D E M) (t : T) (d : D)
    (events : List E) : Exec (Nerror × EpaCtx S T D E M) → Prop
  | .error fault => ∃ sched, sch.insertI sched t = .error fault
  | .ok (error, ctx') => FetchKeeps ctx ctx' t d error ↔ FetchFits saturates ctx t events

/-- **Fetching loses no event** iff everything that is to be fetched fits. -/
theorem deferFetch_keeps_iff (sch : Scheduler S T) (saturates : Bool) {ctx : EpaCtx S T D E M} {t : T}
    {d : D} (hq : QueueOk (ctx.queue t)) (hd : QueueOk (ctx.deferred d))
    (hheld : DeferredHeld ctx d) :
    FetchKeepsIffFits sch saturates ctx t d ((nqueueItems (ctx.deferred d)).take 1)
        (nepaDeferFetchOne sch saturates ctx t d) ∧
      FetchKeepsIffFits sch saturates ctx t d (nqueueItems (ctx.deferred d))
        (nepaDeferFetchAll sch saturates ctx t d) := by
  constructor
  · rcases nepaDeferFetchOne_ends hq hd hheld with
      ⟨fault, sched, hins, h⟩ | ⟨error, ctx', h, hends⟩
    · rw [h]
      exact ⟨sched, hins⟩
    · rw [h]
      exact hends.keeps_iff
  · rcases nepaDeferFetchAll_ends hq hd hheld with
      ⟨fault, sched, hins, h⟩ | ⟨error, ctx', h, hends⟩
    · rw [h]
      exact ⟨sched, hins⟩
    · rw [h]
      exact hends.keeps_iff

/-! ## a full working queue -/

/-- the working queue is full of the event `false`; the event `true` is deferred -/
def deferredBehindFull : EpaSys Unit Unit Bool Unit where
  event := fun e => { mem := some (), id := 0, attrib := neventAttrDynamic,
                      ref := if e = true then 1#32 else 2#32 }
  frees := []
  sched := oneThread
  queue := fun _ => nqueuePutFifo (nqueuePutFifo (nqueueInit 2 (fun _ => false)) false) false
  deferred := fun _ => nqueuePutFifo (nqueueInit 2 (fun _ => false)) true
  ctl := .loop

theorem deferFetch_keeps_iff_deferredBehindFull :
    FetchKeepsIffFits (edsScheduler cfg32 0) false deferredBehindFull () () [true]
        (nepaDeferFetchOne (edsScheduler cfg32 0) false deferredBehindFull () ()) ∧
      FetchKeepsIffFits (edsScheduler cfg32 0) false deferredBehindFull () () [true]
        (nepaDeferFetchAll (edsScheduler cfg32 0) false deferredBehindFull () ()) := by
  have hinit := nqueueInit_ok (le_refl 1) (by decide) (fun _ : ℕ => false)
  have hone := nqueuePutFifo_ok hinit.1 rfl false
  have htwo := nqueuePutFifo_ok hone.1 rfl false
  refine deferFetch_keeps_iff (edsScheduler cfg32 0) false htwo.1
    (nqueuePutFifo_ok hinit.1 rfl true).1 ?_
  intro e he _
  have he : e ∈ [true] := he
  rw [List.mem_singleton.mp he]
  decide

/-- the deferred event is in neither queue -/
theorem deferFetch_not_keeps : ∃ error ctx',
    nepaDeferFetchOne (edsScheduler cfg32 0) false deferredBehindFull () () = .ok (error, ctx') ∧
      ¬ FetchKeeps deferredBehindFull ctx' () () error := by
  refine ⟨_, _, rfl, fun h => ?_⟩
  have hlen : 2 = 3 := h.multiset.length_eq
  exact absurd hlen (by decide)

end NeonEds

import NeonEds.Sched.Model

/-!
# The run queue with one bucket for each priority level

`Linked cfg node bm q`: the list of every bucket `p` holds the threads `q p`, in this order, and the
bitmap marks the buckets that are not empty.  The functions on the run queue are functions on `q`:

* `prioQueueInsert_linked`   the thread comes last in its bucket;
* `prioQueueRemove_linked`   the thread leaves its bucket;
* `prioQueueRotate_linked`   the first thread of a bucket comes last;
* `prioQueuePeek_linked`     the first thread of the last bucket that is not empty.
-/

set_option linter.unusedSectionVars false

namespace NeonEds
open Exec

/-- one bucket for each priority level, the debug assertions disabled -/
structure OneBucketPerLevel (cfg : SchedConfig) : Prop extends Port32 cfg where
  levels : cfg.levels = cfg.buckets
  pos : 0 < cfg.buckets
  count : cfg.buckets < 2 ^ cfg.fast8
  fast32 : 32 ≤ cfg.fast32
  asserts : cfg.asserts = false

theorem OneBucketPerLevel.bucketBits {cfg : SchedConfig} (h : OneBucketPerLevel cfg) :
    cfg.bucketBits = 0 := by
  have hpos := h.pos
  have h1 : ndivisionRoundup cfg.buckets cfg.buckets = 1 := by
    unfold ndivisionRoundup
    rw [Nat.div_eq_iff (by omega)]
    omega
  unfold SchedConfig.bucketBits
  rw [h.levels, h1]
  rfl

variable {T V : Type} [DecidableEq T]

/-- bucket `p` holds the threads `q p` -/
structure Linked (cfg : SchedConfig) (node : BiasLists (SchedNode T)) (bm : PrioBitmap 32)
    (q : ℕ → List (ThreadId T)) : Prop where
  ring : ∀ p < cfg.buckets, Circular node.list (.sentinel p) ((q p).map SchedNode.thread)
  disjoint : ∀ p p' t, t ∈ q p → t ∈ q p' → p = p'
  lt : ∀ p, q p ≠ [] → p < cfg.buckets ∧ p < 2 ^ 8
  marks : cfg.buckets ≠ 1 → Marks cfg bm (fun p => decide (q p ≠ []))

section
variable {cfg : SchedConfig} {node : BiasLists (SchedNode T)} {bm : PrioBitmap 32}
  {q : ℕ → List (ThreadId T)}

theorem Linked.nodup (h : Linked cfg node bm q) (p : ℕ) : (q p).Nodup := by
  by_cases hp : p < cfg.buckets
  · exact (h.ring p hp).list_nodup.of_map _
  · have : q p = [] := by
      by_contra hne
      exact hp (h.lt p hne).1
    rw [this]
    exact List.nodup_nil

theorem Linked.thread_notMem {t : ThreadId T} (ht : ∀ p, t ∉ q p) (p : ℕ) :
    SchedNode.thread t ∉ SchedNode.sentinel p :: (q p).map SchedNode.thread := by
  simp [ht p]

theorem Linked.ring_of_ne (h : Linked cfg node bm q) {p : ℕ} {t : ThreadId T}
    (ht : ∀ p', p' ≠ p → t ∉ q p') {L' : Links (SchedNode T)}
    (he : ∀ x, x ∉ SchedNode.thread t :: SchedNode.sentinel p :: (q p).map SchedNode.thread →
      L'.EqAt node.list x) {p' : ℕ} (hp' : p' < cfg.buckets) (hne : p' ≠ p) :
    Circular L' (.sentinel p') ((q p').map SchedNode.thread) := by
  refine (h.ring p' hp').congr fun x hx => he x fun hm => ?_
  rcases List.mem_cons.mp hx with rfl | hx
  · simp [hne] at hm
  · obtain ⟨u, hu, rfl⟩ := List.mem_map.mp hx
    simp only [List.mem_cons, SchedNode.thread.injEq, reduceCtorEq, false_or, List.mem_map,
      exists_eq_right] at hm
    rcases hm with rfl | hm
    · exact ht p' hne hu
    · exact hne (h.disjoint p' p u hu hm)

theorem Linked.update (h : Linked cfg node bm q) {p : ℕ} (hpB : p < cfg.buckets) (hp8 : p < 2 ^ 8)
    {t : ThreadId T} (ht : ∀ p', p' ≠ p → t ∉ q p') {L' : Links (SchedNode T)}
    (he : ∀ x, x ∉ SchedNode.thread t :: SchedNode.sentinel p :: (q p).map SchedNode.thread →
      L'.EqAt node.list x) {xs : List (ThreadId T)}
    (hr : Circular L' (.sentinel p) (xs.map SchedNode.thread)) (hxs : ∀ u ∈ xs, u = t ∨ u ∈ q p)
    {bm' : PrioBitmap 32}
    (hm : cfg.buckets ≠ 1 → Marks cfg bm' (Function.update (fun p => decide (q p ≠ [])) p
      (decide (xs ≠ [])))) :
    Linked cfg { node with list := L' } bm' (Function.update q p xs) := by
  have hother : ∀ p', p' ≠ p → ∀ u ∈ xs, u ∉ q p' := by
    intro p' hne u hu hm
    rcases hxs u hu with rfl | hup
    · exact ht p' hne hm
    · exact hne (h.disjoint p' p u hm hup)
  refine ⟨fun p' hp' => ?_, fun p₁ p₂ u h₁ h₂ => ?_, fun p' hne => ?_, fun hB => ?_⟩
  · by_cases hpp : p' = p
    · rw [hpp, Function.update_self]
      exact hr
    · rw [Function.update_of_ne hpp]
      exact h.ring_of_ne ht he hp' hpp
  · by_cases e₁ : p₁ = p
    · by_cases e₂ : p₂ = p
      · rw [e₁, e₂]
      · rw [e₁, Function.update_self] at h₁
        rw [Function.update_of_ne e₂] at h₂
        exact absurd h₂ (hother p₂ e₂ u h₁)
    · rw [Function.update_of_ne e₁] at h₁
      by_cases e₂ : p₂ = p
      · rw [e₂, Function.update_self] at h₂
        exact absurd h₁ (hother p₁ e₁ u h₂)
      · rw [Function.update_of_ne e₂] at h₂
        exact h.disjoint p₁ p₂ u h₁ h₂
  · by_cases hpp : p' = p
    · rw [hpp]
      exact ⟨hpB, hp8⟩
    · rw [Function.update_of_ne hpp] at hne
      exact h.lt p' hne
  · have hset : (fun p' => decide (Function.update q p xs p' ≠ []))
        = Function.update (fun p => decide (q p ≠ [])) p (decide (xs ≠ [])) := by
      funext p'
      by_cases hpp : p' = p
      · rw [hpp, Function.update_self, Function.update_self]
      · rw [Function.update_of_ne hpp, Function.update_of_ne hpp]
    rw [hset]
    exact hm hB

end

section
variable {cfg : SchedConfig} (hcfg : OneBucketPerLevel cfg) {ctx : SchedCtx 32 T V}
  {q : ℕ → List (ThreadId T)}
include hcfg

theorem bucketOf_eq {n : SchedNode T} (hp : ctx.node.bias n < cfg.buckets) :
    bucketOf cfg ctx n = ctx.node.bias n := by
  unfold bucketOf nbiasListGetBias
  rw [hcfg.bucketBits, Nat.shiftRight_zero]
  split
  · rfl
  · omega

theorem sentinelAt_eq {p : ℕ} (hp : p < cfg.buckets) :
    (sentinelAt cfg p : Exec (SchedNode T)) = .ok (.sentinel p) := if_pos hp

theorem bucketInsert_eq (fuel : ℕ) (s n : SchedNode T) {L' : Links (SchedNode T)}
    (h : ndlistAddBefore ctx.node.list s n = .ok L') :
    bucketInsert cfg fuel ctx s n = .ok { ctx with node := { ctx.node with list := L' } } := by
  have hB : ¬ cfg.buckets ≠ cfg.levels := by
    rw [hcfg.levels]
    exact fun h => h rfl
  unfold bucketInsert nbiasListFifoInsert
  rw [if_neg hB, h]
  rfl

theorem nbiasListIsEmpty_iff (h : Linked cfg ctx.node ctx.bitmap q) {p : ℕ}
    (hp : p < cfg.buckets) : nbiasListIsEmpty ctx.node (.sentinel p) = true ↔ q p = [] := by
  unfold nbiasListIsEmpty
  rw [ndlistIsEmpty_iff (h.ring p hp), List.map_eq_nil_iff]

/-- **The thread comes last in its bucket.** -/
theorem prioQueueInsert_linked (fuel : ℕ) (h : Linked cfg ctx.node ctx.bitmap q) {t : ThreadId T}
    {p : ℕ} (hbias : ctx.node.bias (.thread t) = p) (hpB : p < cfg.buckets) (hp8 : p < 2 ^ 8)
    (ht : ∀ p', t ∉ q p') :
    ∃ L' bm', prioQueueInsert cfg fuel ctx (.thread t)
        = .ok { ctx with node := { ctx.node with list := L' }, bitmap := bm' } ∧
      Linked cfg { ctx.node with list := L' } bm' (Function.update q p (q p ++ [t])) := by
  obtain ⟨L', hL', hr, he⟩ := ndlistAddBefore_base (h.ring p hpB) (Linked.thread_notMem ht p)
  obtain ⟨bm', hbm', hm⟩ : ∃ bm', bitmapMark cfg ctx (.sentinel p) p = .ok bm' ∧
      (cfg.buckets ≠ 1 → Marks cfg bm' (Function.update (fun p => decide (q p ≠ [])) p true)) := by
    unfold bitmapMark
    by_cases hc : cfg.buckets ≠ 1 ∧ nbiasListIsEmpty ctx.node (.sentinel p) = true
    · rw [if_pos hc]
      obtain ⟨bm', hset, hm⟩ := bitmapSet_marks hcfg.toPort32 (h.marks hc.1) hpB hp8
      exact ⟨bm', hset, fun _ => hm⟩
    · rw [if_neg hc]
      refine ⟨_, rfl, fun hB => ?_⟩
      have hne : q p ≠ [] := fun h0 => hc ⟨hB, (nbiasListIsEmpty_iff hcfg h hpB).mpr h0⟩
      have hupd : Function.update (fun p => decide (q p ≠ [])) p true = fun p => decide (q p ≠ []) := by
        rw [Function.update_eq_self_iff]
        exact (decide_eq_true hne).symm
      rw [hupd]
      exact h.marks hB
  refine ⟨L', bm', ?_, ?_⟩
  · unfold prioQueueInsert
    simp only [bucketOf_eq hcfg (show ctx.node.bias (.thread t) < _ by rw [hbias]; exact hpB), hbias,
      sentinelAt_eq hcfg hpB, ok_bind, hbm']
    exact bucketInsert_eq hcfg fuel _ _ hL'
  · refine h.update hpB hp8 (fun p' _ => ht p') he ?_ ?_ ?_
    · rw [List.map_append, List.map_singleton]
      exact hr
    · intro u hu
      rw [List.mem_append, List.mem_singleton] at hu
      exact hu.symm
    · rw [decide_eq_true (show q p ++ [t] ≠ [] by simp)]
      exact hm

theorem nbiasListRemove_linked (h : Linked cfg ctx.node ctx.bitmap q) {t : ThreadId T} {p : ℕ}
    (hpB : p < cfg.buckets) (ht : t ∈ q p) :
    ∃ L', nbiasListRemove cfg.apiValidation ctx.node (.thread t)
        = .ok { ctx.node with list := L' } ∧
      Circular L' (.sentinel p) (((q p).erase t).map SchedNode.thread) ∧
      ∀ x, x ∉ SchedNode.thread t :: SchedNode.sentinel p :: (q p).map SchedNode.thread →
        L'.EqAt ctx.node.list x := by
  obtain ⟨pre, post, hq⟩ := List.append_of_mem ht
  have hnd := h.nodup p
  have hr := h.ring p hpB
  have hpre : t ∉ pre := by
    rw [hq, List.nodup_append] at hnd
    exact fun hm => hnd.2.2 t hm t (List.mem_cons_self ..) rfl
  have hmap : (q p).map SchedNode.thread
      = pre.map SchedNode.thread ++ SchedNode.thread t :: post.map SchedNode.thread := by
    rw [hq, List.map_append, List.map_cons]
  rw [hmap] at hr
  obtain ⟨L', hL', hr', _, he⟩ := ndlistRemove_ring cfg.apiValidation hr
  refine ⟨L', ?_, ?_, fun x hx => he x fun hm => hx ?_⟩
  · unfold nbiasListRemove
    rw [hL']
    rfl
  · rw [hq, List.erase_append_right _ hpre, List.erase_cons_head, List.map_append]
    exact hr'
  · rw [hmap]
    exact List.mem_cons_of_mem _ hm

/-- **The thread leaves its bucket.** -/
theorem prioQueueRemove_linked (h : Linked cfg ctx.node ctx.bitmap q) {t : ThreadId T} {p : ℕ}
    (hbias : ctx.node.bias (.thread t) = p) (ht : t ∈ q p) :
    ∃ L' bm', prioQueueRemove cfg ctx (.thread t)
        = .ok { ctx with node := { ctx.node with list := L' }, bitmap := bm' } ∧
      Linked cfg { ctx.node with list := L' } bm' (Function.update q p ((q p).erase t)) := by
  obtain ⟨hpB, hp8⟩ := h.lt p (List.ne_nil_of_mem ht)
  obtain ⟨L', hL', hr, he⟩ := nbiasListRemove_linked hcfg h hpB ht
  have hempty : nbiasListIsEmpty { ctx.node with list := L' } (.sentinel p) = true ↔
      (q p).erase t = [] := by
    unfold nbiasListIsEmpty
    rw [ndlistIsEmpty_iff hr, List.map_eq_nil_iff]
  obtain ⟨bm', hbm', hm⟩ : ∃ bm',
      bitmapUnmark cfg { ctx with node := { ctx.node with list := L' } } p = .ok bm' ∧
      (cfg.buckets ≠ 1 → Marks cfg bm' (Function.update (fun p => decide (q p ≠ [])) p
        (decide ((q p).erase t ≠ [])))) := by
    unfold bitmapUnmark
    by_cases hB : cfg.buckets = 1
    · rw [if_neg (fun h => h hB)]
      exact ⟨_, rfl, fun h => absurd hB h⟩
    rw [if_pos hB, sentinelAt_eq hcfg hpB, ok_bind]
    by_cases hc : nbiasListIsEmpty { ctx.node with list := L' } (.sentinel p) = true
    · obtain ⟨bm', hclear, hm⟩ := bitmapClear_marks hcfg.toPort32 (h.marks hB) hpB hp8
      rw [if_pos hc]
      refine ⟨bm', hclear, fun _ => ?_⟩
      rw [hempty.mp hc]
      exact hm
    · rw [if_neg hc]
      refine ⟨_, rfl, fun _ => ?_⟩
      have hne : (q p).erase t ≠ [] := fun h0 => hc (hempty.mpr h0)
      have hupd : Function.update (fun p => decide (q p ≠ [])) p (decide ((q p).erase t ≠ []))
          = fun p => decide (q p ≠ []) := by
        rw [Function.update_eq_self_iff, decide_eq_true hne]
        exact (decide_eq_true (List.ne_nil_of_mem ht)).symm
      rw [hupd]
      exact h.marks hB
  refine ⟨L', bm', ?_, h.update hpB hp8 ?_ he hr (fun u hu => Or.inr (List.mem_of_mem_erase hu)) hm⟩
  · unfold prioQueueRemove
    simp only [bucketOf_eq hcfg (show ctx.node.bias (.thread t) < _ by rw [hbias]; exact hpB), hbias,
      hL', ok_bind, hbm']
    rfl
  · exact fun p' hne hm' => hne (h.disjoint p' p t hm' ht)

/-- **The first thread of a bucket comes last.** -/
theorem prioQueueRotate_linked (fuel : ℕ) (h : Linked cfg ctx.node ctx.bitmap q) {t : ThreadId T}
    {p : ℕ} {rest : List (ThreadId T)} (hbias : ctx.node.bias (.thread t) = p)
    (hq : q p = t :: rest) :
    ∃ L', prioQueueRotate cfg fuel ctx (.thread t)
        = .ok { ctx with node := { ctx.node with list := L' } } ∧
      Linked cfg { ctx.node with list := L' } ctx.bitmap (Function.update q p (rest ++ [t])) := by
  have ht : t ∈ q p := by rw [hq]; exact List.mem_cons_self ..
  obtain ⟨hpB, hp8⟩ := h.lt p (List.ne_nil_of_mem ht)
  obtain ⟨L₁, hL₁, hr₁, he₁⟩ := nbiasListRemove_linked hcfg h hpB ht
  have hnd := h.nodup p
  rw [hq, List.nodup_cons] at hnd
  rw [hq, List.erase_cons_head] at hr₁
  have hnew : SchedNode.thread t ∉ SchedNode.sentinel p :: rest.map SchedNode.thread := by
    simp [hnd.1]
  obtain ⟨L', hL', hr', he'⟩ := ndlistAddBefore_base hr₁ hnew
  refine ⟨L', ?_, ?_⟩
  · unfold prioQueueRotate
    simp only [bucketOf_eq hcfg (show ctx.node.bias (.thread t) < _ by rw [hbias]; exact hpB), hbias,
      hL₁, ok_bind, sentinelAt_eq hcfg hpB]
    exact bucketInsert_eq hcfg fuel _ _ hL'
  · have hmem : ∀ x, x ∈ rest.map SchedNode.thread → x ∈ (q p).map SchedNode.thread := by
      intro x hx
      rw [hq, List.map_cons]
      exact List.mem_cons_of_mem _ hx
    refine h.update hpB hp8 (fun p' hne hm => hne (h.disjoint p' p t hm ht)) (fun x hx => ?_) ?_ ?_ ?_
    · refine (he' x fun hm => hx ?_).trans (he₁ x hx)
      rcases List.mem_cons.mp hm with rfl | hm
      · exact List.mem_cons_self ..
      rcases List.mem_cons.mp hm with rfl | hm
      · simp
      · exact List.mem_cons_of_mem _ (List.mem_cons_of_mem _ (hmem x hm))
    · rw [List.map_append, List.map_singleton]
      exact hr'
    · intro u hu
      rw [hq]
      rw [List.mem_append, List.mem_singleton] at hu
      rcases hu with hu | hu
      · exact Or.inr (List.mem_cons_of_mem _ hu)
      · exact Or.inl hu
    · intro hB
      have hupd : Function.update (fun p => decide (q p ≠ [])) p (decide (rest ++ [t] ≠ []))
          = fun p => decide (q p ≠ []) := by
        rw [Function.update_eq_self_iff, decide_eq_true (show rest ++ [t] ≠ [] by simp)]
        exact (decide_eq_true (List.ne_nil_of_mem ht)).symm
      rw [hupd]
      exact h.marks hB

/-- **The thread that is chosen**: the first one of the last bucket that is not empty. -/
theorem prioQueuePeek_linked (h : Linked cfg ctx.node ctx.bitmap q) {t : ThreadId T} {p : ℕ}
    {rest : List (ThreadId T)} (hq : q p = t :: rest) (hmax : ∀ p', q p' ≠ [] → p' ≤ p) :
    prioQueuePeek cfg ctx = .ok (.thread t) := by
  have hne : q p ≠ [] := by rw [hq]; exact List.cons_ne_nil _ _
  obtain ⟨hpB, _⟩ := h.lt p hne
  have hbucket : highestBucket cfg ctx = .ok p := by
    unfold highestBucket
    by_cases hB : cfg.buckets = 1
    · rw [if_neg (fun h => h hB), show p = 0 by omega]
    · rw [if_pos hB]
      exact bitmapGetHighest_eq hcfg.toPort32 (h.marks hB) (decide_eq_true hne)
        (fun p' hp' => hmax p' (of_decide_eq_true hp'))
  have hr := h.ring p hpB
  rw [hq] at hr
  unfold prioQueuePeek
  rw [hbucket, ok_bind, sentinelAt_eq hcfg hpB, ok_bind]
  show deref (ctx.node.list.next (.sentinel p)) = _
  rw [hr.next_cons]
  rfl

end

end NeonEds

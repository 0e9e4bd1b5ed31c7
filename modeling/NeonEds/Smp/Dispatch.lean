import NeonEds.Smp.BuildPath

/-!
# The calls of one dispatch (source/smp.c)

* `hsmOffer_ok`     the event is offered to the current state and its ancestors up to the source;
* `hsmTransit_ok`   one transition: super queries, then `NSM_EXIT` upwards, `NSM_ENTRY` downwards and
                    `NSM_INIT`;
* `HsmHead`         what holds at the head of `while (ret == NACTION_TRANSIT_TO)`.
-/

set_option linter.unusedSectionVars false

namespace NeonEds
open Exec
variable {S W E : Type} [DecidableEq S]

/-- an event that is dispatched to a machine, not one that the dispatcher makes up -/
def HsmEvent.Posted (ev : HsmEvent E) : Prop :=
  ev ≠ .nsm .super ∧ ev ≠ .nsm .entry ∧ ev ≠ .nsm .exit

def HsmCall.signal (c : HsmCall S E) : S × HsmEvent E := (c.state, c.event)

/-- the calls are those of the states with the event, in order, and none of them transits -/
def HsmSends (ev : HsmEvent E) (states : List S) (q : List (HsmCall S E)) : Prop :=
  q.map HsmCall.signal = states.map (fun s => (s, ev)) ∧ ∀ c ∈ q, c.answer ≠ .transitTo

/-- the machine passes the event up to `source`, which answers `naction_transit_to(target)` -/
inductive HsmTransits (h : Nstates S W E) (ev : HsmEvent E) : Nsm S W → S → S → Prop where
  | here {sm : Nsm S W} (hr : (h sm.state sm ev).2 = .transitTo) :
      HsmTransits h ev sm sm.state (h sm.state sm ev).1.state
  | up {sm : Nsm S W} {source target : S} (hr : (h sm.state sm ev).2 = .super)
      (hu : HsmTransits h ev (h sm.state sm ev).1 source target) : HsmTransits h ev sm source target

/-- the calls of one transition from the leaf `l` to `d`: `a` states left and `b` entered -/
def HsmTransition (t : ParentTree S) (l d : S) (a b : ℕ) (ret : Naction)
    (q : List (HsmCall S E)) : Prop :=
  ∃ qs xs es, q = qs ++ xs ++ es ++ [⟨d, .nsm .init, ret⟩] ∧
    (∀ c ∈ qs, c.state ≠ t.root ∧ c.event = .nsm .super ∧ c.answer = .super) ∧
    HsmSends (.nsm .exit) (t.path l a) xs ∧ HsmSends (.nsm .entry) (t.path d b).reverse es

variable {cfg : HsmConfig} {t : ParentTree S} {h : Nstates S W E}

theorem event_of_signals {ev : HsmEvent E} {states : List S} {q : List (HsmCall S E)}
    (hq : q.map HsmCall.signal = states.map (fun s => (s, ev))) {c : HsmCall S E} (hc : c ∈ q) :
    c.event = ev := by
  have hm := List.mem_map_of_mem (f := HsmCall.signal) hc
  rw [hq] at hm
  obtain ⟨s, _, hs⟩ := List.mem_map.mp hm
  exact (congrArg Prod.snd hs).symm

namespace HsmSends
variable {ev : HsmEvent E} {states states' : List S} {q q' : List (HsmCall S E)}

theorem nil : HsmSends ev ([] : List S) [] := ⟨rfl, by simp⟩

theorem event_eq (hq : HsmSends ev states q) {c : HsmCall S E} (hc : c ∈ q) : c.event = ev :=
  event_of_signals hq.1 hc

end HsmSends

/-! ## the paths are left and entered -/

theorem hsmSignal_foldlM (hc : HsmFits cfg t) {id : NsmEvent}
    (hid : ∀ s sm, (h s sm (.nsm id)).2 ≠ .transitTo) {path : HsmFrame S W E → HsmPath S}
    (hpath : path = HsmFrame.entry ∨ path = HsmFrame.exit) (s : S) :
    ∀ (ks : List ℕ) (f : HsmFrame S W E),
      (∀ k ∈ ks, k ≤ t.depth s ∧ (path f).buff k = some (t.up k s)) →
      ∃ f' q, ks.foldlM (hsmSignal cfg h id path) f = .ok f' ∧ f'.entry = f.entry ∧
        f'.exit = f.exit ∧ f'.sent = f.sent ++ q ∧
        HsmSends (.nsm id) (ks.map (fun k => t.up k s)) q := by
  intro ks
  induction ks with
  | nil =>
    intro f _
    exact ⟨f, [], rfl, rfl, rfl, (List.append_nil _).symm, HsmSends.nil⟩
  | cons k ks ih =>
    intro f hf
    obtain ⟨hk, hb⟩ := hf k List.mem_cons_self
    have hlt := hc.depth_lt s
    have hans := hid (t.up k s) f.sm
    have hreq : (h (t.up k s) f.sm (.nsm id)).2 = .ignored ∨
        (h (t.up k s) f.sm (.nsm id)).2 = .handled ∨ (h (t.up k s) f.sm (.nsm id)).2 = .super := by
      cases hr : (h (t.up k s) f.sm (.nsm id)).2 <;> simp_all
    have hone : hsmSignal cfg h id path f k = .ok (hsmCall h f (t.up k s) (.nsm id)).1 := by
      unfold hsmSignal
      rw [HsmPath.read_eq (by omega) hb, ok_bind]
      dsimp only [hsmCall]
      rw [require_of hreq, ok_bind]
    have hsame : path (hsmCall h f (t.up k s) (.nsm id)).1 = path f := by
      rcases hpath with rfl | rfl <;> rfl
    obtain ⟨f', q, hok, hentry, hexit, hsent, hq⟩ := ih (hsmCall h f (t.up k s) (.nsm id)).1 (by
      intro k' hk'
      rw [hsame]
      exact hf k' (List.mem_cons_of_mem _ hk'))
    refine ⟨f', ⟨t.up k s, .nsm id, (h (t.up k s) f.sm (.nsm id)).2⟩ :: q, ?_, hentry, hexit, ?_, ?_,
      ?_⟩
    · rw [List.foldlM_cons, hone, ok_bind, hok]
    · rw [hsent]
      exact List.append_assoc _ _ _
    · rw [List.map_cons, hq.1]
      rfl
    · intro c hmem
      rcases List.mem_cons.mp hmem with rfl | hmem
      · exact hans
      · exact hq.2 c hmem

theorem range_map_up (s : S) (n : ℕ) : (List.range n).map (fun k => t.up k s) = t.path s n :=
  List.range_map_iterate n t.parent s

theorem hsmPathExit_ok (hc : HsmFits cfg t) (hh : NstatesOk t h) {l d : S} {m k : ℕ}
    {f : HsmFrame S W E} (hf : HsmPaths t l d m k f) (hx : f.exit.index ≤ m + 1) :
    ∃ f' q, hsmPathExit cfg h f = .ok f' ∧ f'.entry = f.entry ∧ f'.exit = f.exit ∧
      f'.sent = f.sent ++ q ∧ HsmSends (.nsm .exit) (t.path l f.exit.index) q := by
  unfold hsmPathExit
  rw [← range_map_up]
  apply hsmSignal_foldlM hc hh.exit (.inr rfl) l
  intro j hj
  rw [List.mem_range] at hj
  have := hf.exit_le
  exact ⟨by omega, hf.exit_buff j (by omega)⟩

theorem hsmPathEnter_ok (hc : HsmFits cfg t) (hh : NstatesOk t h) {l d : S} {m k : ℕ}
    {f : HsmFrame S W E} (hf : HsmPaths t l d m k f) (he : f.entry.index ≤ k + 1) :
    ∃ f' q, hsmPathEnter cfg h f = .ok f' ∧ f'.entry = f.entry ∧ f'.exit = f.exit ∧
      f'.sent = f.sent ++ q ∧ HsmSends (.nsm .entry) (t.path d f.entry.index).reverse q := by
  unfold hsmPathEnter
  rw [← range_map_up, ← List.map_reverse]
  apply hsmSignal_foldlM hc hh.entry (.inl rfl) d
  intro j hj
  rw [List.mem_reverse, List.mem_range] at hj
  have := hf.entry_le
  exact ⟨by omega, hf.entry_buff j (by omega)⟩

/-! ## the heads of the transition loop -/

/-- the current state is `f.currentState`, and `exit` holds the way up from it to the source -/
structure HsmHead (t : ParentTree S) (i : ℕ) (f : HsmFrame S W E) : Prop where
  index : i < t.depth f.currentState → f.exit.index = i + 1
  buff : ∀ j ≤ i, f.exit.buff j = some (t.up j f.currentState)
  le : i ≤ t.depth f.currentState
  transit : f.ret = .transitTo → i < t.depth f.currentState ∧ f.sm.state ≠ t.root

theorem hsmTransit_ok (hc : HsmFits cfg t) (hh : NstatesOk t h) {i : ℕ} {f : HsmFrame S W E}
    (hf : HsmHead t i f) (hr : f.ret = .transitTo) :
    ∃ f' a b q, hsmTransit cfg h t.root f = .ok f' ∧ HsmHead t 0 f' ∧
      f'.currentState = f.sm.state ∧ HsmMeet t f.currentState i f.sm.state a b ∧
      f'.sent = f.sent ++ q ∧ HsmTransition t f.currentState f.sm.state a b f'.ret q := by
  obtain ⟨hi, hd⟩ := hf.transit hr
  have h0 : 0 < cfg.depth := lt_of_le_of_lt (Nat.zero_le _) (hc.depth_lt t.root)
  have hf0 : HsmPaths t f.currentState f.sm.state i 0
      { f with entry := ⟨Function.update f.entry.buff 0 (some f.sm.state), f.entry.index⟩ } := by
    refine ⟨hf.buff, ?_, hf.le, Nat.zero_le _⟩
    intro j hj
    obtain rfl : j = 0 := by omega
    show Function.update f.entry.buff 0 (some f.sm.state) 0 = _
    rw [Function.update_self, ParentTree.up_zero]
  obtain ⟨f1, hbuild, hmeet, ⟨m, k, hf1, hm, hk⟩, qs, hs1, hqs⟩ :=
    hsmBuildPath_ok hc hh hi hd hf0 (hf.index hi)
  obtain ⟨f2, xs, hexit, he2, hx2, hs2, hxs⟩ := hsmPathExit_ok hc hh hf1 hm
  have hf2 : HsmPaths t f.currentState f.sm.state m k f2 := by
    refine ⟨?_, ?_, hf1.exit_le, hf1.entry_le⟩
    · rw [hx2]
      exact hf1.exit_buff
    · rw [he2]
      exact hf1.entry_buff
  obtain ⟨f3, es, henter, he3, hx3, hs3, hes⟩ := hsmPathEnter_ok hc hh hf2 (he2 ▸ hk)
  have htarget : f3.entry.buff 0 = some f.sm.state := by
    rw [he3]
    exact hf2.entry_buff 0 (Nat.zero_le _)
  rw [he2] at hes
  unfold hsmTransit
  rw [HsmPath.write_eq h0, ok_bind, hbuild, ok_bind, hexit, ok_bind, henter, ok_bind,
    HsmPath.read_eq h0 htarget, ok_bind]
  dsimp only [hsmCall]
  rw [HsmPath.write_eq h0, ok_bind]
  refine ⟨_, _, _, qs ++ xs ++ es ++ [⟨f.sm.state, .nsm .init, _⟩], rfl, ?_, rfl, hmeet, ?_,
    qs, xs, es, rfl, hqs, hxs, hes⟩
  · refine ⟨fun _ => rfl, ?_, Nat.zero_le _, ?_⟩
    · intro j hj
      obtain rfl : j = 0 := by omega
      show Function.update f3.exit.buff 0 (some f.sm.state) 0 = _
      rw [Function.update_self, ParentTree.up_zero]
    · intro hret
      exact ⟨ParentTree.depth_pos hd, hh.target _ _ _ hret⟩
  · show f3.sent ++ _ = _
    rw [hs3, hs2, hs1]
    simp only [List.append_assoc]

/-! ## the event is offered -/

/-- at the head of `do .. while (ret == NACTION_SUPER)`, after `i + 1` states were asked -/
structure HsmAsked (t : ParentTree S) (h : Nstates S W E) (ev : HsmEvent E) (sm : Nsm S W) (i : ℕ)
    (f : HsmFrame S W E) : Prop where
  current : f.currentState = sm.state
  head : HsmHead t i f
  super : f.ret = .super → i < t.depth sm.state ∧ f.sm.state = t.up (i + 1) sm.state
  sent : f.sent.map HsmCall.signal = (t.path sm.state (i + 1)).map (fun s => (s, ev))
  answered : ∃ c ∈ f.sent, c.answer = f.ret
  answers : f.ret ≠ .transitTo → ∀ c ∈ f.sent, c.answer ≠ .transitTo
  transits : ∀ source target, HsmTransits h ev sm source target →
    (f.ret = .super ∧ HsmTransits h ev f.sm source target) ∨
    (f.ret = .transitTo ∧ t.up i sm.state = source ∧ f.sm.state = target)

theorem HsmAsked.length_sent {ev : HsmEvent E} {sm : Nsm S W} {i : ℕ} {f : HsmFrame S W E}
    (hf : HsmAsked t h ev sm i f) : f.sent.length = i + 1 := by
  have := congrArg List.length hf.sent
  simpa [ParentTree.path] using this

theorem HsmTransits.cases_eq {ev : HsmEvent E} {sm : Nsm S W} {source target : S}
    (ht : HsmTransits h ev sm source target) :
    ((h sm.state sm ev).2 = .super ∧ HsmTransits h ev (h sm.state sm ev).1 source target) ∨
    ((h sm.state sm ev).2 = .transitTo ∧ sm.state = source ∧
      (h sm.state sm ev).1.state = target) := by
  cases ht with
  | here hr => exact .inr ⟨hr, rfl, rfl⟩
  | up hr hu => exact .inl ⟨hr, hu⟩

theorem hsmAsk_ok (hc : HsmFits cfg t) (hh : NstatesOk t h) {ev : HsmEvent E} (sm : Nsm S W)
    (hne : ev ≠ .nsm .entry) (hnx : ev ≠ .nsm .exit) {f : HsmFrame S W E} {i : ℕ}
    (hcur : f.currentState = sm.state) (hx : f.exit.index = i) (hi : i ≤ t.depth sm.state)
    (hstate : f.sm.state = t.up i sm.state)
    (hbuff : ∀ j < i, f.exit.buff j = some (t.up j sm.state))
    (hsent : f.sent.map HsmCall.signal = (t.path sm.state i).map (fun s => (s, ev)))
    (hans : ∀ c ∈ f.sent, c.answer ≠ .transitTo)
    (htr : ∀ source target, HsmTransits h ev sm source target →
      HsmTransits h ev f.sm source target) :
    ∃ f', hsmAsk cfg h ev f = .ok f' ∧ HsmAsked t h ev sm i f' := by
  have hlt := hc.depth_lt sm.state
  have hw := hc.index_lt sm.state
  have hidx : f.exit.index < cfg.depth := by omega
  -- `ntop_state` ignores the event
  have hbelow : ∀ a, (h (t.up i sm.state) f.sm ev).2 = a → a ≠ .ignored → i < t.depth sm.state := by
    rintro a rfl hr
    apply Nat.lt_of_le_of_ne hi
    intro heq
    rw [(ParentTree.up_eq_root hi).mpr heq, hh.ntop] at hr
    exact hr rfl
  unfold hsmAsk
  rw [HsmPath.write_eq hidx, ok_bind]
  dsimp only [hsmCall]
  rw [hstate]
  refine ⟨_, rfl, hcur, ⟨?_, ?_, by rwa [hcur], ?_⟩, ?_, ?_, ?_, ?_, ?_⟩
  · rw [hcur]
    intro hi'
    show (f.exit.index + 1) % 2 ^ cfg.fast8 = i + 1
    rw [hx, Nat.mod_eq_of_lt (by omega)]
  · intro j hj
    show Function.update f.exit.buff f.exit.index _ j = some (t.up j f.currentState)
    rw [hcur, hx]
    rcases Nat.lt_or_eq_of_le hj with hj | rfl
    · rw [Function.update_of_ne (by omega), hbuff j hj]
    · rw [Function.update_self]
  · intro hr
    refine ⟨by rw [hcur]; exact hbelow _ hr (by simp), hh.target _ _ _ hr⟩
  · intro hr
    have hi' := hbelow _ hr (by simp)
    refine ⟨hi', ?_⟩
    rw [ParentTree.up_succ]
    exact hh.parent _ _ _ (ParentTree.up_ne_root hi') hne hnx hr
  · show (f.sent ++ _).map _ = _
    rw [List.map_append, hsent, ParentTree.path_succ, List.map_append]
    rfl
  · exact ⟨_, List.mem_append_right _ (List.mem_singleton_self _), rfl⟩
  · intro hr c hmem
    rcases List.mem_append.mp hmem with hmem | hmem
    · exact hans c hmem
    · rw [List.mem_singleton.mp hmem]
      exact hr
  · intro source target ht
    rcases (htr source target ht).cases_eq with ⟨hr, hu⟩ | ⟨hr, hs, hd⟩
    · rw [hstate] at hr hu
      exact .inl ⟨hr, hu⟩
    · rw [hstate] at hr hs hd
      exact .inr ⟨hr, hs, hd⟩

theorem hsmOffer_ok (hc : HsmFits cfg t) (hh : NstatesOk t h) {ev : HsmEvent E} (sm : Nsm S W)
    (hne : ev ≠ .nsm .entry) (hnx : ev ≠ .nsm .exit) :
    ∃ f i, hsmOffer cfg h sm ev = .ok f ∧ HsmAsked t h ev sm i f ∧ f.ret ≠ .super := by
  obtain ⟨f0, hask, hf0⟩ := hsmAsk_ok hc hh sm hne hnx (i := 0)
    (f := ⟨sm, .super, sm.state, HsmPath.init, HsmPath.init, []⟩) rfl rfl (Nat.zero_le _)
    rfl (by intro j hj; omega) rfl (by simp) (fun _ _ ht => ht)
  have hstep : ∀ f : HsmFrame S W E, (∃ i, HsmAsked t h ev sm i f) → decide (f.ret = .super) = true →
      ∃ f', hsmAsk cfg h ev f = .ok f' ∧ (∃ i, HsmAsked t h ev sm i f') ∧
        t.depth sm.state + 1 - f'.sent.length < t.depth sm.state + 1 - f.sent.length := by
    rintro f ⟨i, hf⟩ hr
    have hr := of_decide_eq_true hr
    obtain ⟨hi, hstate⟩ := hf.super hr
    have hno : f.ret ≠ .transitTo := by rw [hr]; simp
    obtain ⟨f', hok, hf'⟩ := hsmAsk_ok hc hh sm hne hnx (i := i + 1) hf.current
      (hf.head.index (hf.current ▸ hi)) hi hstate
      (by intro j hj; rw [hf.head.buff j (by omega), hf.current]) hf.sent (hf.answers hno) (by
        intro source target ht
        rcases hf.transits source target ht with ⟨_, hu⟩ | ⟨hr', _⟩
        · exact hu
        · exact absurd hr' hno)
    have := hf.length_sent
    have := hf'.length_sent
    exact ⟨f', hok, ⟨i + 1, hf'⟩, by omega⟩
  have hlt := hc.depth_lt sm.state
  obtain ⟨f, hok, ⟨i, hf⟩, hend⟩ := whileLoop_total
    (fun f : HsmFrame S W E => ∃ i, HsmAsked t h ev sm i f)
    (fun f => t.depth sm.state + 1 - f.sent.length) hstep cfg.depth f0 ⟨0, hf0⟩ (by omega)
  unfold hsmOffer
  rw [hask, ok_bind]
  exact ⟨f, i, hok, hf, of_decide_eq_false hend⟩

end NeonEds

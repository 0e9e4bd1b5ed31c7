import NeonEds.Smp.Dispatch

/-!
# Runs of a hierarchical state machine

`HsmSession`: the machine is dispatched one event after the other.  `hsmSession_active`: what is
sent with `NSM_ENTRY` and `NSM_EXIT` is a run of configurations, and between two dispatches the
active states are the current state and its ancestors.  `hsmTransition_lca` is about the states that
one transition leaves and enters, `hsmUniform_iff` about a transition to an ancestor and
`hsmDispatch_inBounds` about the two paths.
-/

set_option linter.unusedSectionVars false

namespace NeonEds
open Exec ParentTree
variable {S W E : Type} [DecidableEq S]

/-- the change of the configuration that a call stands for -/
def hsmChange : S × HsmEvent E → Option (Change × S)
  | (s, .nsm .entry) => some (.enter, s)
  | (s, .nsm .exit) => some (.leave, s)
  | _ => none

def hsmChanges (q : List (HsmCall S E)) : List (Change × S) :=
  (q.map HsmCall.signal).filterMap hsmChange

/-- `sm0` after a number of dispatches that returned, with all calls made; the work space may change
between the dispatches -/
inductive HsmSession (cfg : HsmConfig) (h : Nstates S W E) (ntop : S) (sm0 : Nsm S W) :
    List (HsmCall S E) → Nsm S W → Prop where
  | start : HsmSession cfg h ntop sm0 [] sm0
  | dispatch {sent : List (HsmCall S E)} {sm : Nsm S W} {ev : HsmEvent E} {n : ℕ}
      {f : HsmFrame S W E} (hs : HsmSession cfg h ntop sm0 sent sm) (w : W) (hev : ev.Posted)
      (hd : hsmDispatch cfg h ntop n ⟨sm.state, w⟩ ev = .ok f) (hr : f.ret ≠ .transitTo) :
      HsmSession cfg h ntop sm0 (sent ++ f.sent) f.sm

/-! ## a machine of nested states

The states are nested one in the other, `ntop_state` is 0; the event is answered by `source` alone,
which transits to `target`. -/

def chainTree (n : ℕ) : ParentTree (Fin (n + 1)) where
  root := 0
  parent s := ⟨s.val - 1, by omega⟩
  depth s := s.val
  depth_eq_zero s := by
    rw [Fin.ext_iff]
    rfl
  depth_parent s hs := by
    have h0 : s.val ≠ 0 := fun h0 => hs (Fin.ext h0)
    show s.val = s.val - 1 + 1
    omega

def chainStates {n : ℕ} (source target : Fin (n + 1)) : Nstates (Fin (n + 1)) Unit Unit :=
  fun s sm ev =>
    if s = 0 then (sm, .ignored)
    else match ev with
      | .nsm .super => (⟨(chainTree n).parent s, ()⟩, .super)
      | .nsm _ => (sm, .handled)
      | .other _ =>
        if s = source then (⟨target, ()⟩, .transitTo)
        else (⟨(chainTree n).parent s, ()⟩, .super)

theorem chainStates_ok {n : ℕ} (source : Fin (n + 1)) {target : Fin (n + 1)} (ht : target ≠ 0) :
    NstatesOk (chainTree n) (chainStates source target) where
  ntop _ _ := rfl
  super s sm hs := by
    unfold chainStates
    rw [if_neg (show s ≠ 0 from hs)]
  parent s sm ev hs hne hnx hr := by
    unfold chainStates at hr ⊢
    rw [if_neg (show s ≠ 0 from hs)] at hr ⊢
    cases ev with
    | nsm id => cases id <;> first | rfl | cases hr
    | other e =>
      by_cases hsource : s = source
      · rw [if_pos hsource] at hr
        cases hr
      · rw [if_neg hsource]
  entry s sm := by
    unfold chainStates
    split <;> simp
  exit s sm := by
    unfold chainStates
    split <;> simp
  target s sm ev hr := by
    unfold chainStates at hr ⊢
    by_cases hs : s = 0
    · rw [if_pos hs] at hr
      cases hr
    rw [if_neg hs] at hr ⊢
    cases ev with
    | nsm id => cases id <;> cases hr
    | other e =>
      by_cases hsource : s = source
      · rw [if_pos hsource]
        exact ht
      · rw [if_neg hsource] at hr
        cases hr

theorem chainStates_transits {n : ℕ} {source : Fin (n + 1)} (target : Fin (n + 1))
    (h0 : source ≠ 0) (k : ℕ) : ∀ s : Fin (n + 1), s.val = source.val + k →
      HsmTransits (chainStates source target) (.other ()) ⟨s, ()⟩ source target := by
  have hpos : 0 < source.val := Nat.pos_of_ne_zero (fun h => h0 (Fin.ext h))
  induction k with
  | zero =>
    intro s hs
    obtain rfl : s = source := Fin.ext hs
    have heq : chainStates s target s ⟨s, ()⟩ (.other ()) = (⟨target, ()⟩, .transitTo) := by
      unfold chainStates
      rw [if_neg h0]
      exact if_pos rfl
    have ht : HsmTransits (chainStates s target) (.other ()) ⟨s, ()⟩ s _ :=
      .here (congrArg Prod.snd heq)
    rw [heq] at ht
    exact ht
  | succ k ih =>
    intro s hs
    have hne : s ≠ 0 := fun h => by
      rw [h, Fin.val_zero] at hs
      omega
    have heq : chainStates source target s ⟨s, ()⟩ (.other ()) =
        (⟨(chainTree n).parent s, ()⟩, .super) := by
      unfold chainStates
      rw [if_neg hne]
      exact if_neg (fun h => by rw [h] at hs; omega)
    apply HsmTransits.up (congrArg Prod.snd heq)
    rw [heq]
    exact ih _ (by show s.val - 1 = _; omega)

theorem chainTree_fits {n : ℕ} {cfg : HsmConfig} (hn : n < cfg.depth)
    (hw : n < 2 ^ cfg.fast8) : HsmFits cfg (chainTree n) where
  depth_lt s := lt_of_le_of_lt (Nat.le_of_lt_succ s.isLt) hn
  index_lt s := lt_of_le_of_lt (Nat.le_of_lt_succ s.isLt) hw

/-- the default configuration on a 64-bit host -/
def hsmHost : HsmConfig := ⟨8, 8, true, true⟩

/-- one nested state more than an index of 8 bits can count -/
def hsmDeep (trapUnderflow : Bool) : HsmConfig := ⟨257, 8, false, trapUnderflow⟩

variable {cfg : HsmConfig} {t : ParentTree S} {h : Nstates S W E}

theorem hsmChanges_append (q q' : List (HsmCall S E)) :
    hsmChanges (q ++ q') = hsmChanges q ++ hsmChanges q' := by
  unfold hsmChanges
  rw [List.map_append, List.filterMap_append]

theorem hsmChanges_eq_nil {q : List (HsmCall S E)}
    (hq : ∀ c ∈ q, c.event ≠ .nsm .entry ∧ c.event ≠ .nsm .exit) : hsmChanges q = [] := by
  unfold hsmChanges
  rw [List.filterMap_eq_nil_iff]
  intro p hp
  obtain ⟨c, hc, rfl⟩ := List.mem_map.mp hp
  obtain ⟨hne, hnx⟩ := hq c hc
  unfold HsmCall.signal hsmChange
  split <;> simp_all

theorem HsmSends.changes_exit {states : List S} {q : List (HsmCall S E)}
    (hq : HsmSends (.nsm .exit) states q) : hsmChanges q = states.map (Prod.mk .leave) := by
  unfold hsmChanges
  rw [hq.1, List.filterMap_map]
  exact congrFun (List.filterMap_eq_map (f := Prod.mk Change.leave)) states

theorem HsmSends.changes_entry {states : List S} {q : List (HsmCall S E)}
    (hq : HsmSends (.nsm .entry) states q) : hsmChanges q = states.map (Prod.mk .enter) := by
  unfold hsmChanges
  rw [hq.1, List.filterMap_map]
  exact congrFun (List.filterMap_eq_map (f := Prod.mk Change.enter)) states

theorem HsmTransition.changes {l d : S} {a b : ℕ} {ret : Naction} {q : List (HsmCall S E)}
    (hq : HsmTransition t l d a b ret q) :
    hsmChanges q = (t.path l a).map (Prod.mk .leave) ++
      (t.path d b).reverse.map (Prod.mk .enter) := by
  obtain ⟨qs, xs, es, rfl, hqs, hxs, hes⟩ := hq
  have hqs' : hsmChanges qs = [] := by
    apply hsmChanges_eq_nil
    intro c hc
    rw [(hqs c hc).2.1]
    simp
  have hinit : hsmChanges [(⟨d, .nsm .init, ret⟩ : HsmCall S E)] = [] := by
    apply hsmChanges_eq_nil
    simp
  rw [hsmChanges_append, hsmChanges_append, hsmChanges_append, hqs', hxs.changes_exit,
    hes.changes_entry, hinit, List.nil_append, List.append_nil]

theorem HsmMeet.configRun {l d : S} {i a b : ℕ} (hm : HsmMeet t l i d a b) (hi : i < t.depth l)
    (hd : d ≠ t.root) :
    t.ConfigRun (t.active l)
      ((t.path l a).map (Prod.mk .leave) ++ (t.path d b).reverse.map (Prod.mk .enter))
      (t.active d) := by
  apply (ConfigRun.leave_path (hm.exit_le hi)).append
  rw [hm.up_eq]
  exact ConfigRun.enter_path (hm.entry_le hd)

/-! ## the transition loop -/

theorem hsmTransits_inv (hc : HsmFits cfg t) (hh : NstatesOk t h) (I : HsmFrame S W E → Prop)
    (hstep : ∀ (i : ℕ) (f f' : HsmFrame S W E) (a b : ℕ) (q : List (HsmCall S E)),
      HsmHead t i f → f.ret = .transitTo → I f → f'.currentState = f.sm.state →
      HsmMeet t f.currentState i f.sm.state a b → f'.sent = f.sent ++ q →
      HsmTransition t f.currentState f.sm.state a b f'.ret q → I f')
    (n : ℕ) {i : ℕ} {f : HsmFrame S W E} (hf : HsmHead t i f) (hI : I f) :
    ∃ f', iterLoop (fun f => f.ret = .transitTo) (hsmTransit cfg h t.root) n f = .ok f' ∧
      (∃ j, HsmHead t j f') ∧ I f' := by
  apply iterLoop_inv (fun f => (∃ j, HsmHead t j f) ∧ I f)
  · rintro f ⟨⟨j, hf⟩, hI⟩ hr
    have hr := of_decide_eq_true hr
    obtain ⟨f', a, b, q, hok, hf', hcur, hm, hs, hq⟩ := hsmTransit_ok hc hh hf hr
    exact ⟨f', hok, ⟨0, hf'⟩, hstep j f f' a b q hf hr hI hcur hm hs hq⟩
  · exact ⟨⟨i, hf⟩, hI⟩

/-- what holds after some transitions of a dispatch that began in the state `l0` -/
structure HsmProgress (t : ParentTree S) (l0 : S) (f : HsmFrame S W E) : Prop where
  configRun : t.ConfigRun (t.active l0) (hsmChanges f.sent) (t.active f.currentState)
  answered : ∃ c ∈ f.sent, c.answer = f.ret
  stays : (∀ c ∈ f.sent, c.answer ≠ .transitTo) → f.currentState = l0
  queries : ∀ c ∈ f.sent, c.event = .nsm .super → c.state ≠ t.root

theorem HsmProgress.transit {l0 : S} {i : ℕ} {f f' : HsmFrame S W E} {a b : ℕ}
    {q : List (HsmCall S E)} (hf : HsmHead t i f) (hr : f.ret = .transitTo)
    (hp : HsmProgress t l0 f) (hcur : f'.currentState = f.sm.state)
    (hm : HsmMeet t f.currentState i f.sm.state a b) (hs : f'.sent = f.sent ++ q)
    (hq : HsmTransition t f.currentState f.sm.state a b f'.ret q) : HsmProgress t l0 f' := by
  obtain ⟨hi, hd⟩ := hf.transit hr
  refine ⟨?_, ?_, ?_, ?_⟩
  · rw [hs, hsmChanges_append, hq.changes, hcur]
    exact hp.configRun.append (hm.configRun hi hd)
  · obtain ⟨qs, xs, es, rfl, _⟩ := hq
    rw [hs]
    exact ⟨⟨f.sm.state, .nsm .init, f'.ret⟩, by simp, rfl⟩
  · intro hno
    obtain ⟨c, hc, hans⟩ := hp.answered
    rw [hs] at hno
    exact absurd (hans.trans hr) (hno c (List.mem_append_left _ hc))
  · obtain ⟨qs, xs, es, rfl, hqs, hxs, hes⟩ := hq
    intro c hc hev
    rw [hs] at hc
    simp only [List.mem_append, List.mem_singleton] at hc
    rcases hc with hc | ((hc | hc) | hc) | rfl
    · exact hp.queries c hc hev
    · exact (hqs c hc).1
    · rw [hxs.event_eq hc] at hev
      cases hev
    · rw [hes.event_eq hc] at hev
      cases hev
    · cases hev

theorem hsmReturn_eq (f : HsmFrame S W E) : (hsmReturn f).sent = f.sent ∧
    (hsmReturn f).ret = f.ret ∧ (hsmReturn f).currentState = f.currentState := by
  unfold hsmReturn
  split <;> exact ⟨rfl, rfl, rfl⟩

theorem hsmReturn_state (f : HsmFrame S W E) (hr : (hsmReturn f).ret ≠ .transitTo) :
    (hsmReturn f).sm.state = (hsmReturn f).currentState := by
  rw [(hsmReturn_eq f).2.1] at hr
  unfold hsmReturn
  rw [if_neg hr]

/-- **One dispatch, with any number of transitions.** -/
theorem hsmDispatch_ok (hc : HsmFits cfg t) (hh : NstatesOk t h) (n : ℕ) (sm : Nsm S W)
    {ev : HsmEvent E} (hev : ev.Posted) :
    ∃ f, hsmDispatch cfg h t.root n sm ev = .ok f ∧ HsmProgress t sm.state f ∧
      (f.ret ≠ .transitTo → f.sm.state = f.currentState) := by
  obtain ⟨hns, hne, hnx⟩ := hev
  obtain ⟨f0, i, hoffer, hf0, _⟩ := hsmOffer_ok hc hh sm hne hnx
  have hevent : ∀ c ∈ f0.sent, c.event = ev := fun c hc => event_of_signals hf0.sent hc
  have hp0 : HsmProgress t sm.state f0 := by
    refine ⟨?_, hf0.answered, fun _ => hf0.current, ?_⟩
    · rw [hf0.current, hsmChanges_eq_nil (by intro c hc; rw [hevent c hc]; exact ⟨hne, hnx⟩)]
      exact .nil _
    · intro c hc hsup
      rw [hevent c hc] at hsup
      exact absurd hsup hns
  obtain ⟨f, hloop, _, hp⟩ := hsmTransits_inv hc hh (HsmProgress t sm.state)
    (fun i f f' a b q hf hr hp hcur hm hs hq => hp.transit hf hr hcur hm hs hq) n hf0.head hp0
  unfold hsmDispatch
  rw [hoffer, ok_bind, hloop, ok_bind]
  refine ⟨_, rfl, ?_, hsmReturn_state f⟩
  obtain ⟨hs, hret, hcur⟩ := hsmReturn_eq f
  refine ⟨?_, ?_, ?_, ?_⟩
  · rw [hs, hcur]
    exact hp.configRun
  · rw [hs, hret]
    exact hp.answered
  · rw [hs, hcur]
    exact hp.stays
  · rw [hs]
    exact hp.queries

/-- **The active configuration.** -/
theorem hsmSession_active (hc : HsmFits cfg t) (hh : NstatesOk t h) {sm0 sm : Nsm S W}
    {sent : List (HsmCall S E)} (hs : HsmSession cfg h t.root sm0 sent sm) :
    t.ConfigRun (t.active sm0.state) (hsmChanges sent) (t.active sm.state) ∧
    ∀ (w : W) (ev : HsmEvent E) (n : ℕ), ev.Posted →
      ∃ f, hsmDispatch cfg h t.root n ⟨sm.state, w⟩ ev = .ok f ∧
        (∃ A, t.ConfigRun (t.active sm.state) (hsmChanges f.sent) A) ∧
        (f.ret ≠ .transitTo → (∀ c ∈ f.sent, c.answer ≠ .transitTo) → f.sm.state = sm.state) := by
  constructor
  · induction hs with
    | start => exact .nil _
    | dispatch hs w hev hd hr ih =>
      obtain ⟨f, hok, hp, hend⟩ := hsmDispatch_ok hc hh _ _ hev
      obtain rfl := Except.ok.inj (hd.symm.trans hok)
      rw [hsmChanges_append, hend hr]
      exact ih.append hp.configRun
  · intro w ev n hev
    obtain ⟨f, hok, hp, hend⟩ := hsmDispatch_ok hc hh n ⟨sm.state, w⟩ hev
    refine ⟨f, hok, ⟨_, hp.configRun⟩, ?_⟩
    intro hr hno
    rw [hend hr]
    exact hp.stays hno

theorem hsmSession_active_chain : ∃ sent sm,
    HsmSession hsmHost (chainStates 2 3) (0 : Fin 4) ⟨3, ()⟩ sent sm ∧ sent ≠ [] ∧
      (chainTree 3).ConfigRun ((chainTree 3).active 3) (hsmChanges sent)
        ((chainTree 3).active sm.state) := by
  have hc : HsmFits hsmHost (chainTree 3) := chainTree_fits (by decide) (by decide)
  have hh := chainStates_ok (2 : Fin 4) (show (3 : Fin 4) ≠ 0 by decide)
  have hev : (HsmEvent.other ()).Posted := by simp [HsmEvent.Posted]
  have hs : HsmSession hsmHost (chainStates 2 3) (0 : Fin 4) ⟨3, ()⟩ _ _ :=
    .dispatch (n := 1) .start () hev rfl (by decide)
  exact ⟨_, _, hs, by decide, (hsmSession_active hc hh hs).1⟩

theorem hsmDeep_changes : ∃ f, hsmDispatch (hsmDeep false) (chainStates 1 1) (0 : Fin 257) 1
    ⟨256, ()⟩ (.other ()) = .ok f ∧ f.ret ≠ .transitTo ∧ hsmChanges f.sent = [(.enter, 1)] := by
  obtain ⟨f, hf, heval⟩ := map_eq_ok (show (hsmDispatch (hsmDeep false) (chainStates 1 1)
    (0 : Fin 257) 1 ⟨256, ()⟩ (.other ())).map (fun f => (f.ret, hsmChanges f.sent)) =
      .ok (.handled, [(.enter, 1)]) by decide +kernel)
  obtain ⟨hret, hchanges⟩ := Prod.ext_iff.mp heval
  refine ⟨f, hf, ?_, hchanges⟩
  rw [show f.ret = .handled from hret]
  simp

/-- the states fit in the paths, but the index of the source is taken for the first one: no state is
left and an active state is entered -/
theorem hsmDeep_not_active : (∀ s, (chainTree 256).depth s < (hsmDeep false).depth) ∧
    NstatesOk (chainTree 256) (chainStates 1 1) ∧
    ∃ sent sm, HsmSession (hsmDeep false) (chainStates 1 1) (0 : Fin 257) ⟨256, ()⟩ sent sm ∧
      ¬ (chainTree 256).ConfigRun ((chainTree 256).active 256) (hsmChanges sent)
        ((chainTree 256).active sm.state) := by
  refine ⟨fun s => s.isLt, chainStates_ok 1 (by decide), ?_⟩
  obtain ⟨f, hf, hret, hchanges⟩ := hsmDeep_changes
  refine ⟨_, _, .dispatch .start () (by simp [HsmEvent.Posted]) hf hret, ?_⟩
  intro hrun
  rw [List.nil_append, hchanges] at hrun
  cases hrun with
  | enter hs _ _ => exact hs ⟨by decide, 255, by decide, by decide +kernel⟩

/-! ## the states that a transition leaves and enters -/

/-- where a transition turns: the source itself when it encloses the target, its parent when it is the
target, else the deepest common ancestor -/
def HsmTurn (t : ParentTree S) (source target l : S) : Prop :=
  (t.ProperEncloses source target ∧ l = source) ∨
  (target = source ∧ l = t.parent source) ∨
  (¬ t.ProperEncloses source target ∧ target ≠ source ∧ t.IsDeepestCommon l source target)

/-- after the offers and the super queries, `NSM_EXIT` upwards to `l`, `NSM_ENTRY` downwards from `l` and
`NSM_INIT` -/
def HsmTurnsAt (cfg : HsmConfig) (t : ParentTree S) (h : Nstates S W E) (ev : HsmEvent E)
    (sm : Nsm S W) (source target : S) (n : ℕ) (l : S) : Prop :=
  ∃ f offers queries rest, hsmDispatch cfg h t.root n sm ev = .ok f ∧
    f.sent = offers ++ queries ++ rest ∧
    offers.map HsmCall.signal =
      (t.pathBelow sm.state source ++ [source]).map (fun s => (s, ev)) ∧
    (∀ c ∈ queries, c.event = .nsm .super) ∧
    (t.pathBelow sm.state l).map (fun s => (s, HsmEvent.nsm .exit)) ++
      (t.pathBelow target l).reverse.map (fun s => (s, HsmEvent.nsm .entry)) ++
      [(target, HsmEvent.nsm .init)] <+: rest.map HsmCall.signal

theorem HsmMeet.turn {l d : S} {i a b : ℕ} (hm : HsmMeet t l i d a b) (hi : i < t.depth l)
    (hn : ¬ t.ProperEncloses d (t.up i l)) : HsmTurn t (t.up i l) d (t.up a l) := by
  have hsource := ParentTree.depth_up hi.le
  cases hm with
  | self h => exact .inr (.inl ⟨h.symm, t.up_succ i l⟩)
  | source h1 hb h => exact .inl ⟨⟨b, h1, hb, h.symm⟩, rfl⟩
  | parent h =>
    refine absurd ⟨1, le_rfl, by omega, ?_⟩ hn
    rw [← h, Nat.add_comm, t.up_add]
  | common hai ha h1 hb h hs hp hmin =>
    refine .inr (.inr ⟨?_, fun heq => hs 0 (Nat.zero_le _) heq.symm, ⟨a - i, by omega, ?_⟩,
      ⟨b, hb, h.symm⟩, ?_⟩)
    · rintro ⟨k, _, hk, heq⟩
      exact hs k hk heq.symm
    · rw [← t.up_add, Nat.sub_add_cancel hai.le]
    -- a common ancestor is above the first state that both ways share
    rintro c ⟨x, hx, rfl⟩ ⟨y, hy, heq⟩
    have hx0 : x ≠ 0 := by
      rintro rfl
      exact hs y hy heq.symm
    have hy0 : y ≠ 0 := by
      rintro rfl
      exact hn ⟨x, by omega, hx, heq.symm⟩
    have hle : a ≤ x + i := by
      by_contra hlt
      apply hmin (x + i) (by omega) (by omega) y (by omega) hy
      rw [t.up_add, heq]
    refine ⟨x + i - a, ?_, ?_⟩
    · rw [ParentTree.depth_up ha]
      omega
    · rw [← t.up_add, ← t.up_add, Nat.sub_add_cancel hle]

theorem HsmTransits.event_ne {ev : HsmEvent E} {sm : Nsm S W} {source target : S}
    (hh : NstatesOk t h) (ht : HsmTransits h ev sm source target) :
    ev ≠ .nsm .entry ∧ ev ≠ .nsm .exit := by
  induction ht with
  | here hr =>
    constructor
    · rintro rfl
      exact hh.entry _ _ hr
    · rintro rfl
      exact hh.exit _ _ hr
  | up hr hu ih => exact ih

theorem hsmDispatch_transits (hc : HsmFits cfg t) (hh : NstatesOk t h) {ev : HsmEvent E}
    {sm : Nsm S W} {source target : S} (ht : HsmTransits h ev sm source target) :
    ∃ (i : ℕ) (f0 f1 : HsmFrame S W E) (a b : ℕ) (q : List (HsmCall S E)),
      t.up i sm.state = source ∧ i < t.depth sm.state ∧ target ≠ t.root ∧
      f0.sent.map HsmCall.signal = (t.path sm.state (i + 1)).map (fun s => (s, ev)) ∧
      HsmMeet t sm.state i target a b ∧ f1.sent = f0.sent ++ q ∧
      HsmTransition t sm.state target a b f1.ret q ∧ HsmHead t 0 f1 ∧
      ∀ n, hsmDispatch cfg h t.root (n + 1) sm ev =
        (do
          let f ← iterLoop (fun f => f.ret = .transitTo) (hsmTransit cfg h t.root) n f1
          .ok (hsmReturn f)) := by
  obtain ⟨hne, hnx⟩ := ht.event_ne hh
  obtain ⟨f0, i, hoffer, hf0, hns⟩ := hsmOffer_ok hc hh sm hne hnx
  rcases hf0.transits source target ht with ⟨hr, _⟩ | ⟨hr, hsource, htarget⟩
  · exact absurd hr hns
  obtain ⟨hi, hroot⟩ := hf0.head.transit hr
  obtain ⟨f1, a, b, q, hok, hf1, _, hm, hs, hq⟩ := hsmTransit_ok hc hh hf0.head hr
  rw [hf0.current] at hi hm hq
  rw [htarget] at hroot hm hq
  refine ⟨i, f0, f1, a, b, q, hsource, hi, hroot, hf0.sent, hm, hs, hq, hf1, ?_⟩
  intro n
  unfold hsmDispatch
  rw [hoffer, ok_bind, iterLoop, if_pos (decide_eq_true hr), hok, ok_bind]

/-- **A transition leaves and enters the states up to where it turns, and no other.** -/
theorem hsmTransition_lca (hc : HsmFits cfg t) (hh : NstatesOk t h) {ev : HsmEvent E}
    {sm : Nsm S W} {source target : S} (ht : HsmTransits h ev sm source target)
    (hn : ¬ t.ProperEncloses target source) (n : ℕ) :
    ∃ l, HsmTurn t source target l ∧ HsmTurnsAt cfg t h ev sm source target (n + 1) l := by
  obtain ⟨i, f0, f1, a, b, q, rfl, hi, hroot, hoffers, hm, hs, hq, hf1, hdispatch⟩ :=
    hsmDispatch_transits hc hh ht
  obtain ⟨qs, xs, es, rfl, hqs, hxs, hes⟩ := hq
  obtain ⟨f, hloop, _, tail, htail⟩ := hsmTransits_inv hc hh (fun f => f1.sent <+: f.sent) (by
    intro i f f' a b q _ _ hpre _ _ hsent _
    rw [hsent]
    exact hpre.trans (List.prefix_append _ _)) n hf1 (List.prefix_refl _)
  have hpath : t.path sm.state (i + 1) = t.pathBelow sm.state (t.up i sm.state) ++
      [t.up i sm.state] := by
    rw [ParentTree.pathBelow_up hi.le, ParentTree.path_succ]
  refine ⟨t.up a sm.state, hm.turn hi hn, hsmReturn f, f0.sent, qs,
    xs ++ es ++ [⟨target, .nsm .init, f1.ret⟩] ++ tail, ?_, ?_, ?_, ?_, ?_⟩
  · rw [hdispatch, hloop, ok_bind]
  · rw [(hsmReturn_eq f).1, ← htail, hs]
    simp only [List.append_assoc]
  · rw [hoffers, hpath]
  · exact fun c hcq => (hqs c hcq).2.1
  · rw [ParentTree.pathBelow_up (hm.exit_le hi), hm.up_eq,
      ParentTree.pathBelow_up (hm.entry_le hroot), ← hxs.1, ← hes.1]
    refine ⟨tail.map HsmCall.signal, ?_⟩
    simp [HsmCall.signal]

theorem hsmTransition_lca_chain : ∃ l, HsmTurn (chainTree 3) 2 3 l ∧
    HsmTurnsAt hsmHost (chainTree 3) (chainStates 2 3) (.other ()) ⟨3, ()⟩ 2 3 1 l :=
  hsmTransition_lca (chainTree_fits (by decide) (by decide)) (chainStates_ok 2 (by decide))
    (chainStates_transits 3 (by decide) 1 3 rfl)
    (fun hp => absurd hp.depth_lt (by decide)) 0

theorem hsmDeep_not_lca : (∀ s, (chainTree 256).depth s < (hsmDeep false).depth) ∧
    NstatesOk (chainTree 256) (chainStates 1 1) ∧
    HsmTransits (chainStates 1 1) (.other ()) ⟨(256 : Fin 257), ()⟩ 1 1 ∧
    ¬ (chainTree 256).ProperEncloses 1 1 ∧
    ¬ ∃ l, HsmTurn (chainTree 256) 1 1 l ∧ HsmTurnsAt (hsmDeep false) (chainTree 256)
      (chainStates 1 1) (.other ()) ⟨256, ()⟩ 1 1 1 l := by
  have hself : ¬ (chainTree 256).ProperEncloses 1 1 := fun hp => absurd hp.depth_lt (lt_irrefl _)
  refine ⟨fun s => s.isLt, chainStates_ok 1 (by decide),
    chainStates_transits 1 (by decide) 255 256 rfl, hself, ?_⟩
  rintro ⟨l, hl, f, offers, queries, rest, hok, hs, _, _, hpre⟩
  obtain ⟨f', hf', hchanges⟩ := hsmDeep_changes
  obtain rfl := Except.ok.inj (hok.symm.trans hf')
  obtain rfl : l = 0 := by
    rcases hl with ⟨hp, _⟩ | ⟨_, rfl⟩ | ⟨_, hne, _⟩
    · exact absurd hp hself
    · rfl
    · exact absurd rfl hne
  -- the current state is to be left
  have hmem : ((256 : Fin 257), HsmEvent.nsm (E := Unit) .exit) ∈ rest.map HsmCall.signal := by
    apply hpre.subset
    apply List.mem_append_left
    apply List.mem_append_left
    exact List.mem_map_of_mem (ParentTree.up_mem_path (show 0 < 256 by decide))
  have hleft : (Change.leave, (256 : Fin 257)) ∈ hsmChanges f.sent := by
    rw [hs, hsmChanges_append]
    exact List.mem_append_right _ (List.mem_filterMap.mpr ⟨_, hmem, rfl⟩)
  rw [hchanges.2] at hleft
  simp at hleft

theorem HsmMeet.above {l d : S} {i a b : ℕ} (hm : HsmMeet t l i d a b) (hi : i < t.depth l)
    (hp : t.ProperEncloses d (t.up i l)) :
    (a = i + 1 ∧ b = 0 ∧ t.up (i + 1) l = d) ∨ (1 ≤ b ∧ t.up (i + 1) l ≠ d) := by
  have hdepth := hp.depth_lt
  have hsource := ParentTree.depth_up hi.le
  cases hm with
  | self h =>
    rw [h] at hdepth
    omega
  | source h1 hb h =>
    rw [h, ParentTree.depth_up hb] at hdepth
    omega
  | parent h => exact .inl ⟨rfl, rfl, h⟩
  | common hai ha h1 hb h hs hp' hmin => exact .inr ⟨h1, hp'⟩

/-- **A transition to an ancestor leaves exactly the states below it when it is the parent.** -/
theorem hsmUniform_iff (hc : HsmFits cfg t) (hh : NstatesOk t h) {ev : HsmEvent E}
    {sm : Nsm S W} {source target : S} (ht : HsmTransits h ev sm source target)
    (hp : t.ProperEncloses target source) :
    (∃ f, hsmDispatch cfg h t.root 1 sm ev = .ok f ∧
      hsmChanges f.sent = (t.pathBelow sm.state target).map (Prod.mk .leave)) ↔
    t.parent source = target := by
  obtain ⟨i, f0, f1, a, b, q, rfl, hi, hroot, hoffers, hm, hs, hq, hf1, hdispatch⟩ :=
    hsmDispatch_transits hc hh ht
  obtain ⟨hne, hnx⟩ := ht.event_ne hh
  have hchanges : hsmChanges f1.sent = (t.path sm.state a).map (Prod.mk .leave) ++
      (t.path target b).reverse.map (Prod.mk .enter) := by
    have hnil : hsmChanges f0.sent = [] := by
      apply hsmChanges_eq_nil
      intro c hc
      rw [event_of_signals hoffers hc]
      exact ⟨hne, hnx⟩
    rw [hs, hsmChanges_append, hnil, hq.changes, List.nil_append]
  have hrun : hsmDispatch cfg h t.root 1 sm ev = .ok (hsmReturn f1) := hdispatch 0
  rw [← t.up_succ]
  rcases hm.above hi hp with ⟨rfl, rfl, h⟩ | ⟨h1, hne'⟩
  · refine iff_of_true ⟨_, hrun, ?_⟩ h
    rw [(hsmReturn_eq f1).1, hchanges, ← h, ParentTree.pathBelow_up hi]
    exact List.append_nil _
  · refine iff_of_false ?_ hne'
    rintro ⟨f, hok, heq⟩
    obtain rfl := Except.ok.inj (hrun.symm.trans hok)
    rw [(hsmReturn_eq f1).1, hchanges] at heq
    have hmem : (Change.enter, target) ∈ (t.pathBelow sm.state target).map (Prod.mk .leave) := by
      rw [← heq]
      apply List.mem_append_right
      exact List.mem_map_of_mem (List.mem_reverse.mpr (ParentTree.up_mem_path h1))
    obtain ⟨s, _, hs'⟩ := List.mem_map.mp hmem
    cases hs'

theorem hsmUniform_iff_chain :
    (∃ f, hsmDispatch hsmHost (chainStates 3 2) (0 : Fin 4) 1 ⟨3, ()⟩ (.other ()) = .ok f ∧
      hsmChanges f.sent = ((chainTree 3).pathBelow 3 2).map (Prod.mk .leave)) ↔
    (chainTree 3).parent 3 = 2 :=
  hsmUniform_iff (t := chainTree 3) (chainTree_fits (by decide) (by decide))
    (chainStates_ok 3 (by decide)) (chainStates_transits 2 (by decide) 0 3 rfl)
    ⟨1, le_rfl, by decide, rfl⟩

/-- two states above the source, the target is left and entered again -/
theorem hsmChain_not_uniform :
    HsmTransits (chainStates 3 1) (.other ()) ⟨(3 : Fin 4), ()⟩ 3 1 ∧
    (chainTree 3).ProperEncloses 1 3 ∧
    ¬ ∃ f, hsmDispatch hsmHost (chainStates 3 1) (0 : Fin 4) 1 ⟨3, ()⟩ (.other ()) = .ok f ∧
      hsmChanges f.sent = ((chainTree 3).pathBelow 3 1).map (Prod.mk .leave) := by
  refine ⟨chainStates_transits 1 (by decide) 0 3 rfl, ⟨2, by decide, by decide, rfl⟩, ?_⟩
  obtain ⟨f, hf, hchanges⟩ := map_eq_ok (show (hsmDispatch hsmHost (chainStates 3 1)
    (0 : Fin 4) 1 ⟨3, ()⟩ (.other ())).map (fun f => hsmChanges f.sent) =
      .ok [(.leave, 3), (.leave, 2), (.leave, 1), (.enter, 1)] by decide +kernel)
  rintro ⟨f', hf', hleft⟩
  obtain rfl := Except.ok.inj (hf.symm.trans hf')
  rw [hchanges] at hleft
  exact absurd hleft (by decide)

/-- **No use of a path outside its bounds, no index below zero, and both searches end.** -/
theorem hsmDispatch_inBounds (hc : HsmFits cfg t) (hh : NstatesOk t h) (n : ℕ) (sm : Nsm S W)
    {ev : HsmEvent E} (hev : ev.Posted) :
    ∃ f, hsmDispatch cfg h t.root n sm ev = .ok f ∧
      ∀ c ∈ f.sent, c.event = .nsm .super → c.state ≠ t.root := by
  obtain ⟨f, hok, hp, _⟩ := hsmDispatch_ok hc hh n sm hev
  exact ⟨f, hok, hp.queries⟩

theorem hsmDispatch_inBounds_chain : ∃ f,
    hsmDispatch hsmHost (chainStates 2 3) (0 : Fin 4) 5 ⟨3, ()⟩ (.other ()) = .ok f ∧
      ∀ c ∈ f.sent, c.event = .nsm .super → c.state ≠ 0 :=
  hsmDispatch_inBounds (t := chainTree 3) (chainTree_fits (by decide) (by decide))
    (chainStates_ok 2 (by decide)) 5 ⟨3, ()⟩ (by simp [HsmEvent.Posted])

/-- after 256 states the index of `exit` is 0 again, and `hsm_build_path` decrements it -/
theorem hsmDeep_underflow : (∀ s, (chainTree 256).depth s < (hsmDeep true).depth) ∧
    NstatesOk (chainTree 256) (chainStates 1 1) ∧
    ¬ ∃ f, hsmDispatch (hsmDeep true) (chainStates 1 1) (0 : Fin 257) 1 ⟨256, ()⟩ (.other ())
      = .ok f := by
  refine ⟨fun s => s.isLt, chainStates_ok 1 (by decide), ?_⟩
  rintro ⟨f, hf⟩
  have heval : (hsmDispatch (hsmDeep true) (chainStates 1 1) (0 : Fin 257) 1 ⟨256, ()⟩
      (.other ())).map (fun f => f.ret) = .error .bounds := by
    decide +kernel
  rw [hf] at heval
  cases heval

end NeonEds

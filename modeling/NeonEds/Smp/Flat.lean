import NeonEds.Smp.HsmRuns
import NeonEds.Smp.Fsm

/-!
# The two dispatchers on a flat machine (source/smp.c)

A machine is flat when every state has `ntop_state` as its super state (`FlatStates`).  Then the paths
of a transition have length one, and the dispatchers are in step at the heads of their loops
(`FlatHead`):

* `hsmBuildPath_flat`         the path leads from the source to the destination, whatever they are;
* `FlatHead.transit`          one transition of each;
* `flatDispatchers_agree`     the same calls but for the queries of the super state, the same state at
                              the end, and the one returns iff the other does;
* `flatDispatchers_differ`    not so when `sm->state` is written otherwise than by a transition, or when
                              a path holds one state only.
-/

set_option linter.unusedSectionVars false

namespace NeonEds
open Exec
variable {S W E : Type} [DecidableEq S]

def HsmEvent.isSuper : HsmEvent E → Bool
  | .nsm .super => true
  | _ => false

/-- the calls with another event than `NSM_SUPER` -/
def visible (q : List (HsmCall S E)) : List (S × HsmEvent E) :=
  (q.filter fun c => !c.event.isSuper).map HsmCall.signal

/-- the answers of the state functions of a flat machine; its states are those other than `ntop` -/
structure FlatAnswers (ntop : S) (h : Nstates S W E) : Prop where
  super : ∀ s sm, s ≠ ntop → h s sm (.nsm .super) = ({ sm with state := ntop }, .super)
  /-- the other events are not passed up -/
  answer : ∀ s sm ev, s ≠ ntop → ev ≠ .nsm .super → (h s sm ev).2 ≠ .super
  entry : ∀ s sm, s ≠ ntop → (h s sm (.nsm .entry)).2 ≠ .transitTo
  exit : ∀ s sm, s ≠ ntop → (h s sm (.nsm .exit)).2 ≠ .transitTo
  target : ∀ s sm ev, s ≠ ntop → ev ≠ .nsm .super → (h s sm ev).2 = .transitTo →
    (h s sm ev).1.state ≠ ntop
  /-- `sm->state` is not read -/
  unread : ∀ s sm sm' ev, s ≠ ntop → ev ≠ .nsm .super → sm.wspace = sm'.wspace →
    (h s sm ev).2 = (h s sm' ev).2 ∧ (h s sm ev).1.wspace = (h s sm' ev).1.wspace ∧
      ((h s sm ev).2 = .transitTo → (h s sm ev).1.state = (h s sm' ev).1.state)

/-- what the state functions of a flat machine keep to -/
structure FlatStates (ntop : S) (h : Nstates S W E) : Prop extends FlatAnswers ntop h where
  /-- `sm->state` is written by `naction_transit_to` only -/
  written : ∀ s sm ev, s ≠ ntop → ev ≠ .nsm .super → (h s sm ev).2 ≠ .transitTo →
    (h s sm ev).1.state = sm.state

/-- what a transition from `s` to `d` is on a flat machine: the machine, the answer to `NSM_INIT`, and
the calls -/
def flatTransition (h : Nstates S W E) (s d : S) (sm : Nsm S W) :
    Nsm S W × Naction × List (HsmCall S E) :=
  let x := h s sm (.nsm .exit)
  let e := h d x.1 (.nsm .entry)
  let i := h d e.1 (.nsm .init)
  (i.1, i.2, [⟨s, .nsm .exit, x.2⟩, ⟨d, .nsm .entry, e.2⟩, ⟨d, .nsm .init, i.2⟩])

/-- some number of transitions is enough for the dispatches to return -/
def Terminates (dispatch : ℕ → Nsm S W → List (HsmEvent E) → Exec (Dispatched S W E))
    (sm : Nsm S W) (events : List (HsmEvent E)) : Prop :=
  ∃ n d, dispatch n sm events = .ok d ∧ d.returned = true

/-- both dispatchers at the heads of their loops -/
structure FlatHead (ntop : S) (f : HsmFrame S W E) (g : FsmFrame S W E) : Prop where
  ret : f.ret = g.ret
  current : f.currentState = g.currentState
  wspace : f.sm.wspace = g.sm.wspace
  target : g.ret = .transitTo → f.sm.state = g.sm.state ∧ g.sm.state ≠ ntop
  answered : g.ret ≠ .super
  state : g.currentState ≠ ntop
  index : f.exit.index = 1
  buff : f.exit.buff 0 = some g.currentState
  sent : visible f.sent = visible g.sent

/-! ## the calls -/

theorem visible_append (q q' : List (HsmCall S E)) :
    visible (q ++ q') = visible q ++ visible q' := by
  unfold visible
  rw [List.filter_append, List.map_append]

theorem visible_super {q : List (HsmCall S E)} (hq : ∀ c ∈ q, c.event = .nsm .super) :
    visible q = [] := by
  have hnil : q.filter (fun c => !c.event.isSuper) = [] := by
    apply List.filter_eq_nil_iff.mpr
    intro c hc
    rw [hq c hc]
    exact Bool.false_ne_true
  unfold visible
  rw [hnil]
  rfl

/-! ## one transition of a hierarchical machine -/

section
variable {cfg : HsmConfig} {h : Nstates S W E} {ntop : S} {f : HsmFrame S W E} {s d : S}

/-- `exit` holds the source `s`, `entry` the destination `d`, each as its only state -/
structure FlatPath (s d : S) (f : HsmFrame S W E) : Prop where
  exit_index : f.exit.index = 1
  exit_buff : f.exit.buff 0 = some s
  entry_index : f.entry.index = 1
  entry_buff : f.entry.buff 0 = some d

theorem hsmGetStateSuper_flat (hh : FlatStates ntop h) (f : HsmFrame S W E) (hs : s ≠ ntop) :
    hsmGetStateSuper cfg h f s = .ok { f with
      sm := { f.sm with state := ntop }
      sent := f.sent ++ [⟨s, .nsm .super, .super⟩] } := by
  have hcall : hsmCall h f s (.nsm .super) = ({ f with
      sm := { f.sm with state := ntop }
      sent := f.sent ++ [⟨s, .nsm .super, .super⟩] }, .super) := by
    unfold hsmCall
    rw [hh.super s f.sm hs]
  unfold hsmGetStateSuper
  rw [hcall]
  dsimp only
  rw [require_of rfl, ok_bind]

theorem hsmPathsMeet_flat (hdepth : 2 ≤ cfg.depth) {i j : ℕ} {a b : S} (hi : f.exit.index = i)
    (hj : f.entry.index = j) (hi1 : i ≤ 1) (hj1 : j ≤ 1) (ha : f.exit.buff i = some a)
    (hb : f.entry.buff j = some b) : hsmPathsMeet cfg f = .ok (decide (a = b)) := by
  unfold hsmPathsMeet
  rw [hi, hj, HsmPath.read_eq (by omega) ha, ok_bind, HsmPath.read_eq (by omega) hb, ok_bind]

theorem indexInc_flat (hfast : 8 ≤ cfg.fast8) {p : HsmPath S} {k : ℕ} (hp : p.index = k)
    (hk : k ≤ 1) : p.indexInc cfg = ⟨p.buff, k + 1⟩ := by
  have hpow : 2 ^ 8 ≤ 2 ^ cfg.fast8 := Nat.pow_le_pow_right (by decide) hfast
  unfold HsmPath.indexInc
  rw [hp, Nat.mod_eq_of_lt (by omega)]

theorem hsmEntryUp_flat (hdepth : 2 ≤ cfg.depth) (hfast : 8 ≤ cfg.fast8) (hh : FlatStates ntop h)
    (hd : d ≠ ntop) (he : f.entry.index = 0) (hb : f.entry.buff 0 = some d) :
    hsmEntryUp cfg h f = .ok { f with
      sm := { f.sm with state := ntop }
      entry := ⟨Function.update f.entry.buff 1 (some ntop), 1⟩
      sent := f.sent ++ [⟨d, .nsm .super, .super⟩] } := by
  unfold hsmEntryUp
  rw [he, HsmPath.read_eq (by omega) hb, ok_bind, indexInc_flat hfast he (Nat.zero_le 1),
    hsmGetStateSuper_flat hh _ hd, ok_bind]
  dsimp only
  rw [HsmPath.write_eq hdepth, ok_bind]

theorem hsmExitUp_flat (hdepth : 2 ≤ cfg.depth) (hfast : 8 ≤ cfg.fast8) (hh : FlatStates ntop h)
    (hs : s ≠ ntop) (hx : f.exit.index = 0) (hb : f.exit.buff 0 = some s) :
    hsmExitUp cfg h f = .ok { f with
      sm := { f.sm with state := ntop }
      exit := ⟨Function.update f.exit.buff 1 (some ntop), 1⟩
      sent := f.sent ++ [⟨s, .nsm .super, .super⟩] } := by
  unfold hsmExitUp
  rw [hx, HsmPath.read_eq (by omega) hb, ok_bind, indexInc_flat hfast hx (Nat.zero_le 1),
    hsmGetStateSuper_flat hh _ hs, ok_bind]
  dsimp only
  rw [HsmPath.write_eq hdepth, ok_bind]

theorem hsmPathB_flat (hdepth : 2 ≤ cfg.depth) (hfast : 8 ≤ cfg.fast8) (hh : FlatStates ntop h)
    (hs : s ≠ ntop) (hd : d ≠ ntop) (hx : f.exit.index = 0) (hxb : f.exit.buff 0 = some s)
    (he : f.entry.index = 0) (heb : f.entry.buff 0 = some d) :
    ∃ f' q, hsmPathB cfg h ntop f = .ok f' ∧ FlatPath s d f' ∧
      f'.sm.wspace = f.sm.wspace ∧ f'.sent = f.sent ++ q ∧ ∀ c ∈ q, c.event = .nsm .super := by
  obtain ⟨f₁, hf₁⟩ : ∃ f₁ : HsmFrame S W E, f₁ = { f with
      sm := { f.sm with state := ntop }
      entry := ⟨Function.update f.entry.buff 1 (some ntop), 1⟩
      sent := f.sent ++ [⟨d, .nsm .super, .super⟩] } := ⟨_, rfl⟩
  have hx₁ : f₁.exit.index = 0 := by rw [hf₁]; exact hx
  have hxb₁ : f₁.exit.buff 0 = some s := by rw [hf₁]; exact hxb
  have he₁ : f₁.entry.index = 1 := by rw [hf₁]
  have heb₁ : f₁.entry.buff 1 = some ntop := by simp only [hf₁, Function.update_self]
  obtain ⟨f₂, hf₂⟩ : ∃ f₂ : HsmFrame S W E, f₂ = { f₁ with
      sm := { f₁.sm with state := ntop }
      exit := ⟨Function.update f₁.exit.buff 1 (some ntop), 1⟩
      sent := f₁.sent ++ [⟨s, .nsm .super, .super⟩] } := ⟨_, rfl⟩
  have hx₂ : f₂.exit.index = 1 := by rw [hf₂]
  have hxb₂ : f₂.exit.buff 1 = some ntop := by simp only [hf₂, Function.update_self]
  have he₂ : f₂.entry.index = 1 := by rw [hf₂]; exact he₁
  have heb₂ : f₂.entry.buff 1 = some ntop := by rw [hf₂]; exact heb₁
  unfold hsmPathB hsmPathC
  rw [hsmEntryUp_flat hdepth hfast hh hd he heb, ok_bind, ← hf₁,
    hsmPathsMeet_flat hdepth hx₁ he₁ (Nat.zero_le 1) le_rfl hxb₁ heb₁, ok_bind,
    if_neg (by rw [decide_eq_false hs]; exact Bool.false_ne_true),
    hsmExitUp_flat hdepth hfast hh hs hx₁ hxb₁, ok_bind, ← hf₂,
    hsmPathsMeet_flat hdepth hx₂ he₂ le_rfl le_rfl hxb₂ heb₂, ok_bind, if_pos (decide_eq_true rfl)]
  refine ⟨f₂, [⟨d, .nsm .super, .super⟩, ⟨s, .nsm .super, .super⟩], rfl, ⟨hx₂, ?_, he₂, ?_⟩, ?_, ?_, ?_⟩
  · simp only [hf₂, Function.update_of_ne Nat.zero_ne_one, hxb₁]
  · simp only [hf₂, hf₁, Function.update_of_ne Nat.zero_ne_one, heb]
  · rw [hf₂, hf₁]
  · rw [hf₂, hf₁]
    exact List.append_assoc ..
  · simp

/-- **`hsm_build_path` on a flat machine**: path a for a transition of a state to itself, else path c. -/
theorem hsmBuildPath_flat (hdepth : 2 ≤ cfg.depth) (hfast : 8 ≤ cfg.fast8) (hh : FlatStates ntop h)
    (hs : s ≠ ntop) (hd : d ≠ ntop) (hx : f.exit.index = 1) (hxb : f.exit.buff 0 = some s)
    (heb : f.entry.buff 0 = some d) :
    ∃ f' q, hsmBuildPath cfg h ntop f = .ok f' ∧ FlatPath s d f' ∧
      f'.sm.wspace = f.sm.wspace ∧ f'.sent = f.sent ++ q ∧ ∀ c ∈ q, c.event = .nsm .super := by
  obtain ⟨f₁, hf₁⟩ : ∃ f₁ : HsmFrame S W E, f₁ = { f with
      entry := ⟨f.entry.buff, 0⟩
      exit := ⟨f.exit.buff, 0⟩ } := ⟨_, rfl⟩
  have hx₁ : f₁.exit.index = 0 := by rw [hf₁]
  have hxb₁ : f₁.exit.buff 0 = some s := by rw [hf₁]; exact hxb
  have he₁ : f₁.entry.index = 0 := by rw [hf₁]
  have heb₁ : f₁.entry.buff 0 = some d := by rw [hf₁]; exact heb
  have hdec : hsmExitDec cfg { f with entry := { f.entry with index := 0 } } = .ok f₁ := by
    unfold hsmExitDec HsmPath.indexDec
    dsimp only
    rw [hx, if_pos Nat.one_pos, ok_bind, hf₁]
  unfold hsmBuildPath
  rw [hdec, ok_bind, hsmPathsMeet_flat hdepth hx₁ he₁ (Nat.zero_le 1) (Nat.zero_le 1) hxb₁ heb₁, ok_bind]
  by_cases hsd : s = d
  · rw [if_pos (decide_eq_true hsd)]
    refine ⟨_, [], rfl, ⟨?_, hxb₁, ?_, heb₁⟩, ?_, ?_, fun c hc => absurd hc List.not_mem_nil⟩
    · exact congrArg HsmPath.index (indexInc_flat hfast hx₁ (Nat.zero_le 1))
    · exact congrArg HsmPath.index (indexInc_flat hfast he₁ (Nat.zero_le 1))
    · show f₁.sm.wspace = _
      rw [hf₁]
    · show f₁.sent = _
      rw [hf₁, List.append_nil]
  · rw [if_neg (by rw [decide_eq_false hsd]; exact Bool.false_ne_true)]
    obtain ⟨f', q, hrun, hpath, hw, hsent, hq⟩ :=
      hsmPathB_flat hdepth hfast hh hs hd hx₁ hxb₁ he₁ heb₁
    refine ⟨f', q, hrun, hpath, ?_, ?_, hq⟩
    · rw [hw, hf₁]
    · rw [hsent, hf₁]

theorem hsmSignal_flat (hdepth : 2 ≤ cfg.depth) {id : NsmEvent} (path : HsmFrame S W E → HsmPath S)
    (hb : (path f).buff 0 = some s)
    (hans : (h s f.sm (.nsm id)).2 = .ignored ∨ (h s f.sm (.nsm id)).2 = .handled ∨
      (h s f.sm (.nsm id)).2 = .super) :
    [0].foldlM (hsmSignal cfg h id path) f = .ok (hsmCall h f s (.nsm id)).1 := by
  have hone : hsmSignal cfg h id path f 0 = .ok (hsmCall h f s (.nsm id)).1 := by
    unfold hsmSignal
    rw [HsmPath.read_eq (by omega) hb, ok_bind]
    dsimp only [hsmCall]
    rw [require_of hans, ok_bind]
  rw [List.foldlM_cons, hone, ok_bind]
  rfl

end

/-! ## both dispatchers -/

theorem entry_ne_super : HsmEvent.nsm (E := E) .entry ≠ .nsm .super := nofun

theorem exit_ne_super : HsmEvent.nsm (E := E) .exit ≠ .nsm .super := nofun

theorem init_ne_super : HsmEvent.nsm (E := E) .init ≠ .nsm .super := nofun

namespace FlatStates
variable {h : Nstates S W E} {ntop s d : S} {sm sm' : Nsm S W} {ev : HsmEvent E}

/-- an event that does not transit is handled or ignored -/
theorem done (hh : FlatStates ntop h) (hs : s ≠ ntop) (hev : ev ≠ .nsm .super)
    (ht : (h s sm ev).2 ≠ .transitTo) : (h s sm ev).2 = .ignored ∨ (h s sm ev).2 = .handled := by
  have ha := hh.answer s sm ev hs hev
  cases hr : (h s sm ev).2 with
  | super => exact absurd hr ha
  | transitTo => exact absurd hr ht
  | handled => exact Or.inr rfl
  | ignored => exact Or.inl rfl

/-- a transition does not depend on `sm->state` -/
theorem transition (hh : FlatStates ntop h) (hs : s ≠ ntop) (hd : d ≠ ntop)
    (hw : sm.wspace = sm'.wspace) :
    (flatTransition h s d sm).2.1 = (flatTransition h s d sm').2.1 ∧
      (flatTransition h s d sm).1.wspace = (flatTransition h s d sm').1.wspace ∧
      ((flatTransition h s d sm).2.1 = .transitTo →
        (flatTransition h s d sm).1.state = (flatTransition h s d sm').1.state) := by
  have hwe := (hh.unread s sm sm' _ hs exit_ne_super hw).2.1
  have hwi := (hh.unread d _ _ _ hd entry_ne_super hwe).2.1
  exact hh.unread d _ _ _ hd init_ne_super hwi

theorem visible_transition (s d : S) (sm : Nsm S W) : visible (flatTransition h s d sm).2.2
    = [(s, .nsm .exit), (d, .nsm .entry), (d, .nsm .init)] := rfl

end FlatStates

section
variable {cfg : HsmConfig} {h : Nstates S W E} {ntop s d : S}

theorem hsmTransit_flat {f : HsmFrame S W E} (hdepth : 2 ≤ cfg.depth) (hfast : 8 ≤ cfg.fast8)
    (hh : FlatStates ntop h) (hs : s ≠ ntop) (hd : d ≠ ntop) (hstate : f.sm.state = d)
    (hx : f.exit.index = 1) (hxb : f.exit.buff 0 = some s) :
    ∃ f' sm q, hsmTransit cfg h ntop f = .ok f' ∧ sm.wspace = f.sm.wspace ∧
      (∀ c ∈ q, c.event = .nsm .super) ∧ f'.sm = (flatTransition h s d sm).1 ∧
      f'.ret = (flatTransition h s d sm).2.1 ∧
      f'.sent = f.sent ++ q ++ (flatTransition h s d sm).2.2 ∧
      f'.currentState = d ∧ f'.exit.index = 1 ∧ f'.exit.buff 0 = some d := by
  obtain ⟨f₀, hf₀⟩ : ∃ f₀ : HsmFrame S W E, f₀ = { f with
      entry := ⟨Function.update f.entry.buff 0 (some d), f.entry.index⟩ } := ⟨_, rfl⟩
  have heb₀ : f₀.entry.buff 0 = some d := by simp only [hf₀, Function.update_self]
  obtain ⟨f₁, q, hbuild, hpath, hw₁, hsent₁, hq⟩ := hsmBuildPath_flat hdepth hfast hh hs hd
    (f := f₀) (by rw [hf₀]; exact hx) (by rw [hf₀]; exact hxb) heb₀
  obtain ⟨f₂, hf₂⟩ : ∃ f₂, f₂ = (hsmCall h f₁ s (.nsm .exit)).1 := ⟨_, rfl⟩
  obtain ⟨f₃, hf₃⟩ : ∃ f₃, f₃ = (hsmCall h f₂ d (.nsm .entry)).1 := ⟨_, rfl⟩
  have hxd := hh.done hs exit_ne_super (hh.exit s f₁.sm hs)
  have hed := hh.done hd entry_ne_super (hh.entry d f₂.sm hd)
  have hrunx : hsmPathExit cfg h f₁ = .ok f₂ := by
    unfold hsmPathExit
    rw [hpath.exit_index, hf₂]
    exact hsmSignal_flat hdepth HsmFrame.exit hpath.exit_buff (hxd.imp_right Or.inl)
  have hentry₂ : f₂.entry = f₁.entry := by rw [hf₂]; rfl
  have heb₂ : f₂.entry.buff 0 = some d := by rw [hentry₂]; exact hpath.entry_buff
  have hrune : hsmPathEnter cfg h f₂ = .ok f₃ := by
    unfold hsmPathEnter
    rw [hentry₂, hpath.entry_index, hf₃]
    exact hsmSignal_flat hdepth HsmFrame.entry heb₂ (hed.imp_right Or.inl)
  have heb₃ : f₃.entry.buff 0 = some d := by rw [hf₃]; exact heb₂
  have hrun : hsmTransit cfg h ntop f = .ok { (hsmCall h f₃ d (.nsm .init)).1 with
      ret := (hsmCall h f₃ d (.nsm .init)).2
      currentState := d
      exit := ⟨Function.update f₃.exit.buff 0 (some d), 1⟩ } := by
    unfold hsmTransit
    rw [hstate, HsmPath.write_eq (by omega), ok_bind, ← hf₀, hbuild, ok_bind, hrunx, ok_bind, hrune,
      ok_bind, HsmPath.read_eq (by omega) heb₃, ok_bind]
    dsimp only
    rw [HsmPath.write_eq (by omega), ok_bind]
    rfl
  refine ⟨_, f₁.sm, q, hrun, ?_, hq, ?_, ?_, ?_, rfl, rfl, by simp only [Function.update_self]⟩
  · rw [hw₁, hf₀]
  · show (h d f₃.sm _).1 = _
    rw [hf₃, hf₂]
    rfl
  · show (h d f₃.sm _).2 = _
    rw [hf₃, hf₂]
    rfl
  · show f₃.sent ++ [⟨d, .nsm .init, (h d f₃.sm _).2⟩] = _
    rw [hf₃, hf₂]
    show f₁.sent ++ [_] ++ [_] ++ [_] = _
    rw [hsent₁, hf₀]
    simp only [List.append_assoc]
    rfl

theorem fsmTransit_flat {g : FsmFrame S W E} (hh : FlatStates ntop h) (hs : g.currentState ≠ ntop)
    (hd : g.sm.state ≠ ntop) :
    fsmTransit cfg h g = .ok ⟨(flatTransition h g.currentState g.sm.state g.sm).1,
      (flatTransition h g.currentState g.sm.state g.sm).2.1, g.sm.state, .nsm .init,
      g.sent ++ (flatTransition h g.currentState g.sm.state g.sm).2.2⟩ := by
  have hx := hh.exit g.currentState g.sm hs
  have hxd := hh.done hs exit_ne_super hx
  have hdest : (h g.currentState g.sm (.nsm .exit)).1.state = g.sm.state :=
    hh.written _ _ _ hs exit_ne_super hx
  have hed := hh.done hd entry_ne_super
    (hh.entry g.sm.state (h g.currentState g.sm (.nsm .exit)).1 hd)
  unfold fsmTransit
  dsimp only [fsmCall]
  rw [require_of hxd, ok_bind, hdest, require_of hed, ok_bind]
  dsimp only [fsmAsk, fsmCall, flatTransition]
  simp only [List.append_assoc]
  rfl

/-- **One transition** is the same calls for both: `NSM_EXIT` to the source, `NSM_ENTRY` and `NSM_INIT`
to the destination. -/
theorem FlatHead.transit {f : HsmFrame S W E} {g : FsmFrame S W E} (hdepth : 2 ≤ cfg.depth)
    (hfast : 8 ≤ cfg.fast8) (hh : FlatStates ntop h) (hfg : FlatHead ntop f g)
    (ht : g.ret = .transitTo) :
    ∃ f' g', hsmTransit cfg h ntop f = .ok f' ∧ fsmTransit cfg h g = .ok g' ∧
      FlatHead ntop f' g' := by
  obtain ⟨hstate, hd⟩ := hfg.target ht
  have hs := hfg.state
  obtain ⟨f', sm, q, hrun, hw, hq, hsm, hret, hsent, hcur, hx, hxb⟩ :=
    hsmTransit_flat hdepth hfast hh hs hd hstate hfg.index hfg.buff
  obtain ⟨hret', hw', hstate'⟩ := hh.transition hs hd (hw.trans hfg.wspace)
  refine ⟨f', _, hrun, fsmTransit_flat hh hs hd, ⟨hret.trans hret', hcur, ?_, fun htr => ?_, ?_, hd, hx,
    hxb, ?_⟩⟩
  · rw [hsm]
    exact hw'
  · rw [hsm]
    exact ⟨hstate' (hret'.trans htr), hh.target _ _ _ hd init_ne_super htr⟩
  · exact hh.answer _ _ _ hd init_ne_super
  · rw [hsent, visible_append, visible_append, visible_super hq, List.append_nil, hfg.sent]
    show _ = visible (g.sent ++ _)
    rw [visible_append, FlatStates.visible_transition, FlatStates.visible_transition]

theorem FlatHead.start (hdepth : 2 ≤ cfg.depth) (hfast : 8 ≤ cfg.fast8) (hh : FlatStates ntop h)
    {sm : Nsm S W} (hs : sm.state ≠ ntop) {ev : HsmEvent E} (hev : ev ≠ .nsm .super) :
    ∃ f, hsmOffer cfg h sm ev = .ok f ∧
      FlatHead ntop f (fsmAsk h ⟨sm, .super, sm.state, ev, []⟩) := by
  have hans := hh.answer sm.state sm ev hs hev
  obtain ⟨f, hf⟩ : ∃ f : HsmFrame S W E, f = ⟨(h sm.state sm ev).1, (h sm.state sm ev).2, sm.state,
      HsmPath.init, ⟨Function.update (fun _ => none) 0 (some sm.state), 1⟩,
      [⟨sm.state, ev, (h sm.state sm ev).2⟩]⟩ := ⟨_, rfl⟩
  have hask : hsmAsk cfg h ev ⟨sm, .super, sm.state, HsmPath.init, HsmPath.init, []⟩ = .ok f := by
    have hwrite := HsmPath.write_eq (show 0 < cfg.depth by omega) HsmPath.init sm.state
    unfold hsmAsk
    show (HsmPath.write cfg HsmPath.init 0 sm.state >>= _) = _
    rw [hwrite, ok_bind, indexInc_flat hfast rfl (Nat.zero_le 1), hf]
    rfl
  have hret : decide (f.ret = .super) = false := by
    rw [hf]
    exact decide_eq_false hans
  refine ⟨f, ?_, ?_⟩
  · unfold hsmOffer
    rw [hask, ok_bind]
    exact @whileLoop_exit _ (fun f : HsmFrame S W E => decide (f.ret = .super)) _ f hret _
  · rw [hf]
    exact ⟨rfl, rfl, rfl, fun ht => ⟨rfl, hh.target _ _ _ hs hev ht⟩, hans, hs, rfl,
      by simp only [Function.update_self]; rfl, rfl⟩

theorem dispatch_flat (hdepth : 2 ≤ cfg.depth) (hfast : 8 ≤ cfg.fast8) (hh : FlatStates ntop h)
    {sm : Nsm S W} (hs : sm.state ≠ ntop) {ev : HsmEvent E} (hev : ev ≠ .nsm .super) (n : ℕ) :
    ∃ f g, hsmDispatch cfg h ntop n sm ev = .ok f ∧ fsmDispatch cfg h n sm ev = .ok g ∧
      f.sm = g.sm ∧ g.sm.state ≠ ntop ∧ f.ret = g.ret ∧ visible f.sent = visible g.sent := by
  obtain ⟨f₀, hoffer, hfg₀⟩ := FlatHead.start hdepth hfast hh hs hev
  obtain ⟨f, g, hloop, hloop', hfg⟩ : ∃ f g,
      iterLoop (fun f => f.ret = .transitTo) (hsmTransit cfg h ntop) n f₀ = .ok f ∧
      iterLoop (fun g => g.ret = .transitTo) (fsmTransit cfg h) n
        (fsmAsk h ⟨sm, .super, sm.state, ev, []⟩) = .ok g ∧ FlatHead ntop f g := by
    refine iterLoop_sim (FlatHead ntop) (fun f g hfg => ?_) (fun f g hfg ht => ?_) n f₀ _ hfg₀
    · rw [hfg.ret]
    · exact hfg.transit hdepth hfast hh (hfg.ret ▸ of_decide_eq_true ht)
  have hrun : hsmDispatch cfg h ntop n sm ev = .ok (hsmReturn f) := by
    unfold hsmDispatch
    rw [hoffer, ok_bind, hloop, ok_bind]
  unfold fsmDispatch fsmReturn
  dsimp only
  rw [hloop', ok_bind, hrun]
  unfold hsmReturn
  by_cases ht : g.ret = .transitTo
  · obtain ⟨hstate, hd⟩ := hfg.target ht
    rw [if_pos ht, if_pos (hfg.ret.trans ht)]
    refine ⟨f, g, rfl, rfl, ?_, hd, hfg.ret, hfg.sent⟩
    show Nsm.mk f.sm.state f.sm.wspace = Nsm.mk g.sm.state g.sm.wspace
    rw [hstate, hfg.wspace]
  · rw [if_neg ht, if_neg (hfg.ret ▸ ht), require_of hfg.answered, ok_bind]
    refine ⟨_, _, rfl, rfl, ?_, hfg.state, hfg.ret, hfg.sent⟩
    show Nsm.mk f.currentState f.sm.wspace = Nsm.mk g.currentState g.sm.wspace
    rw [hfg.current, hfg.wspace]

/-- **The dispatchers agree on flat machines**: over every sequence of events they make the same calls
but for those with `NSM_SUPER` and leave the same state, whatever the number of transitions, and the one
returns iff the other does. -/
theorem flatDispatchers_agree (hdepth : 2 ≤ cfg.depth) (hfast : 8 ≤ cfg.fast8)
    (hh : FlatStates ntop h) (sm : Nsm S W) (hs : sm.state ≠ ntop) (events : List (HsmEvent E))
    (hev : ∀ ev ∈ events, ev ≠ .nsm .super) :
    (∀ n, ∃ d d', hsmDispatchAll cfg h ntop n sm events = .ok d ∧
      fsmDispatchAll cfg h n sm events = .ok d' ∧ visible d.sent = visible d'.sent ∧ d.sm = d'.sm ∧
      d.returned = d'.returned) ∧
    (Terminates (hsmDispatchAll cfg h ntop) sm events ↔
      Terminates (fsmDispatchAll cfg h) sm events) := by
  have hall : ∀ n, ∃ d d', hsmDispatchAll cfg h ntop n sm events = .ok d ∧
      fsmDispatchAll cfg h n sm events = .ok d' ∧ visible d.sent = visible d'.sent ∧ d.sm = d'.sm ∧
      d.returned = d'.returned := by
    intro n
    unfold hsmDispatchAll fsmDispatchAll
    induction events generalizing sm with
    | nil => exact ⟨_, _, rfl, rfl, rfl, rfl, rfl⟩
    | cons ev events ih =>
      obtain ⟨f, g, hrun, hrun', hsm, hs', hret, hsent⟩ :=
        dispatch_flat hdepth hfast hh hs (hev ev List.mem_cons_self) n
      obtain ⟨d, d', hd, hd', hvis, heq, hreturned⟩ :=
        ih g.sm hs' (fun x hx => hev x (List.mem_cons_of_mem _ hx))
      unfold dispatchAll
      rw [hrun, hrun', ok_bind, ok_bind, ok_bind, ok_bind, hret, hsm]
      by_cases ht : g.ret = .transitTo
      · have hfalse : ¬ decide (g.ret ≠ .transitTo) = true := fun hc => of_decide_eq_true hc ht
        rw [if_neg hfalse, if_neg hfalse]
        exact ⟨_, _, rfl, rfl, hsent, rfl, rfl⟩
      · have htrue : decide (g.ret ≠ .transitTo) = true := decide_eq_true ht
        rw [if_pos htrue, if_pos htrue, hd, hd', ok_bind, ok_bind]
        refine ⟨_, _, rfl, rfl, ?_, heq, hreturned⟩
        rw [visible_append, visible_append, hsent, hvis]
  refine ⟨hall, ?_⟩
  constructor
  · rintro ⟨n, d, hd, hr⟩
    obtain ⟨d₁, d', hd₁, hd', _, _, hret⟩ := hall n
    obtain rfl := Except.ok.inj (hd.symm.trans hd₁)
    exact ⟨n, d', hd', hret ▸ hr⟩
  · rintro ⟨n, d, hd, hr⟩
    obtain ⟨d₁, d', hd₁, hd', _, _, hret⟩ := hall n
    obtain rfl := Except.ok.inj (hd.symm.trans hd')
    exact ⟨n, d₁, hd₁, hret ▸ hr⟩

end

instance neZero_three : NeZero 3 := ⟨by decide⟩

/-- a lamp with the states 1 and 2 that counts how often a state is entered -/
def lampStates : Nstates (Fin 3) ℕ Unit := fun s sm ev =>
  match ev with
  | .nsm .super => ({ sm with state := 0 }, .super)
  | .nsm .entry => ({ sm with wspace := sm.wspace + 1 }, .handled)
  | .nsm _ => (sm, .ignored)
  | .other _ => ({ sm with state := if s = 1 then 2 else 1 }, .transitTo)

theorem lampStates_flat : FlatStates 0 lampStates := by
  refine ⟨⟨fun _ _ _ => rfl, fun s sm ev _ hev => ?_, fun _ _ _ => nofun, fun _ _ _ => nofun,
    fun s sm ev _ _ ht => ?_, fun s sm sm' ev _ hev hw => ?_⟩, fun s sm ev _ hev ht => ?_⟩
  · rcases ev with (_ | _ | _ | _) | _
    · exact absurd rfl hev
    all_goals nofun
  · rcases ev with (_ | _ | _ | _) | _
    · cases ht
    · cases ht
    · cases ht
    · cases ht
    · show (if s = 1 then (2 : Fin 3) else 1) ≠ 0
      split
      · decide
      · decide
  · rcases ev with (_ | _ | _ | _) | _
    · exact absurd rfl hev
    · exact ⟨rfl, congrArg (· + 1) hw, nofun⟩
    · exact ⟨rfl, hw, nofun⟩
    · exact ⟨rfl, hw, nofun⟩
    · exact ⟨rfl, hw, fun _ => rfl⟩
  · rcases ev with (_ | _ | _ | _) | _
    · exact absurd rfl hev
    · rfl
    · rfl
    · rfl
    · exact absurd rfl ht

theorem flatDispatchers_agree_lamp :
    (∀ n, ∃ d d', hsmDispatchAll hsmHost lampStates 0 n ⟨1, 0⟩ [.other (), .other ()] = .ok d ∧
      fsmDispatchAll hsmHost lampStates n ⟨1, 0⟩ [.other (), .other ()] = .ok d' ∧
      visible d.sent = visible d'.sent ∧ d.sm = d'.sm ∧ d.returned = d'.returned) ∧
    (Terminates (hsmDispatchAll hsmHost lampStates 0) ⟨1, 0⟩ [.other (), .other ()] ↔
      Terminates (fsmDispatchAll hsmHost lampStates) ⟨1, 0⟩ [.other (), .other ()]) :=
  flatDispatchers_agree (by decide) (by decide) lampStates_flat ⟨1, 0⟩ (by decide)
    [.other (), .other ()] (by simp)

/-- a lamp whose state 1 writes itself into `sm->state` when it is left -/
def stuckStates : Nstates (Fin 3) Unit Unit := fun _ sm ev =>
  match ev with
  | .nsm .super => ({ sm with state := 0 }, .super)
  | .nsm .exit => ({ sm with state := 1 }, .handled)
  | .nsm _ => (sm, .handled)
  | .other _ => ({ sm with state := 2 }, .transitTo)

theorem stuckStates_flat : FlatAnswers 0 stuckStates := by
  refine ⟨fun _ _ _ => rfl, fun s sm ev _ hev => ?_, fun _ _ _ => nofun, fun _ _ _ => nofun,
    fun s sm ev _ _ ht => ?_, fun s sm sm' ev _ hev hw => ?_⟩
  · rcases ev with (_ | _ | _ | _) | _
    · exact absurd rfl hev
    all_goals nofun
  · rcases ev with (_ | _ | _ | _) | _
    · cases ht
    · cases ht
    · cases ht
    · cases ht
    · show (2 : Fin 3) ≠ 0
      decide
  · rcases ev with (_ | _ | _ | _) | _
    · exact absurd rfl hev
    · exact ⟨rfl, rfl, nofun⟩
    · exact ⟨rfl, rfl, nofun⟩
    · exact ⟨rfl, rfl, nofun⟩
    · exact ⟨rfl, rfl, fun _ => rfl⟩

/-- the dispatchers part when `sm->state` is written on `NSM_EXIT`, the one of flat machines then enters
another state; and a path of one state has no place for `ntop_state` -/
theorem flatDispatchers_differ :
    (FlatAnswers 0 stuckStates ∧ ∃ d d',
      hsmDispatchAll hsmHost stuckStates 0 1 ⟨1, ()⟩ [.other ()] = .ok d ∧
      fsmDispatchAll hsmHost stuckStates 1 ⟨1, ()⟩ [.other ()] = .ok d' ∧
      d.returned = true ∧ d'.returned = true ∧ d.sm = ⟨2, ()⟩ ∧ d'.sm = ⟨1, ()⟩ ∧
      visible d.sent ≠ visible d'.sent) ∧
    (FlatStates 0 lampStates ∧
      hsmDispatchAll ⟨1, 8, false, true⟩ lampStates 0 1 ⟨1, 0⟩ [.other ()] = .error .bounds ∧
      ∃ d, fsmDispatchAll ⟨1, 8, false, true⟩ lampStates 1 ⟨1, 0⟩ [.other ()] = .ok d ∧
        d.returned = true) :=
  ⟨⟨stuckStates_flat, _, _, rfl, rfl, rfl, rfl, rfl, rfl, by decide⟩, lampStates_flat, rfl, _, rfl, rfl⟩

end NeonEds

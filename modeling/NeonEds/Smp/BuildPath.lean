import NeonEds.Lib.ParentTree
import NeonEds.Smp.Hsm

/-!
# The path of a transition (source/smp.c)

`HsmMeet t l i d a b`: for the leaf `l`, the source `i` states above it and the destination `d`,
the transition leaves `a` states and enters `b`.  `hsmBuildPath_ok`: `hsm_build_path` finds these
numbers, with the states to leave in `exit` and the states to enter in `entry`.
-/

set_option linter.unusedSectionVars false

namespace NeonEds
open Exec
variable {S W E : Type} [DecidableEq S]

/-- the way up from a state fits in a path, and its places in the index of one -/
structure HsmFits (cfg : HsmConfig) (t : ParentTree S) : Prop where
  depth_lt : ∀ s, t.depth s < cfg.depth
  index_lt : ∀ s, t.depth s < 2 ^ cfg.fast8

/-- what the state functions keep to -/
structure NstatesOk (t : ParentTree S) (h : Nstates S W E) : Prop where
  /-- `ntop_state` -/
  ntop : ∀ sm ev, h t.root sm ev = (sm, .ignored)
  /-- `NSM_SUPER` is answered by `naction_super` -/
  super : ∀ s sm, s ≠ t.root → (h s sm (.nsm .super)).2 = .super
  /-- `naction_super` names the parent -/
  parent : ∀ s sm ev, s ≠ t.root → ev ≠ .nsm .entry → ev ≠ .nsm .exit →
    (h s sm ev).2 = .super → (h s sm ev).1.state = t.parent s
  entry : ∀ s sm, (h s sm (.nsm .entry)).2 ≠ .transitTo
  exit : ∀ s sm, (h s sm (.nsm .exit)).2 ≠ .transitTo
  /-- `naction_transit_to` names a state other than `ntop_state` -/
  target : ∀ s sm ev, (h s sm ev).2 = .transitTo → (h s sm ev).1.state ≠ t.root

section
variable (t : ParentTree S)

/-- `a` states are left and `b` entered -/
inductive HsmMeet (l : S) (i : ℕ) (d : S) : ℕ → ℕ → Prop where
  /-- path a -/
  | self (h : t.up i l = d) : HsmMeet l i d (i + 1) 1
  /-- paths b and e -/
  | source {b : ℕ} (h1 : 1 ≤ b) (hb : b ≤ t.depth d) (h : t.up i l = t.up b d) : HsmMeet l i d i b
  /-- path d -/
  | parent (h : t.up (i + 1) l = d) : HsmMeet l i d (i + 1) 0
  /-- paths c, f and g -/
  | common {a b : ℕ} (hi : i < a) (ha : a ≤ t.depth l) (h1 : 1 ≤ b) (hb : b ≤ t.depth d)
      (h : t.up a l = t.up b d) (hs : ∀ b' ≤ t.depth d, t.up i l ≠ t.up b' d)
      (hp : t.up (i + 1) l ≠ d)
      (hmin : ∀ a', i < a' → a' < a → ∀ b', 1 ≤ b' → b' ≤ t.depth d → t.up a' l ≠ t.up b' d) :
      HsmMeet l i d a b

/-- `exit` holds the way up from `l`, `entry` the way up from `d` -/
structure HsmPaths (l d : S) (m k : ℕ) (f : HsmFrame S W E) : Prop where
  exit_buff : ∀ j ≤ m, f.exit.buff j = some (t.up j l)
  entry_buff : ∀ j ≤ k, f.entry.buff j = some (t.up j d)
  exit_le : m ≤ t.depth l
  entry_le : k ≤ t.depth d

/-- between `f` and `f'` states below `ntop_state` were asked for their super state, nothing else
was sent -/
def HsmQueries (f f' : HsmFrame S W E) : Prop :=
  ∃ q : List (HsmCall S E), f'.sent = f.sent ++ q ∧
    ∀ c ∈ q, c.state ≠ t.root ∧ c.event = .nsm .super ∧ c.answer = .super

/-- what `hsm_build_path` finds -/
structure HsmFound (l : S) (i : ℕ) (d : S) (f f' : HsmFrame S W E) : Prop where
  meet : HsmMeet t l i d f'.exit.index f'.entry.index
  paths : ∃ m k, HsmPaths t l d m k f' ∧ f'.exit.index ≤ m + 1 ∧ f'.entry.index ≤ k + 1
  queries : HsmQueries t f f'

end

variable {cfg : HsmConfig} {t : ParentTree S} {h : Nstates S W E}

namespace HsmMeet
variable {l d : S} {i a b : ℕ}

theorem exit_le (hm : HsmMeet t l i d a b) (hi : i < t.depth l) : a ≤ t.depth l := by
  cases hm with
  | self h => omega
  | source h1 hb h => omega
  | parent h => omega
  | common hi ha h1 hb h hs hp hmin => exact ha

theorem entry_le (hm : HsmMeet t l i d a b) (hd : d ≠ t.root) : b ≤ t.depth d := by
  cases hm with
  | self h => exact ParentTree.depth_pos hd
  | source h1 hb h => exact hb
  | parent h => exact Nat.zero_le _
  | common hi ha h1 hb h hs hp hmin => exact hb

theorem up_eq (hm : HsmMeet t l i d a b) : t.up a l = t.up b d := by
  cases hm with
  | self h => rw [ParentTree.up_succ, h, ParentTree.up_succ, ParentTree.up_zero]
  | source h1 hb h => exact h
  | parent h => exact h
  | common hi ha h1 hb h hs hp hmin => exact h

end HsmMeet

namespace HsmQueries
variable {f f' f'' : HsmFrame S W E}

theorem of_sent (hs : f'.sent = f.sent) : HsmQueries t f f' :=
  ⟨[], by rw [hs, List.append_nil], by simp⟩

theorem trans (hq : HsmQueries t f f') (hq' : HsmQueries t f' f'') : HsmQueries t f f'' := by
  obtain ⟨q, hs, hall⟩ := hq
  obtain ⟨q', hs', hall'⟩ := hq'
  refine ⟨q ++ q', by rw [hs', hs, List.append_assoc], ?_⟩
  intro c hc
  rcases List.mem_append.mp hc with hc | hc
  · exact hall c hc
  · exact hall' c hc

end HsmQueries

/-! ## single steps -/

theorem HsmPath.read_eq {p : HsmPath S} {k : ℕ} {s : S} (hk : k < cfg.depth)
    (hs : p.buff k = some s) : p.read cfg k = .ok s := by
  unfold HsmPath.read
  rw [if_pos hk, hs, deref_some]

theorem HsmPath.write_eq {k : ℕ} (hk : k < cfg.depth) (p : HsmPath S) (s : S) :
    p.write cfg k s = .ok ⟨Function.update p.buff k (some s), p.index⟩ := by
  unfold HsmPath.write
  rw [if_pos hk]

theorem HsmPath.indexInc_eq {p : HsmPath S} (hp : p.index + 1 < 2 ^ cfg.fast8) :
    p.indexInc cfg = ⟨p.buff, p.index + 1⟩ := by
  unfold HsmPath.indexInc
  rw [Nat.mod_eq_of_lt hp]

theorem HsmPath.indexDec_eq {p : HsmPath S} (hp : 0 < p.index) :
    p.indexDec cfg = .ok ⟨p.buff, p.index - 1⟩ := by
  unfold HsmPath.indexDec
  rw [if_pos hp]

theorem hsmGetStateSuper_eq (hh : NstatesOk t h) (f : HsmFrame S W E) {s : S} (hs : s ≠ t.root) :
    hsmGetStateSuper cfg h f s = .ok { f with
      sm := (h s f.sm (.nsm .super)).1, sent := f.sent ++ [⟨s, .nsm .super, .super⟩] } := by
  have ha := hh.super s f.sm hs
  unfold hsmGetStateSuper
  dsimp only [hsmCall]
  rw [ha, require_of rfl, ok_bind]

section
variable {l d : S} {m k : ℕ} {f : HsmFrame S W E} (hc : HsmFits cfg t) (hf : HsmPaths t l d m k f)
include hc hf

theorem hsmPathsMeet_eq (hx : f.exit.index ≤ m) (he : f.entry.index ≤ k) :
    hsmPathsMeet cfg f = .ok (t.up f.exit.index l = t.up f.entry.index d) := by
  have := hf.exit_le
  have := hf.entry_le
  have := hc.depth_lt l
  have := hc.depth_lt d
  unfold hsmPathsMeet
  rw [HsmPath.read_eq (by omega) (hf.exit_buff _ hx), ok_bind,
    HsmPath.read_eq (by omega) (hf.entry_buff _ he), ok_bind]

end

section
variable {l d : S} {m k : ℕ} {f : HsmFrame S W E} (hf : HsmPaths t l d m k f)
include hf

theorem hsmEntryInc_ok (hc : HsmFits cfg t) (he : f.entry.index < t.depth d) :
    HsmPaths t l d m k (hsmEntryInc cfg f) ∧ (hsmEntryInc cfg f).exit.index = f.exit.index ∧
      (hsmEntryInc cfg f).entry.index = f.entry.index + 1 ∧
      (hsmEntryInc cfg f).sent = f.sent := by
  have := hc.index_lt d
  unfold hsmEntryInc
  rw [HsmPath.indexInc_eq (by omega)]
  exact ⟨⟨hf.exit_buff, hf.entry_buff, hf.exit_le, hf.entry_le⟩, rfl, rfl, rfl⟩

theorem hsmExitInc_ok (hc : HsmFits cfg t) (hx : f.exit.index < t.depth l) :
    HsmPaths t l d m k (hsmExitInc cfg f) ∧ (hsmExitInc cfg f).exit.index = f.exit.index + 1 ∧
      (hsmExitInc cfg f).entry.index = f.entry.index ∧ (hsmExitInc cfg f).sent = f.sent := by
  have := hc.index_lt l
  unfold hsmExitInc
  rw [HsmPath.indexInc_eq (by omega)]
  exact ⟨⟨hf.exit_buff, hf.entry_buff, hf.exit_le, hf.entry_le⟩, rfl, rfl, rfl⟩

theorem hsmEntryDec_ok (cfg : HsmConfig) (he : 0 < f.entry.index) :
    ∃ f', hsmEntryDec cfg f = .ok f' ∧ HsmPaths t l d m k f' ∧ f'.exit.index = f.exit.index ∧
      f'.entry.index = f.entry.index - 1 ∧ f'.sent = f.sent := by
  unfold hsmEntryDec
  rw [HsmPath.indexDec_eq he, ok_bind]
  exact ⟨_, rfl, ⟨hf.exit_buff, hf.entry_buff, hf.exit_le, hf.entry_le⟩, rfl, rfl, rfl⟩

theorem hsmExitDec_ok (cfg : HsmConfig) (hx : 0 < f.exit.index) :
    ∃ f', hsmExitDec cfg f = .ok f' ∧ HsmPaths t l d m k f' ∧
      f'.exit.index = f.exit.index - 1 ∧ f'.entry.index = f.entry.index ∧ f'.sent = f.sent := by
  unfold hsmExitDec
  rw [HsmPath.indexDec_eq hx, ok_bind]
  exact ⟨_, rfl, ⟨hf.exit_buff, hf.entry_buff, hf.exit_le, hf.entry_le⟩, rfl, rfl, rfl⟩

end

theorem update_up {buff : ℕ → Option S} {s : S} {m : ℕ} (hb : ∀ j ≤ m, buff j = some (t.up j s)) :
    ∀ j ≤ m + 1, Function.update buff (m + 1) (some (t.parent (t.up m s))) j = some (t.up j s) := by
  intro j hj
  rcases Nat.lt_or_eq_of_le hj with hj | hj
  · rw [Function.update_of_ne (by omega), hb j (by omega)]
  · rw [hj, Function.update_self, ParentTree.up_succ]

section
variable {l d : S} {m k : ℕ} {f : HsmFrame S W E} (hc : HsmFits cfg t) (hh : NstatesOk t h)
  (hf : HsmPaths t l d m k f)
include hc hh hf

theorem hsmEntryUp_ok (he : f.entry.index = k) (hk : k < t.depth d) :
    ∃ f', hsmEntryUp cfg h f = .ok f' ∧ HsmPaths t l d m (k + 1) f' ∧ f'.exit = f.exit ∧
      f'.entry.index = k + 1 ∧ HsmQueries t f f' := by
  have hd := hc.depth_lt d
  have hw := hc.index_lt d
  have hne := ParentTree.up_ne_root hk
  have hp := hh.parent _ f.sm (.nsm .super) hne (by simp) (by simp) (hh.super _ _ hne)
  have hk' : f.entry.index + 1 < cfg.depth := by omega
  unfold hsmEntryUp
  rw [he, HsmPath.read_eq (by omega) (hf.entry_buff k le_rfl), ok_bind,
    HsmPath.indexInc_eq (by omega), hsmGetStateSuper_eq hh _ hne, ok_bind,
    HsmPath.write_eq hk', ok_bind]
  refine ⟨_, rfl, ⟨hf.exit_buff, ?_, hf.exit_le, hk⟩, rfl, by rw [he], _, rfl, ?_⟩
  · rw [he, hp]
    exact update_up hf.entry_buff
  · intro c hc
    rw [List.mem_singleton.mp hc]
    exact ⟨hne, rfl, rfl⟩

theorem hsmExitUp_ok (hx : f.exit.index = m) (hm : m < t.depth l) :
    ∃ f', hsmExitUp cfg h f = .ok f' ∧ HsmPaths t l d (m + 1) k f' ∧ f'.entry = f.entry ∧
      f'.exit.index = m + 1 ∧ HsmQueries t f f' := by
  have hd := hc.depth_lt l
  have hw := hc.index_lt l
  have hne := ParentTree.up_ne_root hm
  have hp := hh.parent _ f.sm (.nsm .super) hne (by simp) (by simp) (hh.super _ _ hne)
  have hm' : f.exit.index + 1 < cfg.depth := by omega
  unfold hsmExitUp
  rw [hx, HsmPath.read_eq (by omega) (hf.exit_buff m le_rfl), ok_bind,
    HsmPath.indexInc_eq (by omega), hsmGetStateSuper_eq hh _ hne, ok_bind,
    HsmPath.write_eq hm', ok_bind]
  refine ⟨_, rfl, ⟨?_, hf.entry_buff, hm, hf.entry_le⟩, rfl, by rw [hx], _, rfl, ?_⟩
  · rw [hx, hp]
    exact update_up hf.exit_buff
  · intro c hc
    rw [List.mem_singleton.mp hc]
    exact ⟨hne, rfl, rfl⟩

end

/-! ## the searches -/

/-- no state of the way up from `d`, the first excepted, is met by `a` steps up from `l` -/
def HsmApart (t : ParentTree S) (l d : S) (a : ℕ) : Prop :=
  ∀ b, 1 ≤ b → b ≤ t.depth d → t.up a l ≠ t.up b d

theorem not_met_succ {l d : S} {a b : ℕ} (h : ∀ b', 1 ≤ b' → b' ≤ b → t.up a l ≠ t.up b' d)
    (hb : t.up a l ≠ t.up (b + 1) d) : ∀ b', 1 ≤ b' → b' ≤ b + 1 → t.up a l ≠ t.up b' d := by
  intro b' h1 hle
  rcases Nat.lt_or_eq_of_le hle with hlt | rfl
  · exact h b' h1 (by omega)
  · exact hb

theorem hsmScanEntry_ok (hc : HsmFits cfg t) {l d : S} {m : ℕ} :
    ∀ (n : ℕ) (f : HsmFrame S W E), HsmPaths t l d m (t.depth d) f → f.exit.index = m →
      f.entry.index < t.depth d → t.depth d - f.entry.index ≤ n →
      (∀ b, 1 ≤ b → b ≤ f.entry.index → t.up m l ≠ t.up b d) →
      ∃ f' r, hsmScanEntry cfg t.root n f = .ok (f', r) ∧ HsmPaths t l d m (t.depth d) f' ∧
        f'.exit.index = m ∧ f'.sent = f.sent ∧
        (r = true → 1 ≤ f'.entry.index ∧ f'.entry.index ≤ t.depth d ∧
          t.up m l = t.up f'.entry.index d) ∧
        (r = false → HsmApart t l d m) := by
  intro n
  induction n with
  | zero =>
    intro f _ _ hlt hn
    omega
  | succ n ih =>
    intro f hf hx hlt hn hno
    have hd := hc.depth_lt d
    obtain ⟨hf1, hx1, he1, hs1⟩ := hsmEntryInc_ok hf hc hlt
    rw [hsmScanEntry]
    generalize hsmEntryInc cfg f = f1 at hf1 hx1 he1 hs1 ⊢
    rw [hx] at hx1
    rw [hsmPathsMeet_eq hc hf1 hx1.le (he1 ▸ hlt), ok_bind, hx1, he1]
    by_cases hmeet : t.up m l = t.up (f.entry.index + 1) d
    · rw [if_pos (decide_eq_true hmeet)]
      refine ⟨f1, true, rfl, hf1, hx1, hs1, ?_, (by intro hr; cases hr)⟩
      intro _
      rw [he1]
      exact ⟨Nat.le_add_left 1 _, hlt, hmeet⟩
    · have hno' := not_met_succ hno hmeet
      rw [if_neg (by simpa using hmeet),
        HsmPath.read_eq (show f.entry.index + 1 < cfg.depth by omega) (hf1.entry_buff _ hlt), ok_bind]
      by_cases htop : t.up (f.entry.index + 1) d = t.root
      · rw [if_pos htop]
        rw [ParentTree.up_eq_root hlt] at htop
        refine ⟨f1, false, rfl, hf1, hx1, hs1, (by intro hr; cases hr), ?_⟩
        intro _ b h1 hb
        exact hno' b h1 (by omega)
      · rw [if_neg htop]
        rw [ParentTree.up_eq_root hlt] at htop
        rw [← he1] at hno'
        obtain ⟨f2, r, hok, hf2, hx2, hs2, htrue, hfalse⟩ :=
          ih f1 hf1 hx1 (by omega) (by omega) hno'
        exact ⟨f2, r, hok, hf2, hx2, hs2.trans hs1, htrue, hfalse⟩

section
variable {l d : S} {i : ℕ} (hc : HsmFits cfg t) (hh : NstatesOk t h) (hi : i < t.depth l)
  (hd : d ≠ t.root)
include hc hh hd

theorem hsmPathG_ok (hs : ∀ b ≤ t.depth d, t.up i l ≠ t.up b d) (hp : t.up (i + 1) l ≠ d) :
    ∀ (n : ℕ) (m : ℕ) (f : HsmFrame S W E), HsmPaths t l d m (t.depth d) f → f.exit.index = m →
      i < m → t.depth l - m < n → (∀ a, i < a → a ≤ m → HsmApart t l d a) →
      ∃ f', hsmPathG cfg h t.root n f = .ok f' ∧ HsmFound t l i d f f' := by
  have hd1 := ParentTree.depth_pos hd
  intro n
  induction n with
  | zero =>
    intro m f _ _ _ hn
    omega
  | succ n ih =>
    intro m f hf hx him hn hno
    -- the state reached is not `ntop_state`, which is on the other way
    have hm : m < t.depth l := by
      apply Nat.lt_of_le_of_ne hf.exit_le
      intro hm
      apply hno m him le_rfl (t.depth d) hd1 le_rfl
      rw [(ParentTree.up_eq_root hf.exit_le).mpr hm, (ParentTree.up_eq_root le_rfl).mpr rfl]
    obtain ⟨f1, hup, hf1, he1, hx1, hq1⟩ := hsmExitUp_ok hc hh hf hx hm
    obtain ⟨f2, r, hscan, hf2, hx2, hs2, htrue, hfalse⟩ := hsmScanEntry_ok hc cfg.depth
      { f1 with entry := { f1.entry with index := 0 } }
      ⟨hf1.exit_buff, hf1.entry_buff, hf1.exit_le, hf1.entry_le⟩ hx1 hd1
      (hc.depth_lt d).le (by intro b h1 hb; change b ≤ 0 at hb; omega)
    have hq2 : HsmQueries t f f2 := hq1.trans (HsmQueries.of_sent hs2)
    rw [hsmPathG, hup, ok_bind, hscan, ok_bind]
    cases r with
    | true =>
      obtain ⟨h1, hle, heq⟩ := htrue rfl
      refine ⟨f2, rfl, ?_, ⟨m + 1, t.depth d, hf2, by omega, by omega⟩, hq2⟩
      rw [hx2]
      exact .common (by omega) hm h1 hle heq hs hp (fun a ha ham => hno a ha (by omega))
    | false =>
      have hno' : ∀ a, i < a → a ≤ m + 1 → HsmApart t l d a := by
        intro a ha ham
        rcases Nat.lt_or_eq_of_le ham with ham | rfl
        · exact hno a ha (by omega)
        · exact hfalse rfl
      obtain ⟨f3, hok, hmeet, hpaths, hq⟩ := ih (m + 1) f2 hf2 hx2 (by omega) (by omega) hno'
      exact ⟨f3, hok, hmeet, hpaths, hq2.trans hq⟩

include hi

theorem hsmPathF_ok (hs : ∀ b ≤ t.depth d, t.up i l ≠ t.up b d) (hp : t.up (i + 1) l ≠ d)
    (hp1 : t.up (i + 1) l ≠ t.up 1 d) :
    ∀ (n : ℕ) (f : HsmFrame S W E), HsmPaths t l d (i + 1) (t.depth d) f →
      f.exit.index = i + 1 → 1 ≤ f.entry.index → f.entry.index ≤ t.depth d → f.entry.index ≤ n →
      (∀ b, f.entry.index < b → b ≤ t.depth d → t.up (i + 1) l ≠ t.up b d) →
      ∃ f', hsmPathF cfg h t.root n f = .ok f' ∧ HsmFound t l i d f f' := by
  intro n
  induction n with
  | zero =>
    intro f _ _ h1 _ hn
    omega
  | succ n ih =>
    intro f hf hx h1 hle hn hno
    rw [hsmPathF]
    by_cases he : f.entry.index = 1
    · rw [if_pos he]
      apply hsmPathG_ok hc hh hd hs hp cfg.depth (i + 1) f hf hx (by omega)
      · have := hc.depth_lt l
        omega
      · intro a ha ham b hb1 hb
        obtain rfl : a = i + 1 := by omega
        rcases Nat.lt_or_eq_of_le hb1 with hb1 | rfl
        · exact hno b (by omega) hb
        · exact hp1
    · rw [if_neg he, hsmPathsMeet_eq hc hf hx.le hle, ok_bind, hx]
      by_cases hmeet : t.up (i + 1) l = t.up f.entry.index d
      · rw [if_pos (decide_eq_true hmeet)]
        refine ⟨f, rfl, ?_, ⟨i + 1, t.depth d, hf, by omega, by omega⟩, HsmQueries.of_sent rfl⟩
        rw [hx]
        exact .common (by omega) hi h1 hle hmeet hs hp (fun a ha ham => by omega)
      · obtain ⟨f1, hdec, hf1, hx1, he1, hs1⟩ := hsmEntryDec_ok hf cfg h1
        rw [if_neg (by simpa using hmeet), hdec, ok_bind]
        have hno' : ∀ b, f1.entry.index < b → b ≤ t.depth d → t.up (i + 1) l ≠ t.up b d := by
          intro b hb hbd
          rcases Nat.lt_or_ge f.entry.index b with hlt | hge
          · exact hno b hlt hbd
          · obtain rfl : b = f.entry.index := by omega
            exact hmeet
        obtain ⟨f2, hok, hmeet', hpaths, hq⟩ := ih f1 hf1 (hx1.trans hx) (by omega) (by omega)
          (by omega) hno'
        exact ⟨f2, hok, hmeet', hpaths, (HsmQueries.of_sent hs1).trans hq⟩

theorem hsmPathE_ok (h0 : t.up i l ≠ d) (hp : t.up (i + 1) l ≠ d)
    (hp1 : t.up (i + 1) l ≠ t.up 1 d) :
    ∀ (n k : ℕ) (f : HsmFrame S W E), HsmPaths t l d (i + 1) k f → f.exit.index = i →
      f.entry.index = k → 1 ≤ k → t.depth d - k < n →
      (∀ b, 1 ≤ b → b ≤ k → t.up i l ≠ t.up b d) →
      ∃ f', hsmPathE cfg h t.root n f = .ok f' ∧ HsmFound t l i d f f' := by
  intro n
  induction n with
  | zero =>
    intro k f _ _ _ _ hn
    omega
  | succ n ih =>
    intro k f hf hx he h1 hn hno
    have hk := hf.entry_le
    have hlt := hc.depth_lt d
    rw [hsmPathE, he, HsmPath.read_eq (by omega) (hf.entry_buff k le_rfl), ok_bind]
    by_cases htop : t.up k d = t.root
    · obtain ⟨hf1, hx1, he1, hs1⟩ := hsmExitInc_ok hf hc (by omega)
      rw [if_pos htop]
      obtain rfl := (ParentTree.up_eq_root hk).mp htop
      have hs : ∀ b ≤ t.depth d, t.up i l ≠ t.up b d := by
        intro b hb
        cases b with
        | zero => exact h0
        | succ b => exact hno (b + 1) (by omega) hb
      obtain ⟨f2, hok, hmeet, hpaths, hq⟩ := hsmPathF_ok hc hh hi hd hs hp hp1 cfg.depth _ hf1
        (by omega) (by omega) (by omega) (by omega) (by intro b hb hbd; omega)
      exact ⟨f2, hok, hmeet, hpaths, (HsmQueries.of_sent hs1).trans hq⟩
    · rw [if_neg htop]
      rw [ParentTree.up_eq_root hk] at htop
      obtain ⟨f1, hup, hf1, hx1, he1, hq1⟩ := hsmEntryUp_ok hc hh hf he (by omega)
      have hxi : f1.exit.index = i := by rw [hx1, hx]
      rw [hup, ok_bind, hsmPathsMeet_eq hc hf1 (by omega) he1.le, ok_bind, hxi, he1]
      by_cases hmeet : t.up i l = t.up (k + 1) d
      · rw [if_pos (decide_eq_true hmeet)]
        refine ⟨f1, rfl, ?_, ⟨i + 1, k + 1, hf1, by omega, by omega⟩, hq1⟩
        rw [hxi, he1]
        exact .source (by omega) (by omega) hmeet
      · rw [if_neg (by simpa using hmeet)]
        obtain ⟨f2, hok, hmeet', hpaths, hq⟩ :=
          ih (k + 1) f1 hf1 hxi he1 (by omega) (by omega) (not_met_succ hno hmeet)
        exact ⟨f2, hok, hmeet', hpaths, hq1.trans hq⟩

theorem hsmPathD_ok (h0 : t.up i l ≠ d) (h1 : t.up i l ≠ t.up 1 d)
    (hp1 : t.up (i + 1) l ≠ t.up 1 d) {f : HsmFrame S W E} (hf : HsmPaths t l d (i + 1) 1 f)
    (hx : f.exit.index = i + 1) (he : f.entry.index = 1) :
    ∃ f', hsmPathD cfg h t.root f = .ok f' ∧ HsmFound t l i d f f' := by
  have hd1 := ParentTree.depth_pos hd
  have hlt := hc.depth_lt d
  obtain ⟨f1, hdec, hf1, hx1, he1, hs1⟩ := hsmEntryDec_ok hf cfg (by omega)
  have hq1 : HsmQueries t f f1 := .of_sent hs1
  rw [hx] at hx1
  rw [he, Nat.sub_self] at he1
  unfold hsmPathD
  rw [hdec, ok_bind, hsmPathsMeet_eq hc hf1 (by omega) (by omega), ok_bind, hx1, he1,
    ParentTree.up_zero]
  by_cases hp : t.up (i + 1) l = d
  · rw [if_pos (decide_eq_true hp)]
    refine ⟨f1, rfl, ?_, ⟨i + 1, 1, hf1, by omega, by omega⟩, hq1⟩
    rw [hx1, he1]
    exact .parent hp
  · obtain ⟨f2, hdec', hf2, hx2, he2, hs2⟩ := hsmExitDec_ok hf1 cfg (by omega)
    obtain ⟨hf3, hx3, he3, hs3⟩ := hsmEntryInc_ok hf2 hc (by omega)
    rw [if_neg (by simpa using hp), hdec', ok_bind]
    have hno : ∀ b, 1 ≤ b → b ≤ 1 → t.up i l ≠ t.up b d := by
      intro b hb1 hb
      obtain rfl : b = 1 := by omega
      exact h1
    obtain ⟨f4, hok, hmeet, hpaths, hq⟩ := hsmPathE_ok hc hh hi hd h0 hp hp1 cfg.depth 1 _ hf3
      (by omega) (by omega) le_rfl (by omega) hno
    exact ⟨f4, hok, hmeet, hpaths, (hq1.trans (.of_sent (hs3.trans hs2))).trans hq⟩

theorem hsmPathC_ok (h0 : t.up i l ≠ d) (h1 : t.up i l ≠ t.up 1 d) {f : HsmFrame S W E}
    (hf : HsmPaths t l d i 1 f) (hx : f.exit.index = i) (he : f.entry.index = 1) :
    ∃ f', hsmPathC cfg h t.root f = .ok f' ∧ HsmFound t l i d f f' := by
  have hd1 := ParentTree.depth_pos hd
  obtain ⟨f1, hup, hf1, he1, hx1, hq1⟩ := hsmExitUp_ok hc hh hf hx hi
  rw [← he1] at he
  unfold hsmPathC
  rw [hup, ok_bind, hsmPathsMeet_eq hc hf1 hx1.le he.le, ok_bind, hx1, he]
  by_cases hp1 : t.up (i + 1) l = t.up 1 d
  · rw [if_pos (decide_eq_true hp1)]
    refine ⟨f1, rfl, ?_, ⟨i + 1, 1, hf1, by omega, by omega⟩, hq1⟩
    rw [hx1, he]
    -- the source is as deep as the destination
    have hdepth := ParentTree.depth_eq_of_up_eq hi hd1 hp1
    refine .common (by omega) hi le_rfl hd1 hp1 ?_ ?_ (fun a ha ham => by omega)
    · intro b hb hs
      have hdepth' := ParentTree.depth_eq_of_up_eq hi.le hb hs
      obtain rfl : b = 0 := by omega
      exact h0 hs
    · intro hp
      have hdepth' := ParentTree.depth_eq_of_up_eq hi (Nat.zero_le _) hp
      omega
  · rw [if_neg (by simpa using hp1)]
    obtain ⟨f2, hok, hmeet, hpaths, hq⟩ := hsmPathD_ok hc hh hi hd h0 h1 hp1 hf1 hx1 he
    exact ⟨f2, hok, hmeet, hpaths, hq1.trans hq⟩

theorem hsmPathB_ok (h0 : t.up i l ≠ d) {f : HsmFrame S W E}
    (hf : HsmPaths t l d i 0 f) (hx : f.exit.index = i) (he : f.entry.index = 0) :
    ∃ f', hsmPathB cfg h t.root f = .ok f' ∧ HsmFound t l i d f f' := by
  have hd1 := ParentTree.depth_pos hd
  obtain ⟨f1, hup, hf1, hx1, he1, hq1⟩ := hsmEntryUp_ok hc hh hf he hd1
  rw [← hx1] at hx
  unfold hsmPathB
  rw [hup, ok_bind, hsmPathsMeet_eq hc hf1 hx.le he1.le, ok_bind, hx, he1]
  by_cases h1 : t.up i l = t.up 1 d
  · rw [if_pos (decide_eq_true h1)]
    refine ⟨f1, rfl, ?_, ⟨i, 1, hf1, by omega, by omega⟩, hq1⟩
    rw [hx, he1]
    exact .source le_rfl hd1 h1
  · rw [if_neg (by simpa using h1)]
    obtain ⟨f2, hok, hmeet, hpaths, hq⟩ := hsmPathC_ok hc hh hi hd h0 h1 hf1 hx he1
    exact ⟨f2, hok, hmeet, hpaths, hq1.trans hq⟩

theorem hsmBuildPath_ok {f : HsmFrame S W E} (hf : HsmPaths t l d i 0 f)
    (hx : f.exit.index = i + 1) :
    ∃ f', hsmBuildPath cfg h t.root f = .ok f' ∧ HsmFound t l i d f f' := by
  have hd1 := ParentTree.depth_pos hd
  obtain ⟨f1, hdec, hf1, hx1, he1, hs1⟩ := hsmExitDec_ok
    (f := { f with entry := { f.entry with index := 0 } })
    ⟨hf.exit_buff, hf.entry_buff, hf.exit_le, hf.entry_le⟩ cfg (by show 0 < f.exit.index; omega)
  have hq1 : HsmQueries t f f1 := .of_sent hs1
  replace hx1 : f1.exit.index = i := by rw [hx1]; show f.exit.index - 1 = i; omega
  replace he1 : f1.entry.index = 0 := he1
  unfold hsmBuildPath
  rw [hdec, ok_bind, hsmPathsMeet_eq hc hf1 hx1.le he1.le, ok_bind, hx1, he1, ParentTree.up_zero]
  by_cases h0 : t.up i l = d
  · obtain ⟨hf2, hx2, he2, hs2⟩ := hsmEntryInc_ok hf1 hc (by omega)
    obtain ⟨hf3, hx3, he3, hs3⟩ := hsmExitInc_ok hf2 hc (by omega)
    rw [if_pos (decide_eq_true h0)]
    refine ⟨_, rfl, ?_, ⟨i, 0, hf3, by omega, by omega⟩, hq1.trans (.of_sent (hs3.trans hs2))⟩
    rw [hx3, hx2, hx1, he3, he2, he1]
    exact .self h0
  · rw [if_neg (by simpa using h0)]
    obtain ⟨f2, hok, hmeet, hpaths, hq⟩ := hsmPathB_ok hc hh hi hd h0 hf1 hx1 he1
    exact ⟨f2, hok, hmeet, hpaths, hq1.trans hq⟩

end

end NeonEds

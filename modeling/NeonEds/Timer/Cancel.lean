import NeonEds.Timer.Isr

/-!
# Callbacks that cancel timers

`ncore_timer_isr` reads the next timer of the list before it makes a callback.  A callback that
cancels this timer leaves the loop with a node that is off the list; when the timer has expired in
the same tick its `rtick` is zero, so the loop goes on with it.

* `KeepsNext`               no callback cancels the timer that expires right after its own;
* `Sim.isrCancel_step`      one iteration with a callback that cancels timers;
* `isrSound_iff_keepsNext`  an ISR call whose callbacks only cancel is sound iff `KeepsNext`.
-/

set_option linter.unusedSectionVars false

namespace NeonEds
open Exec DeltaList

variable {T F : Type} [DecidableEq T]

def OnlyCancels (cs : List (TimerCall T F)) : Prop := ∀ c ∈ cs, ∃ t, c = TimerCall.cancel t

theorem OnlyCancels.tail {c : TimerCall T F} {cs : List (TimerCall T F)}
    (h : OnlyCancels (c :: cs)) : OnlyCancels cs := fun x hx => h x (List.mem_cons_of_mem _ hx)

/-- the timers that some calls do not cancel -/
def kept (cs : List (TimerCall T F)) (E : List T) : List T := E.filter (fun u => u ∉ cancels cs)

theorem length_kept_le (cs : List (TimerCall T F)) (E : List T) : (kept cs E).length ≤ E.length :=
  List.length_filter_le ..

/-- the callbacks are made for the timers of `E` in turn, from number `i` on, less the timers that
are cancelled on the way; none cancels the timer whose turn is next -/
def KeepsNext (cb : ℕ → T → List (TimerCall T F)) : ℕ → List T → Prop
  | _, [] => True
  | i, t :: E => (∀ u ∈ E.head?, u ∉ cancels (cb i t)) ∧
      KeepsNext cb (i + 1) (kept (cb i t) E)
  termination_by _ E => E.length
  decreasing_by
    exact Nat.lt_succ_of_le (length_kept_le ..)

theorem keepsNext_nil (cb : ℕ → T → List (TimerCall T F)) (i : ℕ) : KeepsNext cb i [] := by
  unfold KeepsNext
  trivial

theorem keepsNext_cons (cb : ℕ → T → List (TimerCall T F)) (i : ℕ) (t : T) (E : List T) :
    KeepsNext cb i (t :: E) ↔ (∀ u ∈ E.head?, u ∉ cancels (cb i t)) ∧
      KeepsNext cb (i + 1) (kept (cb i t) E) := by
  rw [KeepsNext]

/-! ### what cancelling does to the list -/

theorem lengthen_zero (D : List (T × ℕ)) : lengthen 0 D = D := by
  cases D <;> rfl

theorem erase_head_pos (x : T) {R : List (T × ℕ)} (hR : ∀ p ∈ R.head?, 0 < p.2) :
    ∀ p ∈ (erase x R).head?, 0 < p.2 := by
  cases R with
  | nil => exact hR
  | cons q R =>
    obtain ⟨b, d⟩ := q
    have hd : 0 < d := hR (b, d) rfl
    by_cases hxb : x = b
    · rw [show erase x ((b, d) :: R) = lengthen d R from if_pos hxb]
      cases R with
      | nil => exact fun p hp => by cases hp
      | cons q R =>
        intro p hp
        injection hp with hp
        rw [← hp]
        exact Nat.add_pos_right _ hd
    · rw [show erase x ((b, d) :: R) = (b, d) :: erase x R from if_neg hxb]
      intro p hp
      injection hp with hp
      rw [← hp]
      exact hd

theorem erase_zeros (x : T) {E : List T} (hE : E.Nodup) {R : List (T × ℕ)}
    (hR : ∀ p ∈ R.head?, 0 < p.2) :
    ∃ R', erase x (zeros E ++ R) = zeros (E.filter (fun u => u ≠ x)) ++ R' ∧
      ∀ p ∈ R'.head?, 0 < p.2 := by
  induction E with
  | nil => exact ⟨erase x R, rfl, erase_head_pos x hR⟩
  | cons e E ih =>
    rw [List.nodup_cons] at hE
    by_cases hxe : x = e
    · refine ⟨R, ?_, hR⟩
      have hkeep : (e :: E).filter (fun u => u ≠ x) = E := by
        rw [List.filter_cons_of_neg (by simp [hxe]), List.filter_eq_self]
        intro u hu
        exact decide_eq_true (fun h => hE.1 (hxe ▸ h ▸ hu))
      rw [hkeep]
      show (if x = e then lengthen 0 (zeros E ++ R) else _) = _
      rw [if_pos hxe, lengthen_zero]
    · obtain ⟨R', hR', hpos⟩ := ih hE.2
      refine ⟨R', ?_, hpos⟩
      rw [List.filter_cons_of_pos (by simpa using Ne.symm hxe)]
      show (if x = e then _ else (e, 0) :: erase x (zeros E ++ R)) = _
      rw [if_neg hxe, hR']
      rfl

theorem listCalls_zeros {cs : List (TimerCall T F)} (hcs : OnlyCancels cs) :
    ∀ {E : List T} {R : List (T × ℕ)}, E.Nodup → (∀ p ∈ R.head?, 0 < p.2) →
      ∃ R', listCalls (zeros E ++ R) cs = zeros (kept cs E) ++ R' ∧
        ∀ p ∈ R'.head?, 0 < p.2 := by
  induction cs with
  | nil =>
    intro E R _ hR
    refine ⟨R, ?_, hR⟩
    rw [kept, List.filter_eq_self.mpr (fun u _ => by simp [cancels])]
    rfl
  | cons c cs ih =>
    intro E R hE hR
    obtain ⟨x, rfl⟩ := hcs c (List.mem_cons_self ..)
    obtain ⟨R₁, hR₁, hpos₁⟩ := erase_zeros x hE hR
    obtain ⟨R', hR', hpos⟩ := ih hcs.tail (hE.filter _) hpos₁
    refine ⟨R', ?_, hpos⟩
    show listCalls (erase x (zeros E ++ R)) cs = _
    rw [hR₁, hR', kept, List.filter_filter]
    congr 2
    apply List.filter_congr
    intro u _
    simp [cancels, Bool.and_comm]

theorem length_listCalls_cancels {cs : List (TimerCall T F)} (hcs : OnlyCancels cs) :
    ∀ D : List (T × ℕ), (listCalls D cs).length ≤ D.length := by
  induction cs with
  | nil => exact fun D => Nat.le_refl _
  | cons c cs ih =>
    intro D
    obtain ⟨x, rfl⟩ := hcs c (List.mem_cons_self ..)
    exact (ih hcs.tail (erase x D)).trans (length_erase_le x D)

theorem calls_cancels {cs : List (TimerCall T F)} (hcs : OnlyCancels cs) :
    ∀ (M : Countdowns T F) (u : T), M.calls cs u = if u ∈ cancels cs then none else M u := by
  induction cs with
  | nil => exact fun M u => rfl
  | cons c cs ih =>
    intro M u
    obtain ⟨x, rfl⟩ := hcs c (List.mem_cons_self ..)
    show (M.cancel x).calls cs u = _
    rw [ih hcs.tail]
    show _ = if u ∈ x :: cancels cs then none else M u
    by_cases hu : u ∈ cancels cs
    · rw [if_pos hu, if_pos (List.mem_cons_of_mem _ hu)]
    · rw [if_neg hu]
      by_cases hux : u = x
      · rw [hux, Countdowns.cancel, Function.update_self, if_pos (List.mem_cons_self ..)]
      · rw [Countdowns.cancel, Function.update_of_ne hux, if_neg (by simp [hux, hu])]

/-- cancelling does not search the list; the ticks of the timer in front are not touched, also when
it is itself cancelled -/
theorem Sim.runCancels_sim (v : Bool) (fuel : ℕ) (cs : List (TimerCall T F)) (hcs : OnlyCancels cs) :
    ∀ {st : TimerCtx T F} {D : List (T × ℕ)} {M : Countdowns T F}, Sim st D M →
      ∃ st', runCalls v fuel st cs = .ok st' ∧ Sim st' (listCalls D cs) (M.calls cs) ∧
        ∀ u r, (u ∈ keys D → (u, r) ∈ D.head?) → st.rtick (.timer u) = r →
          st'.rtick (.timer u) = r := by
  induction cs with
  | nil => exact fun h => ⟨_, rfl, h, fun _ _ _ hr => hr⟩
  | cons c cs ih =>
    intro st D M h
    obtain ⟨x, rfl⟩ := hcs c (List.mem_cons_self ..)
    obtain ⟨st₁, hrun₁, hsim₁, hrt⟩ := h.ntimerCancelI_sim v x
    obtain ⟨st', hrun, hsim, hkeep⟩ := ih hcs.tail hsim₁
    refine ⟨st', ?_, hsim, fun u r hu hr => ?_⟩
    · show (ntimerCancelI v st x >>= _) = _
      rw [hrun₁, ok_bind, hrun]
    · have hhead : u ∈ keys (erase x D) → (u, r) ∈ (erase x D).head? := by
        intro hm
        obtain ⟨hux, hmD⟩ := (mem_keys_erase h.nodup).mp hm
        obtain ⟨D', rfl⟩ : ∃ D', D = (u, r) :: D' := ⟨_, List.eq_cons_of_mem_head? (hu hmD)⟩
        rw [show erase x ((u, r) :: D') = (u, r) :: erase x D' from if_neg (Ne.symm hux)]
        rfl
      refine hkeep u r hhead ?_
      by_cases hm : u ∈ keys (erase x D)
      · exact hsim₁.rtick (u, r) (List.mem_of_mem_head? (hhead hm))
      · rw [hrt u hm, hr]

/-! ### the loop -/

/-- **One iteration with a callback that cancels timers.**  The loop ends up at the timer that was
next before the callback. -/
theorem Sim.isrCancel_step (v : Bool) {fuel : ℕ} {cb : ℕ → T → List (TimerCall T F)}
    {st : TimerCtx T F} {t : T} {E : List T} {R : List (T × ℕ)} {M : Countdowns T F}
    {log : List (T × F)} (h : Sim st (zeros (t :: E) ++ R) M) (hR : ∀ p ∈ R.head?, 0 < p.2)
    (hcb : OnlyCancels (cb log.length t)) (hf : (zeros (t :: E) ++ R).length ≤ fuel) :
    ∃ c s' R', M t = some c ∧ c.left = 0 ∧
      isrBody v fuel cb ⟨st, .timer t, log⟩ = .ok s' ∧ s'.fired = log ++ [(t, c.fn)] ∧
      Sim s'.st (zeros (kept (cb log.length t) E) ++ R')
        ((M.expire t).calls (cb log.length t)) ∧
      (∀ p ∈ R'.head?, 0 < p.2) ∧
      (zeros (kept (cb log.length t) E) ++ R').length ≤ fuel ∧
      StandsAt E s' := by
  have hlen : (zeros E ++ R).length + 1 ≤ fuel := hf
  have hlen' : (zeros E ++ R).length ≤ fuel := by omega
  have hfront : Sim st ([] ++ (t, 0) :: (zeros E ++ R)) M := h
  obtain ⟨c, st₁, hc, hl, hsim, hbody⟩ := hfront.isrBody_sim v hlen' cb log
  rw [List.nil_append, reinsert_zeros] at hsim hbody
  have hpos := reinsert_head_pos t c.period hR
  have hlen₁ : (zeros E ++ reinsert t c.period R).length ≤ fuel := by
    have := length_reinsert_le t c.period (zeros E ++ R)
    rw [reinsert_zeros] at this
    omega
  generalize reinsert t c.period R = R₁ at hsim hbody hpos hlen₁
  have hE : E.Nodup := by
    have := h.nodup
    simp only [keys_append, keys_zeros, List.cons_append, List.nodup_cons, List.nodup_append] at this
    exact this.2.1
  obtain ⟨st₂, hrun, hsim₂, hkeep⟩ := hsim.runCancels_sim v fuel (cb log.length t) hcb
  obtain ⟨R', hR', hpos'⟩ := listCalls_zeros hcb hE hpos
  have hlen₂ := length_listCalls_cancels hcb (zeros E ++ R₁)
  rw [hR'] at hsim₂ hlen₂
  rw [hrun, ok_bind] at hbody
  refine ⟨c, _, R', hc, hl, hbody, rfl, hsim₂, hpos', hlen₂.trans hlen₁, ?_⟩
  cases E with
  | nil =>
    cases R₁ with
    | nil =>
      have hs : st₂.rtick .gTimerSentinel = uint32Max := hsim₂.sentinel
      exact decide_eq_false (fun h0 => by cases hs.symm.trans h0)
    | cons p R₁ =>
      have hp := hkeep p.1 p.2 (fun _ => rfl) (hsim.rtick p (by simp))
      exact decide_eq_false (fun h0 => Nat.ne_of_gt (hpos p rfl) (hp.symm.trans h0))
  | cons u E =>
    have hu := hkeep u 0 (fun _ => rfl) (hsim.rtick (u, 0) (by simp))
    exact ⟨rfl, decide_eq_true hu⟩

/-- the loop is sound iff no callback cancels the timer whose turn is next -/
theorem soundFrom_iff_keepsNext (v : Bool) {fuel : ℕ} {cb : ℕ → T → List (TimerCall T F)}
    (hcb : ∀ i t, OnlyCancels (cb i t)) (M : Countdowns T F) :
    ∀ (m : ℕ) (E : List T), E.length = m → ∀ (s : IsrState T F) (R : List (T × ℕ)) (k : ℕ),
      Sim s.st (zeros E ++ R) (M.replay cb 0 (s.fired.map Prod.fst)) → (∀ p ∈ R.head?, 0 < p.2) →
      M.OnlyDue cb 0 s.fired → StandsAt E s → (zeros E ++ R).length ≤ fuel → E.length ≤ k →
      (SoundFrom v fuel cb M k s ↔ KeepsNext cb s.fired.length E) := by
  intro m
  induction m using Nat.strong_induction_on with
  | _ m ih =>
  intro E hm s R k hsim hR hdue hat hf hk
  have hsound : LoopSound cb M s := ⟨hdue, _, hsim⟩
  cases E with
  | nil => exact iff_of_true (soundFrom_exit hsound hat (hsim.settled hR) k) (keepsNext_nil ..)
  | cons t E =>
    obtain ⟨st, current, log⟩ := s
    obtain ⟨hcur, hlive⟩ := hat
    change current = .timer t at hcur
    subst hcur
    obtain ⟨k, rfl⟩ : ∃ j, k = j + 1 := ⟨k - 1, by rw [List.length_cons] at hk; omega⟩
    obtain ⟨c, s', R', hc, hl, hbody, hfired, hsim', hR', hf', hat'⟩ :=
      hsim.isrCancel_step v hR (hcb log.length t) hf
    have hrep := replay_concat cb M hfired
    have hdue' : M.OnlyDue cb 0 s'.fired := by
      rw [hfired, Countdowns.onlyDue_concat]
      exact ⟨hdue, c, hc, hl, rfl⟩
    rw [← hrep] at hsim'
    rw [soundFrom_succ hsound hlive hbody, keepsNext_cons]
    change _ ↔ (∀ u ∈ E.head?, u ∉ cancels (cb log.length t)) ∧ KeepsNext cb (log.length + 1)
      (kept (cb log.length t) E)
    have hnum : s'.fired.length = log.length + 1 := by rw [hfired, List.length_append]; rfl
    have hlenE := length_kept_le (cb log.length t) E
    rw [List.length_cons] at hm hk
    by_cases hnext : ∀ u ∈ E.head?, u ∉ cancels (cb log.length t)
    · rw [and_iff_right hnext, ← hnum]
      refine ih _ (by omega) _ rfl s' R' k hsim' hR' hdue' ?_ hf' (by omega)
      cases E with
      | nil => exact hat'
      | cons u E =>
        rw [kept, List.filter_cons_of_pos (by simpa using hnext u rfl)]
        exact hat'
    · refine iff_of_false ?_ (fun h => hnext h.1)
      cases E with
      | nil => exact absurd (fun u hu => by cases hu) hnext
      | cons u E =>
        have hu : u ∈ cancels (cb log.length t) := by simpa using hnext
        refine fun hs => not_headsSound hat'.2 (fun u' hu' c' hc' => ?_) hs.1
        have huu : u = u' := by
          have := hat'.1.symm.trans hu'
          injection this
        rw [hrep, calls_cancels (hcb _ _), ← huu, if_pos hu] at hc'
        cases hc'

/-- **An ISR call whose callbacks only cancel timers is sound iff no callback cancels the timer that
expires right after its own.** -/
theorem isrSound_iff_keepsNext (v : Bool) {fuel : ℕ} {cb : ℕ → T → List (TimerCall T F)}
    {st : TimerCtx T F} {D : List (T × ℕ)} {M : Countdowns T F} (h : Sim st D M) (hM : M.Settled)
    (hcb : ∀ i t, OnlyCancels (cb i t)) (hf : D.length ≤ fuel) :
    IsrSound v fuel cb st M ↔ KeepsNext cb 0 (expiring D) := by
  obtain ⟨st', hsim, hiff⟩ := h.isrSound_start hM
  obtain ⟨R, hD, hR⟩ := tick_eq_zeros D
  rw [(hiff v fuel cb).2]
  have hlen := (length_tick D).trans_le hf
  rw [hD] at hsim hlen ⊢
  exact soundFrom_iff_keepsNext v hcb M.tick _ _ rfl ⟨st', _, []⟩ R fuel hsim hR trivial
    (hsim.counted.standsAt hR []) hlen ((length_expiring_le D).trans hf)

end NeonEds

import NeonEds.Timer.Runs
import NeonEds.Timer.Cancel

/-!
# Without timer calls in the callbacks the timer module counts independent countdowns

`timer_refines_countdowns`: in every legal run whose callbacks leave the timers alone each call
returns what the countdowns say, the list counts them afterwards, and no tick has wrapped.
-/

set_option linter.unusedSectionVars false

namespace NeonEds
open Exec DeltaList

variable {T F : Type} [DecidableEq T]

/-- callbacks that do not call the timer module -/
def Silent (cb : ℕ → T → List (TimerCall T F)) : Prop := ∀ i t, cb i t = []

theorem Silent.onlyCancels {cb : ℕ → T → List (TimerCall T F)} (h : Silent cb) (i : ℕ) (t : T) :
    OnlyCancels (cb i t) := by
  rw [h i t]
  exact fun c hc => by cases hc

theorem Silent.keepsNext {cb : ℕ → T → List (TimerCall T F)} (h : Silent cb) (E : List T) :
    ∀ i, KeepsNext cb i E := by
  induction E with
  | nil => exact keepsNext_nil cb
  | cons t E ih =>
    intro i
    have hk : kept (cb i t) E = E := by
      rw [h i t]
      exact List.filter_eq_self.mpr (fun u _ => by simp [cancels])
    rw [keepsNext_cons, hk, h i t]
    exact ⟨fun u _ => by simp [cancels], ih (i + 1)⟩

namespace Countdowns
variable {cb : ℕ → T → List (TimerCall T F)}

theorem replay_silent (h : Silent cb) (E : List T) :
    ∀ (i : ℕ) (M : Countdowns T F), replay cb i M E = E.foldl expire M := by
  induction E with
  | nil => exact fun i M => rfl
  | cons t E ih =>
    intro i M
    rw [replay, h i t, List.foldl_cons]
    exact ih (i + 1) (M.expire t)

theorem expire_self_pos (M : Countdowns T F) (t : T) {c : Countdown F}
    (h : M.expire t t = some c) : 0 < c.left := by
  rw [expire_self] at h
  obtain ⟨c₀, _, hc⟩ := Option.bind_eq_some_iff.mp h
  unfold Countdown.reload at hc
  split at hc
  · cases hc
  · rename_i hp
    injection hc with hc
    rw [← hc]
    exact Nat.pos_of_ne_zero hp

theorem OnlyDue.silent (h : Silent cb) (log : List (T × F)) :
    ∀ (i : ℕ) (M : Countdowns T F), M.OnlyDue cb i log → (log.map Prod.fst).Nodup ∧
      ∀ t f, (t, f) ∈ log → ∃ c, M t = some c ∧ c.left = 0 ∧ c.fn = f := by
  induction log with
  | nil => exact fun i M _ => ⟨List.nodup_nil, fun t f hm => by cases hm⟩
  | cons p log ih =>
    obtain ⟨a, g⟩ := p
    intro i M hdue
    obtain ⟨hhead, htail⟩ := hdue
    rw [h i a] at htail
    obtain ⟨hnd, hlog⟩ := ih (i + 1) (M.expire a) htail
    have hne : ∀ t f, (t, f) ∈ log → t ≠ a := by
      intro t f hm e
      subst e
      obtain ⟨c, hc, hl, _⟩ := hlog t f hm
      exact Nat.ne_of_gt (expire_self_pos M t hc) hl
    refine ⟨?_, fun t f hm => ?_⟩
    · rw [List.map_cons, List.nodup_cons]
      refine ⟨fun hm => ?_, hnd⟩
      obtain ⟨p, hp, he⟩ := List.mem_map.mp hm
      exact hne p.1 p.2 hp he
    · rcases List.mem_cons.mp hm with he | hm
      · injection he with h1 h2
        subst h1 h2
        exact hhead
      · obtain ⟨c, hc, hl, hf⟩ := hlog t f hm
        rw [expire_of_ne M (hne t f hm)] at hc
        exact ⟨c, hc, hl, hf⟩

theorem tick_left_eq_zero {M : Countdowns T F} (hM : M.Settled) {t : T} {f : F} :
    (∃ c, M.tick t = some c ∧ c.left = 0 ∧ c.fn = f) ↔ ∃ c, M t = some c ∧ c.left = 1 ∧ c.fn = f := by
  constructor
  · rintro ⟨c, hc, hl, hf⟩
    obtain ⟨c₀, hc₀, rfl⟩ := Option.map_eq_some_iff.mp hc
    have hpos := hM t c₀ hc₀
    have hl' : c₀.left - 1 = 0 := hl
    exact ⟨c₀, hc₀, by omega, hf⟩
  · rintro ⟨c, hc, hl, hf⟩
    refine ⟨{ c with left := c.left - 1 }, ?_, by show c.left - 1 = 0; omega, hf⟩
    show (M t).map _ = _
    rw [hc]
    rfl

theorem OnlyDue.silent_isr (h : Silent cb) {M : Countdowns T F} (hM : M.Settled)
    {log : List (T × F)} (hdue : M.tick.OnlyDue cb 0 log)
    (hset : (M.tick.replay cb 0 (log.map Prod.fst)).Settled) :
    M.tick.replay cb 0 (log.map Prod.fst) = M.isr ∧ (log.map Prod.fst).Nodup ∧
      ∀ t f, (t, f) ∈ log ↔ ∃ c, M t = some c ∧ c.left = 1 ∧ c.fn = f := by
  obtain ⟨hnd, hlog⟩ := OnlyDue.silent h log 0 M.tick hdue
  have hall : ∀ t f, (t, f) ∈ log ↔ ∃ c, M t = some c ∧ c.left = 1 ∧ c.fn = f := by
    intro t f
    rw [← tick_left_eq_zero hM]
    refine ⟨hlog t f, ?_⟩
    rintro ⟨c, hc, hl, hf⟩
    by_cases hm : t ∈ log.map Prod.fst
    · obtain ⟨p, hp, he⟩ := List.mem_map.mp hm
      obtain ⟨c', hc', _, hf'⟩ := hlog p.1 p.2 hp
      rw [he, hc] at hc'
      injection hc' with hc'
      have hpf : p = (t, f) := by rw [← hf, hc', hf', ← he]
      exact hpf ▸ hp
    · rw [replay_silent h] at hset
      have hkeep := foldl_expire M.tick _ hnd t
      rw [if_neg hm] at hkeep
      exact absurd hl (Nat.ne_of_gt (hset t c (hkeep.trans hc)))
  refine ⟨?_, hnd, hall⟩
  rw [replay_silent h]
  refine isr_eq_expire M _ hnd fun t => ⟨fun hm => ?_, ?_⟩
  · obtain ⟨p, hp, he⟩ := List.mem_map.mp hm
    obtain ⟨c, hc, hl, _⟩ := (hall p.1 p.2).mp hp
    exact ⟨c, he ▸ hc, hl⟩
  · rintro ⟨c, hc, hl⟩
    exact List.mem_map.mpr ⟨(t, c.fn), (hall t c.fn).mpr ⟨c, hc, hl, rfl⟩, rfl⟩

theorem isr_isSome {M : Countdowns T F} {t : T} (h : (M.isr t).isSome) : (M t).isSome := by
  cases hc : M t with
  | none =>
    change ((M t).bind _).isSome = true at h
    rw [hc] at h
    cases h
  | some c => rfl

end Countdowns

/-- **An ISR call with silent callbacks** is a step of the countdowns. -/
theorem Sim.isrSilent_sim (v : Bool) {fuel : ℕ} {cb : ℕ → T → List (TimerCall T F)}
    {st : TimerCtx T F} {D : List (T × ℕ)} {M : Countdowns T F} (h : Sim st D M) (hM : M.Settled)
    (hcb : Silent cb) (hf : D.length ≤ fuel) :
    ∃ out st' D', runOp v fuel st (.isr cb) = .ok (out, st') ∧ Sim st' D' M.isr ∧
      D'.length ≤ D.length ∧ M.isr.Settled ∧ M.Out (.isr cb) out := by
  have hsound := (isrSound_iff_keepsNext v h hM hcb.onlyCancels hf).mpr (hcb.keepsNext _ 0)
  obtain ⟨st', log, D', hrun, hdue, hsim, hset⟩ := hsound.exists_sim h hM
  obtain ⟨hisr, hnd, hall⟩ := hdue.silent_isr hcb hM hset
  rw [hisr] at hsim hset
  refine ⟨.fired log, st', D', ?_, hsim, h.counted.length_le hsim.counted fun t => Countdowns.isr_isSome, hset,
    log, rfl, hnd, hall⟩
  show (ncoreTimerIsr v fuel cb st >>= _) = _
  rw [hrun]
  rfl

theorem Sim.runOp_silent (v : Bool) {fuel : ℕ} {st : TimerCtx T F} {D : List (T × ℕ)}
    {M : Countdowns T F} {op : TimerOp T F} (h : Sim st D M) (hM : M.Settled)
    (hl : LegalOp Silent st op) (hf : D.length ≤ fuel) :
    ∃ out st' D', runOp v fuel st op = .ok (out, st') ∧ Sim st' D' (M.next op) ∧
      D'.length ≤ D.length + 1 ∧ (M.next op).Settled ∧ M.Out op out := by
  by_cases hop : ∃ cb, op = .isr cb
  · obtain ⟨cb, rfl⟩ := hop
    obtain ⟨out, st', D', hrun, hsim, hlen, hset, hout⟩ :=
      h.isrSilent_sim v hM (show Silent cb from hl) hf
    exact ⟨out, st', D', hrun, hsim, hlen.trans (Nat.le_succ _), hset, hout⟩
  · exact h.runOp_sim v hM hl (fun cb e => hop ⟨cb, e⟩) hf

theorem runOps_cons {v : Bool} {fuel : ℕ} {st st₁ st' : TimerCtx T F} {op : TimerOp T F}
    {ops : List (TimerOp T F)} {out : TimerOut T F} {outs : List (TimerOut T F)}
    (h : runOp v fuel st op = .ok (out, st₁)) (h' : runOps v fuel st₁ ops = .ok (outs, st')) :
    runOps v fuel st (op :: ops) = .ok (out :: outs, st') := by
  show (runOp v fuel st op >>= _) = _
  rw [h, ok_bind]
  show (runOps v fuel st₁ ops >>= _) = _
  rw [h']
  rfl

theorem Sim.runOps_sim (v : Bool) {fuel : ℕ} (ops : List (TimerOp T F)) :
    ∀ {st : TimerCtx T F} {D : List (T × ℕ)} {M : Countdowns T F}, Sim st D M → M.Settled →
      LegalRun Silent v fuel st ops → D.length + ops.length ≤ fuel →
      ∃ outs st' D', runOps v fuel st ops = .ok (outs, st') ∧ M.Outs ops outs ∧
        Sim st' D' (M.after ops) ∧ (M.after ops).Settled ∧ D'.length ≤ D.length + ops.length := by
  induction ops with
  | nil => exact fun h hM _ _ => ⟨[], _, _, rfl, trivial, h, hM, le_rfl⟩
  | cons op ops ih =>
    intro st D M h hM hl hf
    rw [List.length_cons] at hf ⊢
    have hD : D.length ≤ fuel := by omega
    obtain ⟨out, st₁, D₁, hrun, hsim, hlen, hset, hout⟩ := h.runOp_silent v hM hl.1 hD
    obtain ⟨outs, st', D', hrun', houts, hsim', hset', hlen'⟩ :=
      ih hsim hset (hl.2 out st₁ hrun) (by omega)
    exact ⟨out :: outs, st', D', runOps_cons hrun hrun', ⟨hout, houts⟩, hsim', hset', by omega⟩

/-- **The timer list simulates independent countdowns.** -/
theorem timer_refines_countdowns (v : Bool) (fuel : ℕ) (ops : List (TimerOp T F))
    (hl : LegalRun Silent v fuel TimerCtx.init ops) (hf : ops.length ≤ fuel) :
    ∃ outs st, runOps v fuel TimerCtx.init ops = .ok (outs, st) ∧
      Countdowns.stopped.Outs ops outs ∧ st.rtick .gTimerSentinel = uint32Max ∧
      st.wrapped = false ∧ ∃ D, Sim st D (Countdowns.stopped.after ops) := by
  obtain ⟨outs, st, D, hrun, houts, hsim, _⟩ := Sim.init.runOps_sim v ops
    Countdowns.settled_stopped hl (by simpa using hf)
  exact ⟨outs, st, hrun, houts, hsim.sentinel, hsim.noWrap, D, hsim⟩

/-- a timer that repeats, one that does not, and two ticks -/
theorem timer_refines_countdowns_run :
    ∃ outs st, runOps true 6 (TimerCtx.init : TimerCtx Bool Unit)
        [.start true 1 () 2, .start false 3 () 1, .isr (fun _ _ => []), .isr (fun _ _ => []),
          .remaining false, .isRunning true] = .ok (outs, st) ∧
      Countdowns.stopped.Outs
        [.start true 1 () 2, .start false 3 () 1, .isr (fun _ _ => []), .isr (fun _ _ => []),
          .remaining false, .isRunning true] outs ∧
      st.rtick .gTimerSentinel = uint32Max ∧ st.wrapped = false ∧
      ∃ D, Sim st D (Countdowns.stopped.after
        [.start true 1 () 2, .start false 3 () 1, .isr (fun _ _ => []), .isr (fun _ _ => []),
          .remaining false, .isRunning true]) := by
  refine timer_refines_countdowns true 6 _ ⟨⟨by decide, by decide, by decide⟩, ?_⟩ (by decide)
  intro out st h
  have hst := congrArg Prod.snd (Except.ok.inj h)
  subst hst
  refine ⟨⟨by decide, by decide, by decide⟩, ?_⟩
  exact fun _ _ _ => ⟨fun _ _ => rfl, fun _ _ _ => ⟨fun _ _ => rfl, fun _ _ _ => ⟨trivial,
    fun _ _ _ => ⟨trivial, fun _ _ _ => trivial⟩⟩⟩⟩

end NeonEds

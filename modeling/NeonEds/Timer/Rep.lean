import NeonEds.Lib.DeltaList
import NeonEds.Timer.Model

/-!
# The timer list is a delta list

`Listed st D`: the pointers and the `rtick` members of `st` are the delta list `D`.  `Rep st D`:
besides, nothing has wrapped, and the longest countdown fits.  The parts of `timer.c` act on the list
as the operations of `DeltaList`:

* `insertTimer_listed`   `insert`;
* `removeTimer_listed`   taking out an entry, for a timer whose own ticks are used up;
* `ntimerCancelI_rep`    `erase`; `ntimerCancelI_listed` where ticks may go round;
* `isrEnter_rep`         `tick`.
-/

set_option linter.unusedSectionVars false

namespace NeonEds
open Exec DeltaList

variable {T F : Type} [DecidableEq T]

/-- the node at which a part of the delta list begins: the sentinel when it is empty -/
def atNode (D : List (T × ℕ)) : TimerNode T := ((keys D).map TimerNode.timer).head?.getD .gTimerSentinel

@[simp] theorem atNode_nil : atNode ([] : List (T × ℕ)) = .gTimerSentinel := rfl
@[simp] theorem atNode_cons (p : T × ℕ) (D : List (T × ℕ)) : atNode (p :: D) = .timer p.1 := rfl

/-- the list and the relative ticks are the delta list `D` -/
structure Rep (st : TimerCtx T F) (D : List (T × ℕ)) : Prop where
  ring : Circular st.list .gTimerSentinel ((keys D).map TimerNode.timer)
  rtick : ∀ p ∈ D, st.rtick (.timer p.1) = p.2
  sentinel : st.rtick .gTimerSentinel = uint32Max
  stopped : ∀ t ∉ keys D, st.list.next (.timer t) = some (.timer t)
  total : DeltaList.total D ≤ uint32Max
  noWrap : st.wrapped = false

/-- a timer list with whatever relative ticks, such as a wrapped start leaves too -/
structure Listed (st : TimerCtx T F) (D : List (T × ℕ)) : Prop where
  ring : Circular st.list .gTimerSentinel ((keys D).map TimerNode.timer)
  rtick : ∀ p ∈ D, st.rtick (.timer p.1) = p.2
  sentinel : st.rtick .gTimerSentinel = uint32Max
  stopped : ∀ t ∉ keys D, st.list.next (.timer t) = some (.timer t)
  le : ∀ p ∈ D, p.2 ≤ uint32Max

namespace Listed
variable {st : TimerCtx T F} {D : List (T × ℕ)}

theorem nodup (h : Listed st D) : (keys D).Nodup := h.ring.list_nodup.of_map _

theorem next_sentinel (h : Listed st D) : ndlistNext st.list .gTimerSentinel = .ok (atNode D) := by
  cases D with
  | nil => show deref _ = _; rw [h.ring.next_nil]; rfl
  | cons p D => show deref _ = _; rw [h.ring.next_cons]; rfl

theorem next_mem {pre post : List (T × ℕ)} {p : T × ℕ} (h : Listed st (pre ++ p :: post)) :
    ndlistNext st.list (.timer p.1) = .ok (atNode post) := by
  have hr := h.ring
  rw [keys_append, List.map_append] at hr
  show deref _ = _
  cases post with
  | nil => rw [Circular.next_last hr]; rfl
  | cons q post => rw [Circular.next_mem hr]; rfl

theorem isRunning_iff (h : Listed st D) (t : T) : ntimerIsRunningI st t = true ↔ t ∈ keys D := by
  unfold ntimerIsRunningI ndlistIsEmpty
  by_cases ht : t ∈ keys D
  · have := h.ring.next_ne_self (List.mem_map_of_mem (f := TimerNode.timer) ht)
    simp [this, ht]
  · simp [h.stopped t ht, ht]

theorem isEmpty_iff (h : Listed st D) : ndlistIsEmpty st.list .gTimerSentinel = true ↔ D = [] := by
  rw [ndlistIsEmpty_iff h.ring]
  simp [keys]

theorem rtick_atNode {pre post : List (T × ℕ)} (h : Listed st (pre ++ post)) :
    st.rtick (atNode post) = (post.head?.map Prod.snd).getD uint32Max := by
  cases post with
  | nil => exact h.sentinel
  | cons p post => exact h.rtick p (by simp)

theorem setTimer (h : Listed st D) {t : T} (ht : t ∉ keys D) (x : Ntimer F) :
    Listed (st.setTimer (.timer t) x) D := by
  have hne : ∀ n, n ≠ TimerNode.timer t → (st.setTimer (.timer t) x).timer n = st.timer n :=
    fun n hn => Function.update_of_ne hn _ _
  refine ⟨h.ring, fun p hp => ?_, ?_, h.stopped, h.le⟩
  · have hpt : p.1 ≠ t := fun e => ht (e ▸ List.mem_map_of_mem hp)
    exact (congrArg Ntimer.rtick (hne _ (by simpa using hpt))).trans (h.rtick p hp)
  · exact (congrArg Ntimer.rtick (hne _ (by simp))).trans h.sentinel

end Listed

namespace Rep
variable {st : TimerCtx T F} {D : List (T × ℕ)}

theorem nodup (h : Rep st D) : (keys D).Nodup := h.ring.list_nodup.of_map _

theorem eq_map_rtick (h : Rep st D) :
    D = (keys D).map (fun t => (t, st.rtick (.timer t))) := by
  unfold keys
  rw [List.map_map]
  conv_lhs => rw [← List.map_id D]
  exact List.map_congr_left fun p hp => Prod.ext rfl (h.rtick p hp).symm

theorem unique {D' : List (T × ℕ)} (h : Rep st D) (h' : Rep st D') : D = D' := by
  have hk : keys D = keys D' := by
    refine List.map_injective_iff.mpr (fun a b e => ?_) (h.ring.unique h'.ring)
    injection e
  rw [h.eq_map_rtick, h'.eq_map_rtick, hk]

theorem rtick_le (h : Rep st D) {p : T × ℕ} (hp : p ∈ D) : p.2 ≤ uint32Max := by
  obtain ⟨as, bs, rfl⟩ := List.append_of_mem hp
  have := h.total
  rw [total_append, show p = (p.1, p.2) from rfl, total_cons] at this
  omega

theorem listed (h : Rep st D) : Listed st D :=
  ⟨h.ring, h.rtick, h.sentinel, h.stopped, fun _ hp => h.rtick_le hp⟩

theorem next_sentinel (h : Rep st D) : ndlistNext st.list .gTimerSentinel = .ok (atNode D) :=
  h.listed.next_sentinel

theorem isRunning_iff (h : Rep st D) (t : T) : ntimerIsRunningI st t = true ↔ t ∈ keys D :=
  h.listed.isRunning_iff t

theorem isEmpty_iff (h : Rep st D) : ndlistIsEmpty st.list .gTimerSentinel = true ↔ D = [] :=
  h.listed.isEmpty_iff

end Rep

/-! ### the arithmetic does not wrap where the list is well formed -/

theorem subRtick_eq (st : TimerCtx T F) (n : TimerNode T) {x : ℕ} (hx : x ≤ st.rtick n)
    (hn : st.rtick n ≤ uint32Max) : st.subRtick n x = st.setRtick n (st.rtick n - x) := by
  have h1 : (st.rtick n + 2 ^ 32 - x) % 2 ^ 32 = st.rtick n - x := by
    unfold uint32Max at hn
    omega
  unfold TimerCtx.subRtick
  rw [h1, decide_eq_false (by omega), Bool.or_false]
  rfl

@[simp] theorem rtick_setRtick_self (st : TimerCtx T F) (n : TimerNode T) (x : ℕ) :
    (st.setRtick n x).rtick n = x := by simp [TimerCtx.setRtick, TimerCtx.setTimer, TimerCtx.rtick]

theorem rtick_setRtick_of_ne (st : TimerCtx T F) {n m : TimerNode T} (h : m ≠ n) (x : ℕ) :
    (st.setRtick n x).rtick m = st.rtick m := by
  simp [TimerCtx.setRtick, TimerCtx.setTimer, TimerCtx.rtick, h]

@[simp] theorem setRtick_list (st : TimerCtx T F) (n : TimerNode T) (x : ℕ) :
    (st.setRtick n x).list = st.list := rfl

@[simp] theorem setRtick_wrapped (st : TimerCtx T F) (n : TimerNode T) (x : ℕ) :
    (st.setRtick n x).wrapped = st.wrapped := rfl

theorem rtick_setRtick_insert {st : TimerCtx T F} {pre post : List (T × ℕ)} {a : T}
    (ha : a ∉ keys (pre ++ post)) (h : ∀ p ∈ pre ++ post, st.rtick (.timer p.1) = p.2) (x : ℕ) :
    ∀ p ∈ pre ++ (a, x) :: post, (st.setRtick (.timer a) x).rtick (.timer p.1) = p.2 := by
  intro p hp
  rcases List.mem_cons.mp (List.perm_middle.mem_iff.mp hp) with rfl | hp
  · exact rtick_setRtick_self st _ x
  · have hpa : p.1 ≠ a := fun e => ha (e ▸ List.mem_map_of_mem hp)
    rw [rtick_setRtick_of_ne _ (by simpa using hpa)]
    exact h p hp

theorem rtick_setRtick_replace {st : TimerCtx T F} {pre post : List (T × ℕ)} {b : T} {d : ℕ}
    (hnd : (keys (pre ++ (b, d) :: post)).Nodup)
    (h : ∀ p ∈ pre ++ (b, d) :: post, st.rtick (.timer p.1) = p.2) (x : ℕ) :
    ∀ p ∈ pre ++ (b, x) :: post, (st.setRtick (.timer b) x).rtick (.timer p.1) = p.2 := by
  refine rtick_setRtick_insert ?_ (fun p hp => h p ?_) x
  · rw [keys_append, keys_cons, List.nodup_middle, ← keys_append] at hnd
    exact (List.nodup_cons.mp hnd).1
  · exact List.perm_middle.mem_iff.mpr (List.mem_cons_of_mem _ hp)

/-! ### inserting -/

theorem setRtick_setRtick (st : TimerCtx T F) (n : TimerNode T) (x y : ℕ) :
    (st.setRtick n x).setRtick n y = st.setRtick n y := by
  simp [TimerCtx.setRtick, TimerCtx.setTimer]

theorem setRtick_rtick (st : TimerCtx T F) (n : TimerNode T) :
    st.setRtick n (st.rtick n) = st := by
  simp [TimerCtx.setRtick, TimerCtx.setTimer, TimerCtx.rtick]

/-- the search loop stops where `DeltaList.insert` puts the entry, with the delta it gets there -/
theorem insert_loop {st : TimerCtx T F} {a : T} (post : List (T × ℕ)) :
    ∀ (pre : List (T × ℕ)) (t fuel : ℕ), Listed st (pre ++ post) → a ∉ keys (pre ++ post) →
      t ≤ uint32Max → post.length ≤ fuel →
      ∃ mid rest, post = mid ++ rest ∧
        whileLoop (insertCond (.timer a)) (insertBody (.timer a)) fuel
            (st.setRtick (.timer a) t, atNode post)
          = .ok (st.setRtick (.timer a) (t - total mid), atNode rest) ∧
        (∀ p ∈ rest.head?, t - total mid ≤ p.2) ∧
        insert a t post = mid ++ (a, t - total mid) :: shorten (t - total mid) rest := by
  induction post with
  | nil =>
    intro pre t fuel h ha ht _
    refine ⟨[], [], rfl, whileLoop_exit ?_ fuel, by simp, rfl⟩
    rw [insertCond, rtick_setRtick_self, atNode_nil, rtick_setRtick_of_ne _ (by simp), h.sentinel]
    exact decide_eq_false (by omega)
  | cons p post ih =>
    intro pre t fuel h ha ht hf
    obtain ⟨b, d⟩ := p
    have hba : b ≠ a := fun e => ha (by simp [e])
    have hd : (st.setRtick (.timer a) t).rtick (.timer b) = d := by
      rw [rtick_setRtick_of_ne _ (by simpa using hba)]
      exact h.rtick (b, d) (by simp)
    by_cases hlt : d < t
    · obtain ⟨n, rfl⟩ : ∃ n, fuel = n + 1 := ⟨fuel - 1, by simp at hf; omega⟩
      have hc : insertCond (.timer a) (st.setRtick (.timer a) t, atNode ((b, d) :: post)) = true := by
        show decide (_ < (st.setRtick (.timer a) t).rtick (.timer a)) = true
        rw [atNode_cons, hd, rtick_setRtick_self]
        exact decide_eq_true hlt
      have hb : insertBody (.timer a) (st.setRtick (.timer a) t, atNode ((b, d) :: post))
          = .ok (st.setRtick (.timer a) (t - d), atNode post) := by
        show (ndlistNext _ _ >>= fun c => pure (TimerCtx.subRtick _ _ (TimerCtx.rtick _ _), c)) = _
        rw [atNode_cons, hd, subRtick_eq _ _ (by rw [rtick_setRtick_self]; omega)
          (by rw [rtick_setRtick_self]; omega), rtick_setRtick_self, setRtick_setRtick]
        show (ndlistNext st.list (.timer b) >>= _) = _
        rw [show ndlistNext st.list (.timer b) = _ from h.next_mem]
        rfl
      rw [whileLoop_succ hc hb]
      have happ : pre ++ (b, d) :: post = (pre ++ [(b, d)]) ++ post := by simp
      obtain ⟨mid, rest, rfl, hw, hr, hi⟩ := ih (pre ++ [(b, d)]) (t - d) n (happ ▸ h) (happ ▸ ha)
        (by omega) (by simp at hf; omega)
      have hsub : t - d - total mid = t - total ((b, d) :: mid) := by rw [total_cons]; omega
      rw [hsub] at hw hr hi
      exact ⟨(b, d) :: mid, rest, rfl, hw, hr, by rw [insert_lt hlt, hi]; rfl⟩
    · have hge : ∀ p ∈ ((b, d) :: post).head?, t ≤ p.2 := by
        intro p hp
        injection hp with hp
        subst hp
        exact Nat.not_lt.mp hlt
      refine ⟨[], (b, d) :: post, rfl, whileLoop_exit ?_ fuel, hge, insert_ge hge a⟩
      show decide (_ < (st.setRtick (.timer a) t).rtick (.timer a)) = false
      rw [atNode_cons, hd, rtick_setRtick_self]
      exact decide_eq_false hlt

/-- reload values and callbacks are the same in both -/
def SameAttr (st' st : TimerCtx T F) : Prop :=
  ∀ n, st'.itick n = st.itick n ∧ (st'.timer n).fn = (st.timer n).fn

theorem SameAttr.refl (st : TimerCtx T F) : SameAttr st st := fun _ => ⟨rfl, rfl⟩

theorem SameAttr.trans {a b c : TimerCtx T F} (h : SameAttr a b) (h' : SameAttr b c) :
    SameAttr a c := fun n => ⟨(h n).1.trans (h' n).1, (h n).2.trans (h' n).2⟩

theorem sameAttr_setRtick (st : TimerCtx T F) (n : TimerNode T) (x : ℕ) :
    SameAttr (st.setRtick n x) st := by
  intro m
  by_cases h : m = n
  · subst h; simp [TimerCtx.setRtick, TimerCtx.setTimer, TimerCtx.itick]
  · simp [TimerCtx.setRtick, TimerCtx.setTimer, TimerCtx.itick, h]

theorem le_shorten {D : List (T × ℕ)} {M : ℕ} (h : ∀ p ∈ D, p.2 ≤ M) (t : ℕ) :
    ∀ p ∈ shorten t D, p.2 ≤ M := by
  cases D with
  | nil => exact h
  | cons q D =>
    intro p hp
    rcases List.mem_cons.mp hp with rfl | hp
    · exact (Nat.sub_le ..).trans (h q (List.mem_cons_self ..))
    · exact h p (List.mem_cons_of_mem _ hp)

/-- what `insert_timer` does once its loop has stopped at `rest`, with `r` ticks left -/
theorem insertTimer_at {st : TimerCtx T F} {mid rest : List (T × ℕ)} {a : T} {r fuel : ℕ}
    (h : Listed st (mid ++ rest)) (ha : a ∉ keys (mid ++ rest))
    (hw : whileLoop (insertCond (.timer a)) (insertBody (.timer a)) fuel (st, atNode (mid ++ rest))
      = .ok (st.setRtick (.timer a) r, atNode rest)) :
    ∃ L', Circular L' .gTimerSentinel ((keys (mid ++ (a, r) :: shorten r rest)).map .timer) ∧
      (∀ t ∉ keys (mid ++ (a, r) :: shorten r rest), L'.next (.timer t) = some (.timer t)) ∧
      insertTimer fuel st (.timer a)
        = .ok (if atNode rest ≠ .gTimerSentinel then
            TimerCtx.subRtick { st.setRtick (.timer a) r with list := L' } (atNode rest) r
          else { st.setRtick (.timer a) r with list := L' }) := by
  have hring := h.ring
  rw [keys_append, List.map_append] at hring
  obtain ⟨L', hL', hring', heq⟩ := ndlistAddBefore_ring hring (n := .timer a) rfl (by
    rw [← List.map_append, ← keys_append]
    simpa using ha)
  refine ⟨L', ?_, ?_, ?_⟩
  · rw [keys_append, List.map_append, keys_cons, keys_shorten]
    exact hring'
  · intro t htk
    simp only [keys_append, keys_cons, keys_shorten, List.mem_append, List.mem_cons] at htk
    rw [(heq (.timer t) (by simp; tauto)).1]
    exact h.stopped t (by rw [keys_append, List.mem_append]; tauto)
  · show (ndlistNext st.list .gTimerSentinel >>= _) = _
    rw [h.next_sentinel, ok_bind, hw, ok_bind]
    show (ndlistAddBefore st.list (atNode rest) (.timer a) >>= _) = _
    rw [show ndlistAddBefore st.list (atNode rest) (.timer a) = _ from hL', ok_bind]
    show Except.ok (if _ then TimerCtx.subRtick _ _ ((st.setRtick (.timer a) r).rtick _) else _) = _
    rw [rtick_setRtick_self]

/-- **`insert_timer` inserts into the delta list**, and nothing wraps. -/
theorem insertTimer_listed {st : TimerCtx T F} {D : List (T × ℕ)} {a : T} {fuel : ℕ} (h : Listed st D)
    (ha : a ∉ keys D) (ht : st.rtick (.timer a) ≤ uint32Max) (hf : D.length ≤ fuel) :
    ∃ st', insertTimer fuel st (.timer a) = .ok st' ∧
      Listed st' (insert a (st.rtick (.timer a)) D) ∧ SameAttr st' st ∧ st'.wrapped = st.wrapped := by
  obtain ⟨mid, rest, hD, hw, hr, hi⟩ := insert_loop D [] (st.rtick (.timer a)) fuel h ha ht hf
  rw [setRtick_rtick] at hw
  have hrle : st.rtick (.timer a) - total mid ≤ uint32Max := (Nat.sub_le ..).trans ht
  rw [hi]
  generalize st.rtick (.timer a) - total mid = r at hw hr hrle ⊢
  subst hD
  obtain ⟨L', hring, hstop, hrun⟩ := insertTimer_at h ha hw
  have hle : ∀ p ∈ mid ++ (a, r) :: shorten r rest, p.2 ≤ uint32Max := by
    intro p hp
    rcases List.mem_append.mp hp with hp | hp
    · exact h.le p (List.mem_append_left _ hp)
    · rcases List.mem_cons.mp hp with rfl | hp
      · exact hrle
      · exact le_shorten (fun p hp => h.le p (List.mem_append_right _ hp)) r p hp
  have hrt := rtick_setRtick_insert ha h.rtick r
  have hs : (st.setRtick (.timer a) r).rtick .gTimerSentinel = uint32Max := by
    rw [rtick_setRtick_of_ne _ (by simp)]
    exact h.sentinel
  rw [hrun]
  cases rest with
  | nil =>
    exact ⟨_, rfl, ⟨hring, hrt, hs, hstop, hle⟩, sameAttr_setRtick st _ r, rfl⟩
  | cons q rest =>
    obtain ⟨b, d⟩ := q
    have hb : (st.setRtick (.timer a) r).rtick (.timer b) = d := hrt (b, d) (by simp)
    -- the loop has stopped before an entry with at least these ticks
    have hsub : TimerCtx.subRtick { st.setRtick (.timer a) r with list := L' } (.timer b) r
        = TimerCtx.setRtick { st.setRtick (.timer a) r with list := L' } (.timer b) (d - r) := by
      refine (subRtick_eq _ _ ?_ ?_).trans ?_
      · exact (hr (b, d) rfl).trans_eq hb.symm
      · exact hb.trans_le (h.le (b, d) (by simp))
      · exact congrArg (fun x => TimerCtx.setRtick _ _ (x - r)) hb
    have hnd : (keys (mid ++ (a, r) :: (b, d) :: rest)).Nodup := by
      rw [keys_append, keys_cons, List.nodup_middle, ← keys_append]
      exact List.nodup_cons.mpr ⟨ha, h.nodup⟩
    rw [atNode_cons, if_pos (by simp), hsub]
    refine ⟨_, rfl, ⟨hring, ?_, ?_, hstop, hle⟩,
      (sameAttr_setRtick _ _ _).trans (sameAttr_setRtick st _ r), rfl⟩
    · rw [List.append_cons] at hnd hrt
      show ∀ p ∈ mid ++ (a, r) :: (b, d - r) :: rest, _
      rw [List.append_cons]
      exact rtick_setRtick_replace hnd hrt (d - r)
    · rw [rtick_setRtick_of_ne _ (by simp)]
      exact hs

/-! ### removing -/

theorem ndlistRemove_rep (v : Bool) {st : TimerCtx T F} {pre post : List (T × ℕ)} {a : T} {d : ℕ}
    (h : Listed st (pre ++ (a, d) :: post)) :
    ∃ L', ndlistRemove v st.list (.timer a) = .ok L' ∧
      Circular L' .gTimerSentinel ((keys (pre ++ post)).map TimerNode.timer) ∧
      ∀ t ∉ keys (pre ++ post), L'.next (.timer t) = some (.timer t) := by
  have hring := h.ring
  rw [keys_append, keys_cons, List.map_append, List.map_cons] at hring
  obtain ⟨L', hL', hr, hn, heq⟩ := ndlistRemove_ring v hring
  refine ⟨L', hL', ?_, fun t ht => ?_⟩
  · rw [keys_append, List.map_append]
    exact hr
  · by_cases hta : t = a
    · rw [hta]; exact hn
    · rw [keys_append, List.mem_append, not_or] at ht
      rw [(heq (.timer t) (by simp; tauto)).1]
      exact h.stopped t (by simp; tauto)

theorem removeTimer_listed (v : Bool) {st : TimerCtx T F} {pre D : List (T × ℕ)} {a : T}
    (h : Listed st (pre ++ (a, 0) :: D)) :
    ∃ st', removeTimer v st (.timer a) = .ok st' ∧ Listed st' (pre ++ D) ∧ st'.timer = st.timer ∧
      st'.wrapped = st.wrapped := by
  obtain ⟨L', hL', hr, hn⟩ := ndlistRemove_rep v h
  have hsub : ∀ p ∈ pre ++ D, p ∈ pre ++ (a, 0) :: D :=
    fun p hp => List.perm_middle.mem_iff.mpr (List.mem_cons_of_mem _ hp)
  refine ⟨{ st with list := L' }, ?_, ⟨hr, fun p hp => h.rtick p (hsub p hp), h.sentinel, hn,
    fun p hp => h.le p (hsub p hp)⟩, rfl, rfl⟩
  show (ndlistRemove v st.list _ >>= _) = _
  rw [hL']
  rfl

/-- `next->rtick += timer->rtick` for the timer behind one that is cancelled -/
def addHead (x : ℕ) : List (T × ℕ) → List (T × ℕ)
  | [] => []
  | (b, d) :: D => (b, (d + x) % 2 ^ 32) :: D

@[simp] theorem keys_addHead (x : ℕ) (D : List (T × ℕ)) : keys (addHead x D) = keys D := by
  cases D <;> rfl

/-- where the longest countdown fits nothing goes round -/
theorem addHead_eq {x : ℕ} {D : List (T × ℕ)} (h : total (lengthen x D) ≤ uint32Max) :
    addHead x D = lengthen x D := by
  cases D with
  | nil => rfl
  | cons q D =>
    obtain ⟨b, e⟩ := q
    rw [show lengthen x ((b, e) :: D) = (b, e + x) :: D from rfl, total_cons] at h
    have hlt : e + x < 2 ^ 32 := Nat.lt_succ_of_le ((Nat.le_add_right ..).trans h)
    show (b, (e + x) % 2 ^ 32) :: D = (b, e + x) :: D
    rw [Nat.mod_eq_of_lt hlt]

/-- modulo `2 ^ 32` the ticks behind are those of `lengthen` -/
theorem due_addHead {x d : ℕ} {pre D : List (T × ℕ)} {t : T} (h : due (pre ++ lengthen x D) t = some d) :
    ∃ d', due (pre ++ addHead x D) t = some d' ∧ d' ≡ d [MOD 2 ^ 32] := by
  cases D with
  | nil => exact ⟨d, h, rfl⟩
  | cons q D => exact due_middle_modEq (Nat.mod_modEq _ _) q.1 pre D h

/-- `ntimer_cancel_i` on a running timer: its ticks go to the timer behind it -/
theorem ntimerCancelI_listed (v : Bool) {st : TimerCtx T F} {pre post : List (T × ℕ)} {a : T} {d : ℕ}
    (h : Listed st (pre ++ (a, d) :: post)) :
    ∃ st', ntimerCancelI v st a = .ok st' ∧ Listed st' (pre ++ addHead d post) ∧ SameAttr st' st ∧
      (∀ t ∉ keys (pre ++ addHead d post), st'.rtick (.timer t) = st.rtick (.timer t)) ∧
      (addHead d post = lengthen d post → st'.wrapped = st.wrapped) := by
  have hrun := (h.isRunning_iff a).mpr (by simp)
  have hkeys : keys (pre ++ addHead d post) = keys (pre ++ post) := by
    rw [keys_append, keys_append, keys_addHead]
  obtain ⟨L', hL', hr, hn⟩ := ndlistRemove_rep v h
  rw [← hkeys] at hr hn
  have hcancel : ntimerCancelI v st a
      = (ndlistRemove v (if atNode post ≠ .gTimerSentinel then st.addRtick (atNode post) d
          else st).list (.timer a) >>= fun L => .ok { (if atNode post ≠ .gTimerSentinel then
            st.addRtick (atNode post) d else st) with list := L }) := by
    unfold ntimerCancelI
    rw [if_pos hrun, show ndlistNext st.list (.timer a) = _ from h.next_mem, ok_bind,
      show st.rtick (.timer a) = d from h.rtick (a, d) (by simp)]
    rfl
  rw [hcancel]
  have hmem : ∀ p ∈ pre ++ post, p ∈ pre ++ (a, d) :: post :=
    fun p hp => List.perm_middle.mem_iff.mpr (List.mem_cons_of_mem _ hp)
  cases post with
  | nil =>
    rw [atNode_nil, if_neg (by simp), hL']
    exact ⟨_, rfl, ⟨hr, fun p hp => h.rtick p (hmem p hp), h.sentinel, hn,
      fun p hp => h.le p (hmem p hp)⟩, SameAttr.refl st, fun t _ => rfl, fun _ => rfl⟩
  | cons q post =>
    obtain ⟨b, e⟩ := q
    have hb : st.rtick (.timer b) = e := h.rtick (b, e) (by simp)
    rw [atNode_cons, if_pos (by simp), show (st.addRtick (.timer b) d).list = st.list from rfl, hL']
    have hnd := h.nodup
    rw [keys_append, keys_cons, List.nodup_middle, ← keys_append] at hnd
    have hrt := rtick_setRtick_replace (List.nodup_cons.mp hnd).2 (fun p hp => h.rtick p (hmem p hp))
      ((e + d) % 2 ^ 32)
    refine ⟨_, rfl, ⟨hr, ?_, (rtick_setRtick_of_ne st (by simp) _).trans h.sentinel, hn, ?_⟩,
      sameAttr_setRtick st _ _, fun t ht => ?_, fun hlen => ?_⟩
    · rw [← hb] at hrt ⊢
      exact hrt
    · intro p hp
      rcases List.mem_cons.mp (List.perm_middle.mem_iff.mp hp) with rfl | hp
      · exact Nat.le_of_lt_succ (Nat.mod_lt _ (Nat.two_pow_pos 32))
      · exact h.le p (hmem p (List.perm_middle.mem_iff.mpr (List.mem_cons_of_mem _ hp)))
    · have htb : t ≠ b := fun e => ht (by simp [hkeys, e])
      exact rtick_setRtick_of_ne st (by simpa using htb) _
    · have hmod : (e + d) % 2 ^ 32 = e + d := (Prod.mk.inj (List.cons.inj hlen).1).2
      have hlt : e + d < 2 ^ 32 := hmod ▸ Nat.mod_lt _ (Nat.two_pow_pos 32)
      show (st.wrapped || decide (2 ^ 32 ≤ st.rtick (.timer b) + d)) = st.wrapped
      rw [hb, decide_eq_false (Nat.not_le.mpr hlt), Bool.or_false]

theorem ntimerCancelI_stopped (v : Bool) {st : TimerCtx T F} {D : List (T × ℕ)} (h : Listed st D) {a : T}
    (ha : a ∉ keys D) : ntimerCancelI v st a = .ok st := by
  have hrun : ntimerIsRunningI st a = false := by
    rw [← Bool.not_eq_true, h.isRunning_iff]
    exact ha
  unfold ntimerCancelI
  rw [hrun]
  rfl

/-- **`ntimer_cancel_i` erases from the delta list**, and no timer outside it changes. -/
theorem ntimerCancelI_rep (v : Bool) {st : TimerCtx T F} {D : List (T × ℕ)} (h : Rep st D) (a : T) :
    ∃ st', ntimerCancelI v st a = .ok st' ∧ Rep st' (erase a D) ∧ SameAttr st' st ∧
      ∀ t ∉ keys (erase a D), st'.rtick (.timer t) = st.rtick (.timer t) := by
  by_cases ha : a ∈ keys D
  · have htot := (total_erase_le a D).trans h.total
    obtain ⟨d, pre, post, rfl, hpre⟩ := exists_of_mem_keys ha
    rw [erase_append hpre] at htot ⊢
    have hadd : addHead d post = lengthen d post := by
      rw [total_append] at htot
      exact addHead_eq ((Nat.le_add_left ..).trans htot)
    obtain ⟨st', hrun, hl, hattr, hrt, hw⟩ := ntimerCancelI_listed v h.listed
    rw [hadd] at hl hrt
    exact ⟨st', hrun, ⟨hl.ring, hl.rtick, hl.sentinel, hl.stopped, htot, (hw hadd).trans h.noWrap⟩,
      hattr, hrt⟩
  · rw [erase_of_notMem ha]
    exact ⟨st, ntimerCancelI_stopped v h.listed ha, h, SameAttr.refl st, fun t _ => rfl⟩

/-- **Entering the ISR is one tick.** -/
theorem isrEnter_rep {st : TimerCtx T F} {p : T × ℕ} {D : List (T × ℕ)} (h : Rep st (p :: D))
    (hp : 0 < p.2) :
    ∃ st', isrEnter st = .ok ⟨st', .timer p.1, []⟩ ∧ Rep st' (tick (p :: D)) ∧ SameAttr st' st := by
  obtain ⟨a, d⟩ := p
  have ha : st.rtick (.timer a) = d := h.rtick (a, d) (List.mem_cons_self ..)
  have hd : d ≤ uint32Max := h.rtick_le (p := (a, d)) (List.mem_cons_self ..)
  have hd0 : 0 < d := hp
  have hnd : (keys ([] ++ (a, d) :: D)).Nodup := h.nodup
  have hrt := rtick_setRtick_replace hnd h.rtick (d - 1)
  refine ⟨st.setRtick (.timer a) (d - 1), ?_, ⟨h.ring, hrt, ?_, h.stopped, ?_, h.noWrap⟩,
    sameAttr_setRtick st _ _⟩
  · show (ndlistNext st.list .gTimerSentinel >>= _) = _
    rw [h.next_sentinel, ok_bind, atNode_cons, subRtick_eq _ _ (by rw [ha]; omega) (by rw [ha]; exact hd),
      ha]
    rfl
  · exact (rtick_setRtick_of_ne st (by simp) _).trans h.sentinel
  · exact (total_shorten_le 1 _).trans h.total

end NeonEds

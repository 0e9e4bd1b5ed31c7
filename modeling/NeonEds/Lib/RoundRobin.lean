import Mathlib.Data.List.Nodup
import Mathlib.Tactic.Common

/-!
# A queue served in turn

The first of a queue is served and goes to the back; others join at the back and leave from any
place.  `TurnStep xs s ys` is a step from the queue `xs` to the queue `ys`, in which `s` is served,
if it is one of these.  A run is the list of what its steps serve, each with the queue after it.

`Ahead x y xs`: `x` is in the queue, and `y` is not in front of it.

* `TurnStep.idxOf_le`, `TurnStep.idxOf_succ`  one comes nearer with every service of another one;
* `Ahead.step`, `Ahead.run`  it stays so until `x` is served, and meanwhile `y` is not served;
* `TurnRun.fair`             between two services of `a` everyone who stays in the queue is served, and
                             only once if `a` stays as well.
-/

inductive TurnStep {α : Type*} [DecidableEq α] : List α → Option α → List α → Prop where
  | keep (xs : List α) : TurnStep xs none xs
  | join {xs : List α} {c : α} (hc : c ∉ xs) : TurnStep xs none (xs ++ [c])
  | leave (xs : List α) (c : α) : TurnStep xs none (xs.erase c)
  | serve (c : α) (xs : List α) : TurnStep (c :: xs) (some c) (xs ++ [c])

inductive TurnRun {α : Type*} [DecidableEq α] : List α → List (Option α × List α) → Prop where
  | nil (xs : List α) : TurnRun xs []
  | cons {xs ys : List α} {s : Option α} {tr : List (Option α × List α)} (h : TurnStep xs s ys)
      (hr : TurnRun ys tr) : TurnRun xs ((s, ys) :: tr)

/-- `y` is not in front of `x` -/
def Ahead {α : Type*} (x y : α) (xs : List α) : Prop := x ∈ xs ∧ (y ∈ xs → List.Sublist [x, y] xs)

section
variable {α : Type*} [DecidableEq α] {xs ys : List α} {s : Option α} {a b x y : α}

theorem TurnStep.nodup (h : TurnStep xs s ys) (hnd : xs.Nodup) : ys.Nodup := by
  cases h with
  | keep => exact hnd
  | join hc => exact (List.perm_append_singleton _ _).nodup_iff.mpr (List.nodup_cons.mpr ⟨hc, hnd⟩)
  | leave _ c => exact hnd.erase c
  | serve c xs => exact (List.perm_append_singleton c xs).nodup_iff.mpr hnd

theorem TurnStep.served (h : TurnStep xs (some a) ys) : ∃ zs, xs = a :: zs ∧ ys = zs ++ [a] := by
  cases h with
  | serve _ zs => exact ⟨zs, rfl, rfl⟩

omit [DecidableEq α] in
theorem Ahead.back (hx : x ∈ xs) (y : α) : Ahead x y (xs ++ [y]) :=
  ⟨List.mem_append_left _ hx, fun _ => (List.singleton_sublist.mpr hx).append (List.Sublist.refl [y])⟩

/-- **While `x` stays and is not served**, neither is `y`, and `y` does not come in front. -/
theorem Ahead.step (h : Ahead x y xs) (hst : TurnStep xs s ys) (hnd : xs.Nodup)
    (hx : x ∈ ys) (hs : s ≠ some x) : s ≠ some y ∧ Ahead x y ys := by
  cases hst with
  | keep => exact ⟨nofun, h⟩
  | @join _ c hc =>
    refine ⟨nofun, hx, fun hy => ?_⟩
    by_cases hcy : c = y
    · rw [hcy]
      exact (List.singleton_sublist.mpr h.1).append (List.Sublist.refl [y])
    · have hyx : y ∈ xs := by
        rcases List.mem_append.mp hy with hy | hy
        · exact hy
        · exact absurd (List.mem_singleton.mp hy).symm hcy
      exact (h.2 hyx).trans (List.sublist_append_left xs [c])
  | leave _ c =>
    refine ⟨nofun, hx, fun hy => ?_⟩
    have hcx : c ≠ x := fun e => hnd.not_mem_erase (e ▸ hx)
    have hcy : c ≠ y := fun e => hnd.not_mem_erase (e ▸ hy)
    have hsub := (h.2 (List.mem_of_mem_erase hy)).erase c
    rw [List.erase_of_not_mem (by simp [hcx, hcy])] at hsub
    exact hsub
  | serve c zs =>
    have hcx : c ≠ x := fun e => hs (congrArg some e)
    rw [List.nodup_cons] at hnd
    -- both are behind the one that is served
    have hzs : ∀ {zs'}, List.Sublist [x, y] (c :: zs') → List.Sublist [x, y] zs' := by
      intro zs' hsub
      cases hsub with
      | cons _ h => exact h
      | cons_cons _ _ => exact absurd rfl hcx
    have hcy : c ≠ y := by
      intro e
      have hsub := hzs (h.2 (e ▸ List.mem_cons_self))
      exact hnd.1 (e ▸ hsub.subset (by simp))
    refine ⟨fun e => hcy (Option.some.inj e), hx, fun hy => ?_⟩
    have hyz : y ∈ c :: zs := (List.perm_append_singleton c zs).mem_iff.mp hy
    exact (hzs (h.2 hyz)).trans (List.sublist_append_left zs [c])

/-! ### the place in the queue -/

theorem TurnStep.idxOf_le (h : TurnStep xs none ys) (hnd : xs.Nodup) (hx : x ∈ xs) (hy : x ∈ ys) :
    ys.idxOf x ≤ xs.idxOf x := by
  cases h with
  | keep => exact Nat.le_refl _
  | join hc =>
    exact Nat.le_of_eq (List.idxOf_append_of_mem hx)
  | leave _ c =>
    obtain ⟨front, back, rfl⟩ := List.append_of_mem hx
    have hne : c ≠ x := fun e => hnd.not_mem_erase (e ▸ hy)
    rw [List.nodup_append] at hnd
    have hfront : x ∉ front := fun hm => hnd.2.2 x hm x List.mem_cons_self rfl
    rw [List.idxOf_append_of_notMem hfront, List.idxOf_cons_self, Nat.add_zero]
    rw [List.erase_append]
    by_cases hc : c ∈ front
    · rw [if_pos hc, List.idxOf_append_of_notMem fun hm => hfront (List.mem_of_mem_erase hm),
        List.idxOf_cons_self, Nat.add_zero]
      exact List.length_erase_le
    · have hidx : (front ++ (x :: back).erase c).idxOf x = front.length := by
        rw [List.erase_cons_tail (by simpa using Ne.symm hne), List.idxOf_append_of_notMem hfront,
          List.idxOf_cons_self, Nat.add_zero]
      rw [if_neg hc]
      exact Nat.le_of_eq hidx

theorem TurnStep.idxOf_succ (h : TurnStep xs (some a) ys) (hx : x ∈ xs) (hne : a ≠ x) :
    ys.idxOf x + 1 = xs.idxOf x := by
  obtain ⟨zs, rfl, rfl⟩ := h.served
  have hz : x ∈ zs := (List.mem_cons.mp hx).resolve_left (Ne.symm hne)
  rw [List.idxOf_append_of_mem hz, List.idxOf_cons_ne zs hne]

theorem TurnStep.idxOf_self (h : TurnStep xs (some x) ys) : xs.idxOf x = 0 := by
  obtain ⟨zs, rfl, _⟩ := h.served
  exact List.idxOf_cons_self

/-! ## runs -/

variable {tr : List (Option α × List α)}

theorem Ahead.run (hr : TurnRun xs tr) (h : Ahead x y xs) (hnd : xs.Nodup)
    (hx : ∀ e ∈ tr, x ∈ e.2) (hs : some x ∉ tr.map Prod.fst) : some y ∉ tr.map Prod.fst := by
  induction hr with
  | nil => exact List.not_mem_nil
  | cons hst hr ih =>
    rw [List.map_cons, List.mem_cons, not_or] at hs ⊢
    obtain ⟨hsy, h'⟩ := h.step hst hnd (hx _ List.mem_cons_self) (Ne.symm hs.1)
    exact ⟨Ne.symm hsy, ih h' (hst.nodup hnd) (fun e he => hx e (List.mem_cons_of_mem _ he)) hs.2⟩

/-- while `a` waits for its turn nobody is served twice -/
theorem TurnRun.count_le_one (hr : TurnRun xs tr) (hnd : xs.Nodup) (hne : a ≠ b) (ha : a ∈ xs)
    (hstay : ∀ e ∈ tr, a ∈ e.2) (hs : some a ∉ tr.map Prod.fst) :
    (tr.map Prod.fst).count (some b) ≤ 1 := by
  induction hr with
  | nil => exact Nat.zero_le 1
  | @cons xs ys s tr hst hr ih =>
    have hrest : ∀ e ∈ tr, a ∈ e.2 := fun e he => hstay e (List.mem_cons_of_mem _ he)
    rw [List.map_cons, List.mem_cons, not_or] at hs
    rw [List.map_cons]
    by_cases hsb : s = some b
    · -- now `b` is at the back
      subst hsb
      have hnd' := hst.nodup hnd
      cases hst with
      | serve _ zs =>
        have haz : a ∈ zs := (List.mem_cons.mp ha).resolve_left hne
        have hno := (Ahead.back haz b).run hr hnd' hrest hs.2
        rw [List.count_cons_self]
        exact Nat.succ_le_succ (Nat.le_of_eq (List.count_eq_zero_of_not_mem hno))
    · rw [List.count_cons_of_ne hsb]
      exact ih (hst.nodup hnd) (hstay _ List.mem_cons_self) hrest hs.2

theorem TurnRun.left {tr' : List (Option α × List α)} (hr : TurnRun xs (tr ++ tr')) :
    TurnRun xs tr := by
  induction tr generalizing xs with
  | nil => exact .nil xs
  | cons e tr ih =>
    cases hr with
    | cons hst hr => exact .cons hst (ih hr)

/-- **Between two services of `a`.** -/
theorem TurnRun.fair {zs : List α} (hr : TurnRun (xs ++ [a]) (tr ++ [(some a, zs)]))
    (hnd : (xs ++ [a]).Nodup) (hb : b ∈ xs) (hstay : ∀ e ∈ tr, b ∈ e.2) (hz : b ∈ zs)
    (hs : some a ∉ tr.map Prod.fst) :
    some b ∈ tr.map Prod.fst ∧
      ((∀ e ∈ tr, a ∈ e.2) → (tr.map Prod.fst).count (some b) = 1) := by
  have hne : a ≠ b := by
    intro e
    exact (List.nodup_cons.mp ((List.perm_append_singleton a xs).nodup_iff.mp hnd)).1 (e ▸ hb)
  have hserved : some b ∈ tr.map Prod.fst := by
    by_contra hno
    have hno' : some b ∉ (tr ++ [(some a, zs)]).map Prod.fst := by
      simpa [Ne.symm hne] using hno
    have hstay' : ∀ e ∈ tr ++ [(some a, zs)], b ∈ e.2 := by
      intro e he
      rcases List.mem_append.mp he with he | he
      · exact hstay e he
      · exact List.mem_singleton.mp he ▸ hz
    exact (Ahead.back hb a).run hr hnd hstay' hno' (by simp)
  refine ⟨hserved, fun ha => Nat.le_antisymm ?_ (List.count_pos_iff.mpr hserved)⟩
  exact hr.left.count_le_one hnd hne (by simp) ha hs

end

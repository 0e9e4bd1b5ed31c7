import Mathlib.Data.List.Basic
import Mathlib.Logic.Function.Basic
import Mathlib.Tactic.Common

/-!
# Arrays behind pointers

What the users of an allocator rely on.  A `PayloadStore` holds an array at every pointer that is out.
A call of the allocator changes it by one `PayloadStep`: a request adds an array of at least the size
asked for at a pointer that was not out, whatever the array holds; a release takes one away; a user
changes one element of one array.

* `PayloadRun.kept`      an element stays what it is until it is written or its array is given back.
-/

inductive StoreOp (β : Type) where
  | alloc (size : ℕ)
  | free (p : ℕ)
  | write (p offset : ℕ) (x : β)

/-- the arrays that are out -/
abbrev PayloadStore (β : Type) := ℕ → Option (List β)

/-- a call that answered `r`; NULL is 0 -/
inductive PayloadStep {β : Type} : PayloadStore β → StoreOp β → ℕ → PayloadStore β → Prop where
  | refused {σ : PayloadStore β} {size : ℕ} : PayloadStep σ (.alloc size) 0 σ
  | alloc {σ : PayloadStore β} {size r : ℕ} {xs : List β} (hr : r ≠ 0) (hfresh : σ r = none)
      (hsize : size ≤ xs.length) : PayloadStep σ (.alloc size) r (Function.update σ r (some xs))
  | free {σ : PayloadStore β} {p : ℕ} {xs : List β} (hp : σ p = some xs) :
      PayloadStep σ (.free p) 0 (Function.update σ p none)
  | write {σ : PayloadStore β} {p offset : ℕ} {x : β} {xs : List β} (hp : σ p = some xs)
      (ho : offset < xs.length) :
      PayloadStep σ (.write p offset x) 0 (Function.update σ p (some (xs.set offset x)))

/-- calls, each with its answer -/
inductive PayloadRun {β : Type} :
    PayloadStore β → List (StoreOp β × ℕ) → PayloadStore β → Prop where
  | nil {σ : PayloadStore β} : PayloadRun σ [] σ
  | cons {σ σ₁ σ' : PayloadStore β} {op : StoreOp β} {r : ℕ} {ops : List (StoreOp β × ℕ)}
      (hstep : PayloadStep σ op r σ₁) (h : PayloadRun σ₁ ops σ') :
      PayloadRun σ ((op, r) :: ops) σ'

section
variable {β : Type} {σ σ₁ σ' : PayloadStore β} {ops ops' : List (StoreOp β × ℕ)} {op : StoreOp β}
  {p r i : ℕ} {x : β} {xs : List β}

theorem PayloadStep.fresh {size : ℕ} (h : PayloadStep σ (.alloc size) r σ₁) (hr : r ≠ 0) :
    σ r = none := by
  cases h with
  | refused => exact absurd rfl hr
  | alloc _ hfresh _ => exact hfresh

/-- the call leaves the element `i` of the array at `p` alone -/
def StoreOp.Spares (p i : ℕ) : StoreOp β → Prop
  | .alloc _ => True
  | .free q => q ≠ p
  | .write q offset _ => q ≠ p ∨ offset ≠ i

theorem PayloadStep.kept (h : PayloadStep σ op r σ₁) (hop : op.Spares p i) (hp : σ p = some xs)
    (hi : xs[i]? = some x) : ∃ ys, σ₁ p = some ys ∧ ys.length = xs.length ∧ ys[i]? = some x := by
  cases h with
  | refused => exact ⟨xs, hp, rfl, hi⟩
  | @alloc _ r _ hr hfresh _ =>
    have hpr : p ≠ r := by
      rintro rfl
      rw [hp] at hfresh
      cases hfresh
    exact ⟨xs, (Function.update_of_ne hpr ..).trans hp, rfl, hi⟩
  | free => exact ⟨xs, (Function.update_of_ne (Ne.symm hop) ..).trans hp, rfl, hi⟩
  | @write q offset y zs hq ho =>
    by_cases hpq : q = p
    · rw [hpq] at hq
      obtain rfl := Option.some.inj (hp.symm.trans hq)
      rw [hpq, Function.update_self]
      refine ⟨_, rfl, List.length_set, ?_⟩
      rw [List.getElem?_set_ne (hop.resolve_left (fun h => h hpq))]
      exact hi
    · exact ⟨xs, (Function.update_of_ne (Ne.symm hpq) ..).trans hp, rfl, hi⟩

/-- **An element that nobody writes stays**, whatever else is allocated, given back and written. -/
theorem PayloadRun.kept (h : PayloadRun σ ops σ') (hops : ∀ x ∈ ops, x.1.Spares p i)
    (hp : σ p = some xs) (hi : xs[i]? = some x) :
    ∃ ys, σ' p = some ys ∧ ys.length = xs.length ∧ ys[i]? = some x := by
  induction h generalizing xs with
  | nil => exact ⟨xs, hp, rfl, hi⟩
  | cons hstep _ ih =>
    rw [List.forall_mem_cons] at hops
    obtain ⟨ys, hy, hlen, hget⟩ := hstep.kept hops.1 hp hi
    obtain ⟨zs, hz, hlen', hget'⟩ := ih hops.2 hy hget
    exact ⟨zs, hz, hlen'.trans hlen, hget'⟩

end

import Mathlib.Data.List.Nodup
import Mathlib.Data.Nat.ModEq
import Mathlib.Algebra.Order.Group.Nat
import Mathlib.Tactic.Common

/-!
# Delta lists

A delta list keeps countdowns in the order in which they end, each entry with the time that passes
between the end of the entry before it and its own end.  `due l a` is the countdown of `a` itself.
Only the head changes when time passes, and a change at one place is made up for at the next entry:

* `due_insert`   inserting `a` with countdown `t` sets the countdown of `a` and no other;
* `due_erase`    erasing `a` removes the countdown of `a` and no other;
* `due_tick`     one tick takes one from every countdown;
* `due_tail`     an entry that has reached zero can be dropped from the front;
* `due_zeros`    the entries that have reached zero stand in front: they are the leading zeros.

`total` is the longest countdown: no delta and no sum of deltas exceeds it.
-/

set_option linter.unusedSectionVars false

namespace DeltaList
variable {α : Type} [DecidableEq α]

/-- the elements in the order in which they end -/
def keys (l : List (α × ℕ)) : List α := l.map Prod.fst

/-- the countdown of an element -/
def due : List (α × ℕ) → α → Option ℕ
  | [], _ => none
  | (b, d) :: l, a => if a = b then some d else (due l a).map (d + ·)

/-- the countdown of the last element -/
def total (l : List (α × ℕ)) : ℕ := (l.map Prod.snd).sum

/-- take `t` off the first delta -/
def shorten (t : ℕ) : List (α × ℕ) → List (α × ℕ)
  | [] => []
  | (b, d) :: l => (b, d - t) :: l

/-- add `t` to the first delta -/
def lengthen (t : ℕ) : List (α × ℕ) → List (α × ℕ)
  | [] => []
  | (b, d) :: l => (b, d + t) :: l

/-- `a` goes behind the entries that end strictly before it -/
def insert (a : α) : ℕ → List (α × ℕ) → List (α × ℕ)
  | t, [] => [(a, t)]
  | t, (b, d) :: l =>
    if d < t then (b, d) :: insert a (t - d) l else (a, t) :: (b, d - t) :: l

def erase (a : α) : List (α × ℕ) → List (α × ℕ)
  | [] => []
  | (b, d) :: l => if a = b then lengthen d l else (b, d) :: erase a l

def tick (l : List (α × ℕ)) : List (α × ℕ) := shorten 1 l

@[simp] theorem keys_nil : keys ([] : List (α × ℕ)) = [] := rfl
@[simp] theorem keys_cons (b : α) (d : ℕ) (l : List (α × ℕ)) : keys ((b, d) :: l) = b :: keys l := rfl
@[simp] theorem keys_append (l l' : List (α × ℕ)) : keys (l ++ l') = keys l ++ keys l' :=
  List.map_append ..
@[simp] theorem keys_shorten (t : ℕ) (l : List (α × ℕ)) : keys (shorten t l) = keys l := by
  cases l <;> rfl
@[simp] theorem keys_lengthen (t : ℕ) (l : List (α × ℕ)) : keys (lengthen t l) = keys l := by
  cases l <;> rfl
@[simp] theorem total_nil : total ([] : List (α × ℕ)) = 0 := rfl
@[simp] theorem total_cons (b : α) (d : ℕ) (l : List (α × ℕ)) :
    total ((b, d) :: l) = d + total l := List.sum_cons
@[simp] theorem total_append (l l' : List (α × ℕ)) : total (l ++ l') = total l + total l' := by
  unfold total
  rw [List.map_append, List.sum_append]
@[simp] theorem due_nil (a : α) : due [] a = none := rfl
@[simp] theorem due_cons_self (a : α) (d : ℕ) (l : List (α × ℕ)) :
    due ((a, d) :: l) a = some d := if_pos rfl

theorem due_cons_of_ne {a b : α} (h : a ≠ b) (d : ℕ) (l : List (α × ℕ)) :
    due ((b, d) :: l) a = (due l a).map (d + ·) := if_neg h

theorem due_isSome (l : List (α × ℕ)) (a : α) : (due l a).isSome ↔ a ∈ keys l := by
  induction l with
  | nil => simp
  | cons p l ih =>
    obtain ⟨b, d⟩ := p
    by_cases h : a = b
    · subst h; simp
    · rw [due_cons_of_ne h, Option.isSome_map, ih, keys_cons, List.mem_cons]
      simp [h]

theorem due_eq_none {l : List (α × ℕ)} {a : α} (h : a ∉ keys l) : due l a = none := by
  rw [← due_isSome] at h
  simpa using h

theorem due_append {l l' : List (α × ℕ)} {a : α} (h : a ∉ keys l) :
    due (l ++ l') a = (due l' a).map (total l + ·) := by
  induction l with
  | nil => simp
  | cons p l ih =>
    obtain ⟨b, d⟩ := p
    rw [keys_cons, List.mem_cons, not_or] at h
    rw [List.cons_append, due_cons_of_ne h.1, ih h.2, Option.map_map, total_cons]
    congr 1
    funext x
    show d + (total l + x) = d + total l + x
    omega

theorem head_le_due {b : α} {e : ℕ} {l : List (α × ℕ)} {a : α} {d : ℕ}
    (h : due ((b, e) :: l) a = some d) : e ≤ d := by
  by_cases hab : a = b
  · subst hab
    rw [due_cons_self] at h
    injection h with h
    omega
  · rw [due_cons_of_ne hab] at h
    obtain ⟨x, _, hd⟩ := Option.map_eq_some_iff.mp h
    omega

theorem due_le_total (l : List (α × ℕ)) (a : α) : (due l a).getD 0 ≤ total l := by
  by_cases ha : a ∈ keys l
  · induction l with
    | nil => exact absurd ha List.not_mem_nil
    | cons p l ih =>
      obtain ⟨b, d⟩ := p
      rw [total_cons]
      by_cases hb : a = b
      · rw [hb, due_cons_self]
        exact Nat.le_add_right d _
      · rw [keys_cons, List.mem_cons, or_iff_right hb] at ha
        obtain ⟨x, hx⟩ := Option.isSome_iff_exists.mp ((due_isSome l a).mpr ha)
        have hle := ih ha
        rw [hx] at hle
        rw [due_cons_of_ne hb, hx]
        exact Nat.add_le_add_left hle d
  · rw [due_eq_none ha]
    exact Nat.zero_le _

/-- the deltas behind an entry count on from it, modulo `m` as well -/
theorem due_middle_modEq {m x y : ℕ} (h : x ≡ y [MOD m]) (b : α) (pre post : List (α × ℕ)) {a : α} {d : ℕ}
    (hd : due (pre ++ (b, y) :: post) a = some d) :
    ∃ d', due (pre ++ (b, x) :: post) a = some d' ∧ d' ≡ d [MOD m] := by
  induction pre generalizing d with
  | nil =>
    rw [List.nil_append] at hd ⊢
    by_cases hb : a = b
    · subst hb
      rw [due_cons_self] at hd ⊢
      exact ⟨x, rfl, Option.some.inj hd ▸ h⟩
    · rw [due_cons_of_ne hb] at hd ⊢
      obtain ⟨z, hz, rfl⟩ := Option.map_eq_some_iff.mp hd
      exact ⟨x + z, by rw [hz]; rfl, h.add_right z⟩
  | cons p pre ih =>
    obtain ⟨b', e⟩ := p
    rw [List.cons_append] at hd ⊢
    by_cases hb : a = b'
    · subst hb
      rw [due_cons_self] at hd ⊢
      exact ⟨d, hd, rfl⟩
    · rw [due_cons_of_ne hb] at hd ⊢
      obtain ⟨z, hz, rfl⟩ := Option.map_eq_some_iff.mp hd
      obtain ⟨z', hz', hmod⟩ := ih hz
      exact ⟨e + z', by rw [hz']; rfl, hmod.add_left e⟩

/-! ### shifting the head -/

theorem due_lengthen (t : ℕ) (l : List (α × ℕ)) (a : α) :
    due (lengthen t l) a = (due l a).map (t + ·) := by
  cases l with
  | nil => rfl
  | cons p l =>
    obtain ⟨b, d⟩ := p
    show due ((b, d + t) :: l) a = _
    by_cases h : a = b
    · subst h
      rw [due_cons_self, due_cons_self, Nat.add_comm]
      rfl
    · rw [due_cons_of_ne h, due_cons_of_ne h, Option.map_map]
      congr 1
      funext x
      show d + t + x = t + (d + x)
      omega

theorem total_lengthen_le (t : ℕ) (l : List (α × ℕ)) : total (lengthen t l) ≤ t + total l := by
  cases l with
  | nil => exact Nat.zero_le _
  | cons p l =>
    show total ((p.1, p.2 + t) :: l) ≤ t + total ((p.1, p.2) :: l)
    rw [total_cons, total_cons]
    omega

theorem total_shorten_le (t : ℕ) (l : List (α × ℕ)) : total (shorten t l) ≤ total l := by
  cases l with
  | nil => exact Nat.zero_le _
  | cons p l =>
    show total ((p.1, p.2 - t) :: l) ≤ total ((p.1, p.2) :: l)
    rw [total_cons, total_cons]
    omega

/-- shortening the head by no more than its delta is undone by an entry in front of it -/
theorem due_cons_shorten {a x : α} (h : x ≠ a) (t : ℕ) (l : List (α × ℕ))
    (hle : ∀ p ∈ l.head?, t ≤ p.2) : due ((a, t) :: shorten t l) x = due l x := by
  rw [due_cons_of_ne h]
  cases l with
  | nil => rfl
  | cons p l =>
    obtain ⟨b, d⟩ := p
    have hd : t ≤ d := hle (b, d) rfl
    show Option.map (t + ·) (due ((b, d - t) :: l) x) = due ((b, d) :: l) x
    by_cases hb : x = b
    · subst hb
      rw [due_cons_self, due_cons_self, Option.map_some]
      congr 1
      omega
    · rw [due_cons_of_ne hb, due_cons_of_ne hb, Option.map_map]
      congr 1
      funext y
      show t + (d - t + y) = d + y
      omega

/-- **One tick takes one from every countdown.** -/
theorem due_tick {l : List (α × ℕ)} (h : ∀ p ∈ l.head?, 0 < p.2) (a : α) :
    due (tick l) a = (due l a).map (· - 1) := by
  cases l with
  | nil => rfl
  | cons p l =>
    obtain ⟨b, d⟩ := p
    have hd : 0 < d := h (b, d) rfl
    show due ((b, d - 1) :: l) a = _
    by_cases hb : a = b
    · subst hb
      rw [due_cons_self, due_cons_self]
      rfl
    · rw [due_cons_of_ne hb, due_cons_of_ne hb, Option.map_map]
      congr 1
      funext y
      show d - 1 + y = d + y - 1
      omega

theorem due_tail {a x : α} (h : x ≠ a) (l : List (α × ℕ)) : due ((a, 0) :: l) x = due l x := by
  rw [due_cons_of_ne h]
  cases due l x with
  | none => rfl
  | some d => show some (0 + d) = some d; rw [Nat.zero_add]

/-- an entry with nothing left of its own can be taken out at any place -/
theorem due_drop_zero {a x : α} (h : x ≠ a) (l l' : List (α × ℕ)) :
    due (l ++ (a, 0) :: l') x = due (l ++ l') x := by
  induction l with
  | nil => exact due_tail h l'
  | cons p l ih =>
    obtain ⟨b, d⟩ := p
    rw [List.cons_append, List.cons_append]
    by_cases hb : x = b
    · rw [hb, due_cons_self, due_cons_self]
    · rw [due_cons_of_ne hb, due_cons_of_ne hb, ih]

/-! ### inserting -/

/-- the new entry stands in front of the first entry that does not end before it -/
theorem insert_lt {d t : ℕ} (h : d < t) (a b : α) (l : List (α × ℕ)) :
    insert a t ((b, d) :: l) = (b, d) :: insert a (t - d) l := if_pos h

theorem insert_ge {t : ℕ} {l : List (α × ℕ)} (h : ∀ p ∈ l.head?, t ≤ p.2) (a : α) :
    insert a t l = (a, t) :: shorten t l := by
  cases l with
  | nil => rfl
  | cons p l => exact if_neg (Nat.not_lt.mpr (h p rfl))

/-- **Inserting `a` sets the countdown of `a` and no other.** -/
theorem due_insert {a : α} {l : List (α × ℕ)} (ha : a ∉ keys l) (t : ℕ) (x : α) :
    due (insert a t l) x = if x = a then some t else due l x := by
  induction l generalizing t with
  | nil => rfl
  | cons p l ih =>
    obtain ⟨b, d⟩ := p
    rw [keys_cons, List.mem_cons, not_or] at ha
    by_cases hlt : d < t
    · rw [insert_lt hlt]
      by_cases hb : x = b
      · subst hb
        rw [due_cons_self, if_neg (Ne.symm ha.1), due_cons_self]
      · rw [due_cons_of_ne hb, ih ha.2, due_cons_of_ne hb]
        by_cases hx : x = a
        · rw [if_pos hx, if_pos hx, Option.map_some]
          congr 1
          omega
        · rw [if_neg hx, if_neg hx]
    · have hge : ∀ p ∈ (((b, d) :: l)).head?, t ≤ p.2 := by
        intro p hp
        injection hp with hp
        subst hp
        exact Nat.not_lt.mp hlt
      rw [insert_ge hge]
      by_cases hx : x = a
      · subst hx
        rw [due_cons_self, if_pos rfl]
      · rw [due_cons_shorten hx t _ hge, if_neg hx]

theorem keys_insert_perm (a : α) (t : ℕ) (l : List (α × ℕ)) :
    (keys (insert a t l)).Perm (a :: keys l) := by
  induction l generalizing t with
  | nil => exact List.Perm.refl _
  | cons p l ih =>
    obtain ⟨b, d⟩ := p
    by_cases hlt : d < t
    · rw [insert_lt hlt, keys_cons, keys_cons]
      exact ((ih (t - d)).cons b).trans (List.Perm.swap a b _)
    · show (keys (if d < t then _ else _)).Perm _
      rw [if_neg hlt]
      exact List.Perm.refl _

theorem total_insert_le (a : α) (t : ℕ) (l : List (α × ℕ)) {M : ℕ} (ht : t ≤ M)
    (hl : total l ≤ M) : total (insert a t l) ≤ M := by
  induction l generalizing t M with
  | nil => show t + 0 ≤ M; omega
  | cons p l ih =>
    obtain ⟨b, d⟩ := p
    rw [total_cons] at hl
    by_cases hlt : d < t
    · rw [insert_lt hlt, total_cons]
      have := @ih (t - d) (M - d) (by omega) (by omega)
      omega
    · show total (if d < t then _ else _) ≤ M
      rw [if_neg hlt, total_cons, total_cons]
      omega

/-- where another entry `f` stands after `a` was inserted: its delta is used up iff the countdowns
of `a` and `f` are the same -/
theorem insert_middle (a f : α) (pre : List (α × ℕ)) :
    ∀ (t x : ℕ) (post : List (α × ℕ)), ∃ pre' x' post',
      insert a t (pre ++ (f, x) :: post) = pre' ++ (f, x') :: post' ∧
      total pre' + x' = total pre + x ∧ (x' = 0 ↔ x = 0 ∨ t = total pre + x) := by
  induction pre with
  | nil =>
    intro t x post
    by_cases hlt : x < t
    · refine ⟨[], x, _, insert_lt hlt .., rfl, ?_⟩
      rw [total_nil]
      omega
    · refine ⟨[(a, t)], x - t, post, if_neg hlt, ?_, ?_⟩
      · rw [total_cons, total_nil]
        omega
      · rw [total_nil]
        omega
  | cons p pre ih =>
    obtain ⟨b, d⟩ := p
    intro t x post
    rw [total_cons]
    by_cases hlt : d < t
    · obtain ⟨pre', x', post', heq, htot, hx⟩ := ih (t - d) x post
      refine ⟨(b, d) :: pre', x', post', ?_, ?_, ?_⟩
      · rw [List.cons_append, insert_lt hlt, heq]
        rfl
      · rw [total_cons]
        omega
      · rw [hx]
        omega
    · refine ⟨(a, t) :: (b, d - t) :: pre, x, post, if_neg hlt, ?_, ?_⟩
      · rw [total_cons, total_cons]
        omega
      · omega

/-! ### erasing -/

/-- **Erasing `a` removes the countdown of `a` and no other.** -/
theorem due_erase {a : α} {l : List (α × ℕ)} (hl : (keys l).Nodup) (x : α) :
    due (erase a l) x = if x = a then none else due l x := by
  induction l with
  | nil => show none = _; rw [due_nil, ite_self]
  | cons p l ih =>
    obtain ⟨b, d⟩ := p
    rw [keys_cons, List.nodup_cons] at hl
    by_cases hab : a = b
    · subst hab
      show due (if a = a then lengthen d l else _) x = _
      rw [if_pos rfl, due_lengthen]
      by_cases hx : x = a
      · rw [if_pos hx, hx, due_eq_none hl.1]
        rfl
      · rw [if_neg hx, due_cons_of_ne hx]
    · show due (if a = b then _ else (b, d) :: erase a l) x = _
      rw [if_neg hab]
      by_cases hb : x = b
      · subst hb
        rw [due_cons_self, due_cons_self, if_neg (Ne.symm hab)]
      · rw [due_cons_of_ne hb, due_cons_of_ne hb, ih hl.2]
        by_cases hx : x = a
        · rw [if_pos hx, if_pos hx]; rfl
        · rw [if_neg hx, if_neg hx]

theorem erase_append {a : α} {pre : List (α × ℕ)} (h : a ∉ keys pre) (d : ℕ)
    (post : List (α × ℕ)) : erase a (pre ++ (a, d) :: post) = pre ++ lengthen d post := by
  induction pre with
  | nil => exact if_pos rfl
  | cons p pre ih =>
    obtain ⟨b, e⟩ := p
    rw [keys_cons, List.mem_cons, not_or] at h
    show (if a = b then _ else (b, e) :: erase a (pre ++ (a, d) :: post)) = _
    rw [if_neg h.1, ih h.2]
    rfl

theorem erase_of_notMem {a : α} {l : List (α × ℕ)} (h : a ∉ keys l) : erase a l = l := by
  induction l with
  | nil => rfl
  | cons p l ih =>
    obtain ⟨b, d⟩ := p
    rw [keys_cons, List.mem_cons, not_or] at h
    show (if a = b then _ else _) = _
    rw [if_neg h.1, ih h.2]

theorem exists_of_mem_keys {a : α} {l : List (α × ℕ)} (h : a ∈ keys l) :
    ∃ d pre post, l = pre ++ (a, d) :: post ∧ a ∉ keys pre := by
  induction l with
  | nil => cases h
  | cons p l ih =>
    obtain ⟨b, d⟩ := p
    by_cases hab : a = b
    · subst hab
      exact ⟨d, [], l, rfl, by simp⟩
    · rw [keys_cons, List.mem_cons, or_iff_right hab] at h
      obtain ⟨e, pre, post, rfl, hpre⟩ := ih h
      exact ⟨e, (b, d) :: pre, post, rfl, by simp [hab, hpre]⟩

theorem keys_erase (a : α) (l : List (α × ℕ)) : keys (erase a l) = (keys l).erase a := by
  induction l with
  | nil => rfl
  | cons p l ih =>
    obtain ⟨b, d⟩ := p
    by_cases hab : a = b
    · subst hab
      show keys (if a = a then lengthen d l else _) = _
      rw [if_pos rfl, keys_lengthen, keys_cons, List.erase_cons_head]
    · show keys (if a = b then _ else (b, d) :: erase a l) = _
      rw [if_neg hab, keys_cons, keys_cons, ih, List.erase_cons_tail (by simpa using Ne.symm hab)]

theorem mem_keys_erase {a x : α} {l : List (α × ℕ)} (hl : (keys l).Nodup) :
    x ∈ keys (erase a l) ↔ x ≠ a ∧ x ∈ keys l := by
  rw [keys_erase]
  exact hl.mem_erase_iff

theorem total_erase_le (a : α) (l : List (α × ℕ)) : total (erase a l) ≤ total l := by
  induction l with
  | nil => exact Nat.le_refl _
  | cons p l ih =>
    obtain ⟨b, d⟩ := p
    show total (if a = b then lengthen d l else (b, d) :: erase a l) ≤ _
    by_cases hab : a = b
    · rw [if_pos hab, total_cons]
      exact total_lengthen_le d l
    · rw [if_neg hab, total_cons, total_cons]
      omega

/-! ### the entries that have reached zero -/

/-- entries with nothing left, in this order -/
def zeros (E : List α) : List (α × ℕ) := E.map (fun a => (a, 0))

@[simp] theorem zeros_nil : zeros ([] : List α) = [] := rfl
@[simp] theorem zeros_cons (a : α) (E : List α) : zeros (a :: E) = (a, 0) :: zeros E := rfl
@[simp] theorem keys_zeros (E : List α) : keys (zeros E) = E := by
  unfold keys zeros
  rw [List.map_map]
  exact List.map_id E
@[simp] theorem total_zeros (E : List α) : total (zeros E) = 0 := by
  induction E with
  | nil => rfl
  | cons a E ih => rw [zeros_cons, total_cons, ih]

theorem exists_zeros (l : List (α × ℕ)) :
    ∃ E R, l = zeros E ++ R ∧ ∀ p ∈ R.head?, 0 < p.2 := by
  induction l with
  | nil => exact ⟨[], [], rfl, by simp⟩
  | cons p l ih =>
    obtain ⟨b, d⟩ := p
    rcases Nat.eq_zero_or_pos d with rfl | hd
    · obtain ⟨E, R, rfl, hR⟩ := ih
      exact ⟨b :: E, R, rfl, hR⟩
    · exact ⟨[], (b, d) :: l, rfl, by simpa using hd⟩

theorem due_zeros {E : List α} {R : List (α × ℕ)} (hR : ∀ p ∈ R.head?, 0 < p.2) (a : α) :
    due (zeros E ++ R) a = some 0 ↔ a ∈ E := by
  induction E with
  | nil =>
    simp only [zeros_nil, List.nil_append, List.not_mem_nil, iff_false]
    intro h
    cases R with
    | nil => cases h
    | cons p R =>
      have h1 : p.2 ≤ 0 := head_le_due h
      have h2 : 0 < p.2 := hR p rfl
      omega
  | cons b E ih =>
    rw [zeros_cons, List.cons_append]
    by_cases hab : a = b
    · subst hab
      simp
    · rw [due_tail hab, ih, List.mem_cons, or_iff_right hab]

theorem insert_zeros {t : ℕ} (ht : 0 < t) (a : α) (E : List α) (R : List (α × ℕ)) :
    insert a t (zeros E ++ R) = zeros E ++ insert a t R := by
  induction E with
  | nil => rfl
  | cons b E ih =>
    rw [zeros_cons, List.cons_append, insert_lt ht, Nat.sub_zero, ih]
    rfl

theorem insert_head_pos {t : ℕ} (ht : 0 < t) (a : α) {R : List (α × ℕ)}
    (hR : ∀ p ∈ R.head?, 0 < p.2) : ∀ p ∈ (insert a t R).head?, 0 < p.2 := by
  cases R with
  | nil =>
    intro p hp
    injection hp with hp
    exact hp ▸ ht
  | cons q R =>
    intro p hp
    obtain ⟨b, d⟩ := q
    by_cases hlt : d < t
    · rw [insert_lt hlt] at hp
      exact hR p hp
    · rw [insert_ge (by intro q hq; injection hq with hq; exact hq ▸ Nat.not_lt.mp hlt)] at hp
      injection hp with hp
      exact hp ▸ ht

theorem length_insert (a : α) (t : ℕ) (l : List (α × ℕ)) :
    (insert a t l).length = l.length + 1 := by
  have h := (keys_insert_perm a t l).length_eq
  simpa [keys] using h

theorem length_erase_le (a : α) (l : List (α × ℕ)) : (erase a l).length ≤ l.length := by
  have h := congrArg List.length (keys_erase a l)
  have h2 : ((keys l).erase a).length ≤ (keys l).length := List.length_erase_le
  rw [← h] at h2
  simpa [keys] using h2

end DeltaList

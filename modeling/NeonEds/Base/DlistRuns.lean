import NeonEds.Base.Dlist
import NeonEds.Lib.ListFamily

/-!
# Runs of the list functions

Many lists share one set of nodes.  `SeqStep` says what a call does to the family of the lists, as
sequences, and with it which calls are allowed; the functions of `dlist.h` follow it.

* `ndlistForEach_ring`   a list read by `NDLIST_FOR_EACH` from its sentinel;
* `runDlistOp_step`      a call follows the sequences, and writes to no node of another list;
* `runDlist_refines`     so does every sequence of calls, and in each state the links are sound.
-/

namespace NeonEds
open Exec

inductive DlistOp (α : Type) where
  | init (node : α)
  | addBefore (current node : α)
  | addAfter (current node : α)
  | remove (node : α)
  | rotateLeft (sentinel : α)

/-- the arguments of a call -/
def DlistOp.args {α : Type} : DlistOp α → List α
  | .init n => [n]
  | .addBefore c n => [c, n]
  | .addAfter c n => [c, n]
  | .remove n => [n]
  | .rotateLeft s => [s]

section
variable {α : Type} [DecidableEq α]

def runDlistOp (v : Bool) (L : Links α) : DlistOp α → Exec (Links α)
  | .init n => .ok (ndlistInit L n)
  | .addBefore c n => ndlistAddBefore L c n
  | .addAfter c n => ndlistAddAfter L c n
  | .remove n => ndlistRemove v L n
  | .rotateLeft s => ndlistRotateLeft v L s

/-- the nodes that `NDLIST_FOR_EACH` comes to, from `current` on -/
def ndlistWalk (L : Links α) (sentinel : α) : ℕ → α → Exec (List α)
  | 0, _ => .error .fuel
  | fuel + 1, current =>
    if current = sentinel then .ok []
    else do
      let next ← ndlistNext L current
      let rest ← ndlistWalk L sentinel fuel next
      return current :: rest

def ndlistForEach (L : Links α) (fuel : ℕ) (sentinel : α) : Exec (List α) := do
  let first ← ndlistNext L sentinel
  ndlistWalk L sentinel fuel first

/-! ## the calls on the sequences -/

/-- the calls that are allowed: `init` and the insertions take an unlinked node, an insertion a place
in a list, `remove` a node of a list -/
def DlistOp.Allowed (S : ListFamily α) : DlistOp α → Prop
  | .init n => S.Unlinked n
  | .addBefore c n => S.Placed c ∧ S.Unlinked n
  | .addAfter c n => S.Placed c ∧ S.Unlinked n
  | .remove n => ∃ s xs, S.list s = some xs ∧ n ∈ xs
  | .rotateLeft s => S.Placed s ∨ s ∈ S.removed

/-- what a call does to the lists as sequences -/
inductive SeqStep (S : ListFamily α) : DlistOp α → ListFamily α → Prop where
  | init {n : α} : SeqStep S (.init n) ((S.drop n).set n [])
  | addBefore {s c n : α} {pre post : List α} (hs : S.list s = some (pre ++ post))
      (hc : c = post.head?.getD s) (hn : n ≠ c) :
      SeqStep S (.addBefore c n) ((S.drop n).set s (pre ++ n :: post))
  | addAfter {s c n : α} {pre post : List α} (hs : S.list s = some (pre ++ post))
      (hc : c = pre.getLast?.getD s) (hn : n ≠ c) :
      SeqStep S (.addAfter c n) ((S.drop n).set s (pre ++ n :: post))
  /-- next to itself a node stays where it is -/
  | addBeforeSelf {n : α} : SeqStep S (.addBefore n n) S
  | addAfterSelf {n : α} : SeqStep S (.addAfter n n) S
  | remove {s n : α} {pre post : List α} (hs : S.list s = some (pre ++ n :: post)) :
      SeqStep S (.remove n) ((S.set s (pre ++ post)).takeOut n)
  | rotateLeft {s : α} {xs : List α} (hs : S.list s = some xs) :
      SeqStep S (.rotateLeft s) (S.set s (xs.rotate 1))
  /-- from a node of the list: it changes places with its successor -/
  | rotateNode {s c y : α} {pre post : List α} (hs : S.list s = some (pre ++ c :: y :: post)) :
      SeqStep S (.rotateLeft c) (S.set s (pre ++ y :: c :: post))
  | rotateLast {s c : α} {pre : List α} (hs : S.list s = some (pre ++ [c])) :
      SeqStep S (.rotateLeft c) (S.set s (c :: pre))
  | rotateRemoved {n : α} (hn : n ∈ S.removed) : SeqStep S (.rotateLeft n) S

/-- the nodes of the lists that a call is about -/
def DlistOp.Touched (S : ListFamily α) (op : DlistOp α) (x : α) : Prop :=
  x ∈ op.args ∨ ∃ s xs, S.list s = some xs ∧ x ∈ s :: xs ∧ ∃ y ∈ op.args, y ∈ s :: xs

/-- the links as a reader of the lists relies on them -/
structure LinksSound (L : Links α) (S : ListFamily α) : Prop where
  inverse : ∀ s xs x, S.list s = some xs → x ∈ s :: xs →
    (∃ y ∈ s :: xs, L.next x = some y ∧ L.prev y = some x) ∧
    (∃ y ∈ s :: xs, L.prev x = some y ∧ L.next y = some x)
  read : ∀ s xs fuel, S.list s = some xs → xs.length < fuel → ndlistForEach L fuel s = .ok xs
  apart : ∀ s xs t ys x, S.list s = some xs → x ∈ s :: xs → S.list t = some ys → x ∈ t :: ys → s = t
  isEmpty : ∀ x, S.Placed x ∨ x ∈ S.removed →
    (ndlistIsEmpty L x = true ↔ x ∈ S.removed ∨ S.list x = some [])
  removed : ∀ x ∈ S.removed, S.Unlinked x

/-- **The functions follow the sequences**: every allowed call, in every state of the run, does not
fault, does to the lists what `SeqStep` says and writes to no node of another list. -/
def FollowsSeqs (v : Bool) : Links α → ListFamily α → List (DlistOp α) → Prop
  | L, S, [] => LinksSound L S
  | L, S, op :: ops => LinksSound L S ∧ (op.Allowed S → ∃ L' S', runDlistOp v L op = .ok L' ∧
      SeqStep S op S' ∧ (∀ x, ¬ op.Touched S x → L'.EqAt L x) ∧ FollowsSeqs v L' S' ops)

/-! ## reading a list -/

variable {L L' : Links α} {S : ListFamily α} {s c n : α} {xs pre post : List α}

theorem ndlistWalk_seg (hs : s ∉ xs) :
    ∀ {a : α} {fuel : ℕ}, Seg L a xs s → xs.length < fuel →
      (ndlistNext L a >>= ndlistWalk L s fuel) = .ok xs := by
  induction xs with
  | nil =>
    intro a fuel h hf
    obtain ⟨fuel, rfl⟩ : ∃ k, fuel = k + 1 := ⟨fuel - 1, by omega⟩
    rw [ndlistNext, h.1, deref_some, ok_bind, ndlistWalk, if_pos rfl]
  | cons x xs ih =>
    intro a fuel h hf
    rw [List.length_cons] at hf
    rw [List.mem_cons, not_or] at hs
    obtain ⟨fuel, rfl⟩ : ∃ k, fuel = k + 1 := ⟨fuel - 1, by omega⟩
    have hrest := ih hs.2 h.2 (Nat.le_of_succ_le_succ hf)
    rw [ndlistNext, h.1.1, deref_some, ok_bind, ndlistWalk, if_neg (Ne.symm hs.1)]
    obtain ⟨next, hnext, hwalk⟩ := bind_eq_ok.mp hrest
    rw [hnext, ok_bind, hwalk, ok_bind, pure_eq]

/-- **From its sentinel a list is read in order.** -/
theorem ndlistForEach_ring (h : Circular L s xs) {fuel : ℕ} (hf : xs.length < fuel) :
    ndlistForEach L fuel s = .ok xs :=
  ndlistWalk_seg h.base_notMem h.seg hf

theorem linksSound (h : S.Holds L) : LinksSound L S where
  inverse s xs _ hs hx := (h.ring s xs hs).next_prev hx
  read s xs _ hs hf := ndlistForEach_ring (h.ring s xs hs) hf
  apart := h.apart
  isEmpty x hx := by
    rw [ndlistIsEmpty, decide_eq_true_iff]
    exact h.next_self_iff hx
  removed x hx := (h.removed x hx).2.unlinked

/-! ## one call -/

/-- what a call that is allowed leaves: the sequences after it, and the nodes that it may write to -/
def StepTo (S : ListFamily α) (L : Links α) (op : DlistOp α) (r : Exec (Links α)) : Prop :=
  ∃ L' S', r = .ok L' ∧ SeqStep S op S' ∧ S'.Holds L' ∧ ∀ x, ¬ op.Touched S x → L'.EqAt L x

theorem ndlistInit_step (h : S.Holds L) (hn : S.Unlinked n) :
    StepTo S L (.init n) (.ok (ndlistInit L n)) := by
  have hfree := hn.free_drop
  have he : ∀ x, x ≠ n → (ndlistInit L n).EqAt L x := fun x hx => by
    simp [Links.EqAt, ndlistInit, hx]
  refine ⟨_, _, rfl, .init, (h.drop n).set ?_ ?_ ?_ ?_, ?_⟩
  · rw [Circular.nil_iff]
    simp [ndlistInit]
  · intro x hx t ys ht hm
    rw [List.mem_singleton] at hx
    exact absurd (hx ▸ hm) (hfree t ys ht)
  · intro x hx
    rw [List.mem_singleton] at hx
    rw [hx]
    exact ListFamily.notMem_drop
  · exact fun x hx _ => he x (fun e => hx (List.mem_singleton.mpr e))
  · exact fun x hx => he x (fun e => hx (Or.inl (List.mem_singleton.mpr e)))

theorem insert_step (h : S.Holds L) (hs : S.list s = some (pre ++ post)) (hn : S.Unlinked n)
    (hns : n ≠ s) (hring : Circular L' s (pre ++ n :: post))
    (he : ∀ x, x ∉ n :: s :: (pre ++ post) → L'.EqAt L x) :
    ((S.drop n).set s (pre ++ n :: post)).Holds L' := by
  have hs' : (S.drop n).list s = some (pre ++ post) := (ListFamily.drop_list hns.symm).trans hs
  apply (h.drop n).set_insert hs' hn.free_drop ListFamily.notMem_drop hring _ he (by simp)
  intro x hx
  simp only [List.mem_cons, List.mem_append] at hx ⊢
  tauto

theorem ndlistAddBefore_self (hnext : L.next n = some n) (hprev : L.prev n = some n) :
    ndlistAddBefore L n n = .ok L := by
  simp only [ndlistAddBefore, Links.setNext_self hnext, hprev, Links.setPrev_self hprev, deref_some,
    ok_bind, pure_eq]

theorem ndlistAddAfter_self (hnext : L.next n = some n) (hprev : L.prev n = some n) :
    ndlistAddAfter L n n = .ok L := by
  simp only [ndlistAddAfter, Links.setPrev_self hprev, hnext, Links.setNext_self hnext, deref_some,
    ok_bind, pure_eq]

section
omit [DecidableEq α]

theorem notMem_of_not_touched {op : DlistOp α} {x : α} (hx : ¬ op.Touched S x)
    (hs : S.list s = some xs) (hc : c ∈ s :: xs) (hop : c ∈ op.args) : x ∉ s :: xs :=
  fun hm => hx (Or.inr ⟨s, xs, hs, hm, c, hop, hc⟩)

theorem unlinked_notMem (hn : S.Unlinked n) (hs : S.list s = some xs) (hc : c ∈ s :: xs)
    (hnc : n ≠ c) : n ∉ s :: xs := by
  intro hm
  obtain ⟨rfl, rfl⟩ := hn s xs hs hm
  exact hnc (List.mem_singleton.mp hc).symm

theorem exists_before (hc : c ∈ s :: xs) : ∃ pre post, xs = pre ++ post ∧ c = post.head?.getD s := by
  rcases List.mem_cons.mp hc with rfl | hc
  · exact ⟨xs, [], (List.append_nil xs).symm, rfl⟩
  · obtain ⟨as, bs, rfl⟩ := List.append_of_mem hc
    exact ⟨as, c :: bs, rfl, rfl⟩

theorem exists_after (hc : c ∈ s :: xs) :
    ∃ pre post, xs = pre ++ post ∧ c = pre.getLast?.getD s := by
  rcases List.mem_cons.mp hc with rfl | hc
  · exact ⟨[], xs, rfl, rfl⟩
  · obtain ⟨as, bs, rfl⟩ := List.append_of_mem hc
    exact ⟨as ++ [c], bs, by simp, by simp⟩

/-- a placed node that is unlinked is its own list -/
theorem ring_self (h : S.Holds L) (hc : S.Placed n) (hn : S.Unlinked n) :
    L.next n = some n ∧ L.prev n = some n := by
  obtain ⟨s, xs, hs, hm⟩ := hc
  obtain ⟨rfl, rfl⟩ := hn s xs hs hm
  exact Circular.nil_iff.mp (h.ring s [] hs)

end

theorem ndlistAddBefore_step (h : S.Holds L) (hc : S.Placed c) (hn : S.Unlinked n) :
    StepTo S L (.addBefore c n) (ndlistAddBefore L c n) := by
  by_cases hnc : n = c
  · obtain ⟨hnext, hprev⟩ := ring_self h (hnc ▸ hc) hn
    rw [← hnc, ndlistAddBefore_self hnext hprev]
    exact ⟨L, S, rfl, .addBeforeSelf, h, fun x _ => ⟨rfl, rfl⟩⟩
  · obtain ⟨s, xs, hs, hcm⟩ := hc
    have hnm := unlinked_notMem hn hs hcm hnc
    obtain ⟨pre, post, rfl, hc⟩ := exists_before hcm
    obtain ⟨L', hL', hring, he⟩ := ndlistAddBefore_ring (h.ring s _ hs) hc hnm
    have hns : n ≠ s := fun e => hnm (e ▸ List.mem_cons_self ..)
    refine ⟨L', _, hL', .addBefore hs hc hnc, insert_step h hs hn hns hring he, fun x hx => he x ?_⟩
    rw [List.mem_cons, not_or]
    exact ⟨fun e => hx (Or.inl (by simp [DlistOp.args, e])),
      notMem_of_not_touched hx hs hcm (by simp [DlistOp.args])⟩

theorem ndlistAddAfter_step (h : S.Holds L) (hc : S.Placed c) (hn : S.Unlinked n) :
    StepTo S L (.addAfter c n) (ndlistAddAfter L c n) := by
  by_cases hnc : n = c
  · obtain ⟨hnext, hprev⟩ := ring_self h (hnc ▸ hc) hn
    rw [← hnc, ndlistAddAfter_self hnext hprev]
    exact ⟨L, S, rfl, .addAfterSelf, h, fun x _ => ⟨rfl, rfl⟩⟩
  · obtain ⟨s, xs, hs, hcm⟩ := hc
    have hnm := unlinked_notMem hn hs hcm hnc
    obtain ⟨pre, post, rfl, hc⟩ := exists_after hcm
    obtain ⟨L', hL', hring, he⟩ := ndlistAddAfter_place (h.ring s _ hs) hc hnm
    have hns : n ≠ s := fun e => hnm (e ▸ List.mem_cons_self ..)
    refine ⟨L', _, hL', .addAfter hs hc hnc, insert_step h hs hn hns hring he, fun x hx => he x ?_⟩
    rw [List.mem_cons, not_or]
    exact ⟨fun e => hx (Or.inl (by simp [DlistOp.args, e])),
      notMem_of_not_touched hx hs hcm (by simp [DlistOp.args])⟩

theorem ndlistRemove_step (v : Bool) (h : S.Holds L) (hs : S.list s = some xs) (hn : n ∈ xs) :
    StepTo S L (.remove n) (ndlistRemove v L n) := by
  obtain ⟨pre, post, rfl⟩ := List.append_of_mem hn
  have hr := h.ring s _ hs
  obtain ⟨L', hL', hring, hnext, he⟩ := ndlistRemove_ring v hr
  have hsub : ∀ x ∈ s :: (pre ++ post), x ∈ s :: (pre ++ n :: post) := by
    intro x hx
    simp only [List.mem_cons, List.mem_append] at hx ⊢
    tauto
  have hset := h.set_subset hs hring hsub he
  refine ⟨L', _, hL', .remove hs, hset.takeOut hnext ?_, fun x hx => he x ?_⟩
  · intro t ys ht hm
    by_cases hts : t = s
    · rw [hts, ListFamily.set_list_self] at ht
      obtain rfl := Option.some.inj ht
      rw [hts, List.mem_cons, hr.mem_remove] at hm
      rcases hm with rfl | hm
      · exact hr.base_notMem hn
      · exact hm.2 rfl
    · rw [ListFamily.set_list hts] at ht
      exact hts (h.apart t ys s _ n ht hm hs (List.mem_cons_of_mem _ hn))
  · exact notMem_of_not_touched hx hs (List.mem_cons_of_mem _ hn) (by simp [DlistOp.args])

theorem rotate_step (v : Bool) (h : S.Holds L) (hs : S.list s = some xs) (hc : c ∈ s :: xs)
    {ys : List α} (hperm : ys.Perm xs) (hstep : SeqStep S (.rotateLeft c) (S.set s ys))
    (hrun : ndlistRotateLeft v L c = .ok L') (hring : Circular L' s ys)
    (he : ∀ x, x ∉ s :: xs → L'.EqAt L x) : StepTo S L (.rotateLeft c) (ndlistRotateLeft v L c) := by
  refine ⟨L', _, hrun, hstep, h.set_subset hs hring ?_ he, fun x hx => he x ?_⟩
  · intro x hx
    exact (hperm.cons s).mem_iff.mp hx
  · exact notMem_of_not_touched hx hs hc (by simp [DlistOp.args])

theorem ndlistRotateLeft_step (v : Bool) (h : S.Holds L) (hc : S.Placed c ∨ c ∈ S.removed) :
    StepTo S L (.rotateLeft c) (ndlistRotateLeft v L c) := by
  rcases hc with ⟨s, xs, hs, hcm⟩ | hc
  · have hr := h.ring s xs hs
    rcases List.mem_cons.mp hcm with rfl | hcx
    · obtain ⟨L', hL', hring, he⟩ := ndlistRotateLeft_ring v hr
      exact rotate_step v h hs hcm (List.rotate_perm xs 1) (.rotateLeft hs) hL' hring he
    · obtain ⟨pre, post, rfl⟩ := List.append_of_mem hcx
      have hmem : ∀ x, x ∈ c :: (post ++ s :: pre) ↔ x ∈ s :: (pre ++ c :: post) := by
        intro x
        simp only [List.mem_cons, List.mem_append]
        tauto
      obtain ⟨L', hL', hring, he⟩ := ndlistRotateLeft_ring v (Circular.rotate.mp hr)
      have he' : ∀ x, x ∉ s :: (pre ++ c :: post) → L'.EqAt L x :=
        fun x hx => he x (fun hm => hx ((hmem x).mp hm))
      cases post with
      | nil =>
        rw [List.nil_append, List.rotate_cons_succ, List.rotate_zero] at hring
        exact rotate_step v h hs hcm (List.perm_append_singleton c pre).symm (.rotateLast hs) hL'
          (show Circular L' s ([] ++ c :: pre) from Circular.rotate.mpr hring) he'
      | cons y post =>
        rw [List.cons_append, List.rotate_cons_succ, List.rotate_zero, List.append_assoc,
          List.cons_append] at hring
        have hback := Circular.rotate.mpr hring
        rw [List.append_assoc, List.singleton_append] at hback
        exact rotate_step v h hs hcm ((List.Perm.swap c y post).append_left pre) (.rotateNode hs) hL'
          hback he'
  · have hempty : ndlistIsEmpty L c = true := decide_eq_true (h.removed c hc).1
    rw [ndlistRotateLeft, if_pos hempty]
    exact ⟨L, S, rfl, .rotateRemoved hc, h, fun x _ => ⟨rfl, rfl⟩⟩

/-- **One allowed call.** -/
theorem runDlistOp_step (v : Bool) (h : S.Holds L) {op : DlistOp α} (hop : op.Allowed S) :
    StepTo S L op (runDlistOp v L op) := by
  cases op with
  | init n => exact ndlistInit_step h hop
  | addBefore c n => exact ndlistAddBefore_step h hop.1 hop.2
  | addAfter c n => exact ndlistAddAfter_step h hop.1 hop.2
  | remove n =>
    obtain ⟨s, xs, hs, hn⟩ := hop
    exact ndlistRemove_step v h hs hn
  | rotateLeft c => exact ndlistRotateLeft_step v h hop

/-- **The list functions refine operations on sequences**, for every run of calls. -/
theorem runDlist_refines (v : Bool) (L : Links α) (S : ListFamily α) (h : S.Holds L)
    (ops : List (DlistOp α)) : FollowsSeqs v L S ops := by
  induction ops generalizing L S with
  | nil => exact linksSound h
  | cons op ops ih =>
    refine ⟨linksSound h, fun hop => ?_⟩
    obtain ⟨L', S', hrun, hstep, h', he⟩ := runDlistOp_step v h hop
    exact ⟨L', S', hrun, hstep, he, ih L' S' h'⟩

end

/-- two lists are set up, a node moves from one to the other -/
theorem runDlist_refines_two : FollowsSeqs true ⟨fun _ => none, fun _ => none⟩ ⟨fun _ => none, ∅⟩
    [.init 0, .init 1, .addBefore 0 (2 : ℕ), .addAfter 2 3, .rotateLeft 0, .remove 2, .addAfter 1 2] :=
  runDlist_refines true _ _ ⟨nofun, nofun, nofun⟩ _

end NeonEds

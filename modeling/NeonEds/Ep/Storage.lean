import Mathlib.Data.List.Induction
import Mathlib.Data.List.Perm.Basic
import NeonEds.Lib.Exec
import NeonEds.Lib.Segment

/-!
# The memories of the events (source/event.c: `g_event_storage`)

`EventStorage` is `g_event_storage`, the array of the registered memory objects `M`; an access outside
`mem[0..NPOOLS)` is the fault `bounds`.  `nmemSize` is what `nmem_get_size_i` returns.  The debug
assertions are disabled.

* `Registry`           the array holds the list `l` from its start on, `pools` is its length;
* `StorageOk`          the registered objects stand in the array, each once, in order of size;
* `neventRegisterMem_registry`   a registration inserts the object behind those of its size;
* `neventUnregisterMem_null`     an unregistration that goes through leaves NULL in the last entry;
* `storageSound_iff`   so a run is sound when it only registers.
-/

namespace NeonEds
open Exec Segment

/-- the configuration: `CONFIG_EVENT_STORAGE_NPOOLS` and the width of `uint_fast8_t` -/
structure StorageConfig where
  npools : ℕ
  fast8 : ℕ

structure EventStorage (M : Type) where
  mem : ℕ → Option M
  pools : ℕ

namespace EventStorage
variable {M : Type}

/-- before the first registration -/
def init : EventStorage M := ⟨fun _ => none, 0⟩

def get (cfg : StorageConfig) (st : EventStorage M) (cnt : ℕ) : Exec (Option M) :=
  if cnt < cfg.npools then .ok (st.mem cnt) else .error .bounds

def set (cfg : StorageConfig) (st : EventStorage M) (cnt : ℕ) (mem : Option M) :
    Exec (EventStorage M) :=
  if cnt < cfg.npools then .ok { st with mem := Function.update st.mem cnt mem }
  else .error .bounds

end EventStorage

section
variable {M : Type} (cfg : StorageConfig) (nmemSize : M → ℕ)

def nmemGetSizeI (mem : Option M) : Exec ℕ := (deref mem).map nmemSize

/-- the loop of `nevent_register_mem`, from `cnt` down; it returns the last `cnt` -/
def registerLoop (size : ℕ) : ℕ → EventStorage M → Exec (ℕ × EventStorage M)
  | 0, st => .ok (0, st)
  | cnt + 1, st => do
    let st ← st.set cfg (cnt + 1) (← st.get cfg cnt)
    let entry ← nmemGetSizeI nmemSize (← st.get cfg (cnt + 1))
    if entry ≤ size then .ok (cnt + 1, st) else registerLoop size cnt st

def neventRegisterMem (st : EventStorage M) (mem : M) : Exec (EventStorage M) := do
  let size ← nmemGetSizeI nmemSize (some mem)
  let (cnt, st) ← registerLoop cfg nmemSize size st.pools st
  let st ← st.set cfg cnt (some mem)
  return { st with pools := (st.pools + 1) % 2 ^ cfg.fast8 }

/-- the first loop of `nevent_unregister_mem`: the search for `mem`, from `cnt` down -/
def unregisterSearch [DecidableEq M] (st : EventStorage M) (mem : M) : ℕ → Exec ℕ
  | 0 => .ok 0
  | cnt + 1 => do
    let entry ← st.get cfg (cnt + 1)
    if some mem ≠ entry then unregisterSearch st mem cnt else .ok (cnt + 1)

/-- the second loop: `n` entries from `cnt` on move down by one -/
def unregisterShift : ℕ → ℕ → EventStorage M → Exec (EventStorage M)
  | 0, _, st => .ok st
  | n + 1, cnt, st => do
    let st ← st.set cfg cnt (← st.get cfg (cnt + 1))
    unregisterShift n (cnt + 1) st

/-- `mem[pools - 1]` for no pools is outside the array -/
def neventUnregisterMem [DecidableEq M] (st : EventStorage M) (mem : M) :
    Exec (EventStorage M) := do
  let cnt ← unregisterSearch cfg st mem st.pools
  let st := { st with pools := (st.pools + 2 ^ cfg.fast8 - 1) % 2 ^ cfg.fast8 }
  let st ← unregisterShift cfg (st.pools - cnt) cnt st
  if st.pools = 0 then .error .bounds else st.set cfg (st.pools - 1) none

end

/-! ## what the array holds -/

section
variable {M : Type} {cfg : StorageConfig} {nmemSize : M → ℕ} {st st' : EventStorage M}
  {l : List M}

structure Registry (cfg : StorageConfig) (st : EventStorage M) (l : List M) : Prop where
  pools : st.pools = l.length
  length : l.length ≤ cfg.npools
  mem : Holds st.mem 0 l

theorem EventStorage.get_of_lt {cnt : ℕ} (h : cnt < cfg.npools) :
    st.get cfg cnt = .ok (st.mem cnt) := if_pos h

theorem EventStorage.set_of_lt {cnt : ℕ} (h : cnt < cfg.npools) (mem : Option M) :
    st.set cfg cnt mem = .ok { st with mem := Function.update st.mem cnt mem } := if_pos h

theorem EventStorage.set_eq_ok {cnt : ℕ} {mem : Option M} (h : st.set cfg cnt mem = .ok st') :
    st' = { st with mem := Function.update st.mem cnt mem } := by
  unfold EventStorage.set at h
  split at h
  · exact (Except.ok.inj h).symm
  · cases h

/-- **The loop of the registration**: `pre` has not been visited, `post` has moved up by one. -/
theorem registerLoop_split (nmemSize : M → ℕ) (size : ℕ) (pre : List M) :
    ∀ (post : List M) (st : EventStorage M),
      pre.length + post.length < cfg.npools → Holds st.mem 0 pre →
      Holds st.mem (pre.length + 1) post → (∀ y ∈ post, size < nmemSize y) →
      ∃ pre' post' mem, pre' ++ post' = pre ++ post ∧
        registerLoop cfg nmemSize size pre.length st = .ok (pre'.length, { st with mem := mem }) ∧
        Holds mem 0 pre' ∧ Holds mem (pre'.length + 1) post' ∧
        (∀ y ∈ pre'.getLast?, nmemSize y ≤ size) ∧ (∀ y ∈ post', size < nmemSize y) ∧
        ∀ i, pre.length < i → mem i = st.mem i := by
  induction pre using List.reverseRecOn with
  | nil =>
    intro post st _ hpre hpost hbig
    exact ⟨[], post, st.mem, rfl, rfl, hpre, hpost, (fun y hy => by cases hy), hbig, fun _ _ => rfl⟩
  | append_singleton pre x ih =>
    intro post st hlt hpre hpost hbig
    have hlen : (pre ++ [x]).length = pre.length + 1 := List.length_append
    rw [hlen] at hlt hpost ⊢
    obtain ⟨hpre', hx⟩ := holds_concat.mp hpre
    rw [Nat.zero_add] at hx
    -- the entry before `cnt` is copied, and then looked at
    let mem := Function.update st.mem (pre.length + 1) (some x)
    have hbody : registerLoop cfg nmemSize size (pre.length + 1) st
        = if nmemSize x ≤ size then .ok (pre.length + 1, { st with mem := mem })
          else registerLoop cfg nmemSize size pre.length { st with mem := mem } := by
      rw [registerLoop, EventStorage.get_of_lt (by omega), ok_bind, hx,
        EventStorage.set_of_lt (by omega), ok_bind, EventStorage.get_of_lt (by omega), ok_bind]
      show (nmemGetSizeI nmemSize (mem (pre.length + 1)) >>= _) = _
      rw [show mem (pre.length + 1) = some x from Function.update_self ..]
      rfl
    have hpremem : Holds mem 0 pre := hpre'.update (Or.inr (by omega)) _
    have hxmem : mem pre.length = some x := (Function.update_of_ne (by omega) ..).trans hx
    have hpostmem : Holds mem (pre.length + 1 + 1) post := hpost.update (Or.inl (by omega)) _
    have hframe : ∀ i, pre.length + 1 < i → mem i = st.mem i := fun i hi =>
      Function.update_of_ne (by omega) ..
    by_cases hsize : nmemSize x ≤ size
    · refine ⟨pre ++ [x], post, mem, rfl, ?_, ?_, ?_, ?_, hbig, hframe⟩
      · rw [hbody, if_pos hsize, hlen]
      · apply holds_concat.mpr
        rw [Nat.zero_add]
        exact ⟨hpremem, hxmem⟩
      · rw [hlen]
        exact hpostmem
      · intro y hy
        rw [List.getLast?_append, List.getLast?_singleton] at hy
        obtain rfl := Option.some.inj hy
        exact hsize
    · obtain ⟨pre₁, post₁, mem₁, happ, hrun, hpre₁, hpost₁, hle, hlt₁, hframe₁⟩ :=
        ih (x :: post) { st with mem := mem }
          (by rw [List.length_cons]; omega) hpremem ⟨Function.update_self .., hpostmem⟩
          (List.forall_mem_cons.mpr ⟨Nat.lt_of_not_le hsize, hbig⟩)
      refine ⟨pre₁, post₁, mem₁, ?_, ?_, hpre₁, hpost₁, hle, hlt₁, fun i hi => ?_⟩
      · rw [happ, List.append_assoc]
        rfl
      · rw [hbody, if_neg hsize, hrun]
      · exact (hframe₁ i (by omega)).trans (hframe i hi)

/-- **`nevent_register_mem`** with a free entry. -/
theorem neventRegisterMem_registry (nmemSize : M → ℕ) (h : Registry cfg st l)
    (hfree : l.length < cfg.npools) (m : M) : ∃ l' mem, Insertion nmemSize m l l' ∧ Holds mem 0 l' ∧
      (∀ i, l.length < i → mem i = st.mem i) ∧
      neventRegisterMem cfg nmemSize st m
        = .ok ⟨mem, (l.length + 1) % 2 ^ cfg.fast8⟩ := by
  obtain ⟨pre, post, mem, happ, hrun, hpre, hpost, hle, hlt, hframe⟩ :=
    registerLoop_split nmemSize (nmemSize m) l [] st hfree h.mem trivial
      (fun y hy => by cases hy)
  rw [List.append_nil] at happ
  have hlenle : pre.length ≤ l.length := by
    have := congrArg List.length happ
    rw [List.length_append] at this
    omega
  have hlen : pre.length < cfg.npools := by omega
  refine ⟨pre ++ m :: post, Function.update mem pre.length (some m),
    ⟨pre, post, happ.symm, rfl, hle, hlt⟩, ?_, fun i hi => ?_, ?_⟩
  · apply holds_append.mpr
    rw [Nat.zero_add]
    exact ⟨hpre.update (Or.inr (by omega)) _, Function.update_self ..,
      hpost.update (Or.inl (by omega)) _⟩
  · rw [Function.update_of_ne (by omega)]
    exact hframe i hi
  · unfold neventRegisterMem
    rw [← h.pools] at hrun ⊢
    show (registerLoop cfg nmemSize (nmemSize m) st.pools st >>= _) = _
    rw [hrun, ok_bind]
    show (EventStorage.set cfg _ _ _ >>= _) = _
    rw [EventStorage.set_of_lt hlen]
    rfl

/-! ## the registered objects -/

/-- `regs` are the registered objects: each stands in the array once, in order of size -/
def StorageOk (cfg : StorageConfig) (nmemSize : M → ℕ) (st : EventStorage M) (regs : List M) :
    Prop :=
  ∃ l, Registry cfg st l ∧ l.Nodup ∧ (∀ m, m ∈ l ↔ m ∈ regs) ∧
    l.Pairwise (fun x y => nmemSize x ≤ nmemSize y)

theorem storageOk_init : StorageOk cfg nmemSize (EventStorage.init : EventStorage M) [] :=
  ⟨[], ⟨rfl, Nat.zero_le _, trivial⟩, List.nodup_nil, fun _ => Iff.rfl, List.Pairwise.nil⟩

namespace StorageOk
variable {regs : List M}

theorem pools (h : StorageOk cfg nmemSize st regs) (hregs : regs.Nodup) :
    st.pools = regs.length := by
  obtain ⟨l, hl, hnodup, hmem, _⟩ := h
  rw [hl.pools]
  exact ((List.perm_ext_iff_of_nodup hnodup hregs).mpr hmem).length_eq

theorem registerMem (h : StorageOk cfg nmemSize st regs) (hregs : regs.Nodup)
    (hfree : regs.length < cfg.npools) (m : M) :
    ∃ st', neventRegisterMem cfg nmemSize st m = .ok st' ∧
      st'.pools = (regs.length + 1) % 2 ^ cfg.fast8 ∧
      (m ∉ regs → regs.length + 1 < 2 ^ cfg.fast8 → StorageOk cfg nmemSize st' (m :: regs)) := by
  have hpools := h.pools hregs
  obtain ⟨l, hl, hnodup, hmem, hsorted⟩ := h
  rw [hl.pools] at hpools
  obtain ⟨l', mem, hins, hholds, _, hrun⟩ :=
    neventRegisterMem_registry nmemSize hl (by omega) m
  rw [hpools] at hrun
  refine ⟨_, hrun, rfl, fun hm hwide => ⟨l', ⟨?_, ?_, hholds⟩, ?_, ?_, hins.sorted hsorted⟩⟩
  · show (regs.length + 1) % 2 ^ cfg.fast8 = _
    rw [hins.length, Nat.mod_eq_of_lt hwide, hpools]
  · rw [hins.length]
    omega
  · exact hins.nodup hnodup (fun hc => hm ((hmem m).mp hc))
  · intro y
    rw [hins.mem, hmem, List.mem_cons]

/-- an object registered twice stands in the array once or twice, but `pools` counts it twice -/
theorem not_twice (hregs : regs.Nodup) {m : M} (hm : m ∈ regs)
    (hpools : st'.pools = (regs.length + 1) % 2 ^ cfg.fast8) :
    ¬ StorageOk cfg nmemSize st' (m :: regs) := by
  intro h'
  have hsame : StorageOk cfg nmemSize st' regs := by
    obtain ⟨l, hl, hnodup, hmem, hsorted⟩ := h'
    refine ⟨l, hl, hnodup, fun y => ?_, hsorted⟩
    rw [hmem, List.mem_cons, or_iff_right_of_imp]
    intro hy
    rw [hy]
    exact hm
  have hlen := hsame.pools hregs
  have hpos := List.length_pos_of_mem hm
  rw [hpools] at hlen
  -- one more than a number, or zero
  rcases Nat.lt_or_ge (regs.length + 1) (2 ^ cfg.fast8) with hlt | hge
  · rw [Nat.mod_eq_of_lt hlt] at hlen
    omega
  · have hmod := Nat.mod_lt (regs.length + 1) (Nat.two_pow_pos cfg.fast8)
    have hself : (regs.length + 1) % 2 ^ cfg.fast8 = 0 := by
      rw [show regs.length + 1 = 2 ^ cfg.fast8 by omega, Nat.mod_self]
    omega

end StorageOk

/-! ## `nevent_unregister_mem` -/

/-- **`nevent_unregister_mem`**: what is set to NULL is the last entry that is left. -/
theorem neventUnregisterMem_null [DecidableEq M] {m : M}
    (h : neventUnregisterMem cfg st m = .ok st') :
    0 < st'.pools ∧ st'.mem (st'.pools - 1) = none := by
  obtain ⟨cnt, _, h⟩ := bind_eq_ok.mp h
  obtain ⟨st₁, _, h⟩ := bind_eq_ok.mp h
  split at h
  · cases h
  · have hst' := EventStorage.set_eq_ok h
    rw [hst']
    exact ⟨Nat.pos_of_ne_zero ‹_›, Function.update_self ..⟩

theorem StorageOk.last_ne_null {regs : List M} (h : StorageOk cfg nmemSize st regs)
    (hpos : 0 < st.pools) : st.mem (st.pools - 1) ≠ none := by
  obtain ⟨l, hl, _⟩ := h
  have hpools := hl.pools
  have hlast := hl.mem.get (i := st.pools - 1) (by omega)
  rw [Nat.zero_add] at hlast
  rw [hlast]
  exact Option.some_ne_none _

/-! ## runs -/

inductive StorageOp (M : Type) where
  | registerMem (m : M)
  | unregisterMem (m : M)

section
variable [DecidableEq M]

def runStorageOp (cfg : StorageConfig) (nmemSize : M → ℕ) (st : EventStorage M) :
    StorageOp M → Exec (EventStorage M)
  | .registerMem m => neventRegisterMem cfg nmemSize st m
  | .unregisterMem m => neventUnregisterMem cfg st m

def regsAfter (regs : List M) : StorageOp M → List M
  | .registerMem m => m :: regs
  | .unregisterMem m => regs.erase m

/-- a registration finds a free entry, what is unregistered is registered -/
def LegalStorageOp (cfg : StorageConfig) (regs : List M) : StorageOp M → Prop
  | .registerMem _ => regs.length < cfg.npools
  | .unregisterMem m => m ∈ regs

def LegalStorageRun (cfg : StorageConfig) : List M → List (StorageOp M) → Prop
  | _, [] => True
  | regs, op :: ops => LegalStorageOp cfg regs op ∧ LegalStorageRun cfg (regsAfter regs op) ops

instance (cfg : StorageConfig) (regs : List M) : (op : StorageOp M) →
    Decidable (LegalStorageOp cfg regs op)
  | .registerMem _ => inferInstanceAs (Decidable (regs.length < cfg.npools))
  | .unregisterMem m => inferInstanceAs (Decidable (m ∈ regs))

instance (cfg : StorageConfig) : (regs : List M) → (ops : List (StorageOp M)) →
    Decidable (LegalStorageRun cfg regs ops)
  | _, [] => isTrue trivial
  | regs, op :: ops =>
    have : Decidable (LegalStorageRun cfg (regsAfter regs op) ops) := instDecidableLegalStorageRun ..
    inferInstanceAs (Decidable (_ ∧ _))

/-- the registered objects stand in the array after every step, and no step leaves the array -/
def StorageSound (cfg : StorageConfig) (nmemSize : M → ℕ) :
    EventStorage M → List M → List (StorageOp M) → Prop
  | st, regs, [] => StorageOk cfg nmemSize st regs
  | st, regs, op :: ops => StorageOk cfg nmemSize st regs ∧
      ∃ st', runStorageOp cfg nmemSize st op = .ok st' ∧
        StorageSound cfg nmemSize st' (regsAfter regs op) ops

theorem StorageSound.ok {regs : List M} {ops : List (StorageOp M)}
    (h : StorageSound cfg nmemSize st regs ops) : StorageOk cfg nmemSize st regs := by
  cases ops with
  | nil => exact h
  | cons op ops => exact h.1

/-- distinct objects are registered, fewer than `pools` can count, and nothing is unregistered -/
def OnlyRegisters (cfg : StorageConfig) (regs : List M) (ops : List (StorageOp M)) : Prop :=
  ∃ ms : List M, ops = ms.map .registerMem ∧ (ms.reverse ++ regs).Nodup ∧
    (ms.reverse ++ regs).length < 2 ^ cfg.fast8

omit [DecidableEq M] in
theorem onlyRegisters_cons {regs : List M} {m : M} {ops : List (StorageOp M)} :
    OnlyRegisters cfg regs (.registerMem m :: ops) ↔ OnlyRegisters cfg (m :: regs) ops := by
  have happ : ∀ ms : List M, (m :: ms).reverse ++ regs = ms.reverse ++ m :: regs := by
    intro ms
    rw [List.reverse_cons, List.append_assoc]
    rfl
  constructor
  · intro ⟨ms, hms, hnodup, hlen⟩
    cases ms with
    | nil => cases hms
    | cons m' ms =>
      obtain ⟨hm, hops⟩ := List.cons.inj hms
      obtain rfl := StorageOp.registerMem.inj hm
      rw [happ] at hnodup hlen
      exact ⟨ms, hops, hnodup, hlen⟩
  · intro ⟨ms, hms, hnodup, hlen⟩
    rw [← happ] at hnodup hlen
    exact ⟨m :: ms, congrArg _ hms, hnodup, hlen⟩

/-- the induction is on the run; the first step that is not a registration of a new object ends it -/
theorem StorageOk.sound_iff (ops : List (StorageOp M)) :
    ∀ (st : EventStorage M) (regs : List M), StorageOk cfg nmemSize st regs → regs.Nodup →
      regs.length < 2 ^ cfg.fast8 → LegalStorageRun cfg regs ops →
      (StorageSound cfg nmemSize st regs ops ↔ OnlyRegisters cfg regs ops) := by
  induction ops with
  | nil =>
    intro st regs h hregs hlt _
    exact iff_of_true h ⟨[], rfl, hregs, hlt⟩
  | cons op ops ih =>
    intro st regs h hregs hlt ⟨hop, hops⟩
    cases op with
    | registerMem m =>
      obtain ⟨st', hrun, hpools, hok⟩ := h.registerMem hregs hop m
      have hsound : StorageSound cfg nmemSize st regs (.registerMem m :: ops) ↔
          StorageSound cfg nmemSize st' (m :: regs) ops := by
        constructor
        · intro ⟨_, st₁, hrun₁, hs⟩
          have hst := hrun.symm.trans hrun₁
          obtain rfl := Except.ok.inj hst
          exact hs
        · intro hs
          exact ⟨h, st', hrun, hs⟩
      rw [hsound, onlyRegisters_cons]
      by_cases hm : m ∈ regs
      · apply iff_of_false
        · exact fun hs => StorageOk.not_twice hregs hm hpools hs.ok
        · intro ⟨ms, _, hnodup, _⟩
          have hnodup' := (List.nodup_append.mp hnodup).2.1
          exact (List.nodup_cons.mp hnodup').1 hm
      · have hregs' : (m :: regs).Nodup := List.nodup_cons.mpr ⟨hm, hregs⟩
        by_cases hwide : regs.length + 1 < 2 ^ cfg.fast8
        · exact ih st' (m :: regs) (hok hm hwide) hregs' hwide hops
        · apply iff_of_false
          · -- the counter has gone round
            intro hs
            have hcount := hs.ok.pools hregs'
            have hmod := Nat.mod_lt (regs.length + 1) (Nat.two_pow_pos cfg.fast8)
            rw [List.length_cons] at hcount
            omega
          · intro ⟨ms, _, _, hlen⟩
            rw [List.length_append, List.length_cons] at hlen
            omega
    | unregisterMem m =>
      apply iff_of_false
      · intro ⟨_, st', hrun, hs⟩
        obtain ⟨hpos, hnull⟩ := neventUnregisterMem_null hrun
        exact hs.ok.last_ne_null hpos hnull
      · intro ⟨ms, hms, _⟩
        cases ms with
        | nil => cases hms
        | cons m' ms => cases hms

/-- **The registry of the event memories** is sound in exactly the runs that only register, each object
once and no more than the counter can hold. -/
theorem storageSound_iff (cfg : StorageConfig) (nmemSize : M → ℕ) (ops : List (StorageOp M))
    (hlegal : LegalStorageRun cfg [] ops) :
    StorageSound cfg nmemSize EventStorage.init [] ops ↔
      ∃ ms : List M, ops = ms.map .registerMem ∧ ms.Nodup ∧ ms.length < 2 ^ cfg.fast8 := by
  rw [storageOk_init.sound_iff ops _ _ List.nodup_nil (Nat.two_pow_pos cfg.fast8) hlegal]
  unfold OnlyRegisters
  apply exists_congr
  intro ms
  rw [List.append_nil, (List.reverse_perm ms).nodup_iff, List.length_reverse]

/-- three pools, four entries -/
theorem storageSound_three :
    LegalStorageRun ⟨4, 8⟩ [] [.registerMem 96, .registerMem 32, .registerMem 64] ∧
    StorageSound ⟨4, 8⟩ (id : ℕ → ℕ) EventStorage.init []
      [.registerMem 96, .registerMem 32, .registerMem 64] := by
  have hlegal : LegalStorageRun ⟨4, 8⟩ []
      [.registerMem 96, .registerMem 32, .registerMem (64 : ℕ)] := by decide
  exact ⟨hlegal, (storageSound_iff ⟨4, 8⟩ id _ hlegal).mpr ⟨[96, 32, 64], rfl, by decide, by decide⟩⟩

/-- two objects are registered, the second one is unregistered: the first one is lost as well -/
theorem unregister_not_storageSound :
    LegalStorageRun ⟨4, 8⟩ [] [.registerMem 32, .registerMem 64, .unregisterMem (64 : ℕ)] ∧
    ¬ StorageSound ⟨4, 8⟩ (id : ℕ → ℕ) EventStorage.init []
      [.registerMem 32, .registerMem 64, .unregisterMem 64] := by
  have hlegal : LegalStorageRun ⟨4, 8⟩ []
      [.registerMem 32, .registerMem 64, .unregisterMem (64 : ℕ)] := by decide
  refine ⟨hlegal, ?_⟩
  rw [storageOk_init.sound_iff _ _ _ List.nodup_nil (by decide) hlegal]
  intro ⟨ms, hms, _⟩
  match ms, hms with
  | [_, _, _], hms => cases hms

end

end

end NeonEds

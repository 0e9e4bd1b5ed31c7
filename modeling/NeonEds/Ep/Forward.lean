import NeonEds.Ep.Counted
import NeonEds.Ep.Create

/-!
# Events and their memory objects (source/event.c with `CONFIG_EVENT_SIZE == 1`)

`SizedEvents` is the memory of the events with their sizes and the calls of `nmem_alloc_i` that
returned memory.  Which events an allocator hands out is part of a call (`answer`).  The storage of
`find_memory_i` does not change.

* `allocatedBy`               the memory object whose allocation returned an event last;
* `MemsRemembered`            a run in which every live event has that object in `mem`, and every event is
                              given back to it;
* `runAllocOp_new`, `runAllocOp_old`   what a call does that gets, or does not get, memory;
* `memsRemembered_iff`        a run is one unless it forwards a static event.
-/

set_option linter.unusedSectionVars false

namespace NeonEds
open Exec

structure SizedEvents (E M : Type) extends EventMem E M where
  size : E → ℕ
  /-- the calls of `nmem_alloc_i` that returned memory, the last one first -/
  allocs : List (M × E)

section
variable {E M : Type} [DecidableEq E]

namespace SizedEvents

def withMem (st : SizedEvents E M) (m : EventMem E M) : SizedEvents E M :=
  { st with toEventMem := m }

def noteAlloc (st : SizedEvents E M) (mem : M) : Option E → SizedEvents E M
  | some e => { st with allocs := (mem, e) :: st.allocs }
  | none => st

def nmemAllocI (st : SizedEvents E M) (mem : Option M) (answer : Option E) :
    Exec (Option E × SizedEvents E M) := do
  let mem ← deref mem
  return (answer, st.noteAlloc mem answer)

/-- the `mem` that is given may be NULL -/
def eventInit (st : SizedEvents E M) (e : E) (id : ℕ) (mem : Option M) (size : ℕ) :
    SizedEvents E M :=
  { st.withMem (st.setEvent e { mem := mem, id := id, attrib := neventAttrDynamic, ref := 0#32 }) with
    size := Function.update st.size e size }

/-- `memcpy(ret, event, event->size)` -/
def memcpy (st : SizedEvents E M) (ret e : E) : SizedEvents E M :=
  { st.withMem (st.setEvent ret (st.event e)) with size := Function.update st.size ret (st.size e) }

section
variable (cfg : StorageConfig) (nmemSize : M → ℕ) (storage : EventStorage M)

/-- `nevent_create` and `nevent_create_i` -/
def neventCreate (st : SizedEvents E M) (size id : ℕ) (answer : Option E) :
    Exec (SizedEvents E M) := do
  let mem ← findMemoryI cfg nmemSize storage size
  let (event, st) ← st.nmemAllocI mem answer
  match event with
  | some e => return st.eventInit e id mem size
  | none => return st

def neventCreateFromI (st : SizedEvents E M) (mem : M) (size id : ℕ) (answer : Option E) :
    Exec (SizedEvents E M) := do
  let (event, st) ← st.nmemAllocI (some mem) answer
  match event with
  | some e => return st.eventInit e id (some mem) size
  | none => return st

/-- the memory object from which a copy of `e` is allocated -/
def forwardMem (st : SizedEvents E M) (e : E) : Exec (Option M) :=
  match (st.event e).mem with
  | some mem => .ok (some mem)
  | none => findMemoryI cfg nmemSize storage (st.size e)

def neventForward (st : SizedEvents E M) (e : E) (id : ℕ) (answer : Option E) :
    Exec (SizedEvents E M) := do
  let mem ← st.forwardMem cfg nmemSize storage e
  let (ret, st) ← st.nmemAllocI mem answer
  match ret with
  | some r =>
    let st := st.memcpy r e
    return st.eventInit r id (st.event e).mem (st.size e)
  | none => return st

end

end SizedEvents

/-! ## runs -/

inductive AllocOp (E M : Type) where
  | create (size id : ℕ) (answer : Option E)
  | createFrom (mem : M) (size id : ℕ) (answer : Option E)
  | forward (e : E) (id : ℕ) (answer : Option E)
  | lock (e : E)
  | unlock (e : E)
  | destroy (e : E)
  /-- the event comes to a place, it leaves a place -/
  | refUp (saturates : Bool) (e : E)
  | refDown (saturates : Bool) (e : E)

def AllocOp.answer : AllocOp E M → Option E
  | .create _ _ answer => answer
  | .createFrom _ _ _ answer => answer
  | .forward _ _ answer => answer
  | _ => none

def AllocOp.event : AllocOp E M → Option E
  | .forward e _ _ => some e
  | .lock e => some e
  | .unlock e => some e
  | .destroy e => some e
  | .refUp _ e => some e
  | .refDown _ e => some e
  | _ => none

section
variable (cfg : StorageConfig) (nmemSize : M → ℕ) (storage : EventStorage M)

def runAllocOp (st : SizedEvents E M) : AllocOp E M → Exec (SizedEvents E M)
  | .create size id answer => st.neventCreate cfg nmemSize storage size id answer
  | .createFrom mem size id answer => st.neventCreateFromI mem size id answer
  | .forward e id answer => st.neventForward cfg nmemSize storage e id answer
  | .lock e => .ok (st.withMem (neventLock st.toEventMem e))
  | .unlock e => .ok (st.withMem (neventUnlock st.toEventMem e))
  | .destroy e => .ok (st.withMem (neventDestroyI st.toEventMem e))
  | .refUp saturates e => .ok (st.withMem (st.refUp saturates e))
  | .refDown saturates e => .ok (st.withMem (st.refDown saturates e))

end

/-- the memory object whose allocation returned `e` last -/
def allocatedBy (st : SizedEvents E M) (e : E) : Option M :=
  (st.allocs.find? (fun p => decide (p.2 = e))).map Prod.fst

/-- what a call gave back, and to which object -/
def givenBack (st st' : SizedEvents E M) : List (Option M × E) :=
  st'.frees.take (st'.frees.length - st.frees.length)

def liveEventsAfter (live : E → Bool) (op : AllocOp E M) (st st' : SizedEvents E M) : E → Bool :=
  without (fun e => live e || decide (op.answer = some e)) ((givenBack st st').map Prod.snd)

/-- the callers pass events that are static or live, the allocators answer with free memory -/
def LegalAllocOp (static live : E → Bool) (op : AllocOp E M) : Prop :=
  (∀ e, op.event = some e → static e = true ∨ live e = true) ∧
    ∀ e, op.answer = some e → static e = false ∧ live e = false

/-- every live event has in `mem` the object that allocated it -/
def MemsOk (st : SizedEvents E M) (live : E → Bool) : Prop :=
  ∀ e, live e = true → (st.event e).mem ≠ none ∧ (st.event e).mem = allocatedBy st e

section
variable (cfg : StorageConfig) (nmemSize : M → ℕ) (storage : EventStorage M) (static : E → Bool)

def LegalAllocRun : SizedEvents E M → (E → Bool) → List (AllocOp E M) → Prop
  | _, _, [] => True
  | st, live, op :: ops => LegalAllocOp static live op ∧
      ∀ st', runAllocOp cfg nmemSize storage st op = .ok st' →
        LegalAllocRun st' (liveEventsAfter live op st st') ops

def MemsRemembered : SizedEvents E M → (E → Bool) → List (AllocOp E M) → Prop
  | st, live, [] => MemsOk st live
  | st, live, op :: ops => MemsOk st live ∧
      ∀ st', runAllocOp cfg nmemSize storage st op = .ok st' →
        (∀ p ∈ givenBack st st', live p.2 = true ∧ p.1 ≠ none ∧ p.1 = allocatedBy st p.2) ∧
        MemsRemembered st' (liveEventsAfter live op st st') ops

/-- no static event is forwarded for which there is memory -/
def ForwardsDynamic : SizedEvents E M → List (AllocOp E M) → Prop
  | _, [] => True
  | st, op :: ops =>
      ∀ st', runAllocOp cfg nmemSize storage st op = .ok st' →
        (∀ e id r, op = .forward e id (some r) → static e = false) ∧ ForwardsDynamic st' ops

end

/-- a run starts without dynamic events, and a static event is as `NEVENT_INITIALIZER` leaves it -/
def NoEvents (static : E → Bool) (st : SizedEvents E M) : Prop :=
  ∀ e, static e = true → (st.event e).attrib = 0#32 ∧ (st.event e).mem = none

/-! ## what a call does -/

section
variable {st st' : SizedEvents E M} {e r : E}

theorem nmemAllocI_ok {mem : Option M} {answer : Option E} {event : Option E}
    (h : st.nmemAllocI mem answer = .ok (event, st')) :
    ∃ m, mem = some m ∧ event = answer ∧ st' = st.noteAlloc m answer := by
  cases mem with
  | none => cases h
  | some m =>
    obtain ⟨rfl, rfl⟩ := Prod.mk.inj (Except.ok.inj h)
    exact ⟨m, rfl, rfl, rfl⟩

/-- a new event `r`, allocated by `m`, which gets `mem` -/
structure NewEvent (st st' : SizedEvents E M) (r : E) (m : M) (mem : Option M) : Prop where
  event : ∃ id, st'.event = Function.update st.event r
    { mem := mem, id := id, attrib := neventAttrDynamic, ref := 0#32 }
  allocs : st'.allocs = (m, r) :: st.allocs
  frees : st'.frees = st.frees

variable {cfg : StorageConfig} {nmemSize : M → ℕ} {storage : EventStorage M} {op : AllocOp E M}

/-- **A copy** gets the memory object of the event, whichever object has allocated it. -/
theorem neventForward_new {id : ℕ}
    (h : st.neventForward cfg nmemSize storage e id (some r) = .ok st') :
    ∃ m, NewEvent st st' r m (st.event e).mem ∧
      ∀ m', (st.event e).mem = some m' → m' = m := by
  obtain ⟨mem, hmem, h⟩ := bind_eq_ok.mp h
  obtain ⟨⟨event, st₁⟩, halloc, h⟩ := bind_eq_ok.mp h
  obtain ⟨m, rfl, rfl, rfl⟩ := nmemAllocI_ok halloc
  obtain rfl := Except.ok.inj h
  -- the copy has the fields of `e` until `event_init` sets them; `e` itself is not changed
  have hcopy : (Function.update st.event r (st.event e) e).mem = (st.event e).mem := by
    by_cases her : e = r
    · rw [← her, Function.update_self]
    · rw [Function.update_of_ne her]
  refine ⟨m, ⟨⟨id, ?_⟩, rfl, rfl⟩, fun m' he => ?_⟩
  · rw [← hcopy]
    exact Function.update_idem ..
  · unfold SizedEvents.forwardMem at hmem
    rw [he] at hmem
    exact Option.some.inj (Except.ok.inj hmem)

/-- **A call that gets memory**: only the copy of an event without a memory object gets none. -/
theorem runAllocOp_new (h : runAllocOp cfg nmemSize storage st op = .ok st')
    (ha : op.answer = some r) :
    (∃ m, NewEvent st st' r m (some m)) ∨
    ∃ e id m, op = .forward e id (some r) ∧ (st.event e).mem = none ∧ NewEvent st st' r m none := by
  cases op with
  | create size id answer =>
    obtain rfl : answer = some r := ha
    obtain ⟨mem, _, h⟩ := bind_eq_ok.mp h
    obtain ⟨⟨event, st₁⟩, halloc, h⟩ := bind_eq_ok.mp h
    obtain ⟨m, rfl, rfl, rfl⟩ := nmemAllocI_ok halloc
    obtain rfl := Except.ok.inj h
    exact Or.inl ⟨m, ⟨id, rfl⟩, rfl, rfl⟩
  | createFrom mem size id answer =>
    obtain rfl : answer = some r := ha
    obtain ⟨⟨event, st₁⟩, halloc, h⟩ := bind_eq_ok.mp h
    obtain ⟨m, hm, rfl, rfl⟩ := nmemAllocI_ok halloc
    obtain rfl := Option.some.inj hm
    obtain rfl := Except.ok.inj h
    exact Or.inl ⟨mem, ⟨id, rfl⟩, rfl, rfl⟩
  | forward e id answer =>
    obtain rfl : answer = some r := ha
    obtain ⟨m, hnew, hm⟩ := neventForward_new h
    cases he : (st.event e).mem with
    | none =>
      rw [he] at hnew
      exact Or.inr ⟨e, id, m, rfl, he, hnew⟩
    | some m' =>
      obtain rfl := hm m' he
      rw [he] at hnew
      exact Or.inl ⟨m', hnew⟩
  | _ => cases ha

/-- what a call gives back: nothing, or an event with attributes -/
def GivesBack (st st' : SizedEvents E M) (op : AllocOp E M) : Prop :=
  st'.frees = st.frees ∨ ∃ e, op.event = some e ∧ (st.event e).attrib ≠ 0#32 ∧
    st'.frees = ((st.event e).mem, e) :: st.frees

/-- the memory objects and the static events are as before -/
structure SameMems (st st' : SizedEvents E M) : Prop where
  allocs : st'.allocs = st.allocs
  mem : ∀ x, (st'.event x).mem = (st.event x).mem
  attrib : ∀ x, (st.event x).attrib = 0#32 → (st'.event x).attrib = 0#32

theorem SameMems.rfl' : SameMems st st := ⟨rfl, fun _ => rfl, fun _ h => h⟩

theorem sameMems_setEvent {x : Nevent M} (hmem : x.mem = (st.event e).mem)
    (hattrib : (st.event e).attrib = 0#32 → x.attrib = 0#32) :
    SameMems st (st.withMem (st.setEvent e x)) := by
  refine ⟨rfl, fun y => ?_, fun y hy => ?_⟩
  · show (Function.update st.event e x y).mem = _
    by_cases hye : y = e
    · rw [hye, Function.update_self, hmem]
    · rw [Function.update_of_ne hye]
  · show (Function.update st.event e x y).attrib = _
    by_cases hye : y = e
    · rw [hye] at hy ⊢
      rw [Function.update_self]
      exact hattrib hy
    · rw [Function.update_of_ne hye]
      exact hy

theorem attrib_ne_of_neventRef {x : Nevent M} (h : neventRef x = 0) : x.attrib ≠ 0#32 := by
  intro hc
  unfold neventRef at h
  rw [EventOkAt.toInt_eq_zero_iff, BitVec.or_eq_zero_iff, hc] at h
  exact absurd h.2 (by decide)

theorem neventUnlock_effect (st : SizedEvents E M) (e : E) :
    SameMems st (st.withMem (neventUnlock st.toEventMem e)) ∧
    GivesBack st (st.withMem (neventUnlock st.toEventMem e)) (.unlock e) := by
  unfold neventUnlock
  by_cases ha : (st.event e).attrib = 0#32
  · rw [if_neg (fun hc => hc ha)]
    exact ⟨.rfl', Or.inl rfl⟩
  · rw [if_pos ha]
    have hsame : SameMems st
        (st.withMem (st.setEvent e { st.event e with attrib := neventAttrDynamic })) :=
      sameMems_setEvent rfl (fun hc => absurd hc ha)
    dsimp only
    split
    · refine ⟨⟨hsame.allocs, hsame.mem, hsame.attrib⟩, Or.inr ⟨e, rfl, ha, ?_⟩⟩
      show ((Function.update st.event e _ e).mem, e) :: st.frees = _
      rw [Function.update_self]
    · exact ⟨hsame, Or.inl rfl⟩

/-- **A call that gets no memory** leaves the memory objects as they are. -/
theorem runAllocOp_old (h : runAllocOp cfg nmemSize storage st op = .ok st')
    (ha : op.answer = none) : SameMems st st' ∧ GivesBack st st' op := by
  cases op with
  | create size id answer =>
    obtain rfl : answer = none := ha
    obtain ⟨mem, _, h⟩ := bind_eq_ok.mp h
    obtain ⟨⟨event, st₁⟩, halloc, h⟩ := bind_eq_ok.mp h
    obtain ⟨m, rfl, rfl, rfl⟩ := nmemAllocI_ok halloc
    obtain rfl := Except.ok.inj h
    exact ⟨.rfl', Or.inl rfl⟩
  | createFrom mem size id answer =>
    obtain rfl : answer = none := ha
    obtain ⟨⟨event, st₁⟩, halloc, h⟩ := bind_eq_ok.mp h
    obtain ⟨m, _, rfl, rfl⟩ := nmemAllocI_ok halloc
    obtain rfl := Except.ok.inj h
    exact ⟨.rfl', Or.inl rfl⟩
  | forward e id answer =>
    obtain rfl : answer = none := ha
    obtain ⟨mem, _, h⟩ := bind_eq_ok.mp h
    obtain ⟨⟨event, st₁⟩, halloc, h⟩ := bind_eq_ok.mp h
    obtain ⟨m, rfl, rfl, rfl⟩ := nmemAllocI_ok halloc
    obtain rfl := Except.ok.inj h
    exact ⟨.rfl', Or.inl rfl⟩
  | lock e =>
    obtain rfl := Except.ok.inj h
    unfold neventLock
    by_cases hattrib : (st.event e).attrib = 0#32
    · rw [if_neg (fun hc => hc hattrib)]
      exact ⟨.rfl', Or.inl rfl⟩
    · rw [if_pos hattrib]
      exact ⟨sameMems_setEvent rfl (fun hc => absurd hc hattrib), Or.inl rfl⟩
  | unlock e =>
    obtain rfl := Except.ok.inj h
    exact neventUnlock_effect st e
  | destroy e =>
    obtain rfl := Except.ok.inj h
    unfold neventDestroyI
    split
    · have hne : (st.event e).attrib ≠ 0#32 := attrib_ne_of_neventRef ‹_›
      exact ⟨⟨rfl, fun _ => rfl, fun _ hx => hx⟩, Or.inr ⟨e, rfl, hne, rfl⟩⟩
    · exact ⟨.rfl', Or.inl rfl⟩
  | refUp saturates e =>
    obtain rfl := Except.ok.inj h
    obtain ⟨hmem, _, hattrib⟩ := neventRefUp_fields saturates (st.event e)
    exact ⟨sameMems_setEvent hmem hattrib.trans, Or.inl rfl⟩
  | refDown saturates e =>
    obtain rfl := Except.ok.inj h
    obtain ⟨hmem, _, hattrib⟩ := neventRefDown_fields saturates (st.event e)
    exact ⟨sameMems_setEvent hmem hattrib.trans, Or.inl rfl⟩

end

/-! ## what holds in a run -/

section
variable {st st' : SizedEvents E M} {static live : E → Bool} {op : AllocOp E M} {r : E} {m : M}
  {mem : Option M}

structure AllocInv (static live : E → Bool) (st : SizedEvents E M) : Prop where
  mems : MemsOk st live
  static : ∀ e, static e = true →
    (st.event e).attrib = 0#32 ∧ (st.event e).mem = none ∧ live e = false

theorem NoEvents.inv (h : NoEvents static st) : AllocInv static (fun _ => false) st :=
  ⟨fun _ hl => absurd hl Bool.false_ne_true, fun e he => ⟨(h e he).1, (h e he).2, rfl⟩⟩

theorem givenBack_nil (h : st'.frees = st.frees) : givenBack st st' = [] := by
  unfold givenBack
  rw [h, Nat.sub_self, List.take_zero]

theorem givenBack_cons {p : Option M × E} (h : st'.frees = p :: st.frees) :
    givenBack st st' = [p] := by
  unfold givenBack
  rw [h, List.length_cons, Nat.add_sub_cancel_left]
  rfl

theorem liveEventsAfter_old (ha : op.answer = none) :
    liveEventsAfter live op st st' = without live ((givenBack st st').map Prod.snd) := by
  unfold liveEventsAfter
  rw [ha]
  apply congrArg (fun l => without l _)
  funext e
  rw [decide_eq_false (by simp), Bool.or_false]

namespace NewEvent

theorem event_self (h : NewEvent st st' r m mem) : (st'.event r).mem = mem := by
  obtain ⟨id, hid⟩ := h.event
  rw [hid, Function.update_self]

theorem event_of_ne (h : NewEvent st st' r m mem) {x : E} (hx : x ≠ r) :
    st'.event x = st.event x := by
  obtain ⟨id, hid⟩ := h.event
  rw [hid, Function.update_of_ne hx]

theorem allocatedBy_self (h : NewEvent st st' r m mem) : allocatedBy st' r = some m := by
  unfold allocatedBy
  rw [h.allocs, List.find?_cons]
  simp

theorem allocatedBy_of_ne (h : NewEvent st st' r m mem) {x : E} (hx : x ≠ r) :
    allocatedBy st' x = allocatedBy st x := by
  unfold allocatedBy
  rw [h.allocs, List.find?_cons_of_neg (by simpa using Ne.symm hx)]

theorem live_iff (h : NewEvent st st' r m mem) (ha : op.answer = some r) (x : E) :
    liveEventsAfter live op st st' x = true ↔ live x = true ∨ x = r := by
  unfold liveEventsAfter
  rw [givenBack_nil h.frees, ha]
  simp only [without, List.map_nil, List.not_mem_nil, decide_false, Bool.not_false, Bool.and_true,
    Bool.or_eq_true, decide_eq_true_eq, Option.some.injEq]
  exact or_congr_right eq_comm

end NewEvent

/-- **A call that gets memory** keeps what holds when the new event gets its memory object. -/
theorem AllocInv.new (h : AllocInv static live st) (hl : LegalAllocOp static live op)
    (ha : op.answer = some r) (hnew : NewEvent st st' r m (some m)) :
    AllocInv static (liveEventsAfter live op st st') st' := by
  obtain ⟨hrs, _⟩ := hl.2 r ha
  refine ⟨fun x hx => ?_, fun x hx => ?_⟩
  · rcases eq_or_ne x r with hxr | hxr
    · rw [hxr, hnew.event_self, hnew.allocatedBy_self]
      exact ⟨Option.some_ne_none m, rfl⟩
    · rw [hnew.event_of_ne hxr, hnew.allocatedBy_of_ne hxr]
      exact h.mems x (((hnew.live_iff ha x).mp hx).resolve_right hxr)
  · have hxr : x ≠ r := by
      intro hc
      rw [hc, hrs] at hx
      cases hx
    obtain ⟨hattrib, hmem, hlive⟩ := h.static x hx
    rw [hnew.event_of_ne hxr]
    refine ⟨hattrib, hmem, Bool.eq_false_iff.mpr fun hc => ?_⟩
    rw [((hnew.live_iff ha x).mp hc).resolve_right hxr] at hlive
    cases hlive

/-- an event that is live and has no memory object -/
theorem not_memsOk_of_new (ha : op.answer = some r) (hnew : NewEvent st st' r m none) :
    ¬ MemsOk st' (liveEventsAfter live op st st') :=
  fun hc => (hc r ((hnew.live_iff ha r).mpr (Or.inr rfl))).1 hnew.event_self

/-- **A call that gets no memory** keeps what holds and gives an event back where it came from. -/
theorem AllocInv.old (h : AllocInv static live st) (hl : LegalAllocOp static live op)
    (ha : op.answer = none) (hsame : SameMems st st') (hback : GivesBack st st' op) :
    AllocInv static (liveEventsAfter live op st st') st' ∧
    ∀ p ∈ givenBack st st', live p.2 = true ∧ p.1 ≠ none ∧ p.1 = allocatedBy st p.2 := by
  have hallocated : ∀ x, allocatedBy st' x = allocatedBy st x := by
    intro x
    unfold allocatedBy
    rw [hsame.allocs]
  have hlive : ∀ x, liveEventsAfter live op st st' x = true → live x = true := by
    intro x hx
    rw [liveEventsAfter_old ha] at hx
    exact (Bool.and_eq_true_iff.mp hx).1
  refine ⟨⟨fun x hx => ?_, fun x hx => ?_⟩, fun p hp => ?_⟩
  · rw [hsame.mem, hallocated]
    exact h.mems x (hlive x hx)
  · obtain ⟨hattrib, hmem, hfalse⟩ := h.static x hx
    rw [hsame.mem]
    refine ⟨hsame.attrib x hattrib, hmem, Bool.eq_false_iff.mpr fun hc => ?_⟩
    rw [hlive x hc] at hfalse
    cases hfalse
  · rcases hback with hnone | ⟨e, he, hattrib, hfrees⟩
    · rw [givenBack_nil hnone] at hp
      cases hp
    · rw [givenBack_cons hfrees, List.mem_singleton] at hp
      rw [hp]
      have hel : live e = true :=
        (hl.1 e he).resolve_left fun hs => hattrib (h.static e hs).1
      exact ⟨hel, h.mems e hel⟩

variable {cfg : StorageConfig} {nmemSize : M → ℕ} {storage : EventStorage M}

theorem MemsRemembered.ok {ops : List (AllocOp E M)}
    (h : MemsRemembered cfg nmemSize storage st live ops) : MemsOk st live := by
  cases ops with
  | nil => exact h
  | cons op ops => exact h.1

/-- **A step** that is not the copy of a static event keeps what holds. -/
theorem AllocInv.step (h : AllocInv static live st) (hl : LegalAllocOp static live op)
    (hrun : runAllocOp cfg nmemSize storage st op = .ok st')
    (hdyn : ∀ e id r, op = .forward e id (some r) → static e = false) :
    AllocInv static (liveEventsAfter live op st st') st' ∧
    ∀ p ∈ givenBack st st', live p.2 = true ∧ p.1 ≠ none ∧ p.1 = allocatedBy st p.2 := by
  cases ha : op.answer with
  | none =>
    obtain ⟨hsame, hback⟩ := runAllocOp_old hrun ha
    exact h.old hl ha hsame hback
  | some r =>
    rcases runAllocOp_new hrun ha with ⟨m, hnew⟩ | ⟨e, id, m, hop, hmem, _⟩
    · refine ⟨h.new hl ha hnew, fun p hp => ?_⟩
      rw [givenBack_nil hnew.frees] at hp
      cases hp
    · -- an event that is not static is live and has a memory object
      have he : static e = true ∨ live e = true := hl.1 e (by rw [hop]; rfl)
      rw [hdyn e id r hop] at he
      exact absurd hmem (h.mems e (he.resolve_left Bool.false_ne_true)).1

/-- the copy of a static event has no memory object -/
theorem AllocInv.forward_static (h : AllocInv static live st) {e : E} {id : ℕ}
    (he : static e = true)
    (hrun : runAllocOp cfg nmemSize storage st (.forward e id (some r)) = .ok st') :
    ¬ MemsOk st' (liveEventsAfter live (.forward e id (some r)) st st') := by
  obtain ⟨m, hnew, _⟩ := neventForward_new hrun
  rw [(h.static e he).2.1] at hnew
  exact not_memsOk_of_new rfl hnew

/-- the induction is on the run; the first copy of a static event ends it -/
theorem AllocInv.remembered_iff (ops : List (AllocOp E M)) :
    ∀ (st : SizedEvents E M) (live : E → Bool), AllocInv static live st →
      LegalAllocRun cfg nmemSize storage static st live ops →
      (MemsRemembered cfg nmemSize storage st live ops ↔
        ForwardsDynamic cfg nmemSize storage static st ops) := by
  induction ops with
  | nil =>
    intro st live h _
    exact iff_of_true h.mems trivial
  | cons op ops ih =>
    intro st live h ⟨hl, hlegal⟩
    constructor
    · intro ⟨_, hrem⟩ st' hrun
      obtain ⟨_, hrem'⟩ := hrem st' hrun
      have hdyn : ∀ e id r, op = .forward e id (some r) → static e = false := by
        intro e id r hop
        rw [hop] at hrun hrem'
        by_contra hc
        exact h.forward_static (Bool.eq_true_of_not_eq_false hc) hrun hrem'.ok
      have hinv := (h.step hl hrun hdyn).1
      exact ⟨hdyn, (ih st' _ hinv (hlegal st' hrun)).mp hrem'⟩
    · intro hfwd
      refine ⟨h.mems, fun st' hrun => ?_⟩
      obtain ⟨hdyn, hfwd'⟩ := hfwd st' hrun
      obtain ⟨hinv, hback⟩ := h.step hl hrun hdyn
      exact ⟨hback, (ih st' _ hinv (hlegal st' hrun)).mpr hfwd'⟩

end

/-- **Dynamic events remember their memory object** in exactly the runs that do not forward a static
event: the copy of one gets no memory object. -/
theorem memsRemembered_iff (cfg : StorageConfig) (nmemSize : M → ℕ) (storage : EventStorage M)
    (static : E → Bool) (st : SizedEvents E M) (hst : NoEvents static st)
    (ops : List (AllocOp E M))
    (hlegal : LegalAllocRun cfg nmemSize storage static st (fun _ => false) ops) :
    MemsRemembered cfg nmemSize storage st (fun _ => false) ops ↔
      ForwardsDynamic cfg nmemSize storage static st ops :=
  hst.inv.remembered_iff ops st _ hlegal

/-! ### one memory object, the static event `0` and two dynamic events -/

def oneMemory : EventStorage Unit where
  mem
    | 0 => some ()
    | _ => none
  pools := 1

def staticZero : Fin 3 → Bool := fun e => decide (e = 0)

def oneStatic : SizedEvents (Fin 3) Unit where
  event := fun _ => { mem := none, id := 15, attrib := 0#32, ref := 0#32 }
  frees := []
  size := fun _ => 32
  allocs := []

theorem oneStatic_noEvents : NoEvents staticZero oneStatic := fun _ _ => ⟨rfl, rfl⟩

instance (static live : Fin 3 → Bool) (op : AllocOp (Fin 3) Unit) :
    Decidable (LegalAllocOp static live op) :=
  inferInstanceAs (Decidable ((∀ e, op.event = some e → static e = true ∨ live e = true) ∧
    ∀ e, op.answer = some e → static e = false ∧ live e = false))

/-- an event is created and copied, both are destroyed -/
def copyRun : List (AllocOp (Fin 3) Unit) :=
  [.create 32 20 (some 1), .forward 1 21 (some 2), .destroy 2, .destroy 1]

theorem copyRun_legal : LegalAllocRun ⟨2, 8⟩ (fun _ => 64) oneMemory staticZero oneStatic
    (fun _ => false) copyRun := by
  refine ⟨by decide, fun st₁ h₁ => ?_⟩
  obtain rfl := Except.ok.inj h₁
  refine ⟨by decide, fun st₂ h₂ => ?_⟩
  obtain rfl := Except.ok.inj h₂
  refine ⟨by decide, fun st₃ h₃ => ?_⟩
  obtain rfl := Except.ok.inj h₃
  exact ⟨by decide, fun _ _ => trivial⟩

theorem copyRun_forwardsDynamic :
    ForwardsDynamic ⟨2, 8⟩ (fun _ => 64) oneMemory staticZero oneStatic copyRun := by
  refine fun st₁ h₁ => ⟨fun e id r hop => ?_, fun st₂ h₂ => ⟨fun e id r hop => ?_, ?_⟩⟩
  · cases hop
  · obtain ⟨rfl, _, _⟩ := AllocOp.forward.inj hop
    rfl
  · refine fun st₃ h₃ => ⟨fun e id r hop => ?_, fun st₄ h₄ => ⟨fun e id r hop => ?_, trivial⟩⟩
    · cases hop
    · cases hop

theorem memsRemembered_copyRun :
    LegalAllocRun ⟨2, 8⟩ (fun _ => 64) oneMemory staticZero oneStatic (fun _ => false) copyRun ∧
    MemsRemembered ⟨2, 8⟩ (fun _ => 64) oneMemory oneStatic (fun _ => false) copyRun :=
  ⟨copyRun_legal, (memsRemembered_iff ⟨2, 8⟩ (fun _ => 64) oneMemory staticZero oneStatic
    oneStatic_noEvents copyRun copyRun_legal).mpr copyRun_forwardsDynamic⟩

/-- the copy of a static event is not given back to the memory object that allocated it -/
theorem forwardStatic_not_memsRemembered :
    NoEvents staticZero oneStatic ∧
    LegalAllocRun ⟨2, 8⟩ (fun _ => 64) oneMemory staticZero oneStatic (fun _ => false)
      [.forward 0 20 (some 1), .destroy 1] ∧
    ¬ MemsRemembered ⟨2, 8⟩ (fun _ => 64) oneMemory oneStatic (fun _ => false)
      [.forward 0 20 (some 1), .destroy 1] := by
  refine ⟨oneStatic_noEvents, ⟨by decide, fun st₁ h₁ => ?_⟩, fun h => ?_⟩
  · obtain rfl := Except.ok.inj h₁
    exact ⟨by decide, fun _ _ => trivial⟩
  · obtain ⟨_, hrest⟩ := h
    obtain ⟨_, _, hstep⟩ := hrest _ rfl
    obtain ⟨hback, _⟩ := hstep _ rfl
    exact (hback (none, 1) (by decide)).2.1 rfl

end

end NeonEds

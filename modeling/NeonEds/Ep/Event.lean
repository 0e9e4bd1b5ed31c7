import Mathlib.Data.BitVec
import Mathlib.Logic.Function.Basic

/-!
# Events (include/ep/event.h, source/event.c)

`EventMem` is the memory of all events, with the calls of `nmem_free_i` so far.  The functions are
those of `event.c` with the debug assertions disabled; the producer, the size and the signature of an
event are left out, which they do not read.

`EventOkAt ev n s l d`: the fields of an event that is in `n` places; `s`: it is static, `l`: it is
live, a dynamic one that has not been freed, `d`: it has been sent or unlocked.

* `EventOkAt.refUp`, `EventOkAt.refDown`   it comes to one more place, it leaves a place;
* `EventOkAt.destroy`                      it is freed iff it is dynamic and in no place;
* `EventOkAt.lock`, `EventOkAt.unreserve`, `eventInit_okAt`.
-/

namespace NeonEds

structure Nevent (M : Type) where
  mem : Option M
  id : ℕ
  attrib : BitVec 32
  ref : BitVec 32

def neventAttrDynamic : BitVec 32 := 0x00ff#32

def neventAttrReserved : BitVec 32 := 0x0f00#32 ||| neventAttrDynamic

def neventRefLimit : ℤ := 65535

def int32Max : BitVec 32 := 0x7fffffff#32

/-- in some ports the counter stops at `INT32_MAX`, in others it goes round -/
def ncoreAtomicInc (saturates : Bool) (value : BitVec 32) : BitVec 32 :=
  if saturates = true ∧ value = int32Max then value else value + 1#32

/-- in some ports the counter stops at zero, in others it goes round -/
def ncoreAtomicDec (saturates : Bool) (value : BitVec 32) : BitVec 32 :=
  if saturates = true ∧ value = 0#32 then value else value - 1#32

section
variable {M : Type}

def neventRefUp (saturates : Bool) (event : Nevent M) : Nevent M :=
  if event.attrib ≠ 0#32 then { event with ref := ncoreAtomicInc saturates event.ref } else event

def neventRefDown (saturates : Bool) (event : Nevent M) : Nevent M :=
  if event.attrib ≠ 0#32 then { event with ref := ncoreAtomicDec saturates event.ref } else event

theorem neventRefUp_fields (saturates : Bool) (event : Nevent M) :
    (neventRefUp saturates event).mem = event.mem ∧ (neventRefUp saturates event).id = event.id ∧
      (neventRefUp saturates event).attrib = event.attrib := by
  unfold neventRefUp
  split <;> exact ⟨rfl, rfl, rfl⟩

theorem neventRefDown_fields (saturates : Bool) (event : Nevent M) :
    (neventRefDown saturates event).mem = event.mem ∧
      (neventRefDown saturates event).id = event.id ∧
      (neventRefDown saturates event).attrib = event.attrib := by
  unfold neventRefDown
  split <;> exact ⟨rfl, rfl, rfl⟩

/-- an `int_fast16_t` of 32 bits or more -/
def neventRef (event : Nevent M) : ℤ :=
  (event.ref ||| (event.attrib ^^^ neventAttrDynamic)).toInt

end

structure EventMem (E M : Type) where
  event : E → Nevent M
  /-- the calls of `nmem_free_i`, the last one first -/
  frees : List (Option M × E)

section
variable {E M : Type} [DecidableEq E]

namespace EventMem

def setEvent (m : EventMem E M) (e : E) (x : Nevent M) : EventMem E M :=
  { m with event := Function.update m.event e x }

def refUp (saturates : Bool) (m : EventMem E M) (e : E) : EventMem E M :=
  m.setEvent e (neventRefUp saturates (m.event e))

def refDown (saturates : Bool) (m : EventMem E M) (e : E) : EventMem E M :=
  m.setEvent e (neventRefDown saturates (m.event e))

@[simp] theorem refUp_self (saturates : Bool) (m : EventMem E M) (e : E) :
    (m.refUp saturates e).event e = neventRefUp saturates (m.event e) := Function.update_self ..

@[simp] theorem refDown_self (saturates : Bool) (m : EventMem E M) (e : E) :
    (m.refDown saturates e).event e = neventRefDown saturates (m.event e) :=
  Function.update_self ..

theorem refUp_of_ne (saturates : Bool) (m : EventMem E M) {e x : E} (h : x ≠ e) :
    (m.refUp saturates e).event x = m.event x := Function.update_of_ne h ..

theorem refDown_of_ne (saturates : Bool) (m : EventMem E M) {e x : E} (h : x ≠ e) :
    (m.refDown saturates e).event x = m.event x := Function.update_of_ne h ..

theorem refUp_id (saturates : Bool) (m : EventMem E M) (e x : E) :
    ((m.refUp saturates e).event x).id = (m.event x).id := by
  by_cases hx : x = e
  · rw [hx, refUp_self]
    exact (neventRefUp_fields saturates (m.event e)).2.1
  · rw [refUp_of_ne saturates m hx]

theorem refDown_id (saturates : Bool) (m : EventMem E M) (e x : E) :
    ((m.refDown saturates e).event x).id = (m.event x).id := by
  by_cases hx : x = e
  · rw [hx, refDown_self]
    exact (neventRefDown_fields saturates (m.event e)).2.1
  · rw [refDown_of_ne saturates m hx]

omit [DecidableEq E] in
def nmemFreeI (m : EventMem E M) (e : E) : EventMem E M :=
  { m with frees := ((m.event e).mem, e) :: m.frees }

end EventMem

def eventInit (m : EventMem E M) (e : E) (id : ℕ) (mem : M) : EventMem E M :=
  m.setEvent e { mem := some mem, id := id, attrib := neventAttrDynamic, ref := 0#32 }

/-- `mem` is the memory object that `find_memory_i` finds, `answer` what `nmem_alloc_i` returns -/
def neventCreate (m : EventMem E M) (id : ℕ) (mem : M) (answer : Option E) :
    Option E × EventMem E M :=
  match answer with
  | some e => (some e, eventInit m e id mem)
  | none => (none, m)

def neventDestroyI (m : EventMem E M) (e : E) : EventMem E M :=
  if neventRef (m.event e) = 0 then m.nmemFreeI e else m

omit [DecidableEq E] in
theorem neventDestroyI_event (m : EventMem E M) (e : E) : (neventDestroyI m e).event = m.event := by
  unfold neventDestroyI
  split <;> rfl

def neventLock (m : EventMem E M) (e : E) : EventMem E M :=
  if (m.event e).attrib ≠ 0#32 then
    m.setEvent e { m.event e with attrib := neventAttrReserved }
  else m

def neventUnlock (m : EventMem E M) (e : E) : EventMem E M :=
  if (m.event e).attrib ≠ 0#32 then
    let m := m.setEvent e { m.event e with attrib := neventAttrDynamic }
    if (m.event e).ref = 0#32 then m.nmemFreeI e else m
  else m

/-- `nevent_unlock` before it reads the counter of an event that is not static -/
def neventUnreserve (m : EventMem E M) (e : E) : EventMem E M :=
  m.setEvent e { m.event e with attrib := neventAttrDynamic }

theorem neventUnreserve_ref (m : EventMem E M) (e : E) :
    ((neventUnreserve m e).event e).ref = (m.event e).ref := by
  show (Function.update m.event e _ e).ref = _
  rw [Function.update_self]

theorem neventUnlock_eq {m : EventMem E M} {e : E} (h : (m.event e).attrib ≠ 0#32) :
    neventUnlock m e = if (m.event e).ref = 0#32 then (neventUnreserve m e).nmemFreeI e
      else neventUnreserve m e := by
  rw [← neventUnreserve_ref m e]
  exact if_pos h

end

/-! ## one event -/

section
variable {M : Type} {ev : Nevent M} {n : ℕ} {s l d : Bool}

/-- what holds of an event that is in `n` places -/
structure EventOkAt (ev : Nevent M) (n : ℕ) (s l d : Bool) : Prop where
  static : s = true → ev.attrib = 0#32 ∧ ev.ref = 0#32 ∧ l = false
  attrib : l = true → ev.attrib = neventAttrDynamic ∨ ev.attrib = neventAttrReserved
  count : l = true → ev.ref.toInt = n
  freed : s = false → l = false → n = 0
  sent : l = true → d = true → 0 < n ∨ ev.attrib = neventAttrReserved

theorem toInt_add_one {x : BitVec 32} (h : x.toInt = n) (hn : n < 2147483647) :
    (x + 1#32).toInt = (n + 1 : ℕ) := by
  rw [BitVec.toInt_add, h]
  have h1 : (1#32).toInt = 1 := rfl
  rw [h1, Int.bmod_eq_of_le] <;> omega

theorem toInt_sub_one {x : BitVec 32} (h : x.toInt = (n + 1 : ℕ)) : (x - 1#32).toInt = n := by
  have hlt := BitVec.toInt_lt (x := x)
  rw [BitVec.toInt_sub, h]
  have h1 : (1#32).toInt = 1 := rfl
  rw [h1, Int.bmod_eq_of_le] <;> omega

namespace EventOkAt

theorem attrib_ne (h : EventOkAt ev n s l d) (hl : l = true) : ev.attrib ≠ 0#32 := by
  rcases h.attrib hl with ha | ha
  · rw [ha]
    decide
  · rw [ha]
    decide

theorem not_static (h : EventOkAt ev n s l d) (hl : l = true) : ¬ s = true := by
  intro hs
  rw [(h.static hs).2.2] at hl
  cases hl

theorem mono {d' : Bool} (h : EventOkAt ev n s l d) (hd : d' = true → d = true) :
    EventOkAt ev n s l d' :=
  ⟨h.static, h.attrib, h.count, h.freed, fun hl hd' => h.sent hl (hd hd')⟩

theorem refUp (saturates : Bool) (h : EventOkAt ev n s l d) (hsl : s = true ∨ l = true)
    (hn : l = true → n < 2147483647) (d' : Bool) :
    EventOkAt (neventRefUp saturates ev) (n + 1) s l d' := by
  cases l with
  | false =>
    have hs : s = true := hsl.resolve_right Bool.false_ne_true
    obtain ⟨ha, hr, _⟩ := h.static hs
    have hsame : neventRefUp saturates ev = ev := if_neg (fun hc => hc ha)
    rw [hsame]
    exact ⟨h.static, h.attrib, fun hl => absurd hl Bool.false_ne_true,
      fun hs' _ => absurd (hs.symm.trans hs') Bool.noConfusion,
      fun hl => absurd hl Bool.false_ne_true⟩
  | true =>
    have hne : ¬ (saturates = true ∧ ev.ref = int32Max) := by
      rintro ⟨_, hmax⟩
      have hc := h.count rfl
      rw [hmax] at hc
      have hint : int32Max.toInt = 2147483647 := rfl
      have := hn rfl
      omega
    have hup : neventRefUp saturates ev = { ev with ref := ev.ref + 1#32 } := by
      unfold neventRefUp ncoreAtomicInc
      rw [if_pos (h.attrib_ne rfl), if_neg hne]
    rw [hup]
    exact ⟨fun hs => absurd (h.static hs).2.2 (Bool.noConfusion), h.attrib,
      fun hl => toInt_add_one (h.count hl) (hn hl), fun _ hl => absurd hl Bool.noConfusion,
      fun _ _ => Or.inl (Nat.succ_pos n)⟩

/-- it leaves a place; whether it has to be freed is not known yet -/
theorem refDown (saturates : Bool) (h : EventOkAt ev (n + 1) s l d) :
    EventOkAt (neventRefDown saturates ev) n s l false := by
  cases l with
  | false =>
    cases s with
    | false => exact absurd (h.freed rfl rfl) (Nat.succ_ne_zero n)
    | true =>
      have hsame : neventRefDown saturates ev = ev := if_neg (fun hc => hc (h.static rfl).1)
      rw [hsame]
      exact ⟨h.static, h.attrib, fun hl => absurd hl Bool.false_ne_true,
        fun hs => absurd hs Bool.noConfusion, fun hl => absurd hl Bool.false_ne_true⟩
  | true =>
    have hne : ¬ (saturates = true ∧ ev.ref = 0#32) := by
      rintro ⟨_, hzero⟩
      have hc := h.count rfl
      rw [hzero, BitVec.toInt_zero] at hc
      omega
    have hdown : neventRefDown saturates ev = { ev with ref := ev.ref - 1#32 } := by
      unfold neventRefDown ncoreAtomicDec
      rw [if_pos (h.attrib_ne rfl), if_neg hne]
    rw [hdown]
    exact ⟨fun hs => absurd (h.static hs).2.2 (Bool.noConfusion), h.attrib,
      fun hl => toInt_sub_one (h.count hl), fun _ hl => absurd hl Bool.noConfusion,
      fun _ hd => absurd hd Bool.false_ne_true⟩

theorem ref_eq_zero_iff (h : EventOkAt ev n s l d) (hl : l = true) : ev.ref = 0#32 ↔ n = 0 := by
  have hc := h.count hl
  constructor
  · intro h0
    rw [h0, BitVec.toInt_zero] at hc
    omega
  · intro h0
    apply BitVec.eq_of_toInt_eq
    rw [hc, h0, BitVec.toInt_zero]
    rfl

theorem toInt_eq_zero_iff {x : BitVec 32} : x.toInt = 0 ↔ x = 0#32 := by
  constructor
  · intro h
    apply BitVec.eq_of_toInt_eq
    rw [h, BitVec.toInt_zero]
  · intro h
    rw [h, BitVec.toInt_zero]

/-- only a dynamic event that is in no place is to be freed -/
theorem neventRef_eq_zero_iff (h : EventOkAt ev n s l d) (hsl : s = true ∨ l = true) :
    neventRef ev = 0 ↔ l = true ∧ n = 0 ∧ ev.attrib = neventAttrDynamic := by
  have hxor : ev.attrib ^^^ neventAttrDynamic = 0#32 ↔ ev.attrib = neventAttrDynamic :=
    BitVec.xor_eq_zero_iff
  unfold neventRef
  rw [toInt_eq_zero_iff, BitVec.or_eq_zero_iff, hxor]
  cases l with
  | true =>
    rw [h.ref_eq_zero_iff rfl]
    exact ⟨fun ⟨h0, ha⟩ => ⟨rfl, h0, ha⟩, fun ⟨_, h0, ha⟩ => ⟨h0, ha⟩⟩
  | false =>
    obtain ⟨ha, _, _⟩ := h.static (hsl.resolve_right Bool.false_ne_true)
    refine iff_of_false (fun hc => ?_) (fun hc => absurd hc.1 Bool.false_ne_true)
    rw [ha] at hc
    exact absurd hc.2 (by decide)

theorem destroy (h : EventOkAt ev n s l false) (hsl : s = true ∨ l = true) :
    EventOkAt ev n s (l && decide (neventRef ev ≠ 0)) true := by
  have hiff := h.neventRef_eq_zero_iff hsl
  by_cases h0 : neventRef ev = 0
  · obtain ⟨hl, hn, _⟩ := hiff.mp h0
    have hs := h.not_static hl
    have hfalse : (l && decide (neventRef ev ≠ 0)) = false := by
      rw [decide_eq_false (fun hc => hc h0), Bool.and_false]
    rw [hfalse]
    exact ⟨fun hs' => absurd hs' hs, fun hl' => absurd hl' Bool.false_ne_true,
      fun hl' => absurd hl' Bool.false_ne_true, fun _ _ => hn,
      fun hl' => absurd hl' Bool.false_ne_true⟩
  · have hsame : (l && decide (neventRef ev ≠ 0)) = l := by
      rw [decide_eq_true h0, Bool.and_true]
    rw [hsame]
    refine ⟨h.static, h.attrib, h.count, h.freed, fun hl _ => ?_⟩
    by_contra hc
    push Not at hc
    exact h0 (hiff.mpr ⟨hl, Nat.le_zero.mp hc.1, (h.attrib hl).resolve_right hc.2⟩)

/-- an event without a free reference is in some place -/
theorem of_limit (h : EventOkAt ev n s l false) (hsl : s = true ∨ l = true)
    (hlim : ¬ neventRef ev < neventRefLimit) : EventOkAt ev n s l true := by
  have h0 : neventRef ev ≠ 0 := by
    intro hc
    rw [hc] at hlim
    exact hlim (by decide)
  have hd := h.destroy hsl
  rw [decide_eq_true h0, Bool.and_true] at hd
  exact hd

theorem lt_of_limit (h : EventOkAt ev n s l d) (hl : l = true)
    (hlim : neventRef ev < neventRefLimit) : n < 2147483647 := by
  have hc := h.count hl
  have hmsb : ev.ref.msb = false := by
    rw [BitVec.msb_eq_toInt, hc]
    exact decide_eq_false (by omega)
  have hxmsb : (ev.attrib ^^^ neventAttrDynamic).msb = false := by
    rcases h.attrib hl with ha | ha
    · rw [ha]
      rfl
    · rw [ha]
      rfl
  have hor : (ev.ref ||| (ev.attrib ^^^ neventAttrDynamic)).msb = false := by
    rw [BitVec.msb_or, hmsb, hxmsb]
    rfl
  have hle : ev.ref.toNat ≤ (ev.ref ||| (ev.attrib ^^^ neventAttrDynamic)).toNat := by
    rw [BitVec.toNat_or]
    exact Nat.left_le_or
  unfold neventRef at hlim
  rw [BitVec.toInt_eq_toNat_of_msb hor] at hlim
  rw [BitVec.toInt_eq_toNat_of_msb hmsb] at hc
  have hL : neventRefLimit = 65535 := rfl
  omega

theorem lock (h : EventOkAt ev n s l d) (hl : l = true) :
    EventOkAt { ev with attrib := neventAttrReserved } n s l d :=
  ⟨fun hs => absurd hs (h.not_static hl), fun _ => Or.inr rfl, h.count, h.freed,
    fun _ _ => Or.inr rfl⟩

theorem unreserve (h : EventOkAt ev n s l d) (hl : l = true) :
    EventOkAt { ev with attrib := neventAttrDynamic } n s l false :=
  ⟨fun hs => absurd hs (h.not_static hl), fun _ => Or.inl rfl, h.count, h.freed,
    fun _ hd => absurd hd Bool.false_ne_true⟩

/-- an event whose counter is not zero is in some place -/
theorem sent_of_ref (h : EventOkAt ev n s l d) (href : ev.ref ≠ 0#32) (d' : Bool) :
    EventOkAt ev n s l d' :=
  ⟨h.static, h.attrib, h.count, h.freed,
    fun hl _ => Or.inl (Nat.pos_of_ne_zero (mt (h.ref_eq_zero_iff hl).mpr href))⟩

end EventOkAt

theorem eventInit_okAt (mem : Option M) (id : ℕ) :
    EventOkAt { mem := mem, id := id, attrib := neventAttrDynamic, ref := 0#32 } 0 false true
      false :=
  ⟨fun hs => absurd hs Bool.false_ne_true, fun _ => Or.inl rfl, fun _ => rfl, fun _ _ => rfl,
    fun _ hd => absurd hd Bool.false_ne_true⟩

end

end NeonEds

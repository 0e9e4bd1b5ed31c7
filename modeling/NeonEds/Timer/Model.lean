import NeonEds.Base.Dlist

/-!
# Virtual timers (source/timer.c)

The timer list is circular, from `g_timer_sentinel` on; every node is a `struct ntimer` whose
`rtick` counts from the end of the timer before it.  `TimerCtx` holds the link fields and the other
members of all timers; `T` are the timers of the program, `F` the pairs of a callback with its
argument, `v` is `CONFIG_API_VALIDATION == 1` and `fuel` bounds the loops.

`Call` is what a callback can ask of the timer module: in `ncoreTimerIsr` the callback that runs as
number `i` of this call, for the timer `t`, makes the calls `cb i t`.  `isrSteps n` is the state of
the ISR loop after at most `n` iterations.

The ghost member `wrapped` records that an addition or a subtraction on `uint32_t` ticks has gone
round.
-/

namespace NeonEds
open Exec

def uint32Max : ℕ := 4294967295

/-- the nodes of the timer list -/
inductive TimerNode (T : Type) where
  | gTimerSentinel
  | timer (t : T)
  deriving DecidableEq

/-- `struct ntimer` without its link fields; `fn` together with `arg` -/
structure Ntimer (F : Type) where
  rtick : ℕ
  itick : ℕ
  fn : Option F

structure TimerCtx (T F : Type) where
  list : Links (TimerNode T)
  timer : TimerNode T → Ntimer F
  wrapped : Bool

def ntimerAttrOneShot : ℕ := 1 <<< 0
def ntimerAttrRepeat : ℕ := 1 <<< 1

variable {T F : Type} [DecidableEq T]

namespace TimerCtx

def rtick (st : TimerCtx T F) (n : TimerNode T) : ℕ := (st.timer n).rtick
def itick (st : TimerCtx T F) (n : TimerNode T) : ℕ := (st.timer n).itick

def setTimer (st : TimerCtx T F) (n : TimerNode T) (x : Ntimer F) : TimerCtx T F :=
  { st with timer := Function.update st.timer n x }

def setRtick (st : TimerCtx T F) (n : TimerNode T) (x : ℕ) : TimerCtx T F :=
  st.setTimer n { st.timer n with rtick := x }

/-- `n->rtick += x` -/
def addRtick (st : TimerCtx T F) (n : TimerNode T) (x : ℕ) : TimerCtx T F :=
  { st.setRtick n ((st.rtick n + x) % 2 ^ 32) with
    wrapped := st.wrapped || decide (2 ^ 32 ≤ st.rtick n + x) }

/-- `n->rtick -= x` -/
def subRtick (st : TimerCtx T F) (n : TimerNode T) (x : ℕ) : TimerCtx T F :=
  { st.setRtick n ((st.rtick n + 2 ^ 32 - x) % 2 ^ 32) with
    wrapped := st.wrapped || decide (st.rtick n < x) }

/-- all timers as `NTIMER_INITIALIZER` leaves them -/
def init : TimerCtx T F where
  list := ⟨some, some⟩
  timer
    | .gTimerSentinel => ⟨uint32Max, 0, none⟩
    | .timer _ => ⟨0, 0, none⟩
  wrapped := false

end TimerCtx

/-- `current->rtick < timer->rtick` -/
def insertCond (timer : TimerNode T) (s : TimerCtx T F × TimerNode T) : Bool :=
  decide (s.1.rtick s.2 < s.1.rtick timer)

/-- `timer->rtick -= current->rtick`, and `current` moves on -/
def insertBody (timer : TimerNode T) (s : TimerCtx T F × TimerNode T) :
    Exec (TimerCtx T F × TimerNode T) := do
  let st := s.1.subRtick timer (s.1.rtick s.2)
  let current ← ndlistNext st.list s.2
  return (st, current)

def insertTimer (fuel : ℕ) (st : TimerCtx T F) (timer : TimerNode T) : Exec (TimerCtx T F) := do
  let first ← ndlistNext st.list .gTimerSentinel
  let (st, current) ← whileLoop (insertCond timer) (insertBody timer) fuel (st, first)
  let list ← ndlistAddBefore st.list current timer
  let st := { st with list := list }
  return if current ≠ .gTimerSentinel then st.subRtick current (st.rtick timer) else st

def removeTimer (v : Bool) (st : TimerCtx T F) (timer : TimerNode T) : Exec (TimerCtx T F) := do
  let list ← ndlistRemove v st.list timer
  return { st with list := list }

def ntimerIsRunningI (st : TimerCtx T F) (t : T) : Bool :=
  if !ndlistIsEmpty st.list (.timer t) then true else false

def ntimerCancelI (v : Bool) (st : TimerCtx T F) (t : T) : Exec (TimerCtx T F) :=
  if ntimerIsRunningI st t then do
    let next ← ndlistNext st.list (.timer t)
    let st := if next ≠ .gTimerSentinel then st.addRtick next (st.rtick (.timer t)) else st
    removeTimer v st (.timer t)
  else .ok st

def ntimerStartI (v : Bool) (fuel : ℕ) (st : TimerCtx T F) (t : T) (tick : ℕ) (fn : F)
    (flags : ℕ) : Exec (TimerCtx T F) := do
  require v (0 < tick)
  require v (ntimerIsRunningI st t = false)
  let st := { st with wrapped := st.wrapped || decide (2 ^ 32 ≤ tick + 1) }
  let tick := (tick + 1) % 2 ^ 32
  let itick := if flags &&& ntimerAttrRepeat ≠ 0 then tick else 0
  insertTimer fuel (st.setTimer (.timer t) ⟨tick, itick, some fn⟩) (.timer t)

/-- `remaining += timer->rtick`, and `timer` moves back; with the ghost of the sum -/
def remainingBody (st : TimerCtx T F) (s : (ℕ × Bool) × TimerNode T) :
    Exec ((ℕ × Bool) × TimerNode T) := do
  let sum := s.1.1 + st.rtick s.2
  let prev ← ndlistPrev st.list s.2
  return ((sum % 2 ^ 32, s.1.2 || decide (2 ^ 32 ≤ sum)), prev)

/-- a `do` loop: its body comes once before the first test -/
def ntimerRemaining (fuel : ℕ) (st : TimerCtx T F) (t : T) : Exec (ℕ × TimerCtx T F) :=
  if ntimerIsRunningI st t then do
    let s ← remainingBody st ((0, st.wrapped), .timer t)
    let s ← whileLoop (fun s => decide (s.2 ≠ .gTimerSentinel)) (remainingBody st) fuel s
    return (s.1.1, { st with wrapped := s.1.2 })
  else .ok (0, st)

/-! ## the ISR -/

/-- a call that a callback makes -/
inductive TimerCall (T F : Type) where
  | start (t : T) (tick : ℕ) (fn : F) (flags : ℕ)
  | cancel (t : T)

def runCall (v : Bool) (fuel : ℕ) (st : TimerCtx T F) : TimerCall T F → Exec (TimerCtx T F)
  | .start t tick fn flags => ntimerStartI v fuel st t tick fn flags
  | .cancel t => ntimerCancelI v st t

def runCalls (v : Bool) (fuel : ℕ) : TimerCtx T F → List (TimerCall T F) → Exec (TimerCtx T F)
  | st, [] => .ok st
  | st, c :: cs => do
    let st ← runCall v fuel st c
    runCalls v fuel st cs

/-- the variables of the loop of `ncore_timer_isr`, and the callbacks it has made -/
structure IsrState (T F : Type) where
  st : TimerCtx T F
  current : TimerNode T
  fired : List (T × F)

/-- the timer of a node and its callback; the callback of the sentinel is NULL -/
def TimerCtx.callback (st : TimerCtx T F) : TimerNode T → Option (T × F)
  | .gTimerSentinel => none
  | .timer t => (st.timer (.timer t)).fn.map (fun f => (t, f))

/-- `--current->rtick` for the first timer -/
def isrEnter (st : TimerCtx T F) : Exec (IsrState T F) := do
  let current ← ndlistNext st.list .gTimerSentinel
  return ⟨st.subRtick current 1, current, []⟩

def isrLive (s : IsrState T F) : Bool := decide (s.st.rtick s.current = 0)

/-- the loop body up to the callback: the new state and the new `current` -/
def isrExpire (v : Bool) (fuel : ℕ) (st : TimerCtx T F) (current : TimerNode T) :
    Exec (TimerCtx T F × TimerNode T) := do
  let st ← removeTimer v st current
  let st ← if st.itick current ≠ 0 then
      insertTimer fuel (st.setRtick current (st.itick current)) current
    else .ok st
  let next ← ndlistNext st.list .gTimerSentinel
  return (st, next)

def isrBody (v : Bool) (fuel : ℕ) (cb : ℕ → T → List (TimerCall T F)) (s : IsrState T F) :
    Exec (IsrState T F) := do
  let tmp := s.current
  let (st, current) ← isrExpire v fuel s.st s.current
  let (t, f) ← deref (st.callback tmp)
  let st ← runCalls v fuel st (cb s.fired.length t)
  return ⟨st, current, s.fired ++ [(t, f)]⟩

/-- the ISR stopped at the loop head after at most `n` iterations -/
def isrSteps (v : Bool) (fuel : ℕ) (cb : ℕ → T → List (TimerCall T F)) (n : ℕ)
    (st : TimerCtx T F) : Exec (IsrState T F) :=
  if !ndlistIsEmpty st.list .gTimerSentinel then do
    let s ← isrEnter st
    iterLoop isrLive (isrBody v fuel cb) n s
  else .ok ⟨st, .gTimerSentinel, []⟩

/-- the state the ISR leaves and the callbacks it has made, in order -/
def ncoreTimerIsr (v : Bool) (fuel : ℕ) (cb : ℕ → T → List (TimerCall T F)) (st : TimerCtx T F) :
    Exec (TimerCtx T F × List (T × F)) :=
  if !ndlistIsEmpty st.list .gTimerSentinel then do
    let s ← isrEnter st
    let s ← whileLoop isrLive (isrBody v fuel cb) fuel s
    return (s.st, s.fired)
  else .ok (st, [])

end NeonEds

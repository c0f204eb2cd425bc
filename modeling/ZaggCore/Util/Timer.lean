import ZaggCore.Foundations.Runs

/-! # Virtual timers

The model of `VirtualClock`, `VirtualClockEvent` and `VirtualTimer` of `util/Timer.cpp`, in virtual time.
A callback may call any timer, so the loops that invoke callbacks are frames on a stack: a loop goes on
when the callback above it has returned. Events and timers are numbers. The queue is a bag; the order in
which it gives up events of the same rank is chosen by the action. -/

namespace ZaggCore.Timers
open Foundations
set_option autoImplicit false
set_option maxHeartbeats 250000

structure VirtualClockEvent where
  mTriggered : Bool
  mWhen : ℤ
  mSeq : ℕ
  /-- The timer that waits. -/
  timer : ℕ

/-- `operator<`: a later event is less. -/
def VirtualClockEvent.lt (a other : VirtualClockEvent) : Bool :=
  a.mWhen > other.mWhen || (a.mWhen == other.mWhen && a.mSeq > other.mSeq)

structure VirtualTimer where
  mExpiryTime : ℤ
  mEvents : List ℕ
  mCancelled : Bool

/-- The argument of `expires_at` or `expires_from_now`. -/
inductive Expiry where
  | at (t : ℤ)
  | fromNow (d : ℤ)

def Expiry.time (now : ℤ) : Expiry → ℤ
  | .at t => t
  | .fromNow d => now + d

inductive Frame where
  /-- The code of a callback. -/
  | callback
  /-- The loop of `VirtualTimer::cancel` with the events not looked at yet, and the expiry to set after
  it. -/
  | cancelling (timer : ℕ) (rest : List ℕ) (expiry : Option Expiry)
  /-- The loop of `advanceTo` over `toDispatch`. -/
  | dispatching
  /-- The loop of `cancelAllEvents`. -/
  | draining

/-- What can be seen of the calls. -/
inductive Entry where
  | waited (event timer : ℕ) (expiry : ℤ)
  | cancelled (timer : ℕ)
  | invoked (event : ℕ) (success : Bool) (now : ℤ)
  deriving DecidableEq

structure VirtualClock where
  mNow : ℤ
  mEvents : List ℕ
  mFlushesIgnored : ℕ
  mDestructing : Bool

structure World extends VirtualClock where
  events : ℕ → VirtualClockEvent
  numEvents : ℕ
  timers : ℕ → VirtualTimer
  numTimers : ℕ
  toDispatch : List ℕ
  frames : List Frame
  /-- The latest entry first. -/
  trace : List Entry
  /-- An iterator was used after its vector had changed. -/
  undefined : Bool

namespace World

/-- A clock without timers. -/
def new : World where
  mNow := 0
  mEvents := []
  mFlushesIgnored := 0
  mDestructing := false
  events := fun _ => ⟨true, 0, 0, 0⟩
  numEvents := 0
  timers := fun _ => ⟨0, [], true⟩
  numTimers := 0
  toDispatch := []
  frames := []
  trace := []
  undefined := false

def setTimer (w : World) (t : ℕ) (timer : VirtualTimer) : World :=
  { w with timers := Function.update w.timers t timer }

/-! ## The clock -/

def enqueue (w : World) (e : ℕ) : World :=
  if w.mDestructing then w else { w with mEvents := e :: w.mEvents }

def flushCancelledEvents (w : World) : World :=
  if w.mDestructing then w
  else if w.mFlushesIgnored ≤ w.mEvents.length then { w with mFlushesIgnored := w.mFlushesIgnored + 1 }
  else { w with mEvents := w.mEvents.filter fun e => !(w.events e).mTriggered, mFlushesIgnored := 0 }

/-- `trigger` and `cancel` of an event: the callback is invoked if it has not been. -/
def invoke (w : World) (e : ℕ) (success : Bool) : World :=
  if (w.events e).mTriggered then w
  else
    { w with
      events := Function.update w.events e { w.events e with mTriggered := true }
      trace := .invoked e success w.mNow :: w.trace
      frames := .callback :: w.frames }

/-- The queue may have the event at its top. -/
def isTop (w : World) (queue : List ℕ) (e : ℕ) : Bool :=
  queue.all fun f => !(w.events e).lt (w.events f)

/-- The loop that pops what is due takes these events and leaves the rest of the queue. -/
def popDue (w : World) (now : ℤ) : List ℕ → List ℕ → Option (List ℕ)
  | [], queue => if queue.any fun e => w.isTop queue e && (w.events e).mWhen ≤ now then none else some queue
  | e :: order, queue =>
    if e ∈ queue ∧ w.isTop queue e ∧ (w.events e).mWhen ≤ now then popDue w now order (queue.erase e)
    else none

/-- `crank` of an idle clock: `advanceToNext`. -/
def crank (w : World) (order : List ℕ) : World :=
  if w.mDestructing then w
  else
    match w.mEvents.find? (w.isTop w.mEvents) with
    | none => w
    | some next =>
      match w.popDue (w.events next).mWhen order w.mEvents with
      | none => w
      | some rest =>
        { w with mNow := (w.events next).mWhen, mEvents := rest, toDispatch := order, frames := [.dispatching] }

/-- The destructor; the order is the one in which the queue gives up its events. -/
def destruct (w : World) (order : List ℕ) : World :=
  if order.isPerm w.mEvents then
    { w with mDestructing := true, mEvents := order, frames := [.draining] }
  else w

/-! ## The timers -/

/-- The loop of `cancel` over the timer's events is under way. -/
def iterating (w : World) (t : ℕ) : Bool :=
  w.frames.any fun
    | .cancelling t' _ _ => t' == t
    | _ => false

def seq (w : World) (t : ℕ) : ℕ :=
  match (w.timers t).mEvents.getLast? with
  | none => 0
  | some e => (w.events e).mSeq + 1

/-- What `expires_at` and `expires_from_now` do after `cancel`. -/
def rearm (w : World) (t : ℕ) : Option Expiry → World
  | none => w
  | some expiry => w.setTimer t ⟨expiry.time w.mNow, (w.timers t).mEvents, false⟩

/-- `cancel`, or `expires_at` and `expires_from_now` with the expiry, up to the loop. -/
def beginCancel (w : World) (t : ℕ) (expiry : Option Expiry) : World :=
  let w := { w with trace := .cancelled t :: w.trace }
  if (w.timers t).mCancelled then w.rearm t expiry
  else
    { w.setTimer t { w.timers t with mCancelled := true } with
      frames := .cancelling t (w.timers t).mEvents expiry :: w.frames }

/-- What comes after the loop. -/
def finishCancel (w : World) (t : ℕ) (expiry : Option Expiry) : World :=
  let w := w.flushCancelledEvents
  -- another loop below still has iterators of `mEvents`
  if w.iterating t then { w with undefined := true }
  else (w.setTimer t { w.timers t with mEvents := [] }).rearm t expiry

def asyncWait (w : World) (t : ℕ) : World :=
  if (w.timers t).mCancelled then w
  else if w.iterating t then { w with undefined := true }
  else
    let ve : VirtualClockEvent := ⟨false, (w.timers t).mExpiryTime, w.seq t, t⟩
    let w' := { w with
      events := Function.update w.events w.numEvents ve
      numEvents := w.numEvents + 1
      trace := .waited w.numEvents t ve.mWhen :: w.trace }
    (w'.enqueue w.numEvents).setTimer t
      { w.timers t with mEvents := (w.timers t).mEvents ++ [w.numEvents] }

end World

/-! ## Actions -/

inductive Call where
  | newTimer
  | expires (timer : ℕ) (expiry : Expiry)
  | asyncWait (timer : ℕ)
  | cancel (timer : ℕ)

inductive Action where
  /-- Code outside or in a callback calls. -/
  | call (call : Call)
  /-- The callback returns. -/
  | ret
  /-- The loop goes on. -/
  | resume
  | crank (order : List ℕ)
  | destruct (order : List ℕ)

namespace World

/-- Outside or in a callback. -/
def userCode (w : World) : Bool :=
  match w.frames with
  | [] => true
  | .callback :: _ => true
  | _ => false

def call (w : World) : Call → World
  | .newTimer => { w.setTimer w.numTimers ⟨w.mNow, [], false⟩ with numTimers := w.numTimers + 1 }
  | .expires t expiry => if t < w.numTimers then w.beginCancel t (some expiry) else w
  | .asyncWait t => if t < w.numTimers then w.asyncWait t else w
  | .cancel t => if t < w.numTimers then w.beginCancel t none else w

def resume (w : World) : World :=
  match w.frames with
  | .cancelling t (e :: rest) expiry :: frames =>
    { w with frames := .cancelling t rest expiry :: frames }.invoke e false
  | .cancelling t [] expiry :: frames => { w with frames := frames }.finishCancel t expiry
  | .dispatching :: frames =>
    match w.toDispatch with
    | e :: rest => { w with toDispatch := rest }.invoke e true
    | [] => { w with frames := frames }
  | .draining :: frames =>
    match w.mEvents with
    | e :: rest => { w with mEvents := rest }.invoke e false
    | [] => { w with frames := frames }
  | _ => w

/-- An action that is not possible is no step. -/
def step (w : World) (action : Action) : World :=
  if w.undefined then w
  else
    match action with
    | .call call => if w.userCode then w.call call else w
    | .ret =>
      match w.frames with
      | .callback :: frames => { w with frames := frames }
      | _ => w
    | .resume => w.resume
    | .crank order =>
      match w.frames with
      | [] => w.crank order
      | _ => w
    | .destruct order =>
      match w.frames with
      | [] => if w.mDestructing then w else w.destruct order
      | _ => w

end World

/-! ## What is claimed of the calls -/

/-- The event whose callback was invoked with success. -/
def Entry.success : Entry → Option ℕ
  | .invoked e true _ => some e
  | _ => none

/-- The events whose callbacks succeeded, the latest first. -/
def successes (trace : List Entry) : List ℕ := trace.filterMap Entry.success

/-- Of a trace, the latest entry first. -/
structure Orderly (trace : List Entry) : Prop where
  /-- Every callback is invoked at most once. -/
  once : ∀ e success success' now now',
    ¬ [.invoked e success now, .invoked e success' now'].Sublist trace
  /-- With success only when the clock has reached the expiry. -/
  reached : ∀ e now, .invoked e true now ∈ trace → ∃ t expiry, .waited e t expiry ∈ trace ∧ expiry ≤ now
  /-- And only if the timer was not cancelled after the wait began. -/
  uncancelled : ∀ e t expiry now, ¬ [.invoked e true now, .cancelled t, .waited e t expiry].Sublist trace
  /-- Successful callbacks run by expiry, and those with the same expiry in the order of the waits. -/
  inOrder : ∀ a b ta tb wa wb na nb, [.invoked b true nb, .invoked a true na].Sublist trace →
    .waited a ta wa ∈ trace → .waited b tb wb ∈ trace →
      wa ≤ wb ∧ (wa = wb → [.waited b tb wb, .waited a ta wa].Sublist trace)

end ZaggCore.Timers

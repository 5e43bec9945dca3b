import SingleTape.Duration
import SingleTape.Error

/-!
The scheduler decides which ticks of a clock are honored. It has no clock of its own: it is told the
time by ticks, tells its listeners by events, and keeps below a rate limit by dropping ticks that
come too soon after the last honored one.
-/

namespace SingleTape

/-- How many ticks a second are honored at most: more than none, perhaps without bound. -/
structure RateLimit where
  perSecond : Float
  positive : 0 < perSecond

namespace RateLimit

def unbounded : RateLimit := ⟨1.0 / 0.0, by decide⟩

def ofFloat (rate : Float) : Except Error RateLimit :=
  if h : 0 < rate then .ok ⟨rate, h⟩ else .error (.badRate rate)

def interval (r : RateLimit) : Float := 1.0 / r.perSecond

def passes (r : RateLimit) (gap : Duration) : Bool := !decide (gap.seconds < r.interval)

end RateLimit

inductive Event where
  | baseline
  | render
  | launch
  | change
  deriving DecidableEq, Repr

structure Scheduler where
  launched : Bool
  rateLimit : RateLimit
  measuredRate : Float
  elapsed : Duration
  previous : Option Duration
  listeners : Nat

namespace Scheduler

def new : Scheduler where
  launched := false
  rateLimit := .unbounded
  measuredRate := 0
  elapsed := .zero
  previous := none
  listeners := 0

def withRateLimit (rate : Float) : Except Error Scheduler := do
  .ok { new with rateLimit := ← RateLimit.ofFloat rate }

def isInitialized (s : Scheduler) : Bool := s.previous.isSome

/-- Seconds between the last two honored ticks, infinite before there are two. -/
def delta (s : Scheduler) : Float := 1.0 / s.measuredRate

def subscribe (s : Scheduler) : Scheduler := { s with listeners := s.listeners + 1 }

def setRateLimit (s : Scheduler) (rate : Float) : Except Error Scheduler := do
  .ok { s with rateLimit := ← RateLimit.ofFloat rate }

/-- Sets the launched flag. A flip is a change, and being launched in the end is a launch, flip or
not. -/
def setLaunched (s : Scheduler) (launched : Bool) : Scheduler × List Event :=
  let change := if s.launched = launched then [] else [Event.change]
  let launch := if launched then [Event.launch] else []
  ({ s with launched }, change ++ launch)

def launch (s : Scheduler) : Scheduler × List Event := s.setLaunched true

def pause (s : Scheduler) : Scheduler × List Event := s.setLaunched false

def toggle (s : Scheduler) : Scheduler × List Event := s.setLaunched (!s.launched)

/-- One tick of the clock. The first one while launched sets the baseline. A stale tick is dropped;
while paused a tick only moves the baseline; one that comes too soon is dropped; any other is
honored. -/
def tick (s : Scheduler) (now : Duration) : Scheduler × List Event :=
  match s.previous with
  | none => if s.launched then ({ s with previous := some now }, [.baseline]) else (s, [])
  | some previous =>
    if now.nanos ≤ previous.nanos then (s, [])
    else if !s.launched then ({ s with previous := some now }, [])
    else
      let gap := now.since previous
      if s.rateLimit.passes gap then
        ({ s with
            elapsed := s.elapsed.add gap
            measuredRate := 1.0 / gap.seconds
            previous := some now }, [.render])
      else (s, [])

inductive Operation where
  | subscribe
  | launch
  | pause
  | toggle
  | setLaunched (launched : Bool)
  | setRateLimit (rate : Float)
  | tick (now : Duration)
  deriving DecidableEq, Repr

/-- Performs an operation; a refused rate limit has no effect. The events come in the order of their
emission. -/
def perform (s : Scheduler) : Operation → Scheduler × List Event
  | .subscribe => (s.subscribe, [])
  | .launch => s.launch
  | .pause => s.pause
  | .toggle => s.toggle
  | .setLaunched launched => s.setLaunched launched
  | .setRateLimit rate =>
    match s.setRateLimit rate with
    | .ok s => (s, [])
    | .error _ => (s, [])
  | .tick now => s.tick now

structure Delivery where
  listener : Nat
  event : Event
  deriving DecidableEq, Repr

/-- Every listener gets every event: all of them the first event, then all of them the next. -/
def deliveries (s : Scheduler) (events : List Event) : List Delivery :=
  events.flatMap fun event => (List.range s.listeners).map fun listener => ⟨listener, event⟩

/-- Rates in the description are positional from a ten-thousandth up to ten to the sixteenth. -/
def rateLayout : Decimal.Layout where
  positional := fun e => -4 ≤ e && e < 16
  pointZero := true
  plusSign := false
  tie := .up
  nan := "NaN"
  infinity := "inf"

def describe (s : Scheduler) : String :=
  "Scheduler \x7b launched: " ++ (if s.launched then "true" else "false") ++
    ", rate_limit: " ++ String.ofList (rateLayout.text s.rateLimit.perSecond) ++
    ", measured_rate: " ++ String.ofList (rateLayout.text s.measuredRate) ++
    ", elapsed: " ++ s.elapsed.text ++
    ", listeners: " ++ Decimal.naturalText s.listeners ++ " \x7d"

end Scheduler

end SingleTape

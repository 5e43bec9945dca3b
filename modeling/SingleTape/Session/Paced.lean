import SingleTape.Session.Basic

/-!
A session driven by a scheduler. In each turn the scheduler is told the time, and every event it has
emitted since the last turn is handed to the session, in the order of emission.
-/

namespace SingleTape

structure Paced where
  session : Session
  scheduler : Scheduler
  queue : List Event
  steps : Nat

namespace Paced

/-- The scheduler is launched at once. What it emits then waits for the first turn. -/
def start (session : Session) (rate : RateLimit) : Paced :=
  let (scheduler, queue) := { Scheduler.new with rateLimit := rate }.subscribe.launch
  { session, scheduler, queue, steps := 0 }

/-- Turns are taken in auto mode only, until the run is finished or has brought `limit` records. -/
def goesOn (p : Paced) (limit : Nat) : Bool :=
  p.session.auto && !p.session.finished && decide (p.steps < limit)

def deliver (session : Session) : List Event → Except Error (List Record × Session)
  | [] => .ok ([], session)
  | event :: events =>
    match session.handle event with
    | (.error fault, _) => .error fault
    | (.ok pulled, session) => do
      let (records, session) ← deliver session events
      .ok (pulled.toList ++ records, session)

def turn (p : Paced) (now : Duration) : Except Error (List Record × Paced) := do
  let (scheduler, events) := p.scheduler.tick now
  let (records, session) ← deliver p.session (p.queue ++ events)
  .ok (records, { session, scheduler, queue := [], steps := p.steps + records.length })

end Paced

end SingleTape

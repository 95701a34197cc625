/-!
# The dispatch queue

Execution ids that wait for a worker. An id is in flight from the moment it is
accepted until it is done, also while it waits for its due time, so no execution
is queued twice. Delayed ids join the ready ones, earliest due time first, when
a worker asks for work. Times are milliseconds.
-/

namespace SagaEngine

/-- An id that waits for its due time. -/
structure Delayed where
  due : Int
  executionId : String
  deriving DecidableEq, Repr, Inhabited

/-- The ids ready in order, the delayed ones by due time, and all in flight. -/
structure DispatchQueue where
  ready : List String := []
  delayed : List Delayed := []
  inFlight : List String := []
  closed : Bool := false
  deriving DecidableEq, Repr, Inhabited

/-- What a worker that asks for work is told. -/
inductive Dequeued where
  | closed
  | item (executionId : String)
  | waitUntil (due : Int)
  | waitForever
  deriving DecidableEq, Repr

namespace DispatchQueue

/-- Notes that an id is in flight. -/
def markInFlight (ids : List String) (executionId : String) : List String :=
  if executionId ∈ ids then ids else ids ++ [executionId]

/-- Places a delayed id behind those that are due no later. A priority queue leaves the order of
equal due times open; here the first to come is the first out, a choice that no theorem relies
on. -/
def insertDelayed (d : Delayed) : List Delayed → List Delayed
  | [] => [d]
  | head :: rest => if d.due < head.due then d :: head :: rest else head :: insertDelayed d rest

/-- Accepts an id unless it is in flight or the queue is closed. -/
def enqueue (q : DispatchQueue) (executionId : String) : Bool × DispatchQueue :=
  if q.closed || executionId ∈ q.inFlight then (false, q)
  else
    (true, { q with
      ready := q.ready ++ [executionId]
      inFlight := markInFlight q.inFlight executionId })

/-- Lets an id wait for a delay, unless the queue is closed. -/
def enqueueAfter (q : DispatchQueue) (executionId : String) (delay now : Int) : DispatchQueue :=
  if q.closed then q
  else
    { q with
      delayed := insertDelayed ⟨now + delay, executionId⟩ q.delayed
      inFlight := markInFlight q.inFlight executionId }

/-- Moves the ids that are due behind the ready ones. -/
def promote (q : DispatchQueue) (now : Int) : DispatchQueue :=
  { q with
    ready := q.ready ++ (q.delayed.takeWhile (fun d => d.due ≤ now)).map (·.executionId)
    delayed := q.delayed.dropWhile (fun d => d.due ≤ now) }

/-- Hands out the first ready id, or says how long to wait for one. -/
def dequeue (q : DispatchQueue) (now : Int) : Dequeued × DispatchQueue :=
  if q.closed then (.closed, q)
  else
    let q := q.promote now
    match q.ready with
    | id :: rest => (.item id, { q with ready := rest })
    | [] =>
      match q.delayed with
      | next :: _ => (.waitUntil next.due, q)
      | [] => (.waitForever, q)

/-- Ends the flight of an id. -/
def done (q : DispatchQueue) (executionId : String) : DispatchQueue :=
  { q with inFlight := q.inFlight.filter (fun id => id ≠ executionId) }

/-- Refuses all further work. -/
def shutdown (q : DispatchQueue) : DispatchQueue := { q with closed := true }

/-- Hands out an id, waiting for a due time if need be; `none` after shutdown.
The second answer is the time at which the id was handed out; the outer `none`
means that the wait would never end. -/
def await (q : DispatchQueue) (now : Int) : Option (Option String × Int) × DispatchQueue :=
  match q.dequeue now with
  | (.closed, q) => (some (none, now), q)
  | (.item id, q) => (some (some id, now), q)
  | (.waitForever, q) => (none, q)
  | (.waitUntil due, q) =>
    match q.dequeue due with
    | (.item id, q) => (some (some id, due), q)
    | (_, q) => (none, q)

end DispatchQueue

end SagaEngine

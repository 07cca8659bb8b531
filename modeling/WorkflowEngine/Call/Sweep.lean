import WorkflowEngine.Call.Run

/-!
# Releasing abandoned instances

A sweep takes instances from workers that have not written them for a grace period. An instance
whose action may still be in flight is given the longest time that an invocation may take.
-/
namespace WorkflowEngine

inductive Sweep where
  | listing (before inFlightBefore : Instant) (limit : Nat)
  /-- The current instance is being released; others follow it, and some are released already. -/
  | releasing (inFlightBefore : Instant) (current : Instance) (rest : List Instance)
      (released : List InstanceId)
  deriving DecidableEq, Repr

namespace Instance

/-- The instance without a worker and due at once. -/
def released (i : Instance) : Instance :=
  { i with status := .running, resumeAt := none, owner := none }

/-- The instance asleep until a time. -/
def asleep (i : Instance) (time : Instant) : Instance :=
  { i with status := .waitingDelay, resumeAt := some time, owner := none }

end Instance

namespace Sweep

def request : Sweep → Request
  | listing before _ limit => .store (.listStale before limit)
  | releasing _ current _ _ => .store (.save current.released current.version)

/-- The instant so many microseconds earlier. -/
def earlier (now : Instant) (micros : Int) : Outcome Instant :=
  match now.shift? (-micros) with
  | some t => .ok t
  | none => .error .outOfRange

/-- A duration in microseconds, if it can be represented. -/
def duration (micros : Int) : Outcome Int :=
  if Duration.isRepresentable (micros / 1000000) then .ok micros else .error .outOfRange

/-- The start of a sweep at a given time or now, with a given grace in microseconds or the
configured one. -/
def start (env : Env) (time : Option Instant) (grace : Option Int) : Outcome Sweep := do
  let now := time.getD env.now
  let grace ← duration (grace.getD (env.config.staleClaim * 1000000))
  let timeout ← duration (env.config.invokerTimeout * 1000000)
  let inFlightBefore ← earlier now (max grace timeout)
  let before ← earlier now grace
  return listing before inFlightBefore env.config.pollBatchSize

/-- Whether the action of an instance may still be in flight. -/
def isInFlight (inFlightBefore : Instant) (i : Instance) : Bool :=
  i.dispatching.isSome && inFlightBefore ≤ i.updatedAt

/-- Releases the next instance, or ends the sweep if there is none. -/
def proceed (inFlightBefore : Instant) (rest : List Instance) (released : List InstanceId) :
    Progress Sweep (List InstanceId) :=
  match rest with
  | current :: rest => .waiting (.releasing inFlightBefore current rest released)
  | [] => .ended (.ok released)

def resume : (s : Sweep) → s.request.Answer → Progress Sweep (List InstanceId)
  | listing _ inFlightBefore _, answer =>
    match answer with
    | .ok stale =>
      proceed inFlightBefore (stale.filter fun i => !isInFlight inFlightBefore i) []
    | .error e => .ended (.error e)
  | releasing inFlightBefore current rest released, answer =>
    match answer with
    | .ok _ => proceed inFlightBefore rest (released ++ [current.id])
    | .error e =>
      if e.isConflict then proceed inFlightBefore rest released else .ended (.error e)

end Sweep
end WorkflowEngine

import WorkflowEngine.Error
import WorkflowEngine.Kinds
import WorkflowEngine.Time

/-!
# Instances

An instance is one run of a plan for one event. It is stored between the steps of the run, and every
step leaves an entry in the audit trail.
-/
namespace WorkflowEngine

/-- An instance that has not been given an identifier. -/
structure Draft where
  graphId : String
  planVersion : String
  /-- The node that the next step visits. -/
  cursor : String
  context : Record
  status : Status
  /-- The earliest time at which the instance may be claimed. -/
  resumeAt : Option Instant
  /-- How often each action has been invoked. -/
  attempts : List (String × Int)
  /-- The action that is about to be invoked and whose outcome is not stored yet. -/
  dispatching : Option String
  /-- The worker that holds the instance. -/
  owner : Option String
  /-- The number of writes. -/
  version : Version
  /-- The key of the event, by which deliveries of the same event are recognized. -/
  dedupeKey : Option String
  error : Option String
  createdAt : Instant
  updatedAt : Instant
  completedAt : Option Instant
  deriving DecidableEq, Repr

structure Instance extends Draft where
  id : InstanceId
  deriving DecidableEq, Repr

namespace Instance

def isTerminal (i : Instance) : Bool := i.status.isTerminal

/-- The number of times that an action has been invoked. -/
def attemptsFor (i : Instance) (node : String) : Int := (i.attempts.lookup node).getD 0

/-- Whether an instance may be claimed: no worker holds it, and its time has come. -/
def isDue (now : Instant) (i : Instance) : Bool :=
  !i.isTerminal && i.owner.isNone && i.resumeAt.all (· ≤ now)

/-- Whether an instance is held by a worker that has not written it for some time. -/
def isStale (before : Instant) (i : Instance) : Bool :=
  i.status == .running && i.owner.isSome && i.updatedAt < before

/-- Whether an instance is listed for a graph and, if one is given, a status. -/
def isListed (graphId : String) (status : Option Status) (i : Instance) : Bool :=
  i.graphId == graphId && status.all (· == i.status)

/-- Whether one instance is due no later than another: those without a time first, then by time,
then by age. -/
def dueBefore (i j : Instance) : Bool :=
  match i.resumeAt, j.resumeAt with
  | none, some _ => true
  | some _, none => false
  | none, none => i.createdAt ≤ j.createdAt
  | some s, some t => s < t || (s ≤ t && i.createdAt ≤ j.createdAt)

/-- Whether the times of instances can be compared with one another. One without a time counts as
due since ever, by a clock with an offset. -/
def areComparable (instances : List Instance) : Bool :=
  instances.all (·.resumeAt.isSome) ||
    instances.all fun i => i.resumeAt.all fun t => t.offset.isSome

/-- Instances in the order in which they are due. -/
def sortDue (instances : List Instance) : List Instance := instances.mergeSort dueBefore

/-- Instances in the order of their last write. -/
def sortStale (instances : List Instance) : List Instance :=
  instances.mergeSort fun i j => i.updatedAt ≤ j.updatedAt

/-- Instances from the newest to the oldest. -/
def sortNewest (instances : List Instance) : List Instance :=
  instances.mergeSort fun i j => j.createdAt ≤ i.createdAt

/-- The instances with one of them replaced. -/
def replace (next : Instance) (instances : List Instance) : List Instance :=
  instances.map fun i => if i.id = next.id then next else i

/-- The instance with an identifier. -/
def find? (instances : List Instance) (id : InstanceId) : Option Instance :=
  instances.find? (·.id == id)

/-- The identifier of the instance that is created with a number. -/
def idOf (number : Nat) : InstanceId := "i" ++ toString number

end Instance

/-- What happened to an instance, at a node or as a whole. -/
structure AuditEntry where
  instanceId : InstanceId
  node : Option String
  outcome : AuditOutcome
  detail : Record
  time : Instant
  deriving DecidableEq, Repr

end WorkflowEngine

import WorkflowEngine.Call.Request

/-!
# Taking in events

An event starts an instance of a graph, or of every graph that listens for its kind. Events with a
key start at most one instance of each graph, however often they are delivered.
-/
namespace WorkflowEngine

structure Event where
  kind : TriggerKind
  context : Record
  key : Option String
  deriving DecidableEq, Repr

namespace Event

/-- The instance that an event starts of a plan. -/
def draft (e : Event) (p : Plan) (now : Instant) : Draft where
  graphId := p.graphId
  planVersion := p.version
  cursor := p.triggerId
  context := e.context
  status := .running
  resumeAt := none
  attempts := []
  dispatching := none
  owner := none
  version := .count 0
  dedupeKey := e.key
  error := none
  createdAt := now
  updatedAt := now
  completedAt := none

/-- Whether a plan takes an event: it is enabled, listens for its kind, and its filters admit it. -/
def isAccepted (e : Event) (p : Plan) : Shaped Bool :=
  match p.trigger? with
  | some ⟨_, _, .trigger kind filters _⟩ =>
    if p.enabled ∧ kind = e.kind then filters.matchesEvent kind (.object e.context)
    else .ok false
  | _ => .ok false

/-- The instance that an event starts of a graph, if the graph takes it. -/
def draftFor (e : Event) (env : Env) (graphId : String) : Outcome (Option Draft) := do
  let plan ← env.registry.latestPlan graphId
  if ← (e.isAccepted plan).toOutcome then return some (e.draft plan env.now) else return none

end Event

/-- Starting an instance of one graph. -/
structure Emit where
  draft : Draft
  deriving DecidableEq, Repr

namespace Emit

def request (c : Emit) : Request := .store (.create c.draft)

/-- Asks for an instance, or ends without one if the graph does not take the event. -/
def start (env : Env) (e : Event) (graphId : String) : Progress Emit (Option InstanceId) :=
  match e.draftFor env graphId with
  | .ok (some draft) => .waiting ⟨draft⟩
  | .ok none => .ended (.ok none)
  | .error e => .ended (.error e)

def resume (c : Emit) (answer : c.request.Answer) : Progress Emit (Option InstanceId) :=
  match (answer : Outcome (Instance × Bool)) with
  | .ok (stored, _) => .ended (.ok (some stored.id))
  | .error e => .ended (.error e)

end Emit

/-- Starting an instance of every graph that listens for an event. -/
structure Dispatch where
  event : Event
  /-- The instance that is being created. -/
  draft : Draft
  /-- The graphs that follow. -/
  rest : List String
  started : List InstanceId
  deriving DecidableEq, Repr

namespace Dispatch

def request (c : Dispatch) : Request := .store (.create c.draft)

/-- Asks for an instance of the next graph that takes the event. -/
def proceed (env : Env) (e : Event) (started : List InstanceId) :
    List String → Progress Dispatch (List InstanceId)
  | [] => .ended (.ok started)
  | graphId :: rest =>
    match e.draftFor env graphId with
    | .ok (some draft) => .waiting ⟨e, draft, rest, started⟩
    | .ok none => proceed env e started rest
    | .error e => .ended (.error e)

/-- The graphs whose latest plan is enabled and listens for the kind of an event. -/
def listeners (r : Registry) (e : Event) : List String :=
  (r.latestPlans.filter fun p => p.enabled && p.triggerKind? == some e.kind).map (·.graphId)

def start (env : Env) (e : Event) : Progress Dispatch (List InstanceId) :=
  proceed env e [] (listeners env.registry e)

def resume (env : Env) (c : Dispatch) (answer : c.request.Answer) :
    Progress Dispatch (List InstanceId) :=
  match (answer : Outcome (Instance × Bool)) with
  | .ok (stored, _) => proceed env c.event (c.started ++ [stored.id]) c.rest
  | .error e => .ended (.error e)

end Dispatch
end WorkflowEngine

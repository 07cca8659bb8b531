import WorkflowEngine.ActionResult
import WorkflowEngine.Kinds

/-!
# Planned invocations

An invoker whose answers are planned: for each kind of action there is a queue of endings, and one
queue serves all kinds that have none left. Invocations are taken by the invoker itself, whatever
their kind, or are routed to handlers, and then only the kinds that have one are taken.
-/
namespace WorkflowEngine

/-- How a planned invocation ends. -/
inductive Ending where
  | success (result : Record)
  | failure (reason : String) (isPermanent : Bool)
  | raised (f : Fault)
  /-- A handler returns a value, which may be anything. -/
  | returned (v : Value)
  deriving DecidableEq, Repr

/-- A planned invocation: what goes on while it is in flight, and how it ends. -/
structure Planned (σ : Type) where
  meanwhile : List σ
  ending : Ending

structure Invoker (σ : Type) where
  /-- The kinds that have a handler, and whether the handler lets other things go on meanwhile. -/
  handlers : List (ActionKind × Bool)
  /-- Whether the engine's invocations are routed to the handlers. -/
  isRouted : Bool
  /-- The queue of each kind by its name, and the queue for all kinds. -/
  queues : List (String × List (Planned σ))

namespace Ending

/-- What a handler that returns a value reports. -/
def ofReturned : Value → ActionResult
  | .null => .success []
  | .object fields => .success fields
  | v => .success [("result", v)]

/-- The reply of an invocation. Only of a handler any value is taken for a result. -/
def reply (isRouted : Bool) : Ending → Reply
  | success result => .result (.success result)
  | failure reason isPermanent => .result (.failure reason isPermanent)
  | raised f => .raised f
  | returned v => if isRouted then .result (ofReturned v) else .strange v

end Ending

namespace Invoker

variable {σ : Type}

/-- The name of the queue for all kinds. -/
def anyKind : String := "*"

/-- The first of a queue, and the queues without it. -/
def pop? (queues : List (String × List (Planned σ))) (name : String) :
    Option (Planned σ × List (String × List (Planned σ))) :=
  match queues with
  | [] => none
  | (other, queue) :: rest =>
    if other = name then
      match queue with
      | first :: queue => some (first, (other, queue) :: rest)
      | [] => none
    else (pop? rest name).map fun (first, rest) => (first, (other, queue) :: rest)

/-- Adds planned invocations at the end of a queue. -/
def push (queues : List (String × List (Planned σ))) (name : String)
    (planned : List (Planned σ)) : List (String × List (Planned σ)) :=
  match queues with
  | [] => [(name, planned)]
  | (other, queue) :: rest =>
    if other = name then (other, queue ++ planned) :: rest
    else (other, queue) :: push rest name planned

/-- How an invocation ends that nothing is planned for. -/
def unplanned (isRouted : Bool) : Ending :=
  if isRouted then .returned .null else .success [("ok", .bool true)]

/-- The next planned invocation of a kind. -/
def next (i : Invoker σ) (isRouted : Bool) (kind : ActionKind) : Planned σ × Invoker σ :=
  match (pop? i.queues kind.name).or (pop? i.queues anyKind) with
  | some (planned, queues) => (planned, { i with queues })
  | none => (⟨[], unplanned isRouted⟩, i)

/-- The failure of an action that has no handler. -/
def unhandled (kind : ActionKind) : ActionResult :=
  .failure ("No handler registered for action '" ++ kind.name ++ "'") true

/-- Whether there is somebody to take a kind; if so, whether other things may go on meanwhile. -/
def taker? (i : Invoker σ) (isRouted : Bool) (kind : ActionKind) : Option Bool :=
  if isRouted then i.handlers.lookup kind else some true

end Invoker
end WorkflowEngine

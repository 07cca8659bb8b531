import WorkflowEngine.ActionResult
import WorkflowEngine.Instance
import WorkflowEngine.Registry
import WorkflowEngine.Template

/-!
# Visits to nodes

`visit` is what the engine does at the node under the cursor of an instance: it computes the next
state of the instance and the entry for the audit trail, or asks for an action to be invoked first.
An action takes two visits: the first stores the intent to invoke it, the second invokes it and
stores its outcome. `recover` deals with an intent that a lost worker has left behind.
-/
namespace WorkflowEngine

/-- What the engine goes by: the plans, its options, and the time. -/
structure Env where
  registry : Registry
  config : EngineConfig
  now : Instant

/-- A computed step: the next state, which is still to be stored, and its entry. -/
structure Step where
  next : Instance
  entry : AuditEntry
  /-- The time until which the instance is put to sleep. -/
  wakeAt : Option Instant := none
  /-- Whether an action was invoked for this step. -/
  invoked : Bool := false
  deriving DecidableEq, Repr

/-- An action that is to be invoked for an instance. -/
structure Invocation where
  base : Instance
  node : String
  kind : ActionKind
  params : Value
  /-- Where the action leads. -/
  exit : Option String
  /-- The time of the visit. -/
  time : Instant
  deriving DecidableEq, Repr

inductive Visit where
  | done (step : Step)
  | invoke (invocation : Invocation)
  deriving DecidableEq, Repr

namespace Step

/-- Moves an instance to the next node, or finishes it if there is none. -/
def advance (i : Instance) (node : String) (exit : Option String) (now : Instant)
    (outcome : AuditOutcome) (detail : Record) : Step :=
  match exit with
  | some target => {
      next := { i with cursor := target }
      entry := ⟨i.id, some node, outcome, detail ++ [("next", .text target)], now⟩ }
  | none => {
      next := { i with
        status := .succeeded
        owner := none
        resumeAt := none
        completedAt := some now }
      entry := ⟨i.id, some node, outcome, detail ++ [("terminal", .bool true)], now⟩ }

/-- Stores the intent to invoke an action. -/
def intend (i : Instance) (node : String) (kind : ActionKind) (now : Instant) : Step where
  next := { i with dispatching := some node, resumeAt := none }
  entry := ⟨i.id, some node, .actionDispatched,
    [("action", Choice.toValue kind), ("attempt", .int (i.attemptsFor node + 1))], now⟩

/-- Puts an instance to sleep before the node after a delay. -/
def suspend (i : Instance) (node : String) (seconds : Nat) (target : String) (now : Instant) :
    Outcome Step :=
  match now.add? seconds with
  | none => .error .outOfRange
  | some wakeAt => .ok {
      next := { i with
        cursor := target
        status := .waitingDelay
        owner := none
        resumeAt := some wakeAt }
      entry := ⟨i.id, some node, .delayed,
        [("resume_at", .text wakeAt.isoText), ("seconds", .ofNat seconds), ("next", .text target)],
        now⟩
      wakeAt := some wakeAt }

end Step

namespace Invocation

/-- The number of this invocation of the action, from one. -/
def attempt (v : Invocation) : Int := v.base.attemptsFor v.node + 1

/-- The instance with this invocation counted and its intent settled. -/
def counted (v : Invocation) : Instance :=
  { v.base with
    attempts := Keyed.put v.node v.attempt v.base.attempts
    dispatching := none }

def detail (v : Invocation) : Record :=
  [("action", Choice.toValue v.kind), ("attempt", .int v.attempt)]

/-- The step after a failure that ends the instance. -/
def giveUp (v : Invocation) (reason : String) (isPermanent : Bool) : Step where
  next := { v.counted with
    status := .failed
    owner := none
    error := some reason
    completedAt := some v.time }
  entry := ⟨v.base.id, some v.node, .actionFailed,
    v.detail ++ [("reason", .text reason), ("permanent", .bool isPermanent), ("final", .bool true)],
    v.time⟩
  invoked := true

/-- The step after a failure that is tried again later. -/
def retry (v : Invocation) (reason : String) (wakeAt : Instant) : Step where
  next := { v.counted with
    status := .waitingDelay
    owner := none
    resumeAt := some wakeAt }
  entry := ⟨v.base.id, some v.node, .actionFailed,
    v.detail ++ [("reason", .text reason), ("permanent", .bool false),
      ("retry_scheduled", .bool true), ("retry_at", .text wakeAt.isoText)],
    v.time⟩
  wakeAt := some wakeAt
  invoked := true

/-- The time of the next attempt, counted from the visit. -/
def retryTime? (v : Invocation) (config : EngineConfig) : Option Instant :=
  let wait := config.backoff v.attempt.toNat
  if Duration.isRepresentable wait then v.time.add? wait else none

/-- The step that the result of an action leads to. -/
def conclude (v : Invocation) (config : EngineConfig) : ActionResult → Outcome Step
  | .success result =>
    let step := Step.advance v.counted v.node v.exit v.time .actionSucceeded
      (v.detail ++ [("result", .object result)])
    .ok { step with invoked := true }
  | .failure reason isPermanent =>
    if isPermanent ∨ config.maxAttempts ≤ v.attempt then .ok (v.giveUp reason isPermanent)
    else
      match v.retryTime? config with
      | some wakeAt => .ok (v.retry reason wakeAt)
      | none => .error .outOfRange

end Invocation

namespace Env

/-- A node of the plan that an instance is bound to. -/
def planNode (env : Env) (i : Instance) (node : String) : Outcome PlanNode := do
  let plan ← env.registry.plan i.graphId (some i.planVersion)
  plan.node node

end Env

/-- The step of a condition: the branch that the event data takes. -/
def branchStep (i : Instance) (node : String) (predicate : Predicate) (onTrue onFalse : String)
    (now : Instant) : Outcome Step := do
  let finding ← (predicate.evaluate (.object i.context)).toOutcome
  let branch := Branch.ofOutcome finding.matched
  return Step.advance i node (some (if finding.matched then onTrue else onFalse)) now
    (if finding.matched then .conditionTrue else .conditionFalse)
    (("branch", Choice.toValue branch) :: finding.detail)

/-- The second visit to an action. -/
def invocation (i : Instance) (node : String) (kind : ActionKind) (params : ActionParams)
    (exit : Option String) (now : Instant) : Invocation where
  base := i
  node
  kind
  params := Template.renderValue now.wallClock (.object i.context) (.object params.givenRecord)
  exit
  time := now

/-- What is done at the node under the cursor. -/
def visit (env : Env) (i : Instance) : Outcome Visit := do
  if i.isTerminal then throw (.instanceTerminal i.id i.status.name)
  let node ← env.planNode i i.cursor
  match node.step with
  | .trigger kind _ next =>
    return .done (.advance i node.id next env.now .triggered [("trigger", Choice.toValue kind)])
  | .condition predicate onTrue onFalse =>
    return .done (← branchStep i node.id predicate onTrue onFalse env.now)
  | .action kind params next =>
    if i.dispatching = some node.id then
      return .invoke (invocation i node.id kind params next env.now)
    else return .done (.intend i node.id kind env.now)
  | .delay seconds next => return .done (← Step.suspend i node.id seconds next env.now)

/-- The cause that is recorded when it is unknown whether an action has run. -/
def outcomeUnknown : String := "ActionOutcomeUnknown"

/-- The step for an intent left behind: an action that may be repeated is invoked again, any other
ends the instance. -/
def recoverAt (i : Instance) (node : PlanNode) (now : Instant) : Step :=
  let action : Value := match node.step.actionKind? with
    | some kind => Choice.toValue kind
    | none => .text Value.null.quoted
  let detail : Record := [("action", action), ("attempt", .int (i.attemptsFor node.id))]
  if node.step.actionKind?.any ActionKind.isIdempotent then {
    next := { i with cursor := node.id }
    entry := ⟨i.id, some node.id, .recovered, detail, now⟩ }
  else {
    next := { i with
      status := .failed
      dispatching := none
      owner := none
      error := some (outcomeUnknown ++ ": '" ++ node.id ++ "' may or may not have run")
      completedAt := some now }
    entry := ⟨i.id, some node.id, .failed, detail ++ [("reason", .text outcomeUnknown)], now⟩ }

/-- The step for an intent that is still stored, if there is one. -/
def recover (env : Env) (i : Instance) : Outcome (Option Step) :=
  match i.dispatching with
  | none => .ok none
  | some dispatching => do
    let node ← env.planNode i dispatching
    return some (recoverAt i node env.now)

end WorkflowEngine

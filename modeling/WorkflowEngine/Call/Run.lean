import WorkflowEngine.Call.Request

/-!
# Running an instance

A worker that holds an instance drives it until it sleeps or ends. Each step is stored only if
nobody has written the instance in between, and then recorded. A step that cannot be stored is
dropped; if its action was invoked all the same, that is still recorded. An instance whose plan is
gone can never go on, and is failed.
-/
namespace WorkflowEngine

/-- A run, by what it waits for. -/
inductive Run where
  | loading (id : InstanceId) (worker : String)
  /-- A step computed from the base is being stored. -/
  | saving (base : Instance) (step : Step)
  | recording (stored : Instance) (entry : AuditEntry)
  | invoking (invocation : Invocation)
  /-- A step could not be stored; the instance is read again. -/
  | reloading (id : InstanceId) (step : Step)
  | recordingDropped (current : Instance) (entry : AuditEntry)
  /-- The instance cannot go on and is being failed. -/
  | failing (failed : Instance) (entry : AuditEntry) (cause : Error)
  | recordingFailure (entry : AuditEntry) (cause : Error)
  deriving DecidableEq, Repr

/-- The name under which an error that keeps an instance from ever going on is recorded. -/
def Error.unrunnable? : Error → Option String
  | graphNotFound _ => some "GraphNotFoundError"
  | planNotFound _ _ => some "PlanNotFoundError"
  | planContract _ _ => some "PlanContractError"
  | _ => none

/-- Whether an error says that an instance was written in between. -/
def Error.isConflict : Error → Bool
  | storeConflict _ _ _ => true
  | _ => false

namespace Step

/-- The entry for a step that invoked an action but could not be stored. -/
def droppedEntry (step : Step) (current : Instance) (now : Instant) : AuditEntry :=
  if current.status = .cancelled then
    ⟨current.id, step.entry.node, .cancelledPostHoc,
      ("discarded", Choice.toValue step.entry.outcome) :: step.entry.detail, now⟩
  else
    ⟨current.id, step.entry.node, step.entry.outcome,
      step.entry.detail ++
        [("discarded", .bool true), ("stored_status", Choice.toValue current.status)], now⟩

end Step

namespace Run

def request : Run → Request
  | loading id _ => .store (.load id)
  | saving base step => .store (.save step.next base.version)
  | recording _ entry => .append entry
  | invoking v => .invoke v.kind v.params v.base.context
  | reloading id _ => .store (.load id)
  | recordingDropped _ entry => .append entry
  | failing failed _ _ => .store (.save failed failed.version)
  | recordingFailure entry _ => .append entry

/-- The start of a run. -/
def start (id : InstanceId) (worker : String) : Run := loading id worker

/-- Ends the run with an error, after failing an instance that cannot go on. -/
def fail (env : Env) (i : Instance) (e : Error) : Progress Run Instance :=
  match e.unrunnable? with
  | none => .ended (.error e)
  | some name =>
    let failed := { i with
      status := .failed
      dispatching := none
      owner := none
      resumeAt := none
      error := some (name ++ ": " ++ e.message)
      completedAt := some env.now }
    .waiting (.failing failed
      ⟨i.id, some i.cursor, .failed, [("reason", .text name)], env.now⟩ e)

/-- Goes on with an instance, which ends the run unless it is still running. -/
def proceed (env : Env) (i : Instance) : Progress Run Instance :=
  if i.status = .running then
    match visit env i with
    | .ok (.done step) => .waiting (.saving i step)
    | .ok (.invoke v) => .waiting (.invoking v)
    | .error e => fail env i e
  else .ended (.ok i)

/-- Begins with an instance that the worker holds. -/
def begin (env : Env) (i : Instance) : Progress Run Instance :=
  match recover env i with
  | .ok (some step) => .waiting (.saving i step)
  | .ok none => proceed env i
  | .error e => fail env i e

/-- Goes on after an answer. -/
def resume (env : Env) : (r : Run) → r.request.Answer → Progress Run Instance
  | loading _ worker, answer =>
    match answer with
    | .ok i =>
      if i.status = .running ∧ i.owner = some worker then begin env i else .ended (.ok i)
    | .error e => .ended (.error e)
  | saving base step, answer =>
    match answer with
    | .ok stored => .waiting (.recording stored step.entry)
    | .error e =>
      if e.isConflict then .waiting (.reloading base.id step) else .ended (.error e)
  | recording stored _, _ => proceed env stored
  | invoking v, reply =>
    match reply.settle.toOutcome.bind (v.conclude env.config) with
    | .ok step => .waiting (.saving v.base step)
    | .error e => .ended (.error e)
  | reloading _ step, answer =>
    match answer with
    | .ok current =>
      if step.invoked then
        .waiting (.recordingDropped current (step.droppedEntry current env.now))
      else .ended (.ok current)
    | .error e => .ended (.error e)
  | recordingDropped current _, _ => .ended (.ok current)
  | failing _ entry cause, answer =>
    match answer with
    | .ok _ => .waiting (.recordingFailure entry cause)
    | .error e => .ended (.error (if e.isConflict then cause else e))
  | recordingFailure _ cause, _ => .ended (.error cause)

end Run
end WorkflowEngine

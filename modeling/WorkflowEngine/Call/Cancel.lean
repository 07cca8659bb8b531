import WorkflowEngine.Call.Run

/-!
# Cancelling an instance

An instance is cancelled in whatever state it is, unless it has ended. If it is written in between,
the call starts over.
-/
namespace WorkflowEngine

inductive Cancel where
  | loading (id : InstanceId) (reason : Option String)
  | saving (current : Instance) (reason : Option String) (time : Instant)
  | recording (stored : Instance) (entry : AuditEntry)
  deriving DecidableEq, Repr

namespace Cancel

/-- A cancelled instance. -/
def cancelled (i : Instance) (reason : Option String) (time : Instant) : Instance :=
  { i with
    status := .cancelled
    resumeAt := none
    owner := none
    error := reason
    completedAt := some time }

def request : Cancel → Request
  | loading id _ => .store (.load id)
  | saving current reason time => .store (.save (cancelled current reason time) current.version)
  | recording _ entry => .append entry

def start (id : InstanceId) (reason : Option String) : Cancel := loading id reason

/-- The entry for a cancellation: the status before it, and the reason if there is one. -/
def entry (stored : Instance) (previous : Status) (reason : Option String) (now : Instant) :
    AuditEntry :=
  ⟨stored.id, some stored.cursor, .cancelled,
    ("previous_status", Choice.toValue previous) ::
      ((reason.filter (· ≠ "")).toList.map fun reason => ("reason", .text reason)), now⟩

def resume (env : Env) : (c : Cancel) → c.request.Answer → Progress Cancel Instance
  | loading id reason, answer =>
    match answer with
    | .ok i =>
      if i.isTerminal then .ended (.error (.instanceTerminal id i.status.name))
      else .waiting (.saving i reason env.now)
    | .error e => .ended (.error e)
  | saving current reason _, answer =>
    match answer with
    | .ok stored => .waiting (.recording stored (entry stored current.status reason env.now))
    | .error e =>
      if e.isConflict then .waiting (.loading current.id reason) else .ended (.error e)
  | recording stored _, _ => .ended (.ok stored)

end Cancel
end WorkflowEngine

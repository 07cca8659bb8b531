import WorkflowEngine.Store
import WorkflowEngine.Visit

/-!
# Requests of calls

A call of the engine makes one request at a time and goes on when it is answered, with the plans
and the time as they are then. Between a request and its answer other calls may be served.
-/
namespace WorkflowEngine

inductive Request where
  | store (r : StoreRequest)
  /-- Appends an entry to the audit trail; whether that succeeds makes no difference to the call. -/
  | append (entry : AuditEntry)
  /-- Invokes an action with its parameters and the data of the event. -/
  | invoke (kind : ActionKind) (params : Value) (context : Record)
  deriving DecidableEq, Repr

/-- What a request is answered with. -/
@[reducible] def Request.Answer : Request → Type
  | store r => Outcome r.Answer
  | append _ => Unit
  | invoke _ _ _ => Reply

/-- A call that waits for an answer, or has ended. -/
inductive Progress (σ α : Type) where
  | waiting (s : σ)
  | ended (result : Outcome α)

namespace Progress

variable {σ τ α β : Type}

def map (f : σ → τ) (g : α → β) : Progress σ α → Progress τ β
  | waiting s => waiting (f s)
  | ended (.ok a) => ended (.ok (g a))
  | ended (.error e) => ended (.error e)

/-- A call that begins with a computation. -/
def ofOutcome (start : Outcome (Progress σ α)) : Progress σ α :=
  match start with
  | .ok p => p
  | .error e => ended (.error e)

end Progress
end WorkflowEngine

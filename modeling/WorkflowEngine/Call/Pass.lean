import WorkflowEngine.Call.Poll
import WorkflowEngine.Call.Run

/-!
# Passes of a worker

A worker polls and then runs every instance that it has claimed. A run that ends in an error does
not keep it from the others.
-/
namespace WorkflowEngine

inductive Pass where
  | polling (worker : String) (poll : Poll)
  /-- One instance is being run; others follow it. -/
  | running (worker : String) (run : Run) (rest : List InstanceId) (claimed : Nat)
  deriving DecidableEq, Repr

namespace Pass

def request : Pass → Request
  | polling _ poll => poll.request
  | running _ run _ _ => run.request

/-- The start of a pass that polls at a given time or now. -/
def start (env : Env) (worker : String) (time : Option Instant) : Pass :=
  polling worker (Poll.start env worker time none)

/-- Runs the next instance, or ends the pass with the number of those claimed. -/
def proceed (worker : String) (rest : List InstanceId) (claimed : Nat) : Progress Pass Nat :=
  match rest with
  | id :: rest => .waiting (.running worker (Run.start id worker) rest claimed)
  | [] => .ended (.ok claimed)

def resume (env : Env) : (p : Pass) → p.request.Answer → Progress Pass Nat
  | polling worker poll, answer =>
    match poll.resume answer with
    | .waiting poll => .waiting (.polling worker poll)
    | .ended (.ok ids) => proceed worker ids ids.length
    | .ended (.error e) => .ended (.error e)
  | running worker run rest claimed, answer =>
    match run.resume env answer with
    | .waiting run => .waiting (.running worker run rest claimed)
    | .ended _ => proceed worker rest claimed

end Pass
end WorkflowEngine

import WorkflowEngine.Call.Cancel
import WorkflowEngine.Call.Intake
import WorkflowEngine.Call.Pass
import WorkflowEngine.Call.Sweep

/-!
# Calls of the engine

Everything that can be going on in the engine at one time: taking in events, polling, running,
sweeping, cancelling, and the passes of a worker. Calls take turns request by request.
-/
namespace WorkflowEngine

inductive Call where
  | emit (c : Emit)
  | dispatch (c : Dispatch)
  | poll (c : Poll)
  | run (c : Run)
  | sweep (c : Sweep)
  | cancel (c : Cancel)
  | pass (c : Pass)
  deriving DecidableEq, Repr

/-- What a call ends with. -/
inductive CallResult where
  | started (id : Option InstanceId)
  | listed (ids : List InstanceId)
  | left (i : Instance)
  | claimed (count : Nat)
  deriving DecidableEq, Repr

namespace Call

def request : Call → Request
  | emit c => c.request
  | dispatch c => c.request
  | poll c => c.request
  | run c => c.request
  | sweep c => c.request
  | cancel c => c.request
  | pass c => c.request

/-- Goes on with a call after an answer. -/
def resume (env : Env) : (c : Call) → c.request.Answer → Progress Call CallResult
  | emit c, answer => (c.resume answer).map .emit .started
  | dispatch c, answer => (c.resume env answer).map .dispatch .listed
  | poll c, answer => (c.resume answer).map .poll .listed
  | run c, answer => (c.resume env answer).map .run .left
  | sweep c, answer => (c.resume answer).map .sweep .listed
  | cancel c, answer => (c.resume env answer).map .cancel .left
  | pass c, answer => (c.resume env answer).map .pass .claimed

/-- The start of taking in an event for one graph. -/
def startEmit (env : Env) (e : Event) (graphId : String) : Progress Call CallResult :=
  (Emit.start env e graphId).map .emit .started

/-- The start of taking in an event for every graph. -/
def startDispatch (env : Env) (e : Event) : Progress Call CallResult :=
  (Dispatch.start env e).map .dispatch .listed

end Call
end WorkflowEngine

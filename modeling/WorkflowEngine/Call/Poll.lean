import WorkflowEngine.Call.Request

/-!
# Claiming due instances

A poll lists the instances that are due and claims each of them for a worker. One that another
worker has claimed since is passed over.
-/
namespace WorkflowEngine

inductive Poll where
  | listing (worker : String) (now : Instant) (limit : Int)
  /-- The current instance is being claimed; others follow it, and some are claimed already. -/
  | claiming (worker : String) (current : Instance) (rest : List Instance)
      (claimed : List InstanceId)
  deriving DecidableEq, Repr

namespace Poll

def request : Poll → Request
  | listing _ now limit => .store (.listDue now limit)
  | claiming worker current _ _ =>
    .store (.claim current.id current.status .running (some worker))

/-- The start of a poll at a given time or now. No limit and a limit of zero stand for the size of
a batch. -/
def start (env : Env) (worker : String) (time : Option Instant) (limit : Option Int) : Poll :=
  listing worker (time.getD env.now)
    ((limit.filter (· ≠ 0)).getD env.config.pollBatchSize)

/-- Claims the next instance, or ends the poll if there is none. -/
def proceed (worker : String) (rest : List Instance) (claimed : List InstanceId) :
    Progress Poll (List InstanceId) :=
  match rest with
  | current :: rest => .waiting (.claiming worker current rest claimed)
  | [] => .ended (.ok claimed)

def resume : (p : Poll) → p.request.Answer → Progress Poll (List InstanceId)
  | listing worker now _, answer =>
    match answer with
    | .ok due => proceed worker (due.filter fun i => i.resumeAt.all (· ≤ now)) []
    | .error e => .ended (.error e)
  | claiming worker current rest claimed, answer =>
    match answer with
    | .ok (some _) => proceed worker rest (claimed ++ [current.id])
    | .ok none => proceed worker rest claimed
    | .error e => .ended (.error e)

end Poll
end WorkflowEngine

import WorkflowEngine.ShapeError

/-!
# Results of actions

What the handler of an action reports. A handler may also raise a fault, which is taken for a
failure.
-/
namespace WorkflowEngine

inductive ActionResult where
  | success (result : Record)
  /-- A permanent failure is not tried again. -/
  | failure (reason : String) (isPermanent : Bool)
  deriving DecidableEq, Repr

/-- What a handler raises: its name, its text, and whether it says that a retry is of no use. -/
structure Fault where
  name : String
  text : String
  isPermanent : Bool
  deriving DecidableEq, Repr

/-- How the invocation of an action ends. -/
inductive Reply where
  | result (r : ActionResult)
  | raised (f : Fault)
  /-- Something that is no result. -/
  | strange (v : Value)
  deriving DecidableEq, Repr

namespace Reply

/-- The result of an action. What is no result is read as a failure, and has no reason. -/
def settle : Reply → Shaped ActionResult
  | result r => .ok r
  | raised f =>
    .ok (if f.isPermanent then .failure f.text true
      else .failure (f.name ++ ": " ++ f.text) false)
  | strange v => .error (.lacks v.kindName "reason")

end Reply
end WorkflowEngine

import WorkflowEngine.Error.Kind

/-!
# Responses of the web service

A response has a status and a body. Every error of the engine that a client can bring about has a
response of its own.
-/
namespace WorkflowEngine

/-- The issue as data. -/
def Issue.toValue (i : Issue) : Value :=
  .object [("code", .text i.code), ("message", .text i.message), ("node_id", .ofText? i.nodeId),
    ("edge", match i.edge with
      | some (source, target) => .list [.text source, .text target]
      | none => .null)]

namespace Api

structure Response where
  status : Nat
  body : Value
  deriving DecidableEq, Repr

namespace Response

/-- A refusal by the web service itself. -/
def refusal (status : Nat) (detail : String) : Response :=
  ⟨status, .object [("status_code", .ofNat status), ("detail", .text detail)]⟩

/-- There is nothing to say. -/
def empty : Response := ⟨204, .text ""⟩

/-- The response of which only the status is sent. -/
def withoutBody (r : Response) : Response := { r with body := .text "" }

def unknownPath : Response := refusal 404 "Not Found"

def unknownMethod : Response := refusal 405 "Method Not Allowed"

def internalError : Response := refusal 500 "Internal Server Error"

def notFound (message : String) : Response :=
  ⟨404, .object [("error", .text "not_found"), ("message", .text message)]⟩

/-- The issues of a graph that is no plan. -/
def unsound (graphId : Value) (message : String) (issues : List Issue) : Response :=
  ⟨422, .object [("error", .text "compile_error"), ("graph_id", graphId),
    ("message", .text message), ("issues", .list (issues.map Issue.toValue))]⟩

/-- A conflict with the state of an instance, which is named if it is final. -/
def conflict (message : String) (status : Option String) : Response :=
  ⟨409, .object ([("error", .text "conflict"), ("message", .text message)] ++
    status.toList.map fun status => ("status", .text status))⟩

end Response
end Api

open Api

/-- The response to an error, if it has one of its own. -/
def Error.response? (e : Error) : Option Response :=
  match e with
  | compile graphId issues => some (.unsound (.text graphId) e.message issues)
  | graphNotFound _ | planNotFound _ _ | instanceNotFound _ => some (.notFound e.message)
  | storeConflict _ _ _ => some (.conflict e.message none)
  | instanceTerminal _ status => some (.conflict e.message (some status))
  | _ => none

/-- The response to an error. -/
def Error.response (e : Error) : Response := e.response?.getD .internalError

/-- The response to an error that is raised, if its kind has one. -/
def RaisedError.response? (r : RaisedError) : Option Response :=
  match r.kind with
  | .compile => some (.unsound (r.value 0) r.message r.issues)
  | .graphNotFound | .planNotFound | .instanceNotFound => some (.notFound r.message)
  | .storeConflict => some (.conflict r.message none)
  | .instanceTerminal => some (.conflict r.message (some (r.value 1).display))
  | _ => none

end WorkflowEngine

import WorkflowEngine.Instance
import WorkflowEngine.Keyed
import WorkflowEngine.Plan

/-!
# Diagrams

Plans as flow charts in the notation of Mermaid, and as lists of nodes and edges. A chart can show
how far an instance has come, which is read off its audit trail.
-/
namespace WorkflowEngine

namespace ActionKind

/-- The name of an action in words. -/
def words : ActionKind → String
  | sendWhatsapp => "Send Whatsapp"
  | sendEmail => "Send Email"
  | moveStage => "Move Stage"
  | addTag => "Add Tag"
  | removeTag => "Remove Tag"
  | assignUser => "Assign User"
  | createTask => "Create Task"
  | sendNotification => "Send Notification"
  | webhook => "Webhook"

end ActionKind

namespace PlanNode

/-- The label of a node, or what it does if it has none. -/
def caption (n : PlanNode) : String :=
  if n.label ≠ "" then n.label
  else
    match n.step with
    | .trigger kind _ _ => "When " ++ kind.name
    | .condition predicate _ _ => predicate.describe
    | .action kind _ _ => kind.words
    | .delay seconds _ => "Wait " ++ Duration.text seconds

end PlanNode

namespace Diagram

def isQuote (c : Char) : Bool := c == '\x22' || c == '\x27'

/-- A caption without quotes, which would end it early. -/
def captionText (n : PlanNode) : String :=
  String.ofList (n.caption.toList.filter fun c => !isQuote c)

def isNameChar (c : Char) : Bool := c.isAlphanum || c == '_'

/-- The name of a node in a chart: everything but letters, digits and underscores is replaced. -/
def name (id : String) : String :=
  String.ofList (id.toList.map fun c => if isNameChar c then c else '_')

/-- The brackets that a node of a kind is drawn with. -/
def brackets : NodeKind → String × String
  | .trigger => ("([", "])")
  | .condition => ("\x7b", "\x7d")
  | .action => ("[", "]")
  | .delay => ("[[", "]]")

def nodeLine (n : PlanNode) : String :=
  let (left, right) := brackets n.step.kind
  "    " ++ name n.id ++ left ++ "\"" ++ captionText n ++ "\"" ++ right

def edgeLine (e : PlanEdge) : String :=
  let arrow := match e.branch with
    | some branch => " -->|" ++ branch.name ++ "| "
    | none => " --> "
  "    " ++ name e.source ++ arrow ++ name e.target

/-- The lines of a chart: a header, the nodes, and the edges. -/
def lines (p : Plan) : List String :=
  "graph TD" :: p.orderedNodes.map nodeLine ++ p.edges.map edgeLine

def chart (p : Plan) : String := "\n".intercalate (lines p)

/-- Colours of the background and the border, and the width of the border. -/
def styleLine (colours : String) (id : String) : String := "    style " ++ name id ++ " " ++ colours

def completedStyle : String := "fill:#90EE90,stroke:#006400,stroke-width:2px"

def failedStyle : String := "fill:#FFB6C1,stroke:#8B0000,stroke-width:2px"

def currentStyle : String := "fill:#FFD700,stroke:#FFA500,stroke-width:3px"

/-- How far an instance has come: the nodes that it has passed and those at which it failed. -/
structure Visited where
  completed : List String
  failed : List String
  deriving DecidableEq, Repr

/-- Whether an entry completes its node or records a failure there; others say nothing. -/
def verdict? : AuditOutcome → Option Bool
  | .triggered | .conditionTrue | .conditionFalse | .actionSucceeded | .delayed => some true
  | .actionFailed | .failed => some false
  | .actionDispatched | .recovered | .cancelled | .cancelledPostHoc => none

/-- The last verdict on each node, in the order in which the nodes were first visited. -/
def verdicts (trail : List (Option String × AuditOutcome)) : List (String × Bool) :=
  trail.foldl
    (fun states (node, outcome) =>
      match node, verdict? outcome with
      | some node, some completed => Keyed.put node completed states
      | _, _ => states)
    []

def visited (trail : List (Option String × AuditOutcome)) : Visited where
  completed := ((verdicts trail).filter (·.2)).map (·.1)
  failed := ((verdicts trail).filter fun state => !state.2).map (·.1)

/-- The chart of a plan with the nodes that an instance has visited. -/
def chartOf (p : Plan) (current : Option String) (v : Visited) : String :=
  "\n".intercalate
    (lines p ++ v.completed.map (styleLine completedStyle) ++
      v.failed.map (styleLine failedStyle) ++
      (current.filter (· ≠ "")).toList.map (styleLine currentStyle))

/-- The nodes of a plan as data. -/
def nodeValue (p : Plan) (n : PlanNode) : Value :=
  .object [("id", .text n.id), ("label", .text (captionText n)),
    ("type", Choice.toValue n.step.kind), ("is_initial", .bool (n.id == p.triggerId)),
    ("is_terminal", .bool n.successors.isEmpty)]

def edgeValue (e : PlanEdge) : Value :=
  .object ([("source", .text e.source), ("target", .text e.target)] ++
    match e.branch with
    | some branch => [("branch", Choice.toValue branch)]
    | none => [])

def nodesValue (p : Plan) : Value := .list (p.orderedNodes.map (nodeValue p))

def edgesValue (p : Plan) : Value := .list (p.edges.map edgeValue)

end Diagram
end WorkflowEngine

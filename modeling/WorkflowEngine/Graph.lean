import WorkflowEngine.Predicate
import WorkflowEngine.TriggerFilters

/-!
# Authored graphs

A graph is what an author draws: nodes of four kinds, edges between them, and a heading. It may be
invalid; only plans are run. `Graph.toValue` writes the canonical form of a graph.
-/
namespace WorkflowEngine

/-- What a node does. A delay without a unit is in the engine's default unit. -/
inductive NodeBody where
  | trigger (kind : TriggerKind) (filters : TriggerFilters)
  | condition (predicate : Predicate)
  | action (kind : ActionKind) (params : Record)
  | delay (amount : Int) (unit : Option DelayUnit)
  deriving DecidableEq, Repr

structure Node where
  id : String
  label : String
  body : NodeBody
  deriving DecidableEq, Repr

/-- A connection; one that leaves a condition carries a branch. -/
structure Edge where
  source : String
  target : String
  branch : Option Branch
  deriving DecidableEq, Repr

structure Graph where
  id : String
  name : String
  version : String
  nodes : List Node
  edges : List Edge
  enabled : Bool
  description : String
  deriving DecidableEq, Repr

namespace NodeBody

def kind : NodeBody → NodeKind
  | trigger .. => .trigger
  | condition .. => .condition
  | action .. => .action
  | delay .. => .delay

/-- The data of a node in canonical form. -/
def toValue : NodeBody → Value
  | trigger kind filters => .object (("trigger_type", Choice.toValue kind) :: filters.toRecord)
  | condition predicate => .object [("predicate", predicate.toValue)]
  | action kind params =>
    .object [("action_type", Choice.toValue kind), ("params", .object params)]
  | delay amount unit =>
    .object (("amount", .int amount) ::
      match unit with
      | some unit => [("unit", Choice.toValue unit)]
      | none => [])

end NodeBody

namespace Node

def kind (n : Node) : NodeKind := n.body.kind

def isTrigger (n : Node) : Bool := n.kind = .trigger

def isCondition (n : Node) : Bool := n.kind = .condition

def toValue (n : Node) : Value :=
  .object [("id", .text n.id), ("type", Choice.toValue n.kind), ("label", .text n.label),
    ("data", n.body.toValue)]

end Node

namespace Edge

/-- The two ends of an edge. -/
def ends (e : Edge) : String × String := (e.source, e.target)

def toValue (e : Edge) : Value :=
  .object ([("source", .text e.source), ("target", .text e.target)] ++
    match e.branch with
    | some branch => [("branch", Choice.toValue branch)]
    | none => [])

end Edge

namespace Graph

/-- The first node with an identifier. -/
def find? (g : Graph) (id : String) : Option Node := g.nodes.find? (·.id == id)

/-- The first trigger. -/
def trigger? (g : Graph) : Option Node := g.nodes.find? Node.isTrigger

/-- The canonical form of a graph, which is also what plan versions are made from. -/
def toValue (g : Graph) : Value :=
  .object [("id", .text g.id), ("name", .text g.name), ("version", .text g.version),
    ("enabled", .bool g.enabled), ("description", .text g.description),
    ("nodes", .list (g.nodes.map Node.toValue)), ("edges", .list (g.edges.map Edge.toValue))]

end Graph
end WorkflowEngine

import WorkflowEngine.Error
import WorkflowEngine.Graph

/-!
# Plans

A plan is a graph that has passed every check, in the form in which it is run: each node knows its
successors, delays are durations, and parameters are checked.
-/
namespace WorkflowEngine

/-- What a node of a plan does, and where it leads. -/
inductive PlanStep where
  | trigger (kind : TriggerKind) (filters : TriggerFilters) (next : Option String)
  | condition (predicate : Predicate) (onTrue onFalse : String)
  | action (kind : ActionKind) (params : ActionParams) (next : Option String)
  | delay (seconds : Nat) (next : String)
  deriving DecidableEq, Repr

structure PlanNode where
  id : String
  label : String
  step : PlanStep
  deriving DecidableEq, Repr

structure Plan where
  graphId : String
  graphVersion : String
  version : String
  name : String
  enabled : Bool
  triggerId : String
  /-- The nodes as they were authored. -/
  nodes : List PlanNode
  /-- The identifiers of the nodes, each before its successors. -/
  order : List String
  /-- The graph that the plan was made from. -/
  source : Graph
  deriving DecidableEq, Repr

/-- A connection between two nodes of a plan. -/
structure PlanEdge where
  source : String
  target : String
  branch : Option Branch
  deriving DecidableEq, Repr

namespace PlanStep

def kind : PlanStep → NodeKind
  | trigger .. => .trigger
  | condition .. => .condition
  | action .. => .action
  | delay .. => .delay

/-- Where a step leads, with the branch that leads there. -/
def exits : PlanStep → List (Option Branch × String)
  | trigger _ _ next | action _ _ next => next.toList.map fun target => (none, target)
  | condition _ onTrue onFalse => [(some .onTrue, onTrue), (some .onFalse, onFalse)]
  | delay _ next => [(none, next)]

def successors (s : PlanStep) : List String := s.exits.map (·.2)

/-- The kind of an action. -/
def actionKind? : PlanStep → Option ActionKind
  | action kind _ _ => some kind
  | _ => none

/-- The kind of events that a trigger listens for. -/
def triggerKind? : PlanStep → Option TriggerKind
  | trigger kind _ _ => some kind
  | _ => none

end PlanStep

namespace PlanNode

def successors (n : PlanNode) : List String := n.step.successors

def edges (n : PlanNode) : List PlanEdge :=
  n.step.exits.map fun exit => ⟨n.id, exit.2, exit.1⟩

end PlanNode

namespace Plan

def node? (p : Plan) (id : String) : Option PlanNode := p.nodes.find? (·.id == id)

/-- The node that an instance refers to. An instance that refers to another is corrupt. -/
def node (p : Plan) (id : String) : Outcome PlanNode :=
  match p.node? id with
  | some n => .ok n
  | none => .error (.planContract p.version id)

/-- The trigger of a plan. -/
def trigger? (p : Plan) : Option PlanNode := p.node? p.triggerId

/-- The kind of events that a plan listens for. -/
def triggerKind? (p : Plan) : Option TriggerKind := p.trigger?.bind (·.step.triggerKind?)

/-- The successors of a node, none if there is no such node. -/
def successorsOf (nodes : List PlanNode) (id : String) : List String :=
  ((nodes.find? (·.id == id)).map PlanNode.successors).getD []

/-- The nodes in the order of the plan. -/
def orderedNodes (p : Plan) : List PlanNode := p.order.filterMap p.node?

/-- The edges of a plan, in its order. -/
def edges (p : Plan) : List PlanEdge := p.orderedNodes.flatMap PlanNode.edges

end Plan
end WorkflowEngine

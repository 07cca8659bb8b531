import WorkflowEngine.Digest
import WorkflowEngine.Graph.Checks
import WorkflowEngine.Plan
import WorkflowEngine.Value.Json

/-!
# Compilation of graphs

`Plan.ofGraph` makes the plan of a graph without defects. The version of a plan names its content:
it ends in a digest of the canonical form of the graph and of the default unit of delays.
-/
namespace WorkflowEngine

namespace Plan

/-- What the version of a plan is made from. -/
def content (config : EngineConfig) (g : Graph) : Value :=
  .object [("default_delay_unit", Choice.toValue config.defaultDelayUnit), ("graph", g.toValue)]

/-- Graph, authored version, and sixteen digits of the digest of the content. -/
def versionOf (config : EngineConfig) (g : Graph) : String :=
  g.id ++ "@" ++ g.version ++ ":" ++
    String.ofList ((Digest.ofText (content config g).json).toList.take 16)

/-- The target of the edge for a branch. -/
def branchTarget? (edges : List Edge) (branch : Branch) : Option String :=
  (edges.find? (·.branch = some branch)).map (·.target)

/-- What a node does in a plan, given the edges that leave it. There is none for a node with
defects, nor for a delay that is too long to be represented. -/
def stepOf? (config : EngineConfig) (edges : List Edge) : NodeBody → Option PlanStep
  | .trigger kind filters => some (.trigger kind filters (edges.head?.map (·.target)))
  | .condition predicate => do
    let onTrue ← branchTarget? edges .onTrue
    let onFalse ← branchTarget? edges .onFalse
    return .condition predicate onTrue onFalse
  | .action kind params => do
    let params ← (ActionParams.ofRecord kind params).toOption
    return .action kind params (edges.head?.map (·.target))
  | .delay amount unit => do
    let seconds := amount * (unit.getD config.defaultDelayUnit).seconds
    let edge ← edges.head?
    if Duration.isRepresentable seconds then return .delay seconds.toNat edge.target else none

def nodeOf? (config : EngineConfig) (g : Graph) (n : Node) : Option PlanNode :=
  (stepOf? config (g.outgoing n.id) n.body).map fun step => ⟨n.id, n.label, step⟩

/-- The nodes that can be reached from one of them, each before its successors. -/
def orderFrom (nodes : List PlanNode) (id : String) : List String :=
  let successors := successorsOf nodes
  (Search.finishOrder successors ((nodes.map (·.id)).erase id) [(id, successors id)]).reverse

/-- Why a graph with defects has no plan: every defect is listed, if all can be written. -/
def refusalOf (g : Graph) (defects : List Defect) : Error :=
  if defects.all Defect.isWritable then .compile g.id (defects.map Defect.issue)
  else .shape .unwritableInteger

/-- The plan of a graph. The error lists every defect of the graph. -/
def ofGraph (config : EngineConfig) (g : Graph) : Outcome Plan :=
  match g.defects, g.trigger? with
  | [], some trigger =>
    match g.nodes.mapM (nodeOf? config g) with
    | some nodes => .ok {
        graphId := g.id
        graphVersion := g.version
        version := versionOf config g
        name := g.name
        enabled := g.enabled
        triggerId := trigger.id
        nodes
        order := orderFrom nodes trigger.id
        source := g }
    | none => .error .outOfRange
  | defects, _ => .error (refusalOf g defects)

end Plan
end WorkflowEngine

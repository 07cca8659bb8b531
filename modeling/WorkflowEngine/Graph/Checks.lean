import WorkflowEngine.Defect
import WorkflowEngine.Graph.Search

/-!
# Checks of graphs

`Graph.defects` lists everything that keeps a graph from being run, in this order: repeated
identifiers, triggers, edges, the successors and the data of each node, nodes out of reach, and
edges that close a loop.
-/
namespace WorkflowEngine

namespace Edge

/-- The ends of an edge that are no nodes. -/
def unknownEnds (ids : List String) (e : Edge) : List String :=
  [e.source, e.target].filter fun id => !ids.contains id

end Edge

namespace Graph

/-- The nodes whose identifiers have not been seen before them. -/
def firstsAfter (seen : List String) : List Node → List Node
  | [] => []
  | n :: rest =>
    if n.id ∈ seen then firstsAfter seen rest else n :: firstsAfter (n.id :: seen) rest

/-- The nodes whose identifiers have been seen before them. -/
def repeatsAfter (seen : List String) : List Node → List Node
  | [] => []
  | n :: rest =>
    if n.id ∈ seen then n :: repeatsAfter seen rest else repeatsAfter (n.id :: seen) rest

/-- The first node with each identifier. -/
def distinctNodes (g : Graph) : List Node := firstsAfter [] g.nodes

def ids (g : Graph) : List String := g.distinctNodes.map (·.id)

def triggers (g : Graph) : List Node := g.distinctNodes.filter Node.isTrigger

/-- Whether an identifier is that of a condition. -/
def isCondition (g : Graph) (id : String) : Bool :=
  (g.find? id).any Node.isCondition

def isTrigger (g : Graph) (id : String) : Bool :=
  (g.find? id).any Node.isTrigger

/-- Whether an edge can be followed: it joins nodes, and it is labelled if it leaves a condition. -/
def isUsable (g : Graph) (e : Edge) : Bool :=
  (e.unknownEnds g.ids).isEmpty && (e.branch.isSome || !g.isCondition e.source)

/-- The usable edges that leave a node. -/
def outgoing (g : Graph) (id : String) : List Edge :=
  g.edges.filter fun e => e.source == id && g.isUsable e

/-- The nodes that usable edges lead to. -/
def targets (g : Graph) (id : String) : List String := (g.outgoing id).map (·.target)

def duplicateDefects (g : Graph) : List Defect :=
  (repeatsAfter [] g.nodes).map fun n => .duplicateNodeId n.id

def triggerDefects (g : Graph) : List Defect :=
  match g.triggers with
  | [] => [.missingTrigger]
  | _ :: extra => extra.map fun n => .multipleTriggers n.id

/-- Edges that leave a condition are labelled, and no others. -/
def labelDefects (g : Graph) (e : Edge) : List Defect :=
  match g.isCondition e.source, e.branch with
  | true, none => [.missingBranchLabel e]
  | false, some _ => [.unexpectedBranchLabel e]
  | _, _ => []

def edgeDefects (g : Graph) (e : Edge) : List Defect :=
  match e.unknownEnds g.ids with
  | [] => (if g.isTrigger e.target then [.triggerHasIncoming e] else []) ++ g.labelDefects e
  | unknown => unknown.map (.unknownNode e)

/-- A condition has exactly one edge for each branch. -/
def branchDefects (id : String) (edges : List Edge) (branch : Branch) : List Defect :=
  match edges.countP (·.branch = some branch) with
  | 0 => [.missingBranch id branch]
  | 1 => []
  | count => [.duplicateBranch id branch count]

/-- Nodes other than conditions have at most one edge, and delays have one. -/
def successorDefects (n : Node) (edges : List Edge) : List Defect :=
  if n.isCondition then Branch.all.flatMap (branchDefects n.id edges)
  else
    (if 1 < edges.length then [.tooManySuccessors n.id n.kind edges.length] else []) ++
      (if n.kind = .delay ∧ edges = [] then [.delayWithoutSuccessor n.id] else [])

/-- The parameters of an action are sound, and no delay is negative. -/
def dataDefects (n : Node) : List Defect :=
  match n.body with
  | .action kind params =>
    match ActionParams.ofRecord kind params with
    | .ok _ => []
    | .error e => [.invalidParams n.id kind e]
  | .delay amount _ => if amount < 0 then [.negativeDelay n.id amount] else []
  | _ => []

def nodeDefects (g : Graph) (n : Node) : List Defect :=
  successorDefects n (g.outgoing n.id) ++ dataDefects n

/-- The nodes that can be reached from a node over usable edges. -/
def reachable (g : Graph) (id : String) : List String :=
  Search.finishOrder g.targets (g.ids.erase id) [(id, g.targets id)]

def reachDefects (g : Graph) : List Defect :=
  match g.triggers with
  | [] => []
  | trigger :: _ =>
    let reached := g.reachable trigger.id
    (g.distinctNodes.filter fun n => !n.isTrigger && !reached.contains n.id).map
      fun n => .unreachable n.id

def cycleDefects (g : Graph) : List Defect :=
  (Search.backEdges Edge.target g.outgoing g.ids []).map .cycle

/-- Everything that is wrong with a graph. -/
def defects (g : Graph) : List Defect :=
  g.duplicateDefects ++ g.triggerDefects ++ g.edges.flatMap g.edgeDefects ++
    g.distinctNodes.flatMap g.nodeDefects ++ g.reachDefects ++ g.cycleDefects

end Graph
end WorkflowEngine

import WorkflowEngine.Graph.Authoring
import WorkflowEngine.Registry

/-!
# The store of graphs

Every version of a graph that was ever saved is kept in its canonical form, so that the plans of
running instances can be made again after a restart. One version of each graph is the latest.
-/
namespace WorkflowEngine

structure SavedGraph where
  graphId : String
  version : String
  planVersion : String
  name : String
  description : String
  enabled : Bool
  isLatest : Bool
  /-- The canonical form of the graph. -/
  definition : Value
  deriving DecidableEq, Repr

structure GraphStore where
  /-- The versions in the order in which they were first saved. -/
  rows : List SavedGraph
  deriving DecidableEq, Repr

namespace SavedGraph

/-- The row of a graph and its plan, which is the latest. -/
def ofGraph (g : Graph) (p : Plan) : SavedGraph where
  graphId := g.id
  version := g.version
  planVersion := p.version
  name := g.name
  description := g.description
  enabled := g.enabled
  isLatest := true
  definition := g.toValue

end SavedGraph

namespace GraphStore

def empty : GraphStore := ⟨[]⟩

/-- A row after another version of a graph has become the latest. -/
def demote (graphId planVersion : String) (row : SavedGraph) : SavedGraph :=
  if row.graphId = graphId ∧ row.planVersion ≠ planVersion then { row with isLatest := false }
  else row

/-- A row after its version has become the latest. -/
def promote (planVersion : String) (row : SavedGraph) : SavedGraph :=
  if row.planVersion = planVersion then { row with isLatest := true } else row

/-- Saves a graph with its plan as the latest version; a version that is there already is only made
the latest again. -/
def save (s : GraphStore) (g : Graph) (p : Plan) : SavedGraph × GraphStore :=
  let rows := s.rows.map fun row => promote p.version (demote g.id p.version row)
  match rows.find? (·.planVersion == p.version) with
  | some row => (row, ⟨rows⟩)
  | none => (.ofGraph g p, ⟨rows ++ [.ofGraph g p]⟩)

/-- The latest version of a graph. -/
def latest? (s : GraphStore) (graphId : String) : Outcome (Option Graph) :=
  match s.rows.find? fun row => row.graphId == graphId && row.isLatest with
  | some row => (Graph.ofValue row.definition).map some
  | none => .ok none

/-- The latest version of each graph, by identifier. -/
def listLatest (s : GraphStore) : Outcome (List Graph) :=
  ((s.rows.filter (·.isLatest)).mergeSort fun a b => decide (a.graphId ≤ b.graphId)).mapM
    fun row => Graph.ofValue row.definition

/-- Deletes every version of a graph and counts them. -/
def delete (s : GraphStore) (graphId : String) : Nat × GraphStore :=
  ((s.rows.filter (·.graphId == graphId)).length,
    ⟨s.rows.filter fun row => !(row.graphId == graphId)⟩)

/-- Compiles a version and adds its plan to a registry. -/
def loadRow (r : Registry) (row : SavedGraph) : Outcome Registry := do
  let g ← Graph.ofValue row.definition
  let p ← Plan.ofGraph r.config g
  return r.add p row.isLatest

/-- Adds the plans of all versions to a registry. -/
def loadInto (s : GraphStore) (r : Registry) : Outcome Registry := s.rows.foldlM loadRow r

end GraphStore
end WorkflowEngine

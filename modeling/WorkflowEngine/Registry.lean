import WorkflowEngine.Keyed
import WorkflowEngine.Plan.Compilation

/-!
# The registry of plans

Every plan of a graph stays in the registry, so that instances keep to the plan with which they
were created, and one plan of each graph is the latest, to which new events go. A plan is never
replaced by another of the same version.
-/
namespace WorkflowEngine

structure Registry where
  config : EngineConfig
  /-- The plans in the order in which they came. -/
  plans : List Plan
  /-- The version of the latest plan of each graph. -/
  latest : List (String × String)
  deriving DecidableEq, Repr

namespace Registry

def empty (config : EngineConfig) : Registry := ⟨config, [], []⟩

instance : Inhabited Registry := ⟨empty default⟩

/-- The plan of a graph with a version. -/
def plan? (r : Registry) (graphId version : String) : Option Plan :=
  r.plans.find? fun p => p.graphId == graphId && p.version == version

/-- The plans of a graph. -/
def plansOf (r : Registry) (graphId : String) : List Plan :=
  r.plans.filter (·.graphId == graphId)

/-- The plan that a registry holds in place of a given one: the first with its version. -/
def held (r : Registry) (p : Plan) : Plan := (r.plan? p.graphId p.version).getD p

/-- Adds a plan, and makes it the latest of its graph if so wished. -/
def add (r : Registry) (p : Plan) (isLatest : Bool) : Registry where
  config := r.config
  plans := if (r.plan? p.graphId p.version).isSome then r.plans else r.plans ++ [p]
  latest := if isLatest then Keyed.put p.graphId p.version r.latest else r.latest

/-- Compiles a graph and makes its plan the latest. The plan that is then held comes with it. -/
def register (r : Registry) (g : Graph) : Outcome (Plan × Registry) := do
  let p ← Plan.ofGraph r.config g
  return (r.held p, r.add p true)

/-- The plan of a graph with a version, or its latest one. -/
def plan (r : Registry) (graphId : String) (version : Option String) : Outcome Plan :=
  match r.plansOf graphId, version.or (r.latest.lookup graphId) with
  | _ :: _, some version =>
    match r.plan? graphId version with
    | some p => .ok p
    | none => .error (.planNotFound graphId version)
  | _, _ => .error (.graphNotFound graphId)

/-- The plan of a graph to which new events go. -/
def latestPlan (r : Registry) (graphId : String) : Outcome Plan := r.plan graphId none

/-- The latest plan of each graph. -/
def latestPlans (r : Registry) : List Plan :=
  r.latest.filterMap fun (graphId, version) => r.plan? graphId version

/-- The versions of the plans of a graph. -/
def versions (r : Registry) (graphId : String) : Outcome (List String) :=
  match r.plansOf graphId with
  | [] => .error (.graphNotFound graphId)
  | plans => .ok (plans.map (·.version))

/-- Whether a graph has a latest plan. -/
def has (r : Registry) (graphId : String) : Bool := (r.latest.lookup graphId).isSome

/-- Removes a graph with all of its plans. -/
def unregister (r : Registry) (graphId : String) : Registry where
  config := r.config
  plans := r.plans.filter fun p => !(p.graphId == graphId)
  latest := Keyed.remove graphId r.latest

end Registry
end WorkflowEngine

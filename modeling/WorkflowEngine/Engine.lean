import WorkflowEngine.Call
import WorkflowEngine.Diagram
import WorkflowEngine.GraphStore

/-!
# The engine

The state that calls share: plans, options, the clock, the store of instances, the audit trail, and
the store of graphs if there is one.
-/
namespace WorkflowEngine

structure Engine where
  registry : Registry
  config : EngineConfig
  now : Instant
  store : Store
  trail : List AuditEntry
  savedGraphs : Option GraphStore

namespace Engine

def env (e : Engine) : Env := ⟨e.registry, e.config, e.now⟩

/-- The entries of an instance in the order in which they were appended. -/
def trailOf (e : Engine) (id : InstanceId) : List AuditEntry :=
  e.trail.filter (·.instanceId == id)

/-- Carries out a request to the store. -/
def perform (e : Engine) (r : StoreRequest) : Outcome r.Answer × Engine :=
  let (answer, store) := e.store.perform e.now r
  (answer, { e with store })

def append (e : Engine) (entry : AuditEntry) : Engine := { e with trail := e.trail ++ [entry] }

/-- The chart of an instance: its plan, how far it has come, and where it stands. -/
def chart (e : Engine) (i : Instance) : Outcome (Plan × String) := do
  let p ← e.registry.plan i.graphId (some i.planVersion)
  let visited := Diagram.visited ((e.trailOf i.id).map fun entry => (entry.node, entry.outcome))
  let current := if i.isTerminal then none else some i.cursor
  return (p, Diagram.chartOf p current visited)

end Engine
end WorkflowEngine

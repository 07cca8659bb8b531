import WorkflowEngine.PathPattern
import WorkflowEngine.Value

/-!
# The site of the web service

How the engine is made part of a web application. Its parts can be used once the application has
started.
-/
namespace WorkflowEngine.Api

structure Site where
  /-- The path below which the service lies. -/
  base : String := "/automations"
  /-- Whether the service can be reached at all. -/
  isOpen : Bool := true
  /-- Graphs that are registered at each start. -/
  graphs : List Value := []
  /-- Whether a worker runs in the background. -/
  hasWorker : Bool := false
  deriving DecidableEq, Repr

namespace Site

/-- The pattern of the paths of a site, if the service can be reached at all. -/
def pattern? (s : Site) : Option PathPattern :=
  if s.isOpen then (PathPattern.ofText s.base).toOption else none

/-- Paths of a graph and of an instance below the base. -/
def examplePaths : List String :=
  ["/graphs/\x7bgraph_id:str\x7d", "/instances/\x7binstance_id:uuid\x7d/cancel"]

/-- Refuses a site whose paths are no patterns. -/
def check (s : Site) : Except PatternError Unit :=
  if s.isOpen then
    examplePaths.forM fun path => (PathPattern.ofText (s.base ++ path)).map fun _ => ()
  else .ok ()

end Site

/-- A part of the engine that an application makes use of. -/
inductive Part where
  | registry
  | engine
  | intake
  deriving DecidableEq, Repr

namespace Part

def all : List Part := [registry, engine, intake]

def name : Part → String
  | registry => "registry"
  | engine => "engine"
  | intake => "intake"

/-- Why a part cannot be used before the application has started. -/
def notStarted (p : Part) : String :=
  "AutomationPlugin has not been initialized. Access " ++ p.name ++ " after app startup."

end Part
end WorkflowEngine.Api

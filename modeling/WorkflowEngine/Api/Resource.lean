import WorkflowEngine.Api.Site
import WorkflowEngine.Api.Target

/-!
# Resources

What the paths below the base of a site lead to, and by which methods it is used.
-/
namespace WorkflowEngine.Api

inductive Method where
  | get
  | post
  | delete
  /-- Asks for the methods that a path allows. -/
  | options
  /-- Asks for a response without its body. -/
  | head
  | other
  deriving DecidableEq, Repr

/-- A thing that a path leads to. Instances are named as `ι` says. -/
inductive Resource (ι : Type) where
  | graphs
  | graph (id : String)
  | graphInstances (id : String)
  | graphChart (id : String)
  | graphEvents (id : String)
  | events
  | inst (id : ι)
  | instanceChart (id : ι)
  | cancellation (id : ι)
  deriving DecidableEq, Repr

namespace Resource

/-- The methods by which a resource is used. -/
def methods {ι : Type} : Resource ι → List Method
  | graphs => [.get, .post]
  | graph _ => [.get, .delete]
  | graphInstances _ => [.get]
  | graphChart _ => [.get]
  | graphEvents _ => [.post]
  | events => [.post]
  | inst _ => [.get]
  | instanceChart _ => [.get]
  | cancellation _ => [.post]

/-- The resource with the names of instances read, if they can be. -/
def read? {ι κ : Type} (read : ι → Option κ) : Resource ι → Option (Resource κ)
  | graphs => some .graphs
  | graph id => some (.graph id)
  | graphInstances id => some (.graphInstances id)
  | graphChart id => some (.graphChart id)
  | graphEvents id => some (.graphEvents id)
  | events => some .events
  | inst id => (read id).map .inst
  | instanceChart id => (read id).map .instanceChart
  | cancellation id => (read id).map .cancellation

/-- The resource at a path below the base. -/
def ofPath? : List Segment → Option (Resource Segment)
  | [a] =>
    if a = .ofText "graphs" then some .graphs
    else if a = .ofText "events" then some .events
    else none
  | [a, b] =>
    if a = .ofText "graphs" then some (.graph b.name)
    else if a = .ofText "instances" then some (.inst b)
    else none
  | [a, b, c] =>
    if a = .ofText "graphs" then
      if c = .ofText "instances" then some (.graphInstances b.name)
      else if c = .ofText "graph" then some (.graphChart b.name)
      else if c = .ofText "events" then some (.graphEvents b.name)
      else none
    else if a = .ofText "instances" then
      if c = .ofText "graph" then some (.instanceChart b)
      else if c = .ofText "cancel" then some (.cancellation b)
      else none
    else none
  | _ => none

end Resource

/-- A resource, and what stands in its path for the parts of the base. -/
structure Route where
  base : List (PathPattern.Part × Segment)
  resource : Resource Segment
  deriving DecidableEq, Repr

namespace Segment

/-- Whether a path may have a segment in the place of a part. A placeholder for the rest of the path
leaves nothing that could lead to a resource. -/
def leadsOn (segment : Segment) : PathPattern.Part → Bool
  | .name s => segment = .ofText s
  | .placeholder _ kind => kind ≠ .path

/-- Reads a segment as what a part asks for. -/
def reading (segment : Segment) : PathPattern.Part → Reading
  | .name _ => .done
  | .placeholder _ .identifier => .ofBool segment.id?.isSome
  | .placeholder _ kind => kind.read segment.name

end Segment

namespace Route

/-- The route of a path. -/
def find? (base : PathPattern) (path : List Segment) : Option Route :=
  let pairs := base.zip path
  if pairs.length = base.length && pairs.all fun (part, segment) => segment.leadsOn part then
    (Resource.ofPath? (path.drop base.length)).map fun resource => ⟨pairs, resource⟩
  else none

/-- The first reading of a part of the base that comes to nothing. -/
def flaw? (r : Route) : Option Reading :=
  (r.base.map fun (part, segment) => segment.reading part).find? (· ≠ .done)

/-- What the placeholders of the base stand for, by their names. -/
def params (r : Route) : List (String × String) :=
  r.base.filterMap fun (part, segment) =>
    match part with
    | .placeholder name _ => some (name, segment.name)
    | .name _ => none

/-- The resource of a route, if all that its path names is of the right kind. -/
def resource? (r : Route) : Option (Resource InstanceId) := r.resource.read? Segment.id?

end Route
end WorkflowEngine.Api

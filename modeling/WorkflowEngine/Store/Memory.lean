import WorkflowEngine.Instance
import WorkflowEngine.Span

/-!
# The store in memory

Instances in the order of their creation, and the keys of the events that created them. A write
replaces the whole instance.
-/
namespace WorkflowEngine

structure MemoryStore where
  instances : List Instance
  /-- The instance that each graph made of each key. -/
  keys : List ((String × String) × InstanceId)
  /-- The number of instances ever created. -/
  created : Nat
  deriving DecidableEq, Repr

namespace MemoryStore

def empty : MemoryStore := ⟨[], [], 0⟩

/-- The instance that was made of a draft's event before. -/
def existing? (s : MemoryStore) (draft : Draft) : Option Instance := do
  let key ← draft.dedupeKey
  let id ← s.keys.lookup (draft.graphId, key)
  Instance.find? s.instances id

/-- Creates an instance, unless there is one for the event already. -/
def create (s : MemoryStore) (draft : Draft) : (Instance × Bool) × MemoryStore :=
  match s.existing? draft with
  | some i => ((i, false), s)
  | none =>
    let i : Instance := { draft with id := Instance.idOf (s.created + 1) }
    let keys := match draft.dedupeKey with
      | some key => s.keys ++ [((draft.graphId, key), i.id)]
      | none => s.keys
    ((i, true), ⟨s.instances ++ [i], keys, s.created + 1⟩)

def load (s : MemoryStore) (id : InstanceId) : Outcome Instance :=
  match Instance.find? s.instances id with
  | some i => .ok i
  | none => .error (.instanceNotFound id)

/-- Writes an instance that has not been written since the expected version. -/
def save (s : MemoryStore) (now : Instant) (next : Instance) (expected : Version) :
    Outcome (Instance × MemoryStore) :=
  match Instance.find? s.instances next.id with
  | none => .error (.instanceNotFound next.id)
  | some current =>
    if current.version = expected then
      let stored := { next with version := expected.next, updatedAt := now }
      .ok (stored, { s with instances := Instance.replace stored s.instances })
    else .error (.storeConflict next.id expected current.version)

/-- Gives an instance that nobody holds to a worker, if it still has the given status. -/
def claim (s : MemoryStore) (now : Instant) (id : InstanceId) (source target : Status)
    (owner : Option String) : Option Instance × MemoryStore :=
  match Instance.find? s.instances id with
  | none => (none, s)
  | some current =>
    if current.status = source ∧ current.owner = none then
      let claimed :=
        { current with status := target, owner, version := current.version.next, updatedAt := now }
      (some claimed, { s with instances := Instance.replace claimed s.instances })
    else (none, s)

/-- The time since which an instance is due. One without a time has been due since the first moment
that a clock in UTC shows. -/
def dueSince (i : Instance) : Instant := i.resumeAt.getD ⟨Instant.first, some 0⟩

/-- Instances by the time since which they are due, then by age. -/
def sortDue (instances : List Instance) : List Instance :=
  instances.mergeSort fun i j =>
    dueSince i < dueSince j || (dueSince i ≤ dueSince j && i.createdAt ≤ j.createdAt)

def listDue (s : MemoryStore) (now : Instant) (limit : Int) : Outcome (List Instance) :=
  let due := s.instances.filter (Instance.isDue now)
  if Instance.areComparable due then .ok (Span.upTo limit (sortDue due))
  else .error .clockMismatch

def listStale (s : MemoryStore) (before : Instant) (limit : Int) : List Instance :=
  Span.upTo limit (Instance.sortStale (s.instances.filter (Instance.isStale before)))

/-- A page of the instances of a graph, and the number of all of them. -/
def listForGraph (s : MemoryStore) (graphId : String) (status : Option Status)
    (limit offset : Int) : List Instance × Nat :=
  let found := s.instances.filter (Instance.isListed graphId status)
  (Span.between offset (offset + limit) (Instance.sortNewest found), found.length)

end MemoryStore
end WorkflowEngine

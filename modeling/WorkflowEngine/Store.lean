import WorkflowEngine.Store.Memory
import WorkflowEngine.Store.Table

/-!
# Stores of instances

A store is kept in memory or in a table. The requests that can be made of it are the steps in which
calls of the engine take turns: each is carried out at once.
-/
namespace WorkflowEngine

inductive Store where
  | memory (s : MemoryStore)
  | table (s : TableStore)
  deriving DecidableEq, Repr

/-- Something that a store is asked for. -/
inductive StoreRequest where
  | create (draft : Draft)
  | load (id : InstanceId)
  /-- Writes an instance that has not been written since the expected version. -/
  | save (next : Instance) (expected : Version)
  | claim (id : InstanceId) (source target : Status) (owner : Option String)
  | listDue (now : Instant) (limit : Int)
  | listStale (before : Instant) (limit : Int)
  | listForGraph (graphId : String) (status : Option Status) (limit offset : Int)
  deriving DecidableEq, Repr

/-- The requests by name. -/
inductive StoreMethod where
  | create
  | load
  | save
  | claim
  | listDue
  | listStale
  | listForGraph
  deriving DecidableEq, Repr

namespace StoreRequest

/-- What comes back if all goes well. -/
@[reducible] def Answer : StoreRequest → Type
  | create _ => Instance × Bool
  | load _ => Instance
  | save _ _ => Instance
  | claim _ _ _ _ => Option Instance
  | listDue _ _ => List Instance
  | listStale _ _ => List Instance
  | listForGraph _ _ _ _ => List Instance × Nat

def method : StoreRequest → StoreMethod
  | create _ => .create
  | load _ => .load
  | save _ _ => .save
  | claim _ _ _ _ => .claim
  | listDue _ _ => .listDue
  | listStale _ _ => .listStale
  | listForGraph _ _ _ _ => .listForGraph

end StoreRequest

namespace Store

def create (s : Store) (draft : Draft) : Outcome ((Instance × Bool) × Store) :=
  match s with
  | memory s => .ok ((s.create draft).map id memory)
  | table s => (s.create draft).map (·.map id table)

def load (s : Store) (id : InstanceId) : Outcome Instance :=
  match s with
  | memory s => s.load id
  | table s => s.load id

def save (s : Store) (now : Instant) (next : Instance) (expected : Version) :
    Outcome (Instance × Store) :=
  match s with
  | memory s => (s.save now next expected).map (·.map id memory)
  | table s => (s.save now next expected).map (·.map id table)

def claim (s : Store) (now : Instant) (instanceId : InstanceId) (source target : Status)
    (owner : Option String) : Option Instance × Store :=
  match s with
  | memory s => (s.claim now instanceId source target owner).map id memory
  | table s => (s.claim now instanceId source target owner).map id table

def listDue (s : Store) (now : Instant) (limit : Int) : Outcome (List Instance) :=
  match s with
  | memory s => s.listDue now limit
  | table s => s.listDue now limit

def listStale (s : Store) (before : Instant) (limit : Int) : Outcome (List Instance) :=
  match s with
  | memory s => .ok (s.listStale before limit)
  | table s => s.listStale before limit

def listForGraph (s : Store) (graphId : String) (status : Option Status) (limit offset : Int) :
    Outcome (List Instance × Nat) :=
  match s with
  | memory s => .ok (s.listForGraph graphId status limit offset)
  | table s => s.listForGraph graphId status limit offset

/-- All instances in the order of their creation. -/
def instances : Store → List Instance
  | memory s => s.instances
  | table s => s.rows

/-- Carries out a request. -/
def perform (s : Store) (now : Instant) : (r : StoreRequest) → Outcome r.Answer × Store
  | .create draft =>
    match s.create draft with
    | .ok (answer, s) => (.ok answer, s)
    | .error e => (.error e, s)
  | .load id => (s.load id, s)
  | .save next expected =>
    match s.save now next expected with
    | .ok (stored, s) => (.ok stored, s)
    | .error e => (.error e, s)
  | .claim id source target owner =>
    let (answer, s) := s.claim now id source target owner
    (.ok answer, s)
  | .listDue now limit => (s.listDue now limit, s)
  | .listStale before limit => (s.listStale before limit, s)
  | .listForGraph graphId status limit offset =>
    (s.listForGraph graphId status limit offset, s)

end Store
end WorkflowEngine

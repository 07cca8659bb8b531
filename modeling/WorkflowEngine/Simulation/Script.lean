import WorkflowEngine.Api
import WorkflowEngine.Invoker

/-!
# Scripts

A script drives the engine by hand: it takes in events, lets workers poll and run, moves the clock,
and reads and writes instances. It can have other instructions carried out in the middle of a call,
after a request to the store or while an action is in flight, and it can make the store and the
audit trail fail.
-/
namespace WorkflowEngine.Simulation

/-- A change of one field of an instance. Times are microseconds from now. -/
inductive Change where
  | graphId (s : String)
  | planVersion (s : String)
  | cursor (s : String)
  | context (r : Record)
  | status (v : Value)
  | resumeAt (offset : Option Int)
  | attempts (counts : List (String × Int))
  | dispatching (node : Option String)
  | owner (worker : Option String)
  | version (v : Version)
  | dedupeKey (key : Option String)
  | error (message : Option String)
  | createdAt (offset : Int)
  | updatedAt (offset : Int)
  | completedAt (offset : Option Int)
  deriving DecidableEq, Repr

/-- The instant so many microseconds from another. -/
def moment (now : Instant) (offset : Int) : Outcome Instant :=
  match now.shift? offset with
  | some t => .ok t
  | none => .error .outOfRange

/-- The instant so many microseconds from another, if a number is given. -/
def moment? (now : Instant) : Option Int → Outcome (Option Instant)
  | none => .ok none
  | some offset => (moment now offset).map some

namespace Change

def apply (now : Instant) (d : Draft) : Change → Outcome Draft
  | graphId s => .ok { d with graphId := s }
  | planVersion s => .ok { d with planVersion := s }
  | cursor s => .ok { d with cursor := s }
  | context r => .ok { d with context := r }
  | status v => do return { d with status := ← (Choice.ofValue Status v).toOutcome }
  | resumeAt offset => do return { d with resumeAt := ← moment? now offset }
  | attempts counts => .ok { d with attempts := counts }
  | dispatching node => .ok { d with dispatching := node }
  | owner worker => .ok { d with owner := worker }
  | version v => .ok { d with version := v }
  | dedupeKey key => .ok { d with dedupeKey := key }
  | error message => .ok { d with error := message }
  | createdAt offset => do return { d with createdAt := ← moment now offset }
  | updatedAt offset => do return { d with updatedAt := ← moment now offset }
  | completedAt offset => do return { d with completedAt := ← moment? now offset }

/-- Makes changes one after another. -/
def applyAll (now : Instant) (d : Draft) (changes : List Change) : Outcome Draft :=
  changes.foldlM (apply now) d

end Change

/-- A draft of which nothing is given. -/
def blankDraft (now : Instant) : Draft where
  graphId := ""
  planVersion := ""
  cursor := ""
  context := []
  status := .running
  resumeAt := none
  attempts := []
  dispatching := none
  owner := none
  version := .count 0
  dedupeKey := none
  error := none
  createdAt := now
  updatedAt := now
  completedAt := none

/-- One line of a script. Times are microseconds from now. -/
inductive Instruction where
  | register (graph : Value)
  | addPlan (graph : Value) (isLatest : Bool)
  | unregister (graphId : String)
  | getPlan (graphId : String) (version : Option String)
  | inspect (graphIds : List String)
  | emit (kind : Value) (graphId : String) (context : Record) (key : Option String)
  | dispatch (kind : Value) (context : Record) (key : Option String)
  | create (fields : List Change)
  | advance (micros : Int)
  | plan (kind : String) (planned : List (List Instruction × Ending))
  | handle (kind : Value) (lets : Bool)
  | hasHandler (kind : Value)
  /-- Invokes the handler of a kind. -/
  | invoke (kind : Value) (params : Value) (context : Record)
  | breakTrail (isBroken : Bool)
  | breakStore (method : StoreMethod) (isBroken : Bool)
  /-- After a request of a kind, leaving out the first few, other instructions come in between. -/
  | interrupt (method : StoreMethod) (leftOut : Nat) (script : List Instruction)
  | poll (worker : String) (time : Option Int) (limit : Option Int)
  | run (id : InstanceId) (worker : String)
  | pass (worker : String) (time : Option Int)
  /-- Passes until one claims nothing. -/
  | drain (worker : String)
  /-- What a worker does in the background until it finds nothing to do. -/
  | background (worker : String) (sweeps : Bool)
  | sweep (time : Option Int) (grace : Option Int)
  | step (id : InstanceId) (time : Option Int) (isSaved : Bool)
  | recover (id : InstanceId) (time : Option Int)
  | save (id : InstanceId) (changes : List Change) (expected : Option Version)
  | saveUnknown (id : InstanceId)
  | claim (id : InstanceId) (source target : Value) (owner : Option String)
  | sleep (id : InstanceId) (time : Int)
  | wake (id : InstanceId)
  | cancel (id : InstanceId) (reason : Option String)
  | load (id : InstanceId)
  | listDue (time : Int) (limit : Int)
  | listStale (time : Int) (limit : Int)
  | listForGraph (graphId : String) (status : Value) (limit offset : Int)
  | trail (id : InstanceId)
  | chart (id : InstanceId)
  | saveGraph (graph : Value)
  | latestGraph (graphId : String)
  | savedGraphs
  | deleteGraph (graphId : String)
  | loadGraphs (anew : Bool)
  /-- Loads the saved graphs into a registry of its own. -/
  | loadGraphsWith (options : Record)
  | serve (r : Api.HttpRequest)
  | restart

end WorkflowEngine.Simulation

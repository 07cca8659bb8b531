import WorkflowEngine.Defect
import WorkflowEngine.EngineConfig
import WorkflowEngine.PathPattern
import WorkflowEngine.Version

/-!
# Errors

Why an operation of the engine is refused, and the sentence that says so.
-/
namespace WorkflowEngine

/-- The name of an instance, given when it is created. -/
abbrev InstanceId := String

inductive Error where
  /-- A graph is no plan; every issue is listed. -/
  | compile (graphId : String) (issues : List Issue)
  | graphNotFound (graphId : String)
  | planNotFound (graphId version : String)
  | instanceNotFound (id : InstanceId)
  /-- The instance has reached a status that nothing changes. -/
  | instanceTerminal (id : InstanceId) (status : String)
  /-- The instance was written since it was read. -/
  | storeConflict (id : InstanceId) (expected found : Version)
  /-- An instance refers to a node that its plan does not have. -/
  | planContract (version node : String)
  | configuration (e : ConfigError)
  | shape (e : ShapeError)
  /-- A path of the web service is no pattern. -/
  | pattern (e : PatternError)
  /-- Times on clocks with and without an offset cannot be put in order. -/
  | clockMismatch
  /-- A date or a duration beyond the calendar, or a number beyond the columns of a table. -/
  | outOfRange
  /-- A collaborator of the engine cannot be reached. -/
  | unavailable (message : String)
  deriving DecidableEq, Repr

namespace Error

def compileSentence (graphId : String) (issues : List Issue) : String :=
  "Graph '" ++ graphId ++ "' failed to compile: " ++ "; ".intercalate (issues.map Issue.message)

def graphSentence (graphId : String) : String := "Automation graph '" ++ graphId ++ "' not found"

def planSentence (graphId version : String) : String :=
  "Plan '" ++ version ++ "' not found for graph '" ++ graphId ++ "'"

def instanceSentence (id : String) : String := "Workflow instance '" ++ id ++ "' not found"

def terminalSentence (id status : String) : String :=
  "Workflow instance '" ++ id ++ "' is already " ++ status

/-- A version that is not known is not mentioned. -/
def conflictSentence (id expected : String) (found : Option String) : String :=
  "Conflicting write on instance '" ++ id ++ "': expected version " ++ expected ++
    (match found with
      | some found => ", found " ++ found
      | none => "")

def contractSentence (version node : String) : String :=
  "Node '" ++ node ++ "' is not part of plan '" ++ version ++ "'"

def message : Error → String
  | compile graphId issues => compileSentence graphId issues
  | graphNotFound graphId => graphSentence graphId
  | planNotFound graphId version => planSentence graphId version
  | instanceNotFound id => instanceSentence id
  | instanceTerminal id status => terminalSentence id status
  | storeConflict id expected found =>
    conflictSentence id expected.text (some found.text)
  | planContract version node => contractSentence version node
  | configuration e => e.message
  | shape e => e.message
  | pattern e => e.message
  | clockMismatch => "can't compare offset-naive and offset-aware datetimes"
  | outOfRange => ""
  | unavailable message => message

end Error

/-- A result, or why there is none. -/
abbrev Outcome := Except Error

/-- A failure of a reading as a failure of the operation that needs it. -/
def Shaped.toOutcome {α : Type} : Shaped α → Outcome α
  | .ok a => .ok a
  | .error e => .error (.shape e)

end WorkflowEngine

import WorkflowEngine.Error

/-!
# Kinds of errors

Every error of the library is of a kind. Kinds are named, some kinds are cases of others, and most
ask for certain values. Whoever extends the engine can raise an error of a kind with values of any
type.
-/
namespace WorkflowEngine

inductive ErrorKind where
  /-- The kind that all others are cases of. -/
  | automations
  /-- An action has failed. -/
  | action
  /-- An action has failed, and a retry is of no use. -/
  | permanentAction
  | configuration
  | compile
  | graphNotFound
  | planNotFound
  | instanceNotFound
  | instanceTerminal
  | storeConflict
  | planContract
  deriving DecidableEq, Repr

namespace ErrorKind

def all : List ErrorKind := [automations, action, permanentAction, configuration, compile,
  graphNotFound, planNotFound, instanceNotFound, instanceTerminal, storeConflict, planContract]

def name : ErrorKind → String
  | automations => "AutomationsError"
  | action => "ActionError"
  | permanentAction => "PermanentActionError"
  | configuration => "ConfigurationError"
  | compile => "CompileError"
  | graphNotFound => "GraphNotFoundError"
  | planNotFound => "PlanNotFoundError"
  | instanceNotFound => "InstanceNotFoundError"
  | instanceTerminal => "InstanceTerminalError"
  | storeConflict => "StoreConflictError"
  | planContract => "PlanContractError"

/-- The kind with a name. -/
def ofName? (name : String) : Option ErrorKind := all.find? (·.name = name)

/-- The kinds that a kind is a case of, itself first. -/
def ancestry : ErrorKind → List ErrorKind
  | automations => [automations]
  | permanentAction => [permanentAction, action, automations]
  | kind => [kind, automations]

/-- The values that a kind asks for, and how many more it takes; none if it takes any values. -/
def parameters? : ErrorKind → Option (List String × Nat)
  | automations | action | permanentAction | configuration => none
  | compile => some (["graph_id", "issues"], 0)
  | graphNotFound => some (["graph_id"], 0)
  | planNotFound => some (["graph_id", "plan_version"], 0)
  | instanceNotFound => some (["instance_id"], 0)
  | instanceTerminal => some (["instance_id", "status"], 0)
  | storeConflict => some (["instance_id", "expected_version"], 1)
  | planContract => some (["plan_version", "node_id"], 0)

end ErrorKind

/-- The kind of an error, if it is one of the library's own. -/
def Error.kind? : Error → Option ErrorKind
  | compile _ _ => some .compile
  | graphNotFound _ => some .graphNotFound
  | planNotFound _ _ => some .planNotFound
  | instanceNotFound _ => some .instanceNotFound
  | instanceTerminal _ _ => some .instanceTerminal
  | storeConflict _ _ _ => some .storeConflict
  | planContract _ _ => some .planContract
  | configuration _ => some .configuration
  | shape _ | pattern _ | clockMismatch | outOfRange | unavailable _ => none

/-- An error as it is raised with values of any type. The issues are those of a graph. -/
structure RaisedError where
  kind : ErrorKind
  values : List Value
  issues : List Issue
  deriving DecidableEq, Repr

namespace RaisedError

/-- A value that an error is raised with; null if it is left out. -/
def value (r : RaisedError) (position : Nat) : Value := r.values.getD position .null

/-- What any values say by themselves: nothing, one text, or a list between parentheses. -/
def plainText : List Value → String
  | [] => ""
  | [v] => v.display
  | vs => "(" ++ ", ".intercalate (vs.map Value.quoted) ++ ")"

def message (r : RaisedError) : String :=
  let text (position : Nat) := (r.value position).display
  match r.kind with
  | .automations | .action | .permanentAction | .configuration => plainText r.values
  | .compile => Error.compileSentence (text 0) r.issues
  | .graphNotFound => Error.graphSentence (text 0)
  | .planNotFound => Error.planSentence (text 0) (text 1)
  | .instanceNotFound => Error.instanceSentence (text 0)
  | .instanceTerminal => Error.terminalSentence (text 0) (text 1)
  | .storeConflict =>
    Error.conflictSentence (text 0) (text 1) (if r.value 2 = .null then none else some (text 2))
  | .planContract => Error.contractSentence (text 0) (text 1)

/-- Names in a row, the last one after the word "and". -/
def enumerated : List String → String
  | [a, b] => a ++ " and " ++ b
  | names => ", ".intercalate names

/-- Why an error cannot be raised with its values: there are too few or too many. The error itself
is counted as one of those that are given. -/
def refusal? (r : RaisedError) : Option String :=
  match r.kind.parameters? with
  | none => none
  | some (names, more) =>
    let given := r.values.length
    let opening := r.kind.name ++ ".__init__() "
    let most := names.length + more
    match names.drop given with
    | [] =>
      if given ≤ most then none
      else some (opening ++ "takes " ++
        (if more = 0 then "" else "from " ++ toString (names.length + 1) ++ " to ") ++
        toString (most + 1) ++ " positional arguments but " ++ toString (given + 1) ++
        " were given")
    | missing =>
      some (opening ++ "missing " ++ toString missing.length ++ " required positional argument" ++
        (if missing.length = 1 then ": " else "s: ") ++
        enumerated (missing.map fun name => "'" ++ name ++ "'"))

end RaisedError
end WorkflowEngine

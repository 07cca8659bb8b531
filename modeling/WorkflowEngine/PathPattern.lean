import WorkflowEngine.Number.Binary64
import WorkflowEngine.Text.Numeral
import WorkflowEngine.Time.IsoDuration
import WorkflowEngine.Time.Timestamp

/-!
# Patterns of paths

A pattern is made of names and placeholders. A placeholder stands between braces, with its kind
after a colon.
-/
namespace WorkflowEngine

/-- What a placeholder stands for. -/
inductive PlaceholderKind where
  | text
  | integer
  | float
  | identifier
  | decimal
  | date
  | dateTime
  | time
  | duration
  /-- The rest of the path. -/
  | path
  deriving DecidableEq, Repr

/-- What comes of reading a text as a value. -/
inductive Reading where
  | done
  | refused
  /-- The reading breaks off without a verdict. -/
  | failed
  deriving DecidableEq, Repr

namespace Reading

def ofBool (isDone : Bool) : Reading := if isDone then done else refused

end Reading

namespace PlaceholderKind

def all : List PlaceholderKind :=
  [text, integer, float, identifier, decimal, date, dateTime, time, duration, path]

/-- The name of a kind in a pattern. -/
def name : PlaceholderKind → String
  | text => "str"
  | integer => "int"
  | float => "float"
  | identifier => "uuid"
  | decimal => "decimal"
  | date => "date"
  | dateTime => "datetime"
  | time => "time"
  | duration => "timedelta"
  | path => "path"

def ofName? (s : String) : Option PlaceholderKind := all.find? (·.name == s)

/-- Reads a duration: amounts of units, or a number of seconds. Numbers that are no duration are too
large to be refused. -/
def readDuration (s : String) : Reading :=
  if Duration.isIso s then .done
  else
    match Text.Numeral.read? s with
    | some (.number negative digits exponent) =>
      match Number.Binary64.ofScientific? negative (Text.Integer.ofDigits digits) exponent with
      | some x => if Duration.isRepresentable x.truncate then .done else .failed
      | none => .failed
    | some .infinity => .failed
    | some .noNumber | none => .refused

/-- Reads a text as a value of a kind. Identifiers are read elsewhere. -/
def read : PlaceholderKind → String → Reading
  | text, _ | identifier, _ | path, _ => .done
  | integer, s => .ofBool (Text.Integer.read s).toOption.isSome
  | float, s => .ofBool (Text.Numeral.read? s).isSome
  | decimal, s => if (Text.Numeral.readLoosely? s).isSome then .done else .failed
  | date, s => .ofBool (Timestamp.isDate s)
  | dateTime, s => .ofBool (Timestamp.isDateTime s)
  | time, s => .ofBool (Timestamp.isTime s)
  | duration, s => readDuration s

end PlaceholderKind

/-- Why a path is no pattern. -/
inductive PatternError where
  /-- A placeholder has no kind, or more than one. -/
  | untyped (path : String)
  | nameless
  | unknownKind (path : String)
  /-- Two placeholders have the same name. -/
  | duplicate (name path : String)
  deriving DecidableEq, Repr

namespace PatternError

def sentence : PatternError → String
  | untyped path =>
    "Path parameters should be declared with a type using the following pattern: " ++
      "'\x7bparameter_name:type\x7d', e.g. '/my-path/\x7bmy_param:int\x7d' in path: '" ++
      path ++ "'"
  | nameless => "Path parameter names should be of length greater than zero"
  | unknownKind path =>
    "Path parameters should be declared with an allowed type, i.e. one of " ++
      ", ".intercalate (PlaceholderKind.all.map (·.name)) ++ " in path: '" ++ path ++ "'"
  | duplicate name path => "Duplicate parameter '" ++ name ++ "' detected for '" ++ path ++ "'."

def message (e : PatternError) : String := "500: " ++ e.sentence

end PatternError

/-- A part of a pattern. -/
inductive PathPattern.Part where
  | name (s : String)
  | placeholder (name : String) (kind : PlaceholderKind)
  deriving DecidableEq, Repr

abbrev PathPattern := List PathPattern.Part

namespace PathPattern

/-- A part of the path as it is written. -/
def readPart (path : String) (part : List Char) : Except PatternError Part :=
  match part, part.getLast? with
  | '\x7b' :: rest, some '\x7d' =>
    match rest.dropLast.splitOn ':' with
    | [name, kind] =>
      let name := Text.strip (String.ofList name)
      if name = "" then .error .nameless
      else
        match PlaceholderKind.ofName? (Text.strip (String.ofList kind)) with
        | some kind => .ok (.placeholder name kind)
        | none => .error (.unknownKind path)
    | _ => .error (.untyped path)
  | _, _ => .ok (.name (String.ofList part))

/-- The names of the placeholders. -/
def placeholders (p : PathPattern) : List String :=
  p.filterMap fun part =>
    match part with
    | .placeholder name _ => some name
    | .name _ => none

/-- The first name that has stood before. -/
def repeated? (names : List String) : Option String :=
  (names.zipIdx.find? fun (name, position) => (names.take position).contains name).map (·.1)

/-- Reads a path as a pattern. Slashes that follow one another count as one. -/
def ofText (path : String) : Except PatternError PathPattern := do
  let parts := (path.toList.splitOn '/').filter (· ≠ [])
  let path := "/" ++ "/".intercalate (parts.map String.ofList)
  let pattern ← parts.mapM (readPart path)
  match repeated? (placeholders pattern) with
  | some name => throw (.duplicate name path)
  | none => return pattern

end PathPattern
end WorkflowEngine

import WorkflowEngine.Value.Text
import WorkflowEngine.Text.Search

/-!
# Data of the wrong shape

Authored data is read leniently, and each way in which it can still not be read has one cause here
and one message.
-/
namespace WorkflowEngine

/-- Why a piece of data cannot be read. Kinds are named as `Value.kindName` names them. -/
inductive ShapeError where
  /-- A value outside a closed set of names. -/
  | notOneOf (value : Value) (choice : String)
  | notAnInteger (text : String)
  | tooLongInteger (digits : Nat)
  /-- An integer with too many digits to be written. -/
  | unwritableInteger
  /-- A value of a kind that has no integer part. -/
  | notANumber (kind : String)
  /-- An operation of objects on a value of another kind. -/
  | lacks (kind operation : String)
  /-- A sequence is expected. -/
  | notIterable (kind : String)
  /-- Something that can hold members is expected. -/
  | noMembers (kind : String)
  /-- Lists and objects are no keys. -/
  | unhashable (kind : String)
  /-- A list has no named items. -/
  | listIndex
  /-- A text has no named items. -/
  | textIndex
  | missingKey (key : String)
  deriving DecidableEq, Repr

namespace ShapeError

/-- As much of a quoted text as a message shows. -/
def excerpt (s : String) : String := String.ofList ((Text.Quoted.encode s).toList.take 200)

def message : ShapeError → String
  | notOneOf value choice => value.quoted ++ " is not a valid " ++ choice
  | notAnInteger text => "invalid literal for int() with base 10: " ++ excerpt text
  | tooLongInteger digits =>
    "Exceeds the limit (4300 digits) for integer string conversion: value has " ++
      toString digits ++ " digits; use sys.set_int_max_str_digits() to increase the limit"
  | unwritableInteger =>
    "Exceeds the limit (4300 digits) for integer string conversion; " ++
      "use sys.set_int_max_str_digits() to increase the limit"
  | notANumber kind =>
    "int() argument must be a string, a bytes-like object or a real number, not '" ++ kind ++ "'"
  | lacks kind operation => "'" ++ kind ++ "' object has no attribute '" ++ operation ++ "'"
  | notIterable kind => "'" ++ kind ++ "' object is not iterable"
  | noMembers kind => "argument of type '" ++ kind ++ "' is not iterable"
  | unhashable kind => "unhashable type: '" ++ kind ++ "'"
  | listIndex => "list indices must be integers or slices, not str"
  | textIndex => "string indices must be integers, not 'str'"
  | missingKey key => Text.Quoted.encode key

/-- Whether a graph's node with this fault is reported beside its other defects. An operation that
the data lacks altogether ends the reading of the graph instead. -/
def isReportable : ShapeError → Bool
  | lacks _ _ => false
  | _ => true

end ShapeError

/-- A reading of data, or why it has the wrong shape. -/
abbrev Shaped := Except ShapeError

namespace Value

/-- The field of an object, null if it is absent. -/
def field (v : Value) (name : String) : Shaped Value :=
  match v with
  | .object fields => .ok ((fields.lookup name).getD .null)
  | v => .error (.lacks v.kindName "get")

/-- The first given one of several fields; the last one if none is given. -/
def firstField (v : Value) : List String → Shaped Value
  | [] => .ok .null
  | [name] => v.field name
  | name :: rest => do
      let value ← v.field name
      if value.isGiven then return value else v.firstField rest

/-- The field of an object that must have it. -/
def required (v : Value) (name : String) : Shaped Value :=
  match v with
  | .object fields =>
    match fields.lookup name with
    | some value => .ok value
    | none => .error (.missingKey name)
  | v => .error (.lacks v.kindName "get")

/-- Refuses a value that can hold no members: only lists, objects and texts can. -/
def checkHolds (v : Value) : Shaped Unit :=
  match v with
  | .list _ | .object _ | .text _ => .ok ()
  | v => .error (.noMembers v.kindName)

/-- The named member of an object. A list or a text that has the name for a member is refused, since
its members are found by position. -/
def member? (v : Value) (name : String) : Shaped (Option Value) :=
  match v with
  | .object fields => .ok (fields.lookup name)
  | .list items => if items.contains (.text name) then .error .listIndex else .ok none
  | .text s => if Text.occurs name s then .error .textIndex else .ok none
  | v => .error (.noMembers v.kindName)

/-- The value as a key: lists and objects are none. -/
def key (v : Value) : Shaped Value :=
  match v with
  | .list _ | .object _ => .error (.unhashable v.kindName)
  | v => .ok v

/-- The items that a value goes through: those of a list, the keys of an object, the characters of
a text. -/
def items (v : Value) : Shaped (List Value) :=
  match v with
  | .list items => .ok items
  | .object fields => .ok (fields.map fun field => .text field.1)
  | .text s => .ok (s.toList.map fun c => .text (String.singleton c))
  | v => .error (.notIterable v.kindName)

/-- The fields of an object. -/
def fields (v : Value) (operation : String) : Shaped Record :=
  match v with
  | .object fields => .ok fields
  | v => .error (.lacks v.kindName operation)

theorem field_object (fs : Record) (name : String) :
    field (.object fs) name = .ok ((fs.lookup name).getD .null) := rfl

end Value
end WorkflowEngine

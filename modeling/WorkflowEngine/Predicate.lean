import WorkflowEngine.Kinds
import WorkflowEngine.Path
import WorkflowEngine.Text.LowerCase
import WorkflowEngine.Value.Equality

/-!
# Predicates

A condition asks one of three things of the event data: how a field compares, whether a tag is
present, or nothing at all. A predicate that the data cannot answer does not match, and says why.
-/
namespace WorkflowEngine

open Text

inductive Predicate where
  | field (path : String) (operator : Operator) (operand : Value)
  | tag (wanted : String)
  | always (outcome : Bool)
  deriving DecidableEq, Repr

/-- What a predicate found: whether it matched, whether the data could answer it, and details for
the audit trail. -/
structure Finding where
  matched : Bool
  resolved : Bool
  detail : Record
  deriving DecidableEq, Repr

namespace Finding

def answered (matched : Bool) (detail : Record) : Finding := ⟨matched, true, detail⟩

def unresolved (cause : String) (detail : Record) : Finding :=
  ⟨false, false, [("reason", .text "PredicateUnresolved"), ("cause", .text cause)] ++ detail⟩

end Finding

namespace Predicate

/-- Nothing, null, and empty texts, lists and objects. -/
def isEmpty : Option Value → Bool
  | none | some .null => true
  | some (.text s) => s == ""
  | some (.list items) => items.isEmpty
  | some (.object fields) => fields.isEmpty
  | _ => false

/-- Whether a text is how an author writes a value: truth values in any case, numbers exactly. -/
def isWrittenAs (s : String) : Value → Bool
  | .bool b => lower (Value.bool b).display == lower s
  | .int n => (Value.int n).display == s
  | .float x => (Value.float x).display == s
  | _ => false

/-- Equality with an authored operand, which may be a number written as text. -/
def equals (actual operand : Value) : Bool :=
  actual.alike operand ||
    match operand with
    | .text s => isWrittenAs s actual
    | _ => false

/-- Whether a container has the operand: a text as a part, without regard to case; a list as an
item; an object as a key. -/
def contains (actual operand : Value) (detail : Record) : Shaped Finding :=
  match actual with
  | .text s => .ok (.answered (occurs (lower operand.display) (lower s)) detail)
  | .list items => .ok (.answered (items.any (equals · operand)) detail)
  | .object fields => do
    match ← operand.key with
    | .text name => return .answered (fields.lookup name).isSome detail
    | _ => return .answered false detail
  | _ => .ok (.unresolved "not_a_container" detail)

def evaluateField (path : String) (operator : Operator) (operand context : Value) :
    Shaped Finding :=
  let actual := Path.resolve? context path
  let detail : Record := [("field", .text path), ("operator", .text operator.name)]
  match operator, actual with
  | .isEmpty, _ => .ok (.answered (isEmpty actual) detail)
  | .isNotEmpty, _ => .ok (.answered (!isEmpty actual) detail)
  | _, none => .ok (.unresolved "missing_field" detail)
  | .equals, some actual => .ok (.answered (equals actual operand) detail)
  | .notEquals, some actual => .ok (.answered (!equals actual operand) detail)
  | .contains, some actual => contains actual operand detail

/-- A tag is the text itself or an object with it for identifier or name. -/
def isTagged (wanted : String) : Value → Bool
  | .object fields =>
    (fields.lookup "id").any (·.isText wanted) || (fields.lookup "name").any (·.isText wanted)
  | item => item.isText wanted

def evaluateTag (wanted : String) (context : Value) : Finding :=
  let unresolved (cause : String) : Finding :=
    .unresolved cause [("field", .text "tags"), ("tag", .text wanted)]
  match Path.resolve? context "tags" with
  | none | some .null => unresolved "missing_field"
  | some (.list items) => .answered (items.any (isTagged wanted)) [("tag", .text wanted)]
  | some _ => unresolved "not_a_container"

/-- Asks the predicate of event data. It is refused only where an object is asked for a list or an
object as a key. -/
def evaluate (p : Predicate) (context : Value) : Shaped Finding :=
  match p with
  | .field path operator operand => evaluateField path operator operand context
  | .tag wanted => .ok (evaluateTag wanted context)
  | .always outcome => .ok (.answered outcome [])

def describe : Predicate → String
  | .field path .isEmpty _ => path ++ " " ++ Operator.name .isEmpty
  | .field path .isNotEmpty _ => path ++ " " ++ Operator.name .isNotEmpty
  | .field path operator operand => path ++ " " ++ operator.name ++ " " ++ operand.display
  | .tag wanted => "tag == " ++ wanted
  | .always true => "always true"
  | .always false => "always false"

def toValue : Predicate → Value
  | .field path operator operand => .object
      [("type", .text "field"), ("field", .text path), ("operator", .text operator.name),
        ("value", operand)]
  | .tag wanted => .object [("type", .text "has_tag"), ("tag", .text wanted)]
  | .always true => .object [("type", .text "always_true")]
  | .always false => .object [("type", .text "always_false")]

end Predicate
end WorkflowEngine

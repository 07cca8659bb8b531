import WorkflowEngine.Predicate

/-!
# Authored conditions

Conditions are written in an explicit form with a type, in the form of the graph editor with a
condition field, or as a shorthand for a tag, for the presence of a lead or a conversation, or for
a constant.
-/
namespace WorkflowEngine

/-- Why authored condition data is no predicate. -/
inductive ConditionError where
  | tagMissing
  | unsupportedType (type : Value)
  | pathMissing
  | unsupportedOperator (operator : Value)
  | shape (e : ShapeError)
  deriving DecidableEq, Repr

namespace ConditionError

def message : ConditionError → String
  | tagMissing => "has_tag condition requires a tag value"
  | unsupportedType type => "Unsupported condition type: " ++ type.quoted
  | pathMissing => "Field condition requires a field path"
  | unsupportedOperator operator => "Unsupported condition operator: " ++ operator.quoted
  | shape e => e.message

end ConditionError

/-- A condition whose data has the wrong shape. -/
def Shaped.forCondition {α : Type} : Shaped α → Except ConditionError α
  | .ok a => .ok a
  | .error e => .error (.shape e)

namespace Predicate

/-- A comparison of a field with a path. -/
def ofField (path operator operand : Value) : Except ConditionError Predicate :=
  match path with
  | .text path =>
    if path = "" then .error .pathMissing
    else
      match Choice.ofValue Operator operator with
      | .ok op => .ok (.field path op operand)
      | .error _ => .error (.unsupportedOperator operator)
  | _ => .error .pathMissing

/-- A condition on a tag; any given value is taken as text. -/
def ofTag (tag : Value) : Except ConditionError Predicate :=
  if tag.isGiven then .ok (.tag tag.display) else .error .tagMissing

/-- The field whose presence a shorthand asks for. -/
def presenceField? : String → Option String
  | "has_lead" => some "lead_id"
  | "has_conversation" => some "conversation_id"
  | _ => none

/-- The operator that is meant if none is given. -/
def defaultOperator : Value := Choice.toValue Operator.equals

/-- A condition with a type. -/
def ofTyped (type data : Value) : Except ConditionError Predicate := do
  match type with
  | .text "field" => do
    let path ← (data.field "field").forCondition
    let operator ← (data.field "operator").forCondition
    let operand ← (data.field "value").forCondition
    ofField path (operator.orElse defaultOperator) operand
  | .text "has_tag" => do
    let tag ← (data.firstField ["tag", "value"]).forCondition
    ofTag tag
  | .text "always_true" => return .always true
  | .text "always_false" => return .always false
  | .text name =>
    match presenceField? name with
    | some path => return .field path .isNotEmpty .null
    | none => throw (.unsupportedType type)
  | _ => do
    let _ ← type.key.forCondition
    throw (.unsupportedType type)

/-- A condition in the form of the graph editor. -/
def ofEditor (path data : Value) : Except ConditionError Predicate := do
  let operator ← (data.field "condition_operator").forCondition
  let operand ← (data.field "condition_value").forCondition
  if path = .text "has_tag" then ofTag operand
  else ofField path (operator.orElse defaultOperator) operand

/-- The predicate that authored data describes. -/
def ofValue (data : Value) : Except ConditionError Predicate := do
  let inner ← (data.member? "predicate").forCondition
  let data := match inner with
    | some (.object fields) => Value.object fields
    | _ => data
  let type ← (data.firstField ["type", "condition_type"]).forCondition
  match type, data.get? "condition_field" with
  | .null, some path => ofEditor path data
  | type, _ => ofTyped type data

end Predicate
end WorkflowEngine

import WorkflowEngine.ShapeError

/-!
# Closed sets of names

A choice is a type whose members have names, such as the kinds of nodes. Data names a member;
anything else is refused with the title of the choice.
-/
namespace WorkflowEngine

class Choice (α : Type) where
  title : String
  all : List α
  name : α → String
  mem_all : ∀ a, a ∈ all
  name_injective : ∀ a b, name a = name b → a = b

namespace Choice

variable {α : Type} [Choice α]

/-- The member with a name. -/
def ofName? (α : Type) [Choice α] (s : String) : Option α := (all : List α).find? (name · == s)

/-- The member that a value names. -/
def ofValue (α : Type) [Choice α] (v : Value) : Shaped α :=
  match v with
  | .text s =>
    match ofName? α s with
    | some a => .ok a
    | none => .error (.notOneOf v (title α))
  | v => .error (.notOneOf v (title α))

/-- A member as a value. -/
def toValue (a : α) : Value := .text (name a)

theorem ofName?_name (a : α) : ofName? α (name a) = some a := by
  unfold ofName?
  cases h : (all : List α).find? (name · == name a) with
  | none => simpa using List.find?_eq_none.mp h a (mem_all a)
  | some b =>
    have hb := List.find?_some h
    exact congrArg some (name_injective _ _ (by simpa using hb))

theorem name_of_ofName? {s : String} {a : α} (h : ofName? α s = some a) : name a = s := by
  simpa using List.find?_some h

theorem ofValue_toValue (a : α) : ofValue α (toValue a) = .ok a := by
  simp [ofValue, toValue, ofName?_name]

end Choice
end WorkflowEngine

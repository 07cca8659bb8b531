import WorkflowEngine.Number.Binary64

/-!
# Data values

Event data, authored graphs and action parameters are values: null, truth values, integers,
double-precision numbers, text, lists, and objects whose fields keep their order. Integers and
doubles are told apart, so that a value is written as it was read.
-/
namespace WorkflowEngine

open Number (Binary64)

inductive Value where
  | null
  | bool (b : Bool)
  | int (n : Int)
  | float (x : Binary64)
  | text (s : String)
  | list (items : List Value)
  | object (fields : List (String × Value))
  deriving Inhabited, Repr

/-- Named values in order. -/
abbrev Record := List (String × Value)

namespace Value

mutual

/-- Whether two values are the same, down to the order of fields and the kind of numbers. -/
def same : Value → Value → Bool
  | .null, .null => true
  | .bool a, .bool b => a == b
  | .int a, .int b => a == b
  | .float a, .float b => a == b
  | .text a, .text b => a == b
  | .list a, .list b => sameItems a b
  | .object a, .object b => sameFields a b
  | _, _ => false

def sameItems : List Value → List Value → Bool
  | [], [] => true
  | a :: as, b :: bs => same a b && sameItems as bs
  | _, _ => false

def sameFields : List (String × Value) → List (String × Value) → Bool
  | [], [] => true
  | (k, a) :: as, (l, b) :: bs => k == l && same a b && sameFields as bs
  | _, _ => false

end

mutual

theorem same_iff : ∀ (a b : Value), same a b = true ↔ a = b
  | .null, b => by cases b <;> simp [same]
  | .bool _, b => by cases b <;> simp [same]
  | .int _, b => by cases b <;> simp [same]
  | .float _, b => by cases b <;> simp [same]
  | .text _, b => by cases b <;> simp [same]
  | .list xs, b => by
    cases b <;> simp [same]
    exact sameItems_iff _ _
  | .object xs, b => by
    cases b <;> simp [same]
    exact sameFields_iff _ _

theorem sameItems_iff : ∀ (xs ys : List Value), sameItems xs ys = true ↔ xs = ys
  | [], ys => by cases ys <;> simp [sameItems]
  | x :: xs, ys => by
    cases ys with
    | nil => simp [sameItems]
    | cons y ys => simp [sameItems, same_iff x y, sameItems_iff xs ys]

theorem sameFields_iff : ∀ (xs ys : List (String × Value)), sameFields xs ys = true ↔ xs = ys
  | [], ys => by cases ys <;> simp [sameFields]
  | (k, x) :: xs, ys => by
    cases ys with
    | nil => simp [sameFields]
    | cons y ys =>
      obtain ⟨l, y⟩ := y
      simp [sameFields, same_iff x y, sameFields_iff xs ys]

end

instance : DecidableEq Value := fun _ _ => decidable_of_iff _ (same_iff _ _)

/-- The name of a value's kind, as error texts give it. -/
def kindName : Value → String
  | .null => "NoneType"
  | .bool _ => "bool"
  | .int _ => "int"
  | .float _ => "float"
  | .text _ => "str"
  | .list _ => "list"
  | .object _ => "dict"

/-- Whether a value counts as given: null, false, zero and everything empty do not. -/
def isGiven : Value → Bool
  | .null => false
  | .bool b => b
  | .int n => n != 0
  | .float x => !x.isZero
  | .text s => s != ""
  | .list items => !items.isEmpty
  | .object fields => !fields.isEmpty

/-- The first value if it is given, else the second. -/
def orElse (a b : Value) : Value := if a.isGiven then a else b

/-- The field of an object. -/
def get? : Value → String → Option Value
  | .object fields, name => fields.lookup name
  | _, _ => none

def isObject : Value → Bool
  | .object _ => true
  | _ => false

/-- Null or a text. -/
def ofText? : Option String → Value
  | some s => .text s
  | none => .null

def ofNat (n : Nat) : Value := .int n

@[simp] theorem isGiven_null : isGiven .null = false := rfl

@[simp] theorem isGiven_text {s : String} : isGiven (.text s) = true ↔ s ≠ "" := by
  simp [isGiven]

@[simp] theorem orElse_null (b : Value) : orElse .null b = b := rfl

theorem orElse_of_isGiven {a b : Value} (h : a.isGiven = true) : a.orElse b = a := by
  simp [orElse, h]

theorem orElse_of_not_isGiven {a b : Value} (h : a.isGiven = false) : a.orElse b = b := by
  simp [orElse, h]

end Value
end WorkflowEngine

import WorkflowEngine.Value
import WorkflowEngine.Number.Shortest
import WorkflowEngine.Text.Quoted

/-!
# Values as text

A text stands for itself; other values have one written form each, in which texts are quoted.
-/
namespace WorkflowEngine.Value

open Text

mutual

/-- The written form of a value, with texts in quotes. -/
def quoted : Value → String
  | .null => "None"
  | .bool b => if b then "True" else "False"
  | .int n => toString n
  | .float x => x.text
  | .text s => Quoted.encode s
  | .list items => "[" ++ ", ".intercalate (quotedItems items) ++ "]"
  | .object fields => "\x7b" ++ ", ".intercalate (quotedFields fields) ++ "\x7d"

def quotedItems : List Value → List String
  | [] => []
  | item :: rest => quoted item :: quotedItems rest

def quotedFields : List (String × Value) → List String
  | [] => []
  | (name, value) :: rest => (Quoted.encode name ++ ": " ++ quoted value) :: quotedFields rest

end

/-- A text as it is, any other value in its written form. -/
def display : Value → String
  | .text s => s
  | v => v.quoted

@[simp] theorem display_text (s : String) : display (.text s) = s := rfl

end WorkflowEngine.Value

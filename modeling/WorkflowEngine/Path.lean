import WorkflowEngine.Value
import WorkflowEngine.Text.Integer

/-!
# Paths into event data

A path is a text with points between its segments, such as `lead.phones.0`. A segment names a field
of an object or, read as an integer, a position in a list, counted from the end if it is negative.
A path that leads nowhere resolves to nothing.
-/
namespace WorkflowEngine.Path

open Text

/-- The parts of a list between points; there is always one more part than points. -/
def splitChars : List Char → List (List Char)
  | [] => [[]]
  | c :: rest =>
    if c == '.' then [] :: splitChars rest
    else
      match splitChars rest with
      | part :: parts => (c :: part) :: parts
      | [] => [[c]]

/-- The segments of a path. -/
def segments (path : String) : List String := (splitChars path.toList).map String.ofList

/-- The item at a position; negative positions count from the end. -/
def itemAt? (items : List Value) (position : Int) : Option Value :=
  if 0 ≤ position then items[position.toNat]?
  else if (-position).toNat ≤ items.length then items[items.length - (-position).toNat]?
  else none

/-- One step into a value. -/
def step? (v : Value) (segment : String) : Option Value :=
  match v with
  | .object fields => fields.lookup segment
  | .list items =>
    match Integer.read segment with
    | .ok position => itemAt? items position
    | .error _ => none
  | _ => none

def follow? (v : Value) : List String → Option Value
  | [] => some v
  | segment :: rest => (step? v segment).bind (follow? · rest)

/-- The value that a path leads to. -/
def resolve? (v : Value) (path : String) : Option Value := follow? v (segments path)

theorem splitChars_ne_nil (cs : List Char) : splitChars cs ≠ [] := by
  cases cs with
  | nil => simp [splitChars]
  | cons c rest =>
    simp only [splitChars]
    split
    · simp
    · split <;> simp

/-- A path without points is one segment. -/
theorem splitChars_of_not_mem {cs : List Char} (h : '.' ∉ cs) : splitChars cs = [cs] := by
  induction cs with
  | nil => rfl
  | cons c rest ih =>
    simp only [List.mem_cons, not_or] at h
    simp [splitChars, ih h.2, Ne.symm h.1]

end WorkflowEngine.Path

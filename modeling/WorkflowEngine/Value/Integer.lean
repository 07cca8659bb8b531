import WorkflowEngine.ShapeError
import WorkflowEngine.Text.Integer

/-!
# The integer part of a value

Truth values count as one and zero, a double loses its fraction, and a text is read.
-/
namespace WorkflowEngine.Value

open Text

def toInteger : Value → Shaped Int
  | .bool b => .ok (if b then 1 else 0)
  | .int n => .ok n
  | .float x => .ok x.truncate
  | .text s =>
    match Integer.read s with
    | .ok n => .ok n
    | .error .notAnInteger => .error (.notAnInteger s)
    | .error (.tooLong digits) => .error (.tooLongInteger digits)
  | v => .error (.notANumber v.kindName)

@[simp] theorem toInteger_int (n : Int) : toInteger (.int n) = .ok n := rfl

end WorkflowEngine.Value

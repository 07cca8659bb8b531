import WorkflowEngine.Text.Hex
import WorkflowEngine.Text.Utf8

/-!
# Text with percent signs

A percent sign and two hexadecimal digits stand for a byte of UTF-8, and every other character for
itself. A percent sign without two such digits is a character like others.
-/
namespace WorkflowEngine.Text.Percent

/-- The bytes that a text stands for. -/
def bytes : List Char → List Nat
  | '%' :: a :: b :: rest =>
    match Hex.digit? a, Hex.digit? b with
    | some high, some low => (0x10 * high + low) :: bytes rest
    | _, _ => 0x25 :: bytes (a :: b :: rest)
  | c :: rest => Utf8.encode [c] ++ bytes rest
  | [] => []

/-- The text that is written with percent signs. -/
def decode (cs : List Char) : List Char := Utf8.decode (bytes cs)

end WorkflowEngine.Text.Percent

import WorkflowEngine.Text.Hex
import WorkflowEngine.Text.Integer

/-!
# Universally unique identifiers

An identifier is a number below `2 ^ 128`, shown as five groups of hexadecimal digits. It is read
from any text that has 32 characters besides hyphens, braces around it and the names of its scheme,
if these characters are a hexadecimal integer.
-/
namespace WorkflowEngine.Uuid

open Text

/-- The canonical text of an identifier. -/
def text (n : Nat) : String :=
  let digits := Hex.write 32 n
  let group (start size : Nat) := String.ofList ((digits.drop start).take size)
  "-".intercalate [group 0 8, group 8 4, group 12 4, group 16 4, group 20 12]

/-- A list without the places where a word stands, looked for from left to right; so many of the
first items belong to a place that has been found. -/
def eraseAfter {α : Type} [BEq α] (word : List α) : Nat → List α → List α
  | _, [] => []
  | found + 1, _ :: rest => eraseAfter word found rest
  | 0, a :: rest =>
    if word.isPrefixOf (a :: rest) then eraseAfter word (word.length - 1) rest
    else a :: eraseAfter word 0 rest

/-- What is left of a text without hyphens, outer braces and the names of the scheme. The text may
have other signs than characters; the function says which sign a character is. -/
def bare {α : Type} [BEq α] (sign : Char → α) (signs : List α) : List α :=
  let erase (word : String) := eraseAfter (word.toList.map sign) 0
  let isBrace (a : α) := a == sign '\x7b' || a == sign '\x7d'
  (trim isBrace (erase "uuid:" (erase "urn:" signs))).filter (· != sign '-')

/-- The rest after the mark of a hexadecimal number, which an underscore may follow. -/
def dropMark : List Char → List Char
  | zero :: x :: rest =>
    if Integer.digit? zero = some 0 ∧ (x = 'x' ∨ x = 'X') then
      match rest with
      | '_' :: rest => rest
      | rest => rest
    else zero :: x :: rest
  | cs => cs

/-- The value of a hexadecimal digit; the decimal ones may be of any script. -/
def digit? (c : Char) : Option Nat := (Hex.digit? c).or (Integer.digit? c)

/-- The number that 32 characters denote, if they are a hexadecimal integer. -/
def number? (cs : List Char) : Option Nat :=
  if cs.length ≠ 32 then none
  else
    let body := match trim isWhiteSpace cs with
      | '+' :: rest => rest
      | cs => cs
    (Integer.digitsBy? digit? (dropMark body)).map fun digits =>
      digits.foldl (fun n d => 0x10 * n + d) 0

end WorkflowEngine.Uuid

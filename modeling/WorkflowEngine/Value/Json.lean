import WorkflowEngine.Value
import WorkflowEngine.Number.Shortest
import WorkflowEngine.Text.Integer
import WorkflowEngine.Text.Quoted

/-!
# Values as canonical JSON

One JSON text per value, up to the order of fields: fields are sorted by name at every level, no
blanks stand between tokens, and only printable characters of ASCII stand for themselves. Doubles
are told from integers by their point or exponent.
-/
namespace WorkflowEngine.Value
namespace Json

open Text

/-- A sixteen-bit unit as four hexadecimal digits. -/
def escapeUnit (n : Nat) : List Char := '\\' :: 'u' :: Hex.write 4 n

/-- One character inside a string. -/
def escapeChar (c : Char) : List Char :=
  let n := c.toNat
  if c == '\x22' || c == '\\' then ['\\', c]
  else if c == '\n' then ['\\', 'n']
  else if c == '\r' then ['\\', 'r']
  else if c == '\t' then ['\\', 't']
  else if n == 0xc then ['\\', 'f']
  else if n == 0x8 then ['\\', 'b']
  else if 0x20 ≤ n && n ≤ 0x7e then [c]
  else if n ≤ 0xffff then escapeUnit n
  else escapeUnit (0xd800 + (n - 0x10000) / 0x400) ++ escapeUnit (0xdc00 + (n - 0x10000) % 0x400)

def writeText (s : String) : List Char :=
  '\x22' :: s.toList.flatMap escapeChar ++ ['\x22']

/-- Written items with commas between them. -/
def separate : List (List Char) → List Char
  | [] => []
  | [item] => item
  | item :: rest => item ++ ',' :: separate rest

/-- Named entries in the order of their names. -/
def sortByName {α : Type} (entries : List (String × α)) : List (String × α) :=
  entries.mergeSort fun a b => decide (a.1 ≤ b.1)

mutual

def write : Value → List Char
  | .null => "null".toList
  | .bool b => if b then "true".toList else "false".toList
  | .int n => (toString n).toList
  | .float x => x.text.toList
  | .text s => writeText s
  | .list items => '[' :: separate (writeItems items) ++ [']']
  | .object fields =>
    '\x7b' :: separate ((sortByName (writeFields fields)).map (·.2)) ++ ['\x7d']

def writeItems : List Value → List (List Char)
  | [] => []
  | item :: rest => write item :: writeItems rest

/-- Each field with its name, by which the fields are sorted. -/
def writeFields : List (String × Value) → List (String × List Char)
  | [] => []
  | (name, value) :: rest => (name, writeText name ++ ':' :: write value) :: writeFields rest

end

end Json

mutual

/-- Whether every integer in a value has few enough digits to be written. -/
def isWritable : Value → Bool
  | .int n => Text.Integer.isWritable n
  | .list items => areWritable items
  | .object fields => fieldsAreWritable fields
  | _ => true

def areWritable : List Value → Bool
  | [] => true
  | item :: rest => isWritable item && areWritable rest

def fieldsAreWritable : List (String × Value) → Bool
  | [] => true
  | (_, value) :: rest => isWritable value && fieldsAreWritable rest

end

/-- The canonical JSON text of a value. -/
def json (v : Value) : String := String.ofList (Json.write v)

end WorkflowEngine.Value

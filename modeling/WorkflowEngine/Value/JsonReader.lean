import WorkflowEngine.Text.Hex
import WorkflowEngine.Value

/-!
# Reading JSON

A total reader of JSON texts. A number without point and exponent is an integer of any size; every
other number is the nearest double. Fields keep the order in which they are written.
-/
namespace WorkflowEngine.Value
namespace JsonReader

open Number (Binary64)

def isBlank (c : Char) : Bool := c == ' ' || c == '\t' || c == '\n' || c == '\r'

def skip (cs : List Char) : List Char := cs.dropWhile isBlank

/-- Four hexadecimal digits and the rest. -/
def readUnit : List Char → Option (Nat × List Char)
  | a :: b :: c :: d :: rest => do
      let a ← Text.Hex.digit? a
      let b ← Text.Hex.digit? b
      let c ← Text.Hex.digit? c
      let d ← Text.Hex.digit? d
      return (((a * 16 + b) * 16 + c) * 16 + d, rest)
  | _ => none

/-- The character of an escape with one letter. -/
def shortEscape? (c : Char) : Option Char :=
  if c == '\x22' || c == '\\' || c == '/' then some c
  else if c == 'n' then some '\n'
  else if c == 'r' then some '\r'
  else if c == 't' then some '\t'
  else if c == 'f' then some '\x0c'
  else if c == 'b' then some '\x08'
  else none

/-- A character escaped as one unit, or as two if it lies beyond the first 65536. -/
def readEscape (cs : List Char) : Option (Char × List Char) := do
  let (high, rest) ← readUnit cs
  if 0xd800 ≤ high && high ≤ 0xdbff then
    match rest with
    | '\\' :: 'u' :: rest => do
      let (low, rest) ← readUnit rest
      if 0xdc00 ≤ low && low ≤ 0xdfff then
        return (Char.ofNat (0x10000 + (high - 0xd800) * 0x400 + (low - 0xdc00)), rest)
      else none
    | _ => none
  else return (Char.ofNat high, rest)

/-- The rest of a string after its opening quote; the steps bound the characters. -/
def readString : Nat → List Char → List Char → Option (String × List Char)
  | 0, _, _ => none
  | steps + 1, read, cs =>
    match cs with
    | [] => none
    | '\x22' :: rest => some (String.ofList read.reverse, rest)
    | '\\' :: 'u' :: rest => do
      let (c, rest) ← readEscape rest
      readString steps (c :: read) rest
    | '\\' :: c :: rest => do
      let c ← shortEscape? c
      readString steps (c :: read) rest
    | c :: rest => if c.toNat < 0x20 then none else readString steps (c :: read) rest

def digitsValue (digits : List Char) : Nat :=
  digits.foldl (fun n c => 10 * n + (c.toNat - 0x30)) 0

/-- The exponent of a number, if one follows. -/
def readExponent : List Char → Option (Option Int × List Char)
  | c :: rest =>
    if c == 'e' || c == 'E' then
      let (negative, rest) := match rest with
        | '-' :: rest => (true, rest)
        | '+' :: rest => (false, rest)
        | rest => (false, rest)
      let digits := rest.takeWhile Char.isDigit
      if digits.isEmpty then none
      else
        let n : Int := digitsValue digits
        some (some (if negative then -n else n), rest.dropWhile Char.isDigit)
    else some (none, c :: rest)
  | [] => some (none, [])

/-- A number, at its first character. -/
def readNumber (cs : List Char) : Option (Value × List Char) := do
  let (negative, cs) := match cs with
    | '-' :: rest => (true, rest)
    | rest => (false, rest)
  let whole := cs.takeWhile Char.isDigit
  if whole.isEmpty then none
  let cs := cs.dropWhile Char.isDigit
  let (fraction, cs) := match cs with
    | '.' :: rest => (some (rest.takeWhile Char.isDigit), rest.dropWhile Char.isDigit)
    | rest => (none, rest)
  let (exponent, cs) ← readExponent cs
  match fraction, exponent with
  | none, none =>
    let n : Int := digitsValue whole
    return (.int (if negative then -n else n), cs)
  | fraction, exponent =>
    let fraction := fraction.getD []
    let digits := digitsValue (whole ++ fraction)
    let x ← Binary64.ofScientific? negative digits (exponent.getD 0 - fraction.length)
    return (.float x, cs)

/-- The text after a word, if the word stands at the front. -/
def expect : List Char → List Char → Option (List Char)
  | [], cs => some cs
  | w :: word, c :: cs => if w == c then expect word cs else none
  | _, [] => none

mutual

/-- A value at the front of the text; each step reads at least one character. -/
def readValue : Nat → List Char → Option (Value × List Char)
  | 0, _ => none
  | steps + 1, cs =>
    match skip cs with
    | '\x22' :: rest => do
      let (s, rest) ← readString rest.length.succ [] rest
      return (.text s, rest)
    | '[' :: rest =>
      match skip rest with
      | ']' :: rest => some (.list [], rest)
      | rest => do
        let (items, rest) ← readItems steps rest
        return (.list items, rest)
    | '\x7b' :: rest =>
      match skip rest with
      | '\x7d' :: rest => some (.object [], rest)
      | rest => do
        let (fields, rest) ← readFields steps rest
        return (.object fields, rest)
    | 'n' :: rest => (expect "ull".toList rest).map (.null, ·)
    | 't' :: rest => (expect "rue".toList rest).map (.bool true, ·)
    | 'f' :: rest => (expect "alse".toList rest).map (.bool false, ·)
    | rest => readNumber rest

/-- The items of a list up to its closing bracket. -/
def readItems : Nat → List Char → Option (List Value × List Char)
  | 0, _ => none
  | steps + 1, cs => do
    let (item, rest) ← readValue steps cs
    match skip rest with
    | ',' :: rest => do
      let (items, rest) ← readItems steps rest
      return (item :: items, rest)
    | ']' :: rest => return ([item], rest)
    | _ => none

/-- The fields of an object up to its closing brace. -/
def readFields : Nat → List Char → Option (List (String × Value) × List Char)
  | 0, _ => none
  | steps + 1, cs => do
    match skip cs with
    | '\x22' :: rest => do
      let (name, rest) ← readString rest.length.succ [] rest
      match skip rest with
      | ':' :: rest => do
        let (value, rest) ← readValue steps rest
        match skip rest with
        | ',' :: rest => do
          let (fields, rest) ← readFields steps rest
          return ((name, value) :: fields, rest)
        | '\x7d' :: rest => return ([(name, value)], rest)
        | _ => none
      | _ => none
    | _ => none

end

end JsonReader

/-- The value that a JSON text denotes. -/
def ofJson? (text : String) : Option Value :=
  let cs := text.toList
  match JsonReader.readValue (2 * cs.length + 2) cs with
  | some (v, rest) => if (JsonReader.skip rest).isEmpty then some v else none
  | none => none

end WorkflowEngine.Value

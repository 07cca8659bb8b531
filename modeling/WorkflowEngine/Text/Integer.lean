import WorkflowEngine.Text.Blank

/-!
# Integers written as text

An integer is an optional sign and digits of any script, with single underscores allowed between
digits and white space around the whole. `read` refuses everything else. Very long numbers are
neither read nor written.
-/
namespace WorkflowEngine.Text.Integer

/-- The zeros of the decimal digits outside ASCII; each is followed by its nine other digits. -/
def zeros : List Nat := [
  0x660, 0x6f0, 0x7c0, 0x966, 0x9e6, 0xa66, 0xae6, 0xb66, 0xbe6, 0xc66, 0xce6, 0xd66, 0xde6, 0xe50,
  0xed0, 0xf20, 0x1040, 0x1090, 0x17e0, 0x1810, 0x1946, 0x19d0, 0x1a80, 0x1a90, 0x1b50, 0x1bb0,
  0x1c40, 0x1c50, 0xa620, 0xa8d0, 0xa900, 0xa9d0, 0xa9f0, 0xaa50, 0xabf0, 0xff10, 0x104a0, 0x10d30,
  0x11066, 0x110f0, 0x11136, 0x111d0, 0x112f0, 0x11450, 0x114d0, 0x11650, 0x116c0, 0x11730,
  0x118e0, 0x11950, 0x11c50, 0x11d50, 0x11da0, 0x16a60, 0x16ac0, 0x16b50, 0x1d7ce, 0x1d7d8,
  0x1d7e2, 0x1d7ec, 0x1d7f6, 0x1e140, 0x1e2f0, 0x1e950, 0x1fbf0]

/-- The value of a decimal digit of any script. -/
def digit? (c : Char) : Option Nat :=
  let n := c.toNat
  if n < 0x80 then (if 0x30 ≤ n && n ≤ 0x39 then some (n - 0x30) else none)
  else (zeros.find? fun first => first ≤ n && n < first + 10).map (n - ·)

/-- Numbers with more digits are not read. -/
def maxDigits : Nat := 4300

/-- Whether an integer has few enough digits to be written. -/
def isWritable (n : Int) : Bool := n.natAbs < Nat.pow 10 maxDigits

inductive Refusal where
  | notAnInteger
  | tooLong (digits : Nat)
  deriving DecidableEq, Repr

/-- Digits with single underscores between them: their values in order. -/
def digitsBy? (digit? : Char → Option Nat) : List Char → Option (List Nat)
  | [] => none
  | [c] => (digit? c).map ([·])
  | c :: '_' :: rest => do
      let first ← digit? c
      let others ← digitsBy? digit? rest
      return first :: others
  | c :: rest => do
      let first ← digit? c
      let others ← digitsBy? digit? rest
      return first :: others

/-- Decimal digits with single underscores between them: their values in order. -/
def digits? (cs : List Char) : Option (List Nat) := digitsBy? digit? cs

/-- Whether a character may stand in a run of digits. -/
def isRunChar (c : Char) : Bool := (digit? c).isSome || c == '_'

/-- The number with the given decimal digits. -/
def ofDigits (digits : List Nat) : Nat := digits.foldl (fun n d => 10 * n + d) 0

/-- A leading sign and the rest. -/
def splitSign : List Char → Bool × List Char
  | '-' :: rest => (true, rest)
  | '+' :: rest => (false, rest)
  | cs => (false, cs)

/-- Reads an integer. The length of a run of digits is looked at before what follows it. -/
def read (s : String) : Except Refusal Int :=
  let (negative, body) := splitSign (trim isWhiteSpace s.toList)
  match digits? (body.takeWhile isRunChar) with
  | none => .error .notAnInteger
  | some digits =>
    if maxDigits < digits.length then .error (.tooLong digits.length)
    else if (body.dropWhile isRunChar).isEmpty then
      .ok (if negative then -(ofDigits digits : Int) else ofDigits digits)
    else .error .notAnInteger

end WorkflowEngine.Text.Integer

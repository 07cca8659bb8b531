import WorkflowEngine.Text.Integer

/-!
# Numerals

A numeral is a number with an optional point and an optional exponent, or a word for infinity or for
no number at all. Digits may be of any script. Numerals are read in a strict and in a loose way:
underscores stand between digits in the one, and anywhere in the other.
-/
namespace WorkflowEngine.Text

inductive Numeral where
  /-- The digits, the most significant first, times a power of ten. -/
  | number (negative : Bool) (digits : List Nat) (exponent : Int)
  | infinity
  | noNumber
  deriving DecidableEq, Repr

namespace Numeral

/-- A run of digits, which may be empty, and the rest. -/
def readRun (cs : List Char) : Option (List Nat × List Char) :=
  match cs.takeWhile Integer.isRunChar with
  | [] => some ([], cs)
  | run => (Integer.digits? run).map fun digits => (digits, cs.dropWhile Integer.isRunChar)

/-- The exponent at the end of a numeral, zero if there is none. -/
def readExponent : List Char → Option Int
  | [] => some 0
  | c :: cs =>
    if c = 'e' ∨ c = 'E' then do
      let (negative, cs) := Integer.splitSign cs
      let (digits, rest) ← readRun cs
      if digits = [] ∨ rest ≠ [] then none
      let n : Int := Integer.ofDigits digits
      return if negative then -n else n
    else none

/-- A number after its sign. There is a digit before the point or after it. -/
def readNumber (negative : Bool) (cs : List Char) : Option Numeral := do
  let (whole, cs) ← readRun cs
  let (fraction, cs) ← match cs with
    | '.' :: cs => readRun cs
    | cs => some ([], cs)
  if whole ++ fraction = [] then none
  return .number negative (whole ++ fraction) ((← readExponent cs) - fraction.length)

/-- Whether a text is one of some words, in letters of either case. -/
def isWord (words : List String) (cs : List Char) : Bool :=
  words.contains (String.ofList (cs.map Char.toLower))

/-- Reads a numeral with white space around it. -/
def read? (s : String) : Option Numeral :=
  let (negative, cs) := Integer.splitSign (trim isWhiteSpace s.toList)
  if isWord ["inf", "infinity"] cs then some .infinity
  else if isWord ["nan"] cs then some .noNumber
  else readNumber negative cs

/-- Whether the digits of a number lie between the least and the greatest decimal place. -/
def isPlaced : Numeral → Bool
  | number _ digits exponent =>
    let size := max (digits.dropWhile (· = 0)).length 1
    decide (-1999999999999999997 ≤ exponent ∧ exponent + size ≤ 1000000000000000000)
  | _ => true

/-- Reads a numeral with layout around it. Underscores do not count, and digits may follow a word
for no number. -/
def readLoosely? (s : String) : Option Numeral :=
  let (negative, cs) := Integer.splitSign ((trim isLayout s.toList).filter (· ≠ '_'))
  let isDigit (c : Char) := (Integer.digit? c).isSome
  if isWord ["inf", "infinity"] cs then some .infinity
  else if isWord ["nan", "snan"] (cs.reverse.dropWhile isDigit).reverse then some .noNumber
  else (readNumber negative cs).filter isPlaced

end Numeral
end WorkflowEngine.Text

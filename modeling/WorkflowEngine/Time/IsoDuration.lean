import WorkflowEngine.Time

/-!
# Durations with their units

A duration begins with the letter P. An amount of days follows, and after the letter T those of
hours, minutes and seconds. The last amount may have a fraction. Longer units than days are not
known.
-/
namespace WorkflowEngine.Duration

/-- The amounts that have been read. -/
structure Amounts where
  micros : Nat
  isEmpty : Bool
  /-- Whether the last amount has a fraction. -/
  isFractional : Bool
  rest : List Char

/-- The digits after a point, if there is one, and the rest. -/
def splitFraction : List Char → Option (List Char × List Char)
  | '.' :: cs =>
    let digits := cs.takeWhile Char.isDigit
    if digits = [] then none else some (digits, cs.dropWhile Char.isDigit)
  | cs => some ([], cs)

/-- An amount of a unit, as numerator and denominator, and the rest. -/
def readAmount (unit : Char) (cs : List Char) : Option ((Nat × Nat) × List Char) := do
  let whole := cs.takeWhile Char.isDigit
  let (fraction, rest) ← splitFraction (cs.dropWhile Char.isDigit)
  let c :: rest := rest | none
  if whole = [] ∨ c.toUpper ≠ unit then none
  let digits := (whole ++ fraction).foldl (fun n c => 10 * n + (c.toNat - 0x30)) 0
  return ((digits, Nat.pow 10 fraction.length), rest)

/-- Reads amounts of units, which are given with their seconds, each at most once. -/
def readAmounts : List (Char × Nat) → Amounts → Amounts
  | [], read => read
  | (unit, seconds) :: units, read =>
    match if read.isFractional then none else readAmount unit read.rest with
    | some ((num, den), rest) =>
      readAmounts units ⟨read.micros + num * seconds * 1000000 / den, false, den ≠ 1, rest⟩
    | none => readAmounts units read

/-- The amounts after the first letter. -/
def readBody (cs : List Char) : Option Amounts :=
  let days := readAmounts [('D', 86400)] ⟨0, true, false, cs⟩
  match days.rest with
  | [] => if days.isEmpty then none else some days
  | c :: rest =>
    let all := readAmounts [('H', 3600), ('M', 60), ('S', 1)] { days with isEmpty := true, rest }
    if c.toUpper = 'T' ∧ !all.isEmpty ∧ all.rest = [] then some all else none

/-- The sign before the first letter, and the rest. -/
def splitSign : List Char → Int × List Char
  | '-' :: cs => (-1, cs)
  | '+' :: cs => (1, cs)
  | cs => (1, cs)

/-- Whether a text is a duration with a sign or without one. -/
def isIso (s : String) : Bool :=
  let (sign, cs) := splitSign s.toList
  match cs with
  | c :: cs =>
    (c.toUpper = 'P') &&
      (readBody cs).any fun all => isRepresentable (sign * (all.micros : Int) / 1000000)
  | [] => false

end WorkflowEngine.Duration

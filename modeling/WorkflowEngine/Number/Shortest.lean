import WorkflowEngine.Number.Binary64

/-!
# The shortest decimal that reads back

Among the decimals that round to a double, `shortest` takes one with the fewest digits and, of
those, the nearest. `text` writes it: positionally from `0.0001` up to sixteen digits before the
point, always with a fraction, and otherwise with an exponent of at least two digits.
-/
namespace WorkflowEngine.Number

/-- The magnitude `digits * 10 ^ exponent`. -/
structure Decimal where
  digits : Nat
  exponent : Int
  deriving DecidableEq, Repr

namespace Decimal

/-- Trailing zeros go into the exponent, at most the given number of them. -/
def dropZeros : Nat → Decimal → Decimal
  | 0, d => d
  | n + 1, d =>
    if d.digits ≠ 0 ∧ d.digits % 10 = 0 then dropZeros n ⟨d.digits / 10, d.exponent + 1⟩ else d

end Decimal

namespace Binary64

/-- How many digits stand before the point: `num / den < 10 ^ n`, and `10 ^ (n - 1)` is not above
it. -/
def pointOf (num den : Nat) : Int :=
  if den ≤ num then ((Nat.toDigits 10 (num / den)).length : Int)
  else
    match (List.range 330).find? fun j => den ≤ num * Nat.pow 10 (j + 1) with
    | some j => -(j : Int)
    | none => -330

/-- Whether a decimal rounds to the number. -/
def readsBack (x : Binary64) (d : Decimal) : Bool :=
  ofDecimal x.negative d.digits d.exponent == some x

/-- The better of the two neighbours with the given number of digits, of those that read back. -/
def nearest? (x : Binary64) (point : Int) (count : Nat) : Option Decimal :=
  let exponent := point - count
  let num := x.ratio.1 * Nat.pow 10 (-exponent).toNat
  let den := x.ratio.2 * Nat.pow 10 exponent.toNat
  let below : Decimal := ⟨num / den, exponent⟩
  let above : Decimal := ⟨num / den + 1, exponent⟩
  let closer := roundDiv num den
  match readsBack x below, readsBack x above with
  | true, true => some (if closer = num / den then below else above)
  | true, false => some below
  | false, true => some above
  | false, false => none

/-- Every digit of the number. -/
def exact (x : Binary64) : Decimal :=
  ⟨x.significand * Nat.pow 2 x.exponent.toNat * Nat.pow 5 (-x.exponent).toNat, min x.exponent 0⟩

/-- A decimal with the fewest digits that rounds to the number. -/
def shortest (x : Binary64) : Decimal :=
  let point := pointOf x.ratio.1 x.ratio.2
  match (List.range 17).findSome? fun i => nearest? x point (i + 1) with
  | some d => d.dropZeros 17
  | none => x.exact

/-- The exponent of a number in the notation with one digit before the point. -/
def exponentText (e : Int) : List Char :=
  let digits := Nat.toDigits 10 e.natAbs
  (if e < 0 then '-' else '+') :: (List.replicate (2 - digits.length) '0' ++ digits)

/-- Digits with the point after the given number of them. -/
def layout (digits : List Char) (point : Int) : List Char :=
  if -4 < point ∧ point ≤ 16 then
    if point ≤ 0 then '0' :: '.' :: (List.replicate (-point).toNat '0' ++ digits)
    else if digits.length ≤ point.toNat then
      digits ++ List.replicate (point.toNat - digits.length) '0' ++ ['.', '0']
    else digits.take point.toNat ++ '.' :: digits.drop point.toNat
  else
    match digits with
    | [] => []
    | [d] => d :: 'e' :: exponentText (point - 1)
    | d :: rest => d :: '.' :: (rest ++ 'e' :: exponentText (point - 1))

/-- The digits of the magnitude, set out. -/
def magnitudeText (x : Binary64) : List Char :=
  if x.isZero then ['0', '.', '0']
  else
    let d := x.shortest
    let digits := Nat.toDigits 10 d.digits
    layout digits (digits.length + d.exponent)

/-- The number as text. -/
def text (x : Binary64) : String :=
  String.ofList (if x.negative then '-' :: x.magnitudeText else x.magnitudeText)

end Binary64
end WorkflowEngine.Number

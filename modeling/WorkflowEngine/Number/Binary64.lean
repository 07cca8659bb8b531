import WorkflowEngine.Number.Rounding

/-!
# Finite double-precision numbers

A number is kept exactly: a sign, a significand below `2 ^ 53` and a power of two. The significand
is as large as it can be, so each number is written one way only, but for the sign of zero.
`ofRatio` rounds a quotient to the nearest number.
-/
namespace WorkflowEngine.Number

/-- The magnitudes `significand * 2 ^ exponent` in their one form. -/
def Binary64.Canonical (significand : Nat) (exponent : Int) : Prop :=
  significand < Nat.pow 2 53 ∧ -1074 ≤ exponent ∧ exponent ≤ 971 ∧
    (Nat.pow 2 52 ≤ significand ∨ exponent = -1074)

instance (significand : Nat) (exponent : Int) :
    Decidable (Binary64.Canonical significand exponent) := by
  unfold Binary64.Canonical
  infer_instance

/-- A finite double-precision number. -/
structure Binary64 where
  negative : Bool
  significand : Nat
  exponent : Int
  canonical : Binary64.Canonical significand exponent
  deriving DecidableEq, Repr

namespace Binary64

def zero (negative : Bool) : Binary64 := ⟨negative, 0, -1074, by decide⟩

instance : Inhabited Binary64 := ⟨zero false⟩

/-- The number of the given form, if it is canonical. -/
def ofParts? (negative : Bool) (significand : Nat) (exponent : Int) : Option Binary64 :=
  if h : Canonical significand exponent then some ⟨negative, significand, exponent, h⟩ else none

/-- A quotient divided by a power of two, as numerator and denominator. -/
def unscale (num den : Nat) (exponent : Int) : Nat × Nat :=
  (num * Nat.pow 2 (-exponent).toNat, den * Nat.pow 2 exponent.toNat)

/-- The exponent at which a quotient has 53 binary digits, or the least exponent. -/
def exponentOf (num den : Nat) : Int :=
  let estimate := max ((num.log2 : Int) - den.log2 - 53) (-1074)
  let (n, d) := unscale num den estimate
  if Nat.pow 2 53 ≤ n / d then estimate + 1 else estimate

/-- The number nearest to a quotient, a tie to the even significand; none beyond the largest. -/
def ofRatio (negative : Bool) (num den : Nat) : Option Binary64 :=
  if num = 0 then some (zero negative)
  else
    let exponent := exponentOf num den
    let (n, d) := unscale num den exponent
    let significand := roundDiv n d
    if significand = Nat.pow 2 53 then ofParts? negative (Nat.pow 2 52) (exponent + 1)
    else ofParts? negative significand exponent

/-- The number nearest to `digits * 10 ^ exponent`. -/
def ofDecimal (negative : Bool) (digits : Nat) (exponent : Int) : Option Binary64 :=
  ofRatio negative (digits * Nat.pow 10 exponent.toNat) (Nat.pow 10 (-exponent).toNat)

/-- The number nearest to `digits * 10 ^ exponent`; far outside the range nothing is computed. -/
def ofScientific? (negative : Bool) (digits : Nat) (exponent : Int) : Option Binary64 :=
  let size := (Nat.toDigits 10 digits).length + exponent
  if digits = 0 || size < -400 then some (zero negative)
  else if 400 < size then none
  else ofDecimal negative digits exponent

/-- The magnitude as numerator and denominator. -/
def ratio (x : Binary64) : Nat × Nat :=
  (x.significand * Nat.pow 2 x.exponent.toNat, Nat.pow 2 (-x.exponent).toNat)

def isZero (x : Binary64) : Bool := x.significand == 0

/-- The number without its fraction, toward zero. -/
def truncate (x : Binary64) : Int :=
  let magnitude : Nat := x.ratio.1 / x.ratio.2
  if x.negative then -magnitude else magnitude

/-- Whether the number has no fraction. -/
def isWhole (x : Binary64) : Bool := x.ratio.1 % x.ratio.2 == 0

theorem ratio_pos (x : Binary64) : 0 < x.ratio.2 := Nat.pow_pos (by decide)

theorem ofParts?_self (x : Binary64) : ofParts? x.negative x.significand x.exponent = some x := by
  unfold ofParts?
  rw [dif_pos x.canonical]

end Binary64
end WorkflowEngine.Number

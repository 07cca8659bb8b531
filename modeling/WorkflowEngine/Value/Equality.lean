import WorkflowEngine.Value

/-!
# Equality of values

Two values are alike if they denote the same data: numbers of either kind and truth values compare
as numbers, and the order of an object's fields does not matter.
-/
namespace WorkflowEngine

open Number (Binary64)

/-- A number by its mathematical value: an integer, or a double with a fraction. -/
inductive Numeral where
  | whole (n : Int)
  | fraction (x : Binary64)
  deriving DecidableEq, Repr

namespace Value

/-- The number that a value stands for in comparisons; truth values are one and zero. -/
def numeral? : Value → Option Numeral
  | .bool b => some (.whole (if b then 1 else 0))
  | .int n => some (.whole n)
  | .float x => some (if x.isWhole then .whole x.truncate else .fraction x)
  | _ => none

/-- Whether two values stand for the same number. -/
def sameNumber (a b : Value) : Bool :=
  match a.numeral?, b.numeral? with
  | some m, some n => m == n
  | _, _ => false

mutual

def alike : Value → Value → Bool
  | .null, .null => true
  | .text s, .text t => s == t
  | .list xs, .list ys => alikeItems xs ys
  | .object xs, .object ys => xs.length == ys.length && alikeFields xs ys
  | a, b => sameNumber a b

def alikeItems : List Value → List Value → Bool
  | [], [] => true
  | x :: xs, y :: ys => alike x y && alikeItems xs ys
  | _, _ => false

/-- Whether each field has its like among the others. -/
def alikeFields : List (String × Value) → List (String × Value) → Bool
  | [], _ => true
  | (name, x) :: xs, ys =>
    (match ys.lookup name with
      | some y => alike x y
      | none => false) && alikeFields xs ys

end

/-- Whether a value is a given text. -/
def isText (s : String) : Value → Bool
  | .text t => t == s
  | _ => false

theorem alike_text {v : Value} {s : String} : alike v (.text s) = v.isText s := by
  cases v <;> simp [alike, isText, sameNumber, numeral?]

end Value
end WorkflowEngine

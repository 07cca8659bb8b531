import WorkflowEngine.Number.Binary64
import WorkflowEngine.Time

/-!
# Durations in fractions of a second
-/
namespace WorkflowEngine.Duration

/-- A number of seconds in microseconds. The fraction is multiplied as a number of its own and then
rounded to the nearest integer, a tie to the even one. -/
def microsOf (x : Number.Binary64) : Int :=
  let (num, den) := x.ratio
  let fraction := ((Number.Binary64.ofRatio false (num % den * 1000000) den).map (·.ratio)).getD
    (0, 1)
  let micros : Nat := num / den * 1000000 + Number.roundDiv fraction.1 fraction.2
  if x.negative then -micros else micros

end WorkflowEngine.Duration

/-!
# Spans of lists

A span of a list lies between two positions; negative positions count from the end.
-/
namespace WorkflowEngine.Span

/-- The place of a position in a list of the given length. -/
def place (length : Nat) (position : Int) : Nat :=
  if position < 0 then (length + position).toNat else min position.toNat length

/-- The items from one position up to another. -/
def between {α : Type} (start stop : Int) (items : List α) : List α :=
  (items.take (place items.length stop)).drop (place items.length start)

/-- The items up to a position. -/
def upTo {α : Type} (stop : Int) (items : List α) : List α := between 0 stop items

/-- The first items, at most so many; a negative number sets no limit. -/
def limited {α : Type} (limit : Int) (items : List α) : List α :=
  if limit < 0 then items else items.take limit.toNat

/-- Positions that are not negative count from the start, and one beyond the end is the end. -/
theorem between_nonneg {α : Type} (start stop : Nat) (items : List α) :
    between start stop items = (items.take stop).drop start := by
  have place_nat (n : Nat) : place items.length n = min n items.length := by
    simp [place, show ¬ ((n : Int) < 0) by omega]
  have take_min : items.take (min stop items.length) = items.take stop := by
    rcases Nat.le_total stop items.length with h | h
    · rw [Nat.min_eq_left h]
    · rw [Nat.min_eq_right h, List.take_length, List.take_of_length_le h]
  rw [between, place_nat, place_nat, take_min]
  rcases Nat.le_total start items.length with h | h
  · rw [Nat.min_eq_left h]
  · have short : (items.take stop).length ≤ items.length := by
      rw [List.length_take]
      exact Nat.min_le_right _ _
    rw [Nat.min_eq_right h, List.drop_eq_nil_of_le short,
      List.drop_eq_nil_of_le (Nat.le_trans short h)]

end WorkflowEngine.Span

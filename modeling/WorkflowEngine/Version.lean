import WorkflowEngine.Value.Text

/-!
# Versions of an instance

Every write of an instance is counted, so that a write based on an old version can be refused.
-/
namespace WorkflowEngine

/-- The number of writes of an instance. -/
inductive Version where
  | count (n : Int)
  /-- More writes than a column of a table can count: the nearest double is kept instead, and one
  write more does not change it. -/
  | uncounted
  deriving DecidableEq, Repr

namespace Version

/-- The version after one more write. -/
def next : Version → Version
  | count n => count (n + 1)
  | uncounted => uncounted

/-- The double nearest to the first number that 64 bits cannot count. -/
def limit : Number.Binary64 := ⟨false, 4503599627370496, 11, by decide⟩

def toValue : Version → Value
  | count n => .int n
  | uncounted => .float limit

def text (v : Version) : String := v.toValue.display

@[simp] theorem next_count (n : Int) : (count n).next = count (n + 1) := rfl

end Version
end WorkflowEngine

import WorkflowEngine.Instance
import WorkflowEngine.Span

/-!
# The store in a table

One row for each instance. A write changes the columns that describe the progress of an instance;
what it was created with stays as it is. Times are kept in UTC, and no number has more than 64 bits;
a count that would need more is kept as a double. Listings are queries: a negative limit sets none.
-/
namespace WorkflowEngine

structure TableStore where
  rows : List Instance
  /-- The number of rows ever created. -/
  created : Nat
  deriving DecidableEq, Repr

namespace TableStore

def empty : TableStore := ⟨[], 0⟩

/-- Whether a number fits into a column: 64 bits, one of them for the sign. -/
def fits (n : Int) : Bool := -9223372036854775808 ≤ n && n ≤ 9223372036854775807

/-- Refuses to go on with numbers that do not fit. -/
def whenFit {α : Type} (numbers : List Int) (answer : Outcome α) : Outcome α :=
  if numbers.all fits then answer else .error .outOfRange

/-- The numbers in a version that a column might not hold. -/
def numbers : Version → List Int
  | .count n => [n]
  | .uncounted => []

/-- A version as a column keeps it. -/
def counted : Version → Version
  | .count n => if fits n then .count n else .uncounted
  | .uncounted => .uncounted

/-- A draft as its row keeps it. -/
def stored (d : Draft) : Draft :=
  { d with
    resumeAt := d.resumeAt.map (·.inUtc)
    createdAt := d.createdAt.inUtc
    updatedAt := d.updatedAt.inUtc
    completedAt := d.completedAt.map (·.inUtc) }

/-- The row that was made of a draft's event before. -/
def existing? (s : TableStore) (draft : Draft) : Option Instance := do
  let key ← draft.dedupeKey
  s.rows.find? fun row => row.graphId == draft.graphId && row.dedupeKey == some key

/-- Creates a row, unless there is one for the event already. -/
def create (s : TableStore) (draft : Draft) : Outcome ((Instance × Bool) × TableStore) :=
  match s.existing? draft with
  | some row => .ok ((row, false), s)
  | none =>
    let id := Instance.idOf (s.created + 1)
    whenFit (numbers draft.version)
      (.ok (({ draft with id }, true), ⟨s.rows ++ [{ stored draft with id }], s.created + 1⟩))

def load (s : TableStore) (id : InstanceId) : Outcome Instance :=
  match Instance.find? s.rows id with
  | some row => .ok row
  | none => .error (.instanceNotFound id)

/-- A row after a write of an instance. -/
def written (row next : Instance) (version : Version) (now : Instant) : Instance :=
  { row with
    cursor := next.cursor
    context := next.context
    status := next.status
    resumeAt := next.resumeAt.map (·.inUtc)
    attempts := next.attempts
    dispatching := next.dispatching
    owner := next.owner
    error := next.error
    completedAt := next.completedAt.map (·.inUtc)
    version
    updatedAt := now.inUtc }

/-- Writes an instance that has not been written since the expected version. -/
def save (s : TableStore) (now : Instant) (next : Instance) (expected : Version) :
    Outcome (Instance × TableStore) :=
  whenFit (numbers expected ++ numbers expected.next) <|
    match Instance.find? s.rows next.id with
    | none => .error (.instanceNotFound next.id)
    | some row =>
      if row.version = expected then
        .ok ({ next with version := expected.next, updatedAt := now },
          { s with rows := Instance.replace (written row next expected.next now) s.rows })
      else .error (.storeConflict next.id expected row.version)

/-- Gives a row that nobody holds to a worker, if it still has the given status. -/
def claim (s : TableStore) (now : Instant) (id : InstanceId) (source target : Status)
    (owner : Option String) : Option Instance × TableStore :=
  match Instance.find? s.rows id with
  | none => (none, s)
  | some row =>
    if row.status = source ∧ row.owner = none then
      let version := counted row.version.next
      let claimed := { row with status := target, owner, version, updatedAt := now.inUtc }
      (some claimed, { s with rows := Instance.replace claimed s.rows })
    else (none, s)

/-- Takes back the creation of a row. Its identifier is not used again. -/
def rollback (s : TableStore) (id : InstanceId) : TableStore :=
  { s with rows := s.rows.filter fun row => !(row.id == id) }

def listDue (s : TableStore) (now : Instant) (limit : Int) : Outcome (List Instance) :=
  whenFit [limit] (.ok (Span.limited limit (Instance.sortDue (s.rows.filter (Instance.isDue now)))))

def listStale (s : TableStore) (before : Instant) (limit : Int) : Outcome (List Instance) :=
  whenFit [limit]
    (.ok (Span.limited limit (Instance.sortStale (s.rows.filter (Instance.isStale before)))))

/-- A page of the rows of a graph, and the number of all of them, which comes with the rows of the
page and is zero if there are none. -/
def listForGraph (s : TableStore) (graphId : String) (status : Option Status)
    (limit offset : Int) : Outcome (List Instance × Nat) :=
  let found := s.rows.filter (Instance.isListed graphId status)
  let page := Span.limited limit ((Instance.sortNewest found).drop offset.toNat)
  whenFit [limit, offset] (.ok (page, if page.isEmpty then 0 else found.length))

end TableStore
end WorkflowEngine

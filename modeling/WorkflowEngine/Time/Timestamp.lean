import WorkflowEngine.Time.IsoReader

/-!
# Dates and times in full

Other than the texts of `WallClock.ofIso`, these have all their units and the marks between them,
and only an offset from UTC may be left out. A fraction of a second is rounded to microseconds.
-/
namespace WorkflowEngine.Timestamp

/-- A date, and the rest. -/
def readDate (cs : List Char) : Option ((Nat × Nat × Nat) × List Char) := do
  let (year, cs) ← WallClock.readDigits 4 0 cs
  let (month, cs) ← WallClock.readDigits 2 0 (← WallClock.readMark '-' true cs)
  let (day, cs) ← WallClock.readDigits 2 0 (← WallClock.readMark '-' true cs)
  let clock : WallClock := ⟨year, month, day, 0, 0, 0, 0⟩
  if clock.defect?.isNone then return ((year, month, day), cs) else none

/-- The microseconds of a fraction of a second, if there is one, and the rest. -/
def readFraction : List Char → Option (Nat × List Char)
  | '.' :: cs =>
    let digits := cs.takeWhile Char.isDigit
    if digits = [] then none
    else do
      let (micros, _) ← WallClock.readDigits 6 0 ((digits ++ List.replicate 6 '0').take 6)
      let roundsUp := (digits.drop 6).head?.any fun c => decide ('5' ≤ c)
      return (micros + (if roundsUp then 1 else 0), cs.dropWhile Char.isDigit)
  | cs => some (0, cs)

/-- The microseconds of a day, and the rest. -/
def readTime (cs : List Char) : Option (Nat × List Char) := do
  let (hour, cs) ← WallClock.readDigits 2 0 cs
  let (minute, cs) ← WallClock.readDigits 2 0 (← WallClock.readMark ':' true cs)
  let (second, cs) ← WallClock.readDigits 2 0 (← WallClock.readMark ':' true cs)
  let (micros, cs) ← readFraction cs
  if 23 < hour ∨ 59 < minute ∨ 59 < second then none
  return ((hour * 3600 + minute * 60 + second) * 1000000 + micros, cs)

/-- The offset from UTC in microseconds at the end of a text. -/
def readOffset : List Char → Option (Option Int)
  | [] => some none
  | ['Z'] | ['z'] => some (some 0)
  | sign :: cs => do
    if sign ≠ '+' ∧ sign ≠ '-' then none
    let (hour, cs) ← WallClock.readDigits 2 0 cs
    let (minute, rest) ← WallClock.readDigits 2 0 (if cs.head? = some ':' then cs.drop 1 else cs)
    if 23 < hour ∨ 59 < minute ∨ rest ≠ [] then none
    let micros : Int := ((hour * 60 + minute) * 60000000 : Nat)
    return some (if sign = '-' then -micros else micros)

def isDate (s : String) : Bool := (readDate s.toList).any fun (_, rest) => rest.isEmpty

def isTime (s : String) : Bool :=
  ((readTime s.toList).bind fun (_, rest) => readOffset rest).isSome

/-- Whether a text is a date and a time that a clock in UTC can show. -/
def isDateTime (s : String) : Bool :=
  let micros? : Option Int := do
    let ((year, month, day), rest) ← readDate s.toList
    let c :: rest := rest | none
    if c ≠ 'T' ∧ c ≠ 't' ∧ c ≠ ' ' then none
    let (micros, rest) ← readTime rest
    let offset ← readOffset rest
    return (Instant.ofWallClock ⟨year, month, day, 0, 0, 0, 0⟩ offset).micros + micros
  micros?.any fun n => decide (Instant.first ≤ n ∧ n ≤ Instant.last)

end WorkflowEngine.Timestamp

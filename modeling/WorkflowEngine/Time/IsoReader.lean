import WorkflowEngine.Text.Quoted
import WorkflowEngine.Time

/-!
# Reading dates and times

The largest unit comes first. A date has its year, month and day, or the year, the week and the day
of the week, which is Monday if it is left out. Times may leave out the smaller units, and end in a
fraction of a second, which is cut after six digits, and an offset from UTC. The marks between the
units may be left out. One character of any kind stands between date and time, and one of ASCII may
stand between a time and its offset. The null character ends a text where it could end.
-/
namespace WorkflowEngine

/-- Why a text is no date and time. -/
inductive ClockDefect where
  /-- The units cannot be told apart. -/
  | unreadable (text : String)
  | year (n : Nat)
  | month
  | day
  | hour
  | minute
  | second
  /-- The clock is a day or more ahead of UTC, or behind it; the offset is in microseconds. -/
  | offset (micros : Int)
  deriving DecidableEq, Repr

namespace ClockDefect

/-- The days, seconds and microseconds of an offset that is not zero, as far as there are any. -/
def offsetText (micros : Int) : String :=
  let units := [("days", micros / 86400000000), ("seconds", micros / 1000000 % 86400),
    ("microseconds", micros % 1000000)]
  "datetime.timedelta(" ++ ", ".intercalate ((units.filter (·.2 ≠ 0)).map fun (name, n) =>
    name ++ "=" ++ toString n) ++ ")"

def message : ClockDefect → String
  | unreadable text => "Invalid isoformat string: " ++ Text.Quoted.encode text
  | year n => "year " ++ toString n ++ " is out of range"
  | month => "month must be in 1..12"
  | day => "day is out of range for month"
  | hour => "hour must be in 0..23"
  | minute => "minute must be in 0..59"
  | second => "second must be in 0..59"
  | offset micros =>
    "offset must be a timedelta strictly between -timedelta(hours=24) and timedelta(hours=24), " ++
      "not " ++ offsetText micros ++ "."

end ClockDefect

namespace WallClock

/-- A number of exactly so many digits, and the rest. -/
def readDigits : Nat → Nat → List Char → Option (Nat × List Char)
  | 0, n, cs => some (n, cs)
  | width + 1, n, c :: cs =>
    if c.isDigit then readDigits width (10 * n + (c.toNat - 0x30)) cs else none
  | _ + 1, _, [] => none

/-- The rest after a mark, which must be there if marks are used. -/
def readMark (mark : Char) (isMarked : Bool) : List Char → Option (List Char)
  | c :: cs => if isMarked then (if c = mark then some cs else none) else some (c :: cs)
  | [] => none

/-- The day number of the Monday of the first week of a year, which is the week of its first
Thursday. -/
def firstMonday (year : Int) : Int :=
  let first := dayNumber year 1 1
  let weekday := (first + 3) % 7
  if weekday ≤ 3 then first - weekday else first - weekday + 7

/-- The number of weeks of a year. -/
def weeksIn (year : Int) : Int := (firstMonday (year + 1) - firstMonday year) / 7

/-- The date of a day of a week, which are both counted from one. The weeks of the year 0 have no
months. -/
def weekDate? (year week day : Nat) : Option (Nat × Nat × Nat) :=
  if week = 0 ∨ weeksIn year < week ∨ day = 0 ∨ 7 < day then none
  else if year = 0 then some (1, 0, day)
  else
    let (year, month, day) := dateOf (firstMonday year + 7 * (week - 1) + (day - 1))
    some (year.toNat, month.toNat, day.toNat)

/-- The day of the week, and the rest. Two digits after the mark are an hour, and the mark then
stands between date and time. Without marks the number of digits tells, as those of a time come in
pairs. -/
def readWeekday (isMarked : Bool) (cs : List Char) : Option (Nat × List Char) :=
  if isMarked then
    match cs with
    | '-' :: c :: rest =>
      if (rest.head?.map Char.isDigit).getD false then some (1, cs) else readDigits 1 0 (c :: rest)
    | ['-'] => none
    | _ => some (1, cs)
  else
    let count := (cs.takeWhile Char.isDigit).length
    if count = 1 ∨ (count ≠ 0 ∧ count % 2 = 0) then readDigits 1 0 cs else some (1, cs)

/-- Year, month and day, and the rest. -/
def readDate (cs : List Char) : Option ((Nat × Nat × Nat) × List Char) := do
  let (year, cs) ← readDigits 4 0 cs
  let isMarked := cs.head? = some '-'
  match ← readMark '-' isMarked cs with
  | 'W' :: cs =>
    let (week, cs) ← readDigits 2 0 cs
    let (day, cs) ← readWeekday isMarked cs
    return (← weekDate? year week day, cs)
  | cs =>
    let (month, cs) ← readDigits 2 0 cs
    let (day, cs) ← readDigits 2 0 (← readMark '-' isMarked cs)
    return ((year, month, day), cs)

/-- Hours, minutes and seconds as far as they are given, and how the text goes on. -/
structure Units where
  numbers : List Nat
  /-- What begins with the fraction of a second, if anything follows. -/
  fraction : Option (List Char)
  /-- Whether a single character is left over. -/
  hasMore : Bool

/-- Reads so many units of a time at most. It is known after the first one whether there are marks
between them. -/
def readUnits : Nat → Option Bool → List Char → Option Units
  | 0, _, cs => some ⟨[], some cs, false⟩
  | count + 1, isMarked?, cs => do
    let (n, cs) ← readDigits 2 0 cs
    match cs with
    | [] => return ⟨[n], none, false⟩
    | [c] => if c.utf8Size = 1 then return ⟨[n], none, c ≠ '\x00'⟩ else none
    | c :: rest =>
      let isMarked := isMarked?.getD (c = ':')
      if isMarked && c = ':' then
        let units ← readUnits count (some isMarked) rest
        return { units with numbers := n :: units.numbers }
      else if c = '.' || c = ',' then return ⟨[n], some rest, false⟩
      else if isMarked then none
      else
        let units ← readUnits count (some isMarked) (c :: rest)
        return { units with numbers := n :: units.numbers }

/-- A time of day as it is written. -/
structure Time where
  hour : Nat
  minute : Nat
  second : Nat
  microsecond : Nat
  /-- Whether something is left over. -/
  hasMore : Bool

/-- Whether a text ends here. -/
def endsAt (rest : List Char) : Bool := rest.head?.all (· = '\x00')

/-- The digits of a fraction in millionths, and whether something follows them. -/
def readFraction (cs : List Char) : Option (Nat × Bool) := do
  let digits := cs.take 6
  if digits.all Char.isDigit then
    let (n, _) ← readDigits 6 0 (digits ++ List.replicate (6 - digits.length) '0')
    return (n, !endsAt ((cs.drop 6).dropWhile Char.isDigit))
  else none

def readTime (cs : List Char) : Option Time := do
  let units ← readUnits 3 none cs
  let unit (position : Nat) := units.numbers.getD position 0
  let (microsecond, hasMore) ← match units.fraction with
    | some fraction => readFraction fraction
    | none => some (0, units.hasMore)
  return ⟨unit 0, unit 1, unit 2, microsecond, hasMore⟩

/-- A time as an offset from UTC in microseconds. A fraction counts beside whole seconds only. -/
def Time.offset (t : Time) : Int :=
  let seconds := t.hour * 3600 + t.minute * 60 + t.second
  if seconds = 0 then 0 else (seconds : Int) * 1000000 + t.microsecond

/-- The offset from UTC in microseconds; none if there is none. -/
def readOffset : List Char → Option (Option Int)
  | [] => some none
  | 'Z' :: rest => if endsAt rest then some (some 0) else none
  | sign :: cs => do
    let t ← readTime cs
    if t.hasMore then none else return some (if sign = '-' then -t.offset else t.offset)

/-- The number of days of a month. -/
def daysIn (year month : Nat) : Nat :=
  if month = 2 then (if year % 4 = 0 ∧ (year % 100 ≠ 0 ∨ year % 400 = 0) then 29 else 28)
  else if month ∈ [4, 6, 9, 11] then 30 else 31

/-- Whether a character begins the offset of a time. -/
def isOffsetMark (c : Char) : Bool := c == '+' || c == '-' || c == 'Z'

/-- What is written after a date: the time, and its offset from UTC in microseconds. -/
def readClock : List Char → Option (Time × Option Int)
  | [] => some (⟨0, 0, 0, 0, false⟩, none)
  | _ :: cs => do
    let t ← readTime (cs.takeWhile fun c => !isOffsetMark c)
    let offset ← readOffset (cs.dropWhile fun c => !isOffsetMark c)
    if t.hasMore && offset.isNone then none else return (t, offset)

/-- The first unit of a clock that is out of its range. -/
def defect? (t : WallClock) : Option ClockDefect :=
  if t.year = 0 ∨ 9999 < t.year then some (.year t.year)
  else if t.month = 0 ∨ 12 < t.month then some .month
  else if t.day = 0 ∨ daysIn t.year t.month < t.day then some .day
  else if 23 < t.hour then some .hour
  else if 59 < t.minute then some .minute
  else if 59 < t.second then some .second
  else none

/-- What the clock shows, and its offset from UTC in microseconds. -/
def ofIso (text : String) : Except ClockDefect (WallClock × Option Int) := do
  let read : Option (WallClock × Option Int) := do
    let ((year, month, day), cs) ← readDate text.toList
    let (t, offset) ← readClock cs
    return (⟨year, month, day, t.hour, t.minute, t.second, t.microsecond⟩, offset)
  match read with
  | none => throw (.unreadable text)
  | some (clock, offset) =>
    match offset.filter fun n => decide (86400000000 ≤ n.natAbs), clock.defect? with
    | some n, _ => throw (.offset n)
    | none, some defect => throw defect
    | none, none => return (clock, offset)

end WallClock

/-- The instant that a text with date, time and offset denotes. -/
def Instant.ofIso (text : String) : Except ClockDefect Instant := do
  let (clock, offset) ← WallClock.ofIso text
  return Instant.ofWallClock clock offset

end WorkflowEngine

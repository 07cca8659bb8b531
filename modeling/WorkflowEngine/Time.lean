/-!
# Instants and durations

Instants are counted in microseconds. They are shown by clocks at an offset from UTC, which show
the years 1 to 9999 of the proleptic Gregorian calendar; `Instant.add?` leaves that range with
`none`. Durations are whole seconds up to a billion days.
-/
namespace WorkflowEngine

/-- A point in time, and the clock that shows it. -/
structure Instant where
  /-- Microseconds since the first moment of 1970 in UTC. -/
  micros : Int
  /-- Microseconds by which the clock is ahead of UTC; none means UTC. -/
  offset : Option Int
  deriving DecidableEq, Repr, Inhabited

/-- A point in time as a clock and a calendar on the wall show it. -/
structure WallClock where
  year : Nat
  month : Nat
  day : Nat
  hour : Nat
  minute : Nat
  second : Nat
  microsecond : Nat
  deriving DecidableEq, Repr

/-- A number in decimal with at least the given number of digits. -/
def padded (width n : Nat) : String :=
  let digits := Nat.toDigits 10 n
  String.ofList (List.replicate (width - digits.length) '0' ++ digits)

namespace WallClock

/-- Days since 1970 of a date: years begin in March, so that the leap day comes last. -/
def dayNumber (year month day : Int) : Int :=
  let y := if month ≤ 2 then year - 1 else year
  let era := y / 400
  let yearOfEra := y % 400
  let monthFromMarch := (month + 9) % 12
  let dayOfYear := (153 * monthFromMarch + 2) / 5 + day - 1
  era * 146097 + yearOfEra * 365 + yearOfEra / 4 - yearOfEra / 100 + dayOfYear - 719468

/-- The date of a day number: year, month and day. -/
def dateOf (dayNumber : Int) : Int × Int × Int :=
  let z := dayNumber + 719468
  let era := z / 146097
  let dayOfEra := z % 146097
  let yearOfEra := (dayOfEra - dayOfEra / 1460 + dayOfEra / 36524 - dayOfEra / 146096) / 365
  let dayOfYear := dayOfEra - (365 * yearOfEra + yearOfEra / 4 - yearOfEra / 100)
  let monthFromMarch := (5 * dayOfYear + 2) / 153
  let day := dayOfYear - (153 * monthFromMarch + 2) / 5 + 1
  let month := if monthFromMarch < 10 then monthFromMarch + 3 else monthFromMarch - 9
  let year := yearOfEra + era * 400
  (if month ≤ 2 then year + 1 else year, month, day)

/-- The date as day, month and year. -/
def dateText (t : WallClock) : String :=
  padded 2 t.day ++ "/" ++ padded 2 t.month ++ "/" ++ padded 4 t.year

def timeText (t : WallClock) : String :=
  padded 2 t.hour ++ ":" ++ padded 2 t.minute ++ ":" ++ padded 2 t.second

/-- A fraction of a second in six digits, if there is one. -/
def fractionText (microsecond : Nat) : String :=
  if microsecond = 0 then "" else "." ++ padded 6 microsecond

/-- Date and time with the largest unit first. -/
def isoText (t : WallClock) : String :=
  padded 4 t.year ++ "-" ++ padded 2 t.month ++ "-" ++ padded 2 t.day ++ "T" ++ t.timeText ++
    fractionText t.microsecond

end WallClock

namespace Instant

instance : LE Instant := ⟨fun a b => a.micros ≤ b.micros⟩

instance : LT Instant := ⟨fun a b => a.micros < b.micros⟩

instance (a b : Instant) : Decidable (a ≤ b) := inferInstanceAs (Decidable (a.micros ≤ b.micros))

instance (a b : Instant) : Decidable (a < b) := inferInstanceAs (Decidable (a.micros < b.micros))

/-- Microseconds since 1970 by the clock that shows the instant. -/
def shown (t : Instant) : Int := t.micros + t.offset.getD 0

/-- The first moment of the year 1. -/
def first : Int := -62135596800000000

/-- The last moment of the year 9999. -/
def last : Int := 253402300799999999

/-- The instant so many microseconds later, if its clock can show it. -/
def shift? (t : Instant) (micros : Int) : Option Instant :=
  let moved : Instant := { t with micros := t.micros + micros }
  if first ≤ moved.shown ∧ moved.shown ≤ last then some moved else none

/-- The instant so many seconds later, if its clock can show it. -/
def add? (t : Instant) (seconds : Int) : Option Instant := t.shift? (seconds * 1000000)

/-- The same instant on a clock in UTC. -/
def inUtc (t : Instant) : Instant := { t with offset := some 0 }

def wallClock (t : Instant) : WallClock :=
  let seconds := t.shown / 1000000
  let (year, month, day) := WallClock.dateOf (seconds / 86400)
  let inDay := (seconds % 86400).toNat
  ⟨year.toNat, month.toNat, day.toNat, inDay / 3600, inDay / 60 % 60, inDay % 60,
    (t.shown % 1000000).toNat⟩

/-- The instant at which a clock at an offset shows the given date and time. -/
def ofWallClock (t : WallClock) (offset : Option Int) : Instant :=
  let day := WallClock.dayNumber t.year t.month t.day
  let seconds : Int := day * 86400 + t.hour * 3600 + t.minute * 60 + t.second
  ⟨seconds * 1000000 + t.microsecond - offset.getD 0, offset⟩

/-- Hours and minutes from UTC, and seconds and their fraction if there are any. -/
def offsetText (micros : Int) : String :=
  let size := micros.natAbs / 1000000
  let fraction := micros.natAbs % 1000000
  (if micros < 0 then "-" else "+") ++ padded 2 (size / 3600) ++ ":" ++
    padded 2 (size / 60 % 60) ++
    (if size % 60 = 0 ∧ fraction = 0 then ""
    else ":" ++ padded 2 (size % 60) ++ WallClock.fractionText fraction)

/-- The instant with its offset from UTC in digits. -/
def isoText (t : Instant) : String :=
  t.wallClock.isoText ++ (t.offset.map offsetText).getD ""

/-- The instant with its offset from UTC, which is a letter if there is none. -/
def zuluText (t : Instant) : String :=
  if t.offset = some 0 then t.wallClock.isoText ++ "Z" else t.isoText

theorem shift?_eq_some {t u : Instant} {n : Int} (h : t.shift? n = some u) :
    u.micros = t.micros + n := by
  unfold shift? at h
  dsimp only at h
  split at h
  · simp only [Option.some.injEq] at h
    rw [← h]
  · simp at h

theorem add?_eq_some {t u : Instant} {n : Int} (h : t.add? n = some u) :
    u.micros = t.micros + n * 1000000 :=
  shift?_eq_some h

theorem micros_inUtc (t : Instant) : t.inUtc.micros = t.micros := rfl

end Instant

namespace Duration

/-- The longest and the shortest duration, in seconds. -/
def isRepresentable (seconds : Int) : Bool :=
  -86399999913600 ≤ seconds && seconds ≤ 86399999999999

/-- Days if there are any, then hours, minutes and seconds. -/
def text (seconds : Int) : String :=
  let days := seconds / 86400
  let inDay := (seconds % 86400).toNat
  let clock := toString (inDay / 3600) ++ ":" ++ padded 2 (inDay / 60 % 60) ++ ":" ++
    padded 2 (inDay % 60)
  if days = 0 then clock
  else toString days ++ (if days = 1 ∨ days = -1 then " day, " else " days, ") ++ clock

end Duration
end WorkflowEngine

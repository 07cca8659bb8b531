import WorkflowEngine.Kinds
import WorkflowEngine.Text.LowerCase
import WorkflowEngine.Value.Equality
import WorkflowEngine.Value.Integer

/-!
# Trigger filters

A trigger may narrow the events that it reacts to. Only the filters that belong to the kind of the
trigger are looked at, and a filter that is not set lets every event pass.
-/
namespace WorkflowEngine

open Text

structure TriggerFilters where
  sessionId : Option String := none
  keyword : Option String := none
  fromStageId : Option String := none
  toStageId : Option String := none
  tagId : Option String := none
  scheduleTime : Option String := none
  inactivityDays : Option Int := none
  deriving DecidableEq, Repr

namespace TriggerFilters

/-- Null and the empty text stand for a filter that is not set. -/
def isUnset (v : Value) : Bool := v = .null || v = .text ""

/-- A filter as text, if it is set. -/
def readText (data : Value) (name : String) : Shaped (Option String) := do
  let v ← data.field name
  return if isUnset v then none else some v.display

def readInteger (data : Value) (name : String) : Shaped (Option Int) := do
  let v ← data.field name
  if isUnset v then return none
  else return some (← v.toInteger)

/-- The filters among the authored data of a trigger. -/
def ofValue (data : Value) : Shaped TriggerFilters := do
  let sessionId ← readText data "session_id"
  let keyword ← readText data "keyword"
  let fromStageId ← readText data "from_stage_id"
  let toStageId ← readText data "to_stage_id"
  let tagId ← readText data "tag_id"
  let scheduleTime ← readText data "schedule_time"
  let inactivityDays ← readInteger data "inactivity_days"
  return { sessionId, keyword, fromStageId, toStageId, tagId, scheduleTime, inactivityDays }

/-- A filter as a field, if it is set. -/
def textField (name : String) : Option String → Record
  | some s => [(name, .text s)]
  | none => []

/-- The filters that are set. -/
def toRecord (f : TriggerFilters) : Record :=
  textField "session_id" f.sessionId ++ textField "keyword" f.keyword ++
    textField "from_stage_id" f.fromStageId ++ textField "to_stage_id" f.toStageId ++
    textField "tag_id" f.tagId ++ textField "schedule_time" f.scheduleTime ++
    (match f.inactivityDays with
      | some days => [("inactivity_days", .int days)]
      | none => [])

/-- A filter that is set and not empty. -/
def active : Option String → Option String
  | some "" => none
  | filter => filter

/-- Whether a field of the event is the text of a filter. -/
def admits (filter : Option String) (event : Value) (name : String) : Shaped Bool :=
  match active filter with
  | none => .ok true
  | some wanted => do
    let v ← event.field name
    return v.isText wanted

/-- Whether the message of an event has the keyword, without regard to case. -/
def admitsMessage (keyword : Option String) (event : Value) : Shaped Bool :=
  match active keyword with
  | none => .ok true
  | some wanted => do
    let message ← event.field "message"
    let text := lower (message.orElse (.text "")).display
    return occurs (lower wanted) text

/-- Whether both of two filters admit an event; the second is not asked if the first does not. -/
def both (first second : Shaped Bool) : Shaped Bool := do
  if ← first then second else return false

/-- Whether an event passes the filters of a trigger of the given kind. -/
def matchesEvent (f : TriggerFilters) (kind : TriggerKind) (event : Value) : Shaped Bool :=
  match kind with
  | .messageReceived =>
    both (admits f.sessionId event "session_id") (admitsMessage f.keyword event)
  | .leadStageChanged =>
    both (admits f.fromStageId event "old_stage_id") (admits f.toStageId event "new_stage_id")
  | .tagAdded | .tagRemoved => admits f.tagId event "tag_id"
  | .manual | .leadCreated | .scheduled | .inactivity => .ok true

end TriggerFilters
end WorkflowEngine

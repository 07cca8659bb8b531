import WorkflowEngine.Error
import WorkflowEngine.Value.Integer

/-!
# Reading authored graphs

Graphs come as data in the dialects of several editor versions. Every node and every edge is read,
so that all defects are reported together; a graph is the result only if there are none.
-/
namespace WorkflowEngine

/-- A reading whose fault is reported with its node. -/
def Shaped.forNode {α : Type} : Shaped α → Except NodeFault α
  | .ok a => .ok a
  | .error e => .error (.shape e)

namespace NodeFault

/-- A fault that is no defect of the node but ends the reading. -/
def fatal? : NodeFault → Option ShapeError
  | condition (.shape e) | shape e => if e.isReportable then none else some e
  | _ => none

end NodeFault

namespace NodeBody

/-- The kind of a trigger; one older name stands for a change of stage. -/
def triggerKind (v : Value) : Shaped TriggerKind := do
  let _ ← v.key
  if v = .text "stage_change" then return .leadStageChanged else Choice.ofValue TriggerKind v

def readTrigger (data : Value) : Shaped NodeBody := do
  let given ← data.firstField ["trigger_type", "kind"]
  let kind ← triggerKind (given.orElse (Choice.toValue TriggerKind.manual))
  return .trigger kind (← TriggerFilters.ofValue data)

/-- Fields of an action that only serve its display or its kind. -/
def presentationKeys : List String :=
  ["action_type", "actionType", "nodeType", "label", "kind", "description"]

/-- The parameters of an action: its own object of them, or all other fields of its data. -/
def actionParams (data : Value) : Shaped Record := do
  match ← data.field "params" with
  | .object params => return params
  | _ => return (← data.fields "items").filter fun field => !presentationKeys.contains field.1

def readAction (raw data : Value) : Shaped NodeBody := do
  let own ← data.firstField ["action_type", "actionType"]
  let given := own.orElse (← raw.field "action_type")
  let named ← if given.isGiven then pure given else data.required "kind"
  let kind ← Choice.ofValue ActionKind named
  return .action kind (← actionParams data)

/-- The unit of a delay, if one is named. -/
def readUnit (data : Value) : Shaped (Option DelayUnit) := do
  let unit ← data.firstField ["unit", "delay_type"]
  if unit.isGiven then return some (← Choice.ofValue DelayUnit unit) else return none

/-- A number of units under the first of the given names, zero if there is none. -/
def readCount (data : Value) (names : List String) : Shaped Int := do
  return ← ((← data.firstField names).orElse (.int 0)).toInteger

/-- A delay: an amount with a unit, or minutes, hours and days on their own. -/
def readDelay (data : Value) : Shaped NodeBody := do
  data.checkHolds
  let _ ← data.fields "get"
  match data.get? "amount", data.get? "delay_value" with
  | some amount, _ | none, some amount => do
    let amount ← (amount.orElse (.int 0)).toInteger
    return .delay amount (← readUnit data)
  | none, none => do
    let minutes ← readCount data ["delay_minutes", "minutes"]
    let hours ← readCount data ["delay_hours", "hours"]
    let days ← readCount data ["delay_days", "days"]
    return .delay (minutes + hours * 60 + days * 24 * 60) (some .minutes)

/-- What a node of a given type does. -/
def ofTyped (type raw data : Value) : Except NodeFault NodeBody :=
  match type with
  | .text "trigger" => (readTrigger data).forNode
  | .text "condition" =>
    match Predicate.ofValue data with
    | .ok predicate => .ok (.condition predicate)
    | .error e => .error (.condition e)
  | .text "action" => (readAction raw data).forNode
  | .text "delay" => (readDelay data).forNode
  | type => .error (.unknownType type)

end NodeBody

namespace Node

/-- The label of a node, its own or that of its data. -/
def readLabel (raw data : Value) : Shaped String := do
  let own ← raw.field "label"
  if own.isGiven then return own.display
  else return ((← data.field "label").orElse (.text "")).display

/-- A node with an identifier. -/
def ofValue (id : String) (raw : Value) : Except NodeFault Node := do
  let type ← (raw.firstField ["type", "node_type"]).forNode
  let given ← (raw.firstField ["data", "config"]).forNode
  let data := given.orElse (.object [])
  let label ← (readLabel raw data).forNode
  return ⟨id, label, ← NodeBody.ofTyped type raw data⟩

/-- The identifier of a node, empty if it has none. -/
def readId (raw : Value) : Shaped String := do
  return ((← raw.field "id").orElse (.text "")).display

/-- A node at a position, or its defect. -/
def read (position : Nat) (raw : Value) : Shaped (Except Defect Node) := do
  let id ← readId raw
  if id = "" then return .error (.missingNodeId position)
  match ofValue id raw with
  | .ok node => return .ok node
  | .error fault =>
    match fault.fatal? with
    | some e => throw e
    | none => return .error (.invalidNode id fault)

end Node

namespace Edge

/-- An end of an edge under either of its names, empty if it has none. -/
def readEnd (raw : Value) (names : List String) : Shaped String := do
  return ((← raw.firstField names).orElse (.text "")).display

/-- Labels that stand for no branch. -/
def isDefaultLabel (label : Value) : Bool :=
  label = .null || label = .text "" || label = .text "default"

/-- The branch that a label names, in any case. -/
def branchOf? (label : Value) : Option Branch :=
  Choice.ofName? Branch (Text.lower label.display)

/-- An edge, or its defect. -/
def read (raw : Value) : Shaped (Except Defect Edge) := do
  let source ← readEnd raw ["source", "source_node_id"]
  let target ← readEnd raw ["target", "target_node_id"]
  if source = "" ∨ target = "" then return .error (.invalidEdge raw)
  let label ← raw.firstField ["branch", "condition_branch", "sourceHandle", "source_handle"]
  if isDefaultLabel label then return .ok ⟨source, target, none⟩
  match branchOf? label with
  | some branch => return .ok ⟨source, target, some branch⟩
  | none =>
    return .error
      (.invalidBranchLabel (source, target) (← raw.field "source") (← raw.field "target") label)

end Edge

namespace Graph

/-- Reads items with their positions, the first of which is given. -/
def readEach {α : Type} (read : Nat → Value → Shaped (Except Defect α)) :
    Nat → List Value → Shaped (List (Except Defect α))
  | _, [] => return []
  | position, raw :: rest => do
    let first ← read position raw
    return first :: (← readEach read (position + 1) rest)

/-- The results among readings. -/
def sound {α : Type} (readings : List (Except Defect α)) : List α :=
  readings.filterMap Except.toOption

/-- The defects among readings. -/
def faulty {α : Type} (readings : List (Except Defect α)) : List Defect :=
  readings.filterMap fun
    | .ok _ => none
    | .error defect => some defect

/-- Whether a graph is enabled: true unless it says otherwise. -/
def readEnabled (data : Value) : Shaped (Except Defect Bool) := do
  let fields ← data.fields "get"
  let given := match fields.lookup "enabled" with
    | some v => v
    | none => (fields.lookup "is_active").getD .null
  match given with
  | .null => return .ok true
  | .bool b => return .ok b
  | v => return .error (.invalidEnabled v)

/-- A field as text, with what stands for it if it is not given. -/
def readText (data : Value) (name : String) (preset : String) : Shaped String := do
  return ((← data.field name).orElse (.text preset)).display

/-- The readings of a list of items, which may be absent. -/
def readList {α : Type} (data : Value) (name : String)
    (read : Nat → Value → Shaped (Except Defect α)) : Shaped (List (Except Defect α)) := do
  let given := (← data.field name).orElse (.list [])
  readEach read 0 (← given.items)

/-- The graph that authored data describes, or all of its defects. -/
def read (data : Value) : Shaped (Except (String × List Defect) Graph) := do
  let id := ((← data.firstField ["id", "graph_id"]).orElse (.text "")).display
  let nodes ← readList data "nodes" Node.read
  let edges ← readList data "edges" fun _ => Edge.read
  let enabled ← readEnabled data
  let defects := (if id = "" then [.missingGraphId] else []) ++ faulty nodes ++ faulty edges ++
    faulty [enabled]
  match enabled, defects with
  | .ok enabled, [] =>
    let name ← readText data "name" id
    let version ← readText data "version" "1"
    let description ← readText data "description" ""
    return .ok ⟨id, name, version, sound nodes, sound edges, enabled, description⟩
  | _, defects => return .error (if id = "" then "<unnamed>" else id, defects)

/-- Reads a graph; the error lists every defect. -/
def ofValue (data : Value) : Outcome Graph := do
  match ← (read data).toOutcome with
  | .ok graph => return graph
  | .error (id, defects) => throw (.compile id (defects.map Defect.issue))

end Graph
end WorkflowEngine

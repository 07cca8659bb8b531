import WorkflowEngine.ActionParams
import WorkflowEngine.Graph
import WorkflowEngine.Predicate.Authoring

/-!
# Defects of graphs

Everything that can be wrong with an authored graph, found while it is read or while it is checked.
Each defect is reported as an issue: a code, a sentence, and the node or edge that it is about.
-/
namespace WorkflowEngine

/-- Why the data of a node cannot be read. -/
inductive NodeFault where
  | condition (e : ConditionError)
  | shape (e : ShapeError)
  | unknownType (type : Value)
  deriving DecidableEq, Repr

def NodeFault.message : NodeFault → String
  | condition e => e.message
  | shape e => e.message
  | unknownType type => "unknown node type " ++ type.quoted

/-- A defect as it is reported. -/
structure Issue where
  code : String
  message : String
  nodeId : Option String := none
  edge : Option (String × String) := none
  deriving DecidableEq, Repr

inductive Defect where
  | missingGraphId
  | missingNodeId (position : Nat)
  | invalidNode (id : String) (fault : NodeFault)
  | invalidEdge (raw : Value)
  /-- The label of an edge is no branch; the ends are shown as they were authored. -/
  | invalidBranchLabel (ends : String × String) (source target label : Value)
  | invalidEnabled (value : Value)
  | duplicateNodeId (id : String)
  | missingTrigger
  | multipleTriggers (id : String)
  | unknownNode (edge : Edge) (missing : String)
  | triggerHasIncoming (edge : Edge)
  | missingBranchLabel (edge : Edge)
  | unexpectedBranchLabel (edge : Edge)
  | missingBranch (id : String) (branch : Branch)
  | duplicateBranch (id : String) (branch : Branch) (count : Nat)
  | tooManySuccessors (id : String) (kind : NodeKind) (count : Nat)
  | delayWithoutSuccessor (id : String)
  | invalidParams (id : String) (kind : ActionKind) (e : ParamsError)
  | negativeDelay (id : String) (amount : Int)
  | unreachable (id : String)
  | cycle (edge : Edge)
  deriving DecidableEq, Repr

namespace Defect

/-- An edge by its two ends. -/
def arrow (source target : String) : String := source ++ " -> " ++ target

/-- A text between single quotes. -/
def ticked (s : String) : String := "'" ++ s ++ "'"

/-- A text with its first letter in upper case. -/
def capitalized (s : String) : String :=
  match s.toList with
  | c :: rest => String.ofList (c.toUpper :: rest)
  | [] => s

/-- The report of a defect. -/
def issue : Defect → Issue
  | missingGraphId => { code := "missing_graph_id", message := "Graph has no id" }
  | missingNodeId position => {
      code := "missing_node_id"
      message := "Node #" ++ toString position ++ " has no id" }
  | invalidNode id fault => {
      code := "invalid_node"
      message := "Node " ++ ticked id ++ ": " ++ fault.message
      nodeId := some id }
  | invalidEdge raw => {
      code := "invalid_edge"
      message := "Edge " ++ raw.quoted ++ " lacks a source or target" }
  | invalidBranchLabel ends source target label => {
      code := "invalid_branch_label"
      message := "Edge " ++ arrow source.display target.display ++ " has unknown branch label " ++
        label.quoted
      edge := some ends }
  | invalidEnabled value => {
      code := "invalid_enabled"
      message := "enabled must be true or false, got " ++ value.quoted }
  | duplicateNodeId id => {
      code := "duplicate_node_id"
      message := "Node id " ++ ticked id ++ " is used more than once"
      nodeId := some id }
  | missingTrigger => { code := "missing_trigger", message := "Graph has no trigger node" }
  | multipleTriggers id => {
      code := "multiple_triggers"
      message := "Graph has more than one trigger: " ++ ticked id
      nodeId := some id }
  | unknownNode edge missing => {
      code := "unknown_node"
      message := "Edge " ++ arrow edge.source edge.target ++ " references unknown node " ++
        ticked missing
      edge := some edge.ends }
  | triggerHasIncoming edge => {
      code := "trigger_has_incoming"
      message := "Trigger " ++ ticked edge.target ++ " cannot have incoming edges"
      nodeId := some edge.target
      edge := some edge.ends }
  | missingBranchLabel edge => {
      code := "missing_branch_label"
      message := "Edge " ++ arrow edge.source edge.target ++ " needs a true/false label"
      nodeId := some edge.source
      edge := some edge.ends }
  | unexpectedBranchLabel edge => {
      code := "unexpected_branch_label"
      message := "Edge " ++ arrow edge.source edge.target ++ " is labeled but " ++
        ticked edge.source ++ " is not a condition"
      nodeId := some edge.source
      edge := some edge.ends }
  | missingBranch id branch => {
      code := "missing_" ++ branch.name ++ "_branch"
      message := "Condition " ++ ticked id ++ " has no " ++ ticked branch.name ++ " edge"
      nodeId := some id }
  | duplicateBranch id branch count => {
      code := "duplicate_" ++ branch.name ++ "_branch"
      message := "Condition " ++ ticked id ++ " has " ++ toString count ++ " " ++
        ticked branch.name ++ " edges"
      nodeId := some id }
  | tooManySuccessors id kind count => {
      code := "too_many_successors"
      message := capitalized kind.name ++ " " ++ ticked id ++ " has " ++ toString count ++
        " outgoing edges, at most one is allowed"
      nodeId := some id }
  | delayWithoutSuccessor id => {
      code := "delay_without_successor"
      message := "Delay " ++ ticked id ++ " must have exactly one outgoing edge"
      nodeId := some id }
  | invalidParams id kind e => {
      code := "invalid_params"
      message := "Action " ++ ticked id ++ ": " ++ e.message kind
      nodeId := some id }
  | negativeDelay id amount => {
      code := "negative_delay"
      message := "Delay " ++ ticked id ++ " has a negative amount (" ++ toString amount ++ ")"
      nodeId := some id }
  | unreachable id => {
      code := "unreachable"
      message := "Node " ++ ticked id ++ " is unreachable from the trigger"
      nodeId := some id }
  | cycle edge => {
      code := "cycle"
      message := "Edge " ++ arrow edge.source edge.target ++
        " closes a loop; looping definitions are rejected"
      nodeId := some edge.source
      edge := some edge.ends }

/-- Whether the numbers in the report of a defect can be written. -/
def isWritable : Defect → Bool
  | negativeDelay _ amount => Text.Integer.isWritable amount
  | _ => true

end Defect
end WorkflowEngine

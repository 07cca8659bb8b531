import WorkflowEngine.Choice

/-!
# The kinds of things

The closed sets that graphs, events, instances and audit entries are described with.
-/
namespace WorkflowEngine

/-- What a node of a graph does. -/
inductive NodeKind where
  | trigger
  | condition
  | action
  | delay
  deriving DecidableEq, Repr

namespace NodeKind

def all : List NodeKind :=
  [.trigger, .condition, .action, .delay]

def name : NodeKind → String
  | .trigger => "trigger"
  | .condition => "condition"
  | .action => "action"
  | .delay => "delay"

instance : Choice NodeKind where
  title := "NodeKind"
  all := all
  name := name
  mem_all a := by cases a <;> decide
  name_injective a b := by cases a <;> cases b <;> decide

end NodeKind

/-- Events that can start an automation. -/
inductive TriggerKind where
  | manual
  | messageReceived
  | leadCreated
  | leadStageChanged
  | tagAdded
  | tagRemoved
  | scheduled
  | inactivity
  deriving DecidableEq, Repr

namespace TriggerKind

def all : List TriggerKind :=
  [.manual, .messageReceived, .leadCreated, .leadStageChanged, .tagAdded, .tagRemoved, .scheduled,
    .inactivity]

def name : TriggerKind → String
  | .manual => "manual"
  | .messageReceived => "message_received"
  | .leadCreated => "lead_created"
  | .leadStageChanged => "lead_stage_changed"
  | .tagAdded => "tag_added"
  | .tagRemoved => "tag_removed"
  | .scheduled => "scheduled"
  | .inactivity => "inactivity"

instance : Choice TriggerKind where
  title := "TriggerKind"
  all := all
  name := name
  mem_all a := by cases a <;> decide
  name_injective a b := by cases a <;> cases b <;> decide

end TriggerKind

/-- Side effects that an action can request. -/
inductive ActionKind where
  | sendWhatsapp
  | sendEmail
  | moveStage
  | addTag
  | removeTag
  | assignUser
  | createTask
  | sendNotification
  | webhook
  deriving DecidableEq, Repr

namespace ActionKind

def all : List ActionKind :=
  [.sendWhatsapp, .sendEmail, .moveStage, .addTag, .removeTag, .assignUser, .createTask,
    .sendNotification, .webhook]

def name : ActionKind → String
  | .sendWhatsapp => "send_whatsapp"
  | .sendEmail => "send_email"
  | .moveStage => "move_stage"
  | .addTag => "add_tag"
  | .removeTag => "remove_tag"
  | .assignUser => "assign_user"
  | .createTask => "create_task"
  | .sendNotification => "send_notification"
  | .webhook => "webhook"

instance : Choice ActionKind where
  title := "ActionKind"
  all := all
  name := name
  mem_all a := by cases a <;> decide
  name_injective a b := by cases a <;> cases b <;> decide

end ActionKind

/-- Units of delays. -/
inductive DelayUnit where
  | minutes
  | hours
  | days
  deriving DecidableEq, Repr

namespace DelayUnit

def all : List DelayUnit :=
  [.minutes, .hours, .days]

def name : DelayUnit → String
  | .minutes => "minutes"
  | .hours => "hours"
  | .days => "days"

instance : Choice DelayUnit where
  title := "DelayUnit"
  all := all
  name := name
  mem_all a := by cases a <;> decide
  name_injective a b := by cases a <;> cases b <;> decide

end DelayUnit

/-- The two ways out of a condition. -/
inductive Branch where
  | onTrue
  | onFalse
  deriving DecidableEq, Repr

namespace Branch

def all : List Branch :=
  [.onTrue, .onFalse]

def name : Branch → String
  | .onTrue => "true"
  | .onFalse => "false"

instance : Choice Branch where
  title := "BranchLabel"
  all := all
  name := name
  mem_all a := by cases a <;> decide
  name_injective a b := by cases a <;> cases b <;> decide

end Branch

/-- Comparisons of a field. -/
inductive Operator where
  | equals
  | notEquals
  | contains
  | isEmpty
  | isNotEmpty
  deriving DecidableEq, Repr

namespace Operator

def all : List Operator :=
  [.equals, .notEquals, .contains, .isEmpty, .isNotEmpty]

def name : Operator → String
  | .equals => "equals"
  | .notEquals => "not_equals"
  | .contains => "contains"
  | .isEmpty => "is_empty"
  | .isNotEmpty => "is_not_empty"

instance : Choice Operator where
  title := "PredicateOperator"
  all := all
  name := name
  mem_all a := by cases a <;> decide
  name_injective a b := by cases a <;> cases b <;> decide

end Operator

/-- Where an instance stands as a whole. -/
inductive Status where
  | running
  | waitingDelay
  | succeeded
  | failed
  | cancelled
  deriving DecidableEq, Repr

namespace Status

def all : List Status :=
  [.running, .waitingDelay, .succeeded, .failed, .cancelled]

def name : Status → String
  | .running => "running"
  | .waitingDelay => "waiting_delay"
  | .succeeded => "succeeded"
  | .failed => "failed"
  | .cancelled => "cancelled"

instance : Choice Status where
  title := "InstanceStatus"
  all := all
  name := name
  mem_all a := by cases a <;> decide
  name_injective a b := by cases a <;> cases b <;> decide

end Status

/-- What an audit entry records. -/
inductive AuditOutcome where
  | triggered
  | conditionTrue
  | conditionFalse
  | actionDispatched
  | actionSucceeded
  | actionFailed
  | delayed
  | recovered
  | cancelled
  | cancelledPostHoc
  | failed
  deriving DecidableEq, Repr

namespace AuditOutcome

def all : List AuditOutcome :=
  [.triggered, .conditionTrue, .conditionFalse, .actionDispatched, .actionSucceeded, .actionFailed,
    .delayed, .recovered, .cancelled, .cancelledPostHoc, .failed]

def name : AuditOutcome → String
  | .triggered => "triggered"
  | .conditionTrue => "condition_true"
  | .conditionFalse => "condition_false"
  | .actionDispatched => "action_dispatched"
  | .actionSucceeded => "action_succeeded"
  | .actionFailed => "action_failed"
  | .delayed => "delayed"
  | .recovered => "recovered"
  | .cancelled => "cancelled"
  | .cancelledPostHoc => "cancelled_post_hoc"
  | .failed => "failed"

instance : Choice AuditOutcome where
  title := "AuditOutcome"
  all := all
  name := name
  mem_all a := by cases a <;> decide
  name_injective a b := by cases a <;> cases b <;> decide

end AuditOutcome

/-- The length of a unit. -/
def DelayUnit.seconds : DelayUnit → Nat
  | .minutes => 60
  | .hours => 60 * 60
  | .days => 24 * 60 * 60

/-- The branch that an outcome takes. -/
def Branch.ofOutcome (matched : Bool) : Branch := if matched then .onTrue else .onFalse

/-- Whether nothing will change any more. -/
def Status.isTerminal : Status → Bool
  | .succeeded | .failed | .cancelled => true
  | .running | .waitingDelay => false

/-- Whether an action may be repeated when it is unknown if it ran. -/
def ActionKind.isIdempotent : ActionKind → Bool
  | .moveStage | .addTag | .removeTag | .assignUser => true
  | .sendWhatsapp | .sendEmail | .createTask | .sendNotification | .webhook => false

end WorkflowEngine

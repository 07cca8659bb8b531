import WorkflowEngine.Api.Site
import WorkflowEngine.Simulation.Script

/-!
# The workbench of a script

The engine, the planned invocations, the faults that are switched on, and the actions that have been
invoked.
-/
namespace WorkflowEngine.Simulation

/-- What an instruction shows. -/
inductive Report where
  | nothing
  | text (s : String)
  | optionalText (s : Option String)
  | texts (ss : List String)
  | flag (b : Bool)
  | flags (bs : List Bool)
  | number (n : Int)
  | version (v : Version)
  | numbers (ns : List Nat)
  | plan (p : Plan)
  | registry (latest : List String) (versions : List (String × Outcome (List String)))
      (present : List (String × Bool))
  | created (id : InstanceId) (isNew : Bool)
  | inst (i : Option Instance)
  | step (s : Option Step)
  | page (ids : List InstanceId) (total : Nat)
  | trail (entries : List AuditEntry)
  | reply (r : Reply)
  | savedGraph (g : SavedGraph)
  | graph (g : Option Graph)
  | versions (vs : List (String × String))
  | loaded (count : Nat) (latest : List String)
  | response (r : Api.Response)

/-- The invocation of an action as it is seen by its handler. -/
structure Invoked where
  kind : ActionKind
  params : Value
  context : Record
  deriving DecidableEq, Repr

/-- Instructions that come in between after a request to the store. -/
structure Interrupt where
  method : StoreMethod
  leftOut : Nat
  script : List Instruction

structure Workbench where
  engine : Engine
  invoker : Invoker Instruction
  site : Api.Site := {}
  /-- Whether the worker in the background has not finished its first poll. -/
  isStarting : Bool := false
  brokenMethods : List StoreMethod := []
  isTrailBroken : Bool := false
  interrupt : Option Interrupt := none
  invoked : List Invoked := []

namespace Workbench

def env (w : Workbench) : Env := w.engine.env

/-- The environment as if it were so many microseconds later. -/
def envAt (w : Workbench) (offset : Option Int) : Outcome Env := do
  let time ← moment? w.engine.now offset
  return { w.env with now := time.getD w.engine.now }

/-- The instructions that come in between after a request, and the workbench without them. -/
def interruptAfter (w : Workbench) (method : StoreMethod) : List Instruction × Workbench :=
  match w.interrupt with
  | none => ([], w)
  | some i =>
    if i.method ≠ method then ([], w)
    else
      match i.leftOut with
      | 0 => (i.script, { w with interrupt := none })
      | n + 1 => ([], { w with interrupt := some { i with leftOut := n } })

/-- Carries out a request to the store, unless its method is broken. -/
def askStore (w : Workbench) (r : StoreRequest) : Outcome r.Answer × List Instruction × Workbench :=
  if w.brokenMethods.contains r.method then (.error (.unavailable "store unavailable"), [], w)
  else
    let (answer, engine) := w.engine.perform r
    let w := { w with engine }
    match answer with
    | .ok a =>
      let (script, w) := w.interruptAfter r.method
      (.ok a, script, w)
    | .error e => (.error e, [], w)

/-- Invokes an action: its reply, and what goes on while it is in flight. -/
def askInvoker (w : Workbench) (isRouted : Bool) (i : Invoked) :
    Reply × List Instruction × Workbench :=
  match w.invoker.taker? isRouted i.kind with
  | none => (.result (Invoker.unhandled i.kind), [], w)
  | some lets =>
    let (planned, invoker) := w.invoker.next isRouted i.kind
    let w := { w with invoker, invoked := w.invoked ++ [i] }
    (planned.ending.reply isRouted, if lets then planned.meanwhile else [], w)

/-- Answers a request, with the instructions to be carried out before the answer arrives. -/
def ask (w : Workbench) : (r : Request) → r.Answer × List Instruction × Workbench
  | .store r => w.askStore r
  | .append entry =>
    ((), [], if w.isTrailBroken then w else { w with engine := w.engine.append entry })
  | .invoke kind params context => w.askInvoker w.invoker.isRouted ⟨kind, params, context⟩

end Workbench
end WorkflowEngine.Simulation

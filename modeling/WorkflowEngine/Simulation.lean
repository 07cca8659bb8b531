import WorkflowEngine.Simulation.Execution

/-!
# Simulations

A script is carried out on a stack: on top are the instructions or the task that go on now, below
are the tasks that they interrupt. Of each instruction one observes what it shows, what was carried
out in between, and what has changed. A site is simulated by a script of requests.
-/
namespace WorkflowEngine.Simulation

inductive Frame where
  /-- Instructions that are still to be carried out. -/
  | script (rest : List Instruction)
  /-- A task that makes its next request. -/
  | task (t : Task)
  /-- A task whose request has been answered. -/
  | answered (t : Task) (answer : t.request.Answer)

structure Machine where
  bench : Workbench
  stack : List Frame
  /-- The reports of the instructions that came in between. -/
  nested : List (Outcome Report)
  /-- The report of the instruction at the bottom. -/
  report : Outcome Report

namespace Machine

/-- Takes up a task or the report in its place, above the frames that stay on the stack. -/
def settle (m : Machine) (bench : Workbench) (stack : List Frame) :
    Progress Task Report → Machine
  | .waiting t => { m with bench, stack := .task t :: stack }
  | .ended r =>
    if stack.isEmpty then { m with bench, stack, report := r }
    else { m with bench, stack, nested := m.nested ++ [r] }

/-- Carries out an instruction, makes a request, or delivers an answer. -/
def tick (m : Machine) : Machine :=
  match m.stack with
  | [] => m
  | .script [] :: stack => { m with stack }
  | .script (i :: rest) :: stack =>
    let (w, p) := m.bench.begin i
    m.settle w (.script rest :: stack) p
  | .task t :: stack =>
    let (answer, script, bench) := t.perform m.bench
    let stack := .answered t answer :: stack
    { m with bench, stack := if script.isEmpty then stack else .script script :: stack }
  | .answered t answer :: stack => m.settle m.bench stack (t.resume m.bench.env answer)

/-- Goes on until nothing is left to do, for so many ticks at most. -/
def run : Nat → Machine → Machine
  | 0, m => m
  | n + 1, m => if m.stack.isEmpty then m else run n m.tick

/-- An instruction that has been begun. -/
def ofBegun (b : Begun) : Machine :=
  settle ⟨b.1, [], [], .ok .nothing⟩ b.1 [] b.2

end Machine

/-- The number of ticks that an instruction may take with all that comes in between. -/
def maxTicks : Nat := Nat.pow 10 12

/-- What one observes of an instruction. -/
structure Observation where
  report : Outcome Report
  /-- The reports of what came in between. -/
  nested : List (Outcome Report)
  /-- The entries that were appended to the audit trail. -/
  entries : List AuditEntry
  invoked : List Invoked
  /-- The instances that are not as they were last shown. -/
  changed : List Instance

/-- Carries out an instruction. -/
def execute (w : Workbench) (i : Instruction) : Workbench × Observation :=
  let before := w.engine
  let m := ((Machine.ofBegun ({ w with invoked := [] }.begin i)).run maxTicks)
  let after := m.bench.engine
  (m.bench, {
    report := m.report
    nested := m.nested
    entries := after.trail.drop before.trail.length
    invoked := m.bench.invoked
    changed := after.store.instances.filter fun i => !before.store.instances.contains i })

/-- Carries out a script. -/
def play (w : Workbench) : List Instruction → List Observation
  | [] => []
  | i :: rest =>
    let (w, o) := execute w i
    o :: play w rest

namespace Workbench

/-- What a worker does in the background after a request. -/
def backgroundWork (w : Workbench) : Workbench :=
  if w.site.hasWorker then (execute w (.background "worker" false)).1 else w

/-- The workbench after the first poll of a worker. All share one connection to the table, and the
poll ends in a rollback: it takes back the instance that the first request has created meanwhile. -/
def finishStart (before w : Workbench) : Workbench :=
  match w.isStarting, before.engine.store, w.engine.store with
  | true, .table s, .table t =>
    let store :=
      if s.created < t.created then t.rollback (Instance.idOf (s.created + 1)) else t
    { w with engine := { w.engine with store := .table store }, isStarting := false }
  | _, _, _ => { w with isStarting := false }

/-- Carries out requests, letting the worker in the background work after each. -/
def visit (w : Workbench) : List Instruction → List (Outcome Report)
  | [] => []
  | i :: rest =>
    let (next, o) := execute w i
    o.report :: visit (backgroundWork (finishStart w next)) rest

/-- Starts the site and carries out requests. -/
def serveAll? (w : Workbench) (requests : List Instruction) : Outcome (List (Outcome Report)) := do
  let engine ← w.restarted
  return visit { w with engine, isStarting := w.site.hasWorker } requests

end Workbench
end WorkflowEngine.Simulation

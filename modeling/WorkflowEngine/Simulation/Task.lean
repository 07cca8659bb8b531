import WorkflowEngine.Simulation.Workbench

/-!
# Tasks of a script

An instruction that makes requests is a task until it is done.
-/
namespace WorkflowEngine.Simulation

inductive Task where
  | call (c : Call)
  /-- A call for a request of the web service. -/
  | serve (c : Call)
  /-- A request to the store by the script itself. -/
  | ask (r : StoreRequest)
  /-- A handler is invoked by the script itself. -/
  | invoke (kind : ActionKind) (params : Value) (context : Record)
  | stepping (v : Invocation) (isSaved : Bool)
  | savingStep (s : Step) (expected : Version)
  /-- Passes, of which some more may follow, after those with the given counts. -/
  | draining (worker : String) (more : Nat) (counts : List Nat) (p : Pass)
  | sweeping (worker : String) (s : Sweep)
  | passing (worker : String) (sweeps : Bool) (p : Pass)

namespace Task

def request : Task → Request
  | call c => c.request
  | serve c => c.request
  | ask r => .store r
  | invoke kind params context => .invoke kind params context
  | stepping v _ => .invoke v.kind v.params v.base.context
  | savingStep s expected => .store (.save s.next expected)
  | draining _ _ _ p => p.request
  | sweeping _ s => s.request
  | passing _ _ p => p.request

/-- What a script shows of a call that has ended. -/
def callReport : CallResult → Report
  | .started id => .optionalText id
  | .listed ids => .texts ids
  | .left i => .text i.status.name
  | .claimed count => .number count

/-- What a script shows of an answer of the store. -/
def answerReport : (r : StoreRequest) → r.Answer → Report
  | .create _, answer =>
    match (answer : Instance × Bool) with
    | (i, isNew) => .created i.id isNew
  | .load _, i => .inst (some i)
  | .save _ _, i => .version (show Instance from i).version
  | .claim _ _ _ _, i => .inst i
  | .listDue _ _, is => .texts (List.map Instance.id is)
  | .listStale _ _, is => .texts (List.map Instance.id is)
  | .listForGraph _ _ _ _, page =>
    match (page : List Instance × Nat) with
    | (is, total) => .page (is.map (·.id)) total

/-- The number of passes after which a drain stops. -/
def maxPasses : Nat := 50

/-- The report of a worker in the background: it was running and has been stopped. -/
def stopped : Outcome Report := .ok (.flags [true, false])

/-- One round of a worker in the background: a sweep, if it makes them, and a pass. -/
def startRound (env : Env) (worker : String) (sweeps : Bool) : Progress Task Report :=
  if sweeps then
    match Sweep.start env none none with
    | .ok s => .waiting (.sweeping worker s)
    | .error _ => .ended stopped
  else .waiting (.passing worker sweeps (Pass.start env worker none))

/-- Stores the step of an instruction if so wished. -/
def finishStep (s : Step) (base : Instance) (isSaved : Bool) : Progress Task Report :=
  if isSaved then .waiting (.savingStep s base.version) else .ended (.ok (.step (some s)))

/-- Goes on with a task after an answer. -/
def resume (env : Env) : (t : Task) → t.request.Answer → Progress Task Report
  | call c, answer => (c.resume env answer).map .call callReport
  | serve c, answer =>
    match c.resume env answer with
    | .waiting c => .waiting (.serve c)
    | .ended r => .ended (.ok (.response (Api.resultResponse r)))
  | ask r, answer =>
    match (answer : Outcome r.Answer) with
    | .ok a => .ended (.ok (answerReport r a))
    | .error e => .ended (.error e)
  | invoke _ _ _, answer => .ended (.ok (.reply answer))
  | stepping v isSaved, answer =>
    match (Reply.settle answer).toOutcome.bind (v.conclude env.config) with
    | .ok s => finishStep s v.base isSaved
    | .error e => .ended (.error e)
  | savingStep s _, answer =>
    match (answer : Outcome Instance) with
    | .ok _ => .ended (.ok (.step (some s)))
    | .error e => .ended (.error e)
  | draining worker more counts p, answer =>
    match p.resume env answer, more with
    | .waiting p, more => .waiting (.draining worker more counts p)
    | .ended (.ok (count + 1)), more + 1 =>
      .waiting (.draining worker more (counts ++ [count + 1]) (Pass.start env worker none))
    | .ended (.ok count), _ => .ended (.ok (.numbers (counts ++ [count])))
    | .ended (.error e), _ => .ended (.error e)
  | sweeping worker s, answer =>
    match s.resume answer with
    | .waiting s => .waiting (.sweeping worker s)
    | .ended (.ok _) => .waiting (.passing worker true (Pass.start env worker none))
    | .ended (.error _) => .ended stopped
  | passing worker sweeps p, answer =>
    match p.resume env answer with
    | .waiting p => .waiting (.passing worker sweeps p)
    | .ended (.ok (_ + 1)) => startRound env worker sweeps
    | .ended _ => .ended stopped

/-- Makes the request of a task. -/
def perform (w : Workbench) : (t : Task) → t.request.Answer × List Instruction × Workbench
  | invoke kind params context => w.askInvoker true ⟨kind, params, context⟩
  | t => w.ask t.request

end Task
end WorkflowEngine.Simulation

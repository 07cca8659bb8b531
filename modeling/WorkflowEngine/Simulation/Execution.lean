import WorkflowEngine.Simulation.Task

/-!
# Carrying out instructions

An instruction is done at once or becomes a task.
-/
namespace WorkflowEngine.Simulation

/-- An instruction that has been begun: the workbench, and its report or its task. -/
abbrev Begun := Workbench × Progress Task Report

namespace Workbench

/-- A report of something that changes nothing. -/
def show? (w : Workbench) (r : Outcome Report) : Begun := (w, .ended r)

/-- A report that comes with a change of the engine. -/
def update (w : Workbench) (r : Outcome (Report × Engine)) : Begun :=
  match r with
  | .ok (report, engine) => ({ w with engine }, .ended (.ok report))
  | .error e => (w, .ended (.error e))

/-- A task, or why there is none. -/
def launch (w : Workbench) (t : Outcome Task) : Begun :=
  match t with
  | .ok t => (w, .waiting t)
  | .error e => (w, .ended (.error e))

/-- A call that has been started. -/
def launchCall (w : Workbench) (p : Progress Call CallResult) : Begun :=
  (w, p.map .call Task.callReport)

/-- The instance with an identifier, read without anybody noticing. -/
def peek (w : Workbench) (id : InstanceId) : Outcome Instance := w.engine.store.load id

def event (kind : Value) (context : Record) (key : Option String) : Outcome Event := do
  return ⟨← (Choice.ofValue TriggerKind kind).toOutcome, context, key⟩

/-- The names of the latest plans. -/
def latestVersions (r : Registry) : List String := r.latestPlans.map (·.version)

def register (w : Workbench) (graph : Value) : Outcome (Report × Engine) := do
  let g ← Graph.ofValue graph
  let (p, registry) ← w.engine.registry.register g
  return (.plan p, { w.engine with registry })

def addPlan (w : Workbench) (graph : Value) (isLatest : Bool) : Outcome (Report × Engine) := do
  let g ← Graph.ofValue graph
  let p ← Plan.ofGraph w.engine.registry.config g
  let held := w.engine.registry.held p
  return (.text held.version, { w.engine with registry := w.engine.registry.add p isLatest })

def inspect (w : Workbench) (graphIds : List String) : Report :=
  let r := w.engine.registry
  .registry (latestVersions r) (graphIds.map fun id => (id, r.versions id))
    (graphIds.map fun id => (id, r.has id))

/-- A visit to the node under the cursor of an instance. -/
def step (w : Workbench) (id : InstanceId) (time : Option Int) (isSaved : Bool) :
    Outcome (Progress Task Report) := do
  let i ← w.peek id
  let env ← w.envAt time
  match ← visit env i with
  | .done s => return Task.finishStep s i isSaved
  | .invoke v => return .waiting (.stepping v isSaved)

def recoverAt (w : Workbench) (id : InstanceId) (time : Option Int) : Outcome Report := do
  let i ← w.peek id
  let env ← w.envAt time
  return .step (← recover env i)

/-- A write of an instance with changes. -/
def saveTask (w : Workbench) (id : InstanceId) (changes : List Change) (expected : Option Version) :
    Outcome Task := do
  let i ← w.peek id
  let d ← Change.applyAll w.engine.now i.toDraft changes
  return .ask (.save { d with id } (expected.getD i.version))

def claimTask (id : InstanceId) (source target : Value) (owner : Option String) : Outcome Task := do
  let source ← (Choice.ofValue Status source).toOutcome
  let target ← (Choice.ofValue Status target).toOutcome
  return .ask (.claim id source target owner)

def pageTask (graphId : String) (status : Value) (limit offset : Int) : Outcome Task := do
  let status ← match status with
    | .null => pure none
    | v => some <$> (Choice.ofValue Status v).toOutcome
  return .ask (.listForGraph graphId status limit offset)

def saveGraph (w : Workbench) (graph : Value) : Outcome (Report × Engine) := do
  let g ← Graph.ofValue graph
  let p ← Plan.ofGraph w.engine.registry.config g
  let (row, s) := (w.engine.savedGraphs.getD .empty).save g p
  return (.savedGraph row, { w.engine with savedGraphs := some s })

/-- The saved graphs, if they are kept. -/
def graphStore (w : Workbench) : GraphStore := w.engine.savedGraphs.getD .empty

def deleteGraph (w : Workbench) (graphId : String) : Report × Engine :=
  let (count, s) := w.graphStore.delete graphId
  (.number count, { w.engine with savedGraphs := some s })

/-- Loads the saved graphs, on wish after unregistering all others. -/
def loadGraphs (w : Workbench) (anew : Bool) : Outcome (Report × Engine) := do
  let r := w.engine.registry
  let r := if anew then (r.latestPlans.map (·.graphId)).foldl Registry.unregister r else r
  let registry ← w.graphStore.loadInto r
  return (.number w.graphStore.rows.length, { w.engine with registry })

def loadGraphsWith (w : Workbench) (options : Record) : Outcome Report := do
  match EngineConfig.ofRecord options with
  | .ok config =>
    let r ← w.graphStore.loadInto (Registry.empty config)
    return .loaded w.graphStore.rows.length (latestVersions r)
  | .error e => throw (.configuration e)

/-- The engine after a start of the site over the same stores. -/
def restarted (w : Workbench) : Outcome Engine := do
  let add (r : Registry) (graph : Value) : Outcome Registry := do
    let g ← Graph.ofValue graph
    return (← r.register g).2
  let r ← w.site.graphs.foldlM add (Registry.empty w.engine.registry.config)
  w.site.check.mapError Error.pattern
  let registry ← match w.engine.savedGraphs with
    | some s => s.loadInto r
    | none => pure r
  return { w.engine with registry }

/-- Serves a request of the web service. -/
def serve (w : Workbench) (r : Api.HttpRequest) : Begun :=
  match Api.serve w.site w.engine r with
  | .answered response engine => ({ w with engine }, .ended (.ok (.response response)))
  | .calling c => (w, .waiting (.serve c))

/-- Begins an instruction. -/
def begin (w : Workbench) : Instruction → Begun
  | .register graph => w.update (w.register graph)
  | .addPlan graph isLatest => w.update (w.addPlan graph isLatest)
  | .unregister graphId => w.update (.ok (.nothing,
      { w.engine with registry := w.engine.registry.unregister graphId }))
  | .getPlan graphId version =>
    w.show? ((w.engine.registry.plan graphId version).map fun p => .text p.version)
  | .inspect graphIds => w.show? (.ok (w.inspect graphIds))
  | .emit kind graphId context key =>
    match event kind context key with
    | .ok e => w.launchCall (Call.startEmit w.env e graphId)
    | .error e => w.show? (.error e)
  | .dispatch kind context key =>
    match event kind context key with
    | .ok e => w.launchCall (Call.startDispatch w.env e)
    | .error e => w.show? (.error e)
  | .create fields => w.launch do
      let d ← Change.applyAll w.engine.now (blankDraft w.engine.now) fields
      return .ask (.create d)
  | .advance micros => w.update do
      let now ← moment w.engine.now micros
      return (.text now.isoText, { w.engine with now })
  | .plan kind planned =>
    let queues := Invoker.push w.invoker.queues kind
      (planned.map fun (meanwhile, ending) => ⟨meanwhile, ending⟩)
    ({ w with invoker := { w.invoker with queues } }, .ended (.ok .nothing))
  | .handle kind lets =>
    match Choice.ofValue ActionKind kind with
    | .ok kind =>
      let handlers := Keyed.put kind lets w.invoker.handlers
      ({ w with invoker := { w.invoker with handlers } }, .ended (.ok .nothing))
    | .error e => w.show? (.error (.shape e))
  | .hasHandler kind => w.show? do
      let kind ← (Choice.ofValue ActionKind kind).toOutcome
      return .flag (w.invoker.handlers.lookup kind).isSome
  | .invoke kind params context => w.launch do
      return .invoke (← (Choice.ofValue ActionKind kind).toOutcome) params context
  | .breakTrail isBroken => ({ w with isTrailBroken := isBroken }, .ended (.ok .nothing))
  | .breakStore method isBroken =>
    let others := w.brokenMethods.filter (· ≠ method)
    let brokenMethods := if isBroken then method :: others else others
    ({ w with brokenMethods }, .ended (.ok .nothing))
  | .interrupt method leftOut script =>
    ({ w with interrupt := some ⟨method, leftOut, script⟩ }, .ended (.ok .nothing))
  | .poll worker time limit => w.launch do
      return .call (.poll (Poll.start w.env worker (← moment? w.engine.now time) limit))
  | .run id worker => (w, .waiting (.call (.run (Run.start id worker))))
  | .pass worker time => w.launch do
      return .call (.pass (Pass.start w.env worker (← moment? w.engine.now time)))
  | .drain worker =>
    (w, .waiting (.draining worker (Task.maxPasses - 1) [] (Pass.start w.env worker none)))
  | .background worker sweeps => (w, Task.startRound w.env worker sweeps)
  | .sweep time grace => w.launch do
      return .call (.sweep (← Sweep.start w.env (← moment? w.engine.now time) grace))
  | .step id time isSaved => (w, Progress.ofOutcome (w.step id time isSaved))
  | .recover id time => w.show? (w.recoverAt id time)
  | .save id changes expected => w.launch (w.saveTask id changes expected)
  | .saveUnknown id =>
    (w, .waiting (.ask (.save { blankDraft w.engine.now with id } (.count 0))))
  | .claim id source target owner => w.launch (claimTask id source target owner)
  | .sleep id time => w.launch do
      let i ← w.peek id
      return .ask (.save (i.asleep (← moment w.engine.now time)) i.version)
  | .wake id => w.launch do
      let i ← w.peek id
      return .ask (.save i.released i.version)
  | .cancel id reason => (w, .waiting (.call (.cancel (Cancel.start id reason))))
  | .load id => (w, .waiting (.ask (.load id)))
  | .listDue time limit => w.launch do
      return .ask (.listDue (← moment w.engine.now time) limit)
  | .listStale time limit => w.launch do
      return .ask (.listStale (← moment w.engine.now time) limit)
  | .listForGraph graphId status limit offset => w.launch (pageTask graphId status limit offset)
  | .trail id => w.show? (.ok (.trail (w.engine.trailOf id)))
  | .chart id => w.show? do
      let i ← w.peek id
      return .text (← w.engine.chart i).2
  | .saveGraph graph => w.update (w.saveGraph graph)
  | .latestGraph graphId => w.show? ((w.graphStore.latest? graphId).map .graph)
  | .savedGraphs => w.show? (w.graphStore.listLatest.map fun gs =>
      .versions (gs.map fun g => (g.id, g.version)))
  | .deleteGraph graphId => w.update (.ok (w.deleteGraph graphId))
  | .loadGraphs anew => w.update (w.loadGraphs anew)
  | .loadGraphsWith options => w.show? (w.loadGraphsWith options)
  | .serve r => w.serve r
  | .restart => w.update do return (.nothing, ← w.restarted)

end Workbench
end WorkflowEngine.Simulation

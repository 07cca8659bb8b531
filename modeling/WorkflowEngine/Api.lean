import WorkflowEngine.Api.Documents
import WorkflowEngine.Api.Resource
import WorkflowEngine.Api.Response
import WorkflowEngine.Engine
import WorkflowEngine.Value.JsonReader

/-!
# The web service

Graphs can be saved, read, drawn and deleted, events reported, and instances read, drawn and
cancelled. A request is answered at once, or is a call of the engine whose result is answered.
-/
namespace WorkflowEngine.Api

structure HttpRequest where
  method : Method
  target : Target
  body : Value
  deriving DecidableEq, Repr

/-- What a request comes to. -/
inductive Service where
  | answered (r : Response) (e : Engine)
  | calling (c : Call)

/-- An event in the body of a request. -/
def eventOf (kind : TriggerKind) (body : Value) : Event where
  kind
  context := match body.get? "event_context" with
    | some (.object fields) => fields
    | _ => []
  key := match body.get? "dedupe_key" with
    | some (.text key) => some key
    | _ => none

/-- The kind of events that a request names. -/
def triggerKind (v : Value) : Except Response TriggerKind :=
  match Choice.ofValue TriggerKind v with
  | .ok kind => .ok kind
  | .error _ => .error (.refusal 400 ("Unknown trigger kind '" ++ v.display ++ "'"))

/-- The status that a request filters by, if any. -/
def statusFilter (t : Target) : Except Response (Option Status) :=
  match t.param? "status" with
  | none | some "" => .ok none
  | some s =>
    match Choice.ofName? Status s with
    | some status => .ok (some status)
    | none => .error (.refusal 400 ("Unknown instance status '" ++ s ++ "'"))

/-- A number among the parameters of a request. It may be written with a point or an exponent. -/
def numberParam (t : Target) (name : String) (preset : Int) : Int :=
  match (t.param? name).bind Value.ofJson? with
  | some (.int n) => n
  | some (.float x) => if x.isWhole then x.truncate else preset
  | _ => preset

/-- The response to a result, or to the error in its place. -/
def respond (r : Outcome Response) : Response :=
  match r with
  | .ok response => response
  | .error e => e.response

/-- The response to a call that has ended. -/
def resultResponse : Outcome CallResult → Response
  | .ok (.started id) => ⟨201, startedDocument id.toList⟩
  | .ok (.listed ids) => ⟨201, startedDocument ids⟩
  | .ok (.left i) => ⟨201, instanceDocument i⟩
  | .ok (.claimed _) => .internalError
  | .error e => e.response

/-- A call as a service: it is answered at once if it has nothing to ask for. -/
def ofProgress (e : Engine) : Progress Call CallResult → Service
  | .waiting c => .calling c
  | .ended r => .answered (resultResponse r) e

/-- Compiles a graph, makes it the latest version, and saves it if there is a store for it. -/
def saveGraph (e : Engine) (body : Value) : Service :=
  let saved : Outcome (Plan × Engine) := do
    let g ← Graph.ofValue body
    let (p, registry) ← e.registry.register g
    return (p, { e with registry, savedGraphs := e.savedGraphs.map fun s => (s.save g p).2 })
  match saved with
  | .ok (p, e) => .answered ⟨201, planDocument p⟩ e
  | .error err => .answered err.response e

/-- Removes a graph with all of its versions. -/
def deleteGraph (e : Engine) (id : String) : Service :=
  if e.registry.has id then
    .answered .empty { e with
      registry := e.registry.unregister id
      savedGraphs := e.savedGraphs.map fun s => (s.delete id).2 }
  else .answered (Error.graphNotFound id).response e

def readGraph (e : Engine) (id : String) (version : Option String) : Outcome Response := do
  let p ← e.registry.plan id version
  return ⟨200, graphDocument p (← e.registry.versions id)⟩

/-- The chart of the latest plan of a graph, or only its nodes and edges. -/
def drawGraph (e : Engine) (id form : String) : Outcome Response := do
  let p ← e.registry.latestPlan id
  if form = "mermaid" then return ⟨200, chartDocument p (Diagram.chart p)⟩
  else if form = "json" then return ⟨200, chartDocument p ""⟩
  else return .refusal 404 ("Unknown format: " ++ form)

def listInstances (e : Engine) (id : String) (t : Target) : Response :=
  match statusFilter t with
  | .error r => r
  | .ok status => respond do
    let limit := numberParam t "limit" 50
    let offset := numberParam t "offset" 0
    let (page, _) ← e.store.listForGraph id status limit offset
    return ⟨200, .list (page.map instanceDocument)⟩

def readInstance (e : Engine) (id : InstanceId) : Outcome Response := do
  let i ← e.store.load id
  return ⟨200, trailDocument i (e.trailOf id)⟩

def drawInstance (e : Engine) (id : InstanceId) : Outcome Response := do
  let i ← e.store.load id
  let (p, chart) ← e.chart i
  return ⟨200, chartDocument p chart⟩

/-- Reports an event to one graph; it is of the kind that the graph listens for unless it says
otherwise. -/
def emitEvent (e : Engine) (id : String) (body : Value) : Service :=
  match (body.get? "trigger_kind").getD .null with
  | .null =>
    match e.registry.latestPlan id with
    | .ok p =>
      match p.triggerKind? with
      | some kind => ofProgress e (Call.startEmit e.env (eventOf kind body) id)
      | none => .answered .internalError e
    | .error err => .answered err.response e
  | given =>
    match triggerKind given with
    | .ok kind => ofProgress e (Call.startEmit e.env (eventOf kind body) id)
    | .error r => .answered r e

/-- Reports an event to every graph that listens for its kind. -/
def dispatchEvent (e : Engine) (body : Value) : Service :=
  match triggerKind ((body.get? "trigger_kind").getD .null) with
  | .ok kind => ofProgress e (Call.startDispatch e.env (eventOf kind body))
  | .error r => .answered r e

/-- Serves a request to a resource. -/
def serveResource (e : Engine) (r : HttpRequest) (resource : Resource InstanceId) : Service :=
  match resource, r.method with
  | _, .options => .answered .empty e
  | .graphs, .post => saveGraph e r.body
  | .graphs, .get => .answered ⟨200, .list (e.registry.latestPlans.map planDocument)⟩ e
  | .graph id, .get => .answered (respond (readGraph e id (r.target.param? "plan_version"))) e
  | .graph id, .delete => deleteGraph e id
  | .graphInstances id, .get => .answered (listInstances e id r.target) e
  | .graphChart id, .get =>
    .answered (respond (drawGraph e id ((r.target.param? "graph_format").getD "mermaid"))) e
  | .graphEvents id, .post => emitEvent e id r.body
  | .events, .post => dispatchEvent e r.body
  | .inst id, .get => .answered (respond (readInstance e id)) e
  | .instanceChart id, .get => .answered (respond (drawInstance e id)) e
  | .cancellation id, .post => .calling (.cancel (Cancel.start id (r.target.param? "reason")))
  | _, _ => .answered .unknownMethod e

/-- Refuses a request. -/
def refuse (e : Engine) (r : HttpRequest) (response : Response) : Service :=
  .answered (if r.method = .head then response.withoutBody else response) e

/-- Serves a request to a route. The method is looked at before what the path names. A placeholder
of the base gives the parameter of its name. -/
def serveRoute (e : Engine) (r : HttpRequest) (route : Route) : Service :=
  if r.method ∈ .options :: route.resource.methods then
    match route.flaw?, route.resource? with
    | some .failed, _ => refuse e r .internalError
    | none, some resource =>
      let target := { r.target with params := r.target.params ++ route.params }
      serveResource e { r with target } resource
    | _, _ => refuse e r .unknownPath
  else refuse e r .unknownMethod

/-- Serves a request to a site. -/
def serve (site : Site) (e : Engine) (r : HttpRequest) : Service :=
  match site.pattern?.bind fun base => Route.find? base r.target.path with
  | some route => serveRoute e r route
  | none => refuse e r .unknownPath

end WorkflowEngine.Api

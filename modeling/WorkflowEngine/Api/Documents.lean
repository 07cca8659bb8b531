import WorkflowEngine.Diagram

/-!
# Documents of the web service

Plans, instances and audit trails as they are sent to clients.
-/
namespace WorkflowEngine.Api

/-- A time in a document. -/
def timeValue (t : Instant) : Value := .text t.zuluText

def timeValue? : Option Instant → Value
  | some t => timeValue t
  | none => .null

/-- What a plan is: its graph, its version, and its nodes in order. -/
def planFields (p : Plan) : Record :=
  [("graph_id", .text p.graphId), ("name", .text p.name), ("version", .text p.graphVersion),
    ("plan_version", .text p.version), ("enabled", .bool p.enabled),
    ("trigger_kind", match p.triggerKind? with
      | some kind => Choice.toValue kind
      | none => .null),
    ("nodes", .list (p.order.map Value.text))]

def planDocument (p : Plan) : Value := .object (planFields p)

/-- A plan with its graph and all versions of it. -/
def graphDocument (p : Plan) (versions : List String) : Value :=
  .object (planFields p ++
    [("definition", p.source.toValue), ("plan_versions", .list (versions.map Value.text))])

/-- A chart with the nodes and edges of its plan. -/
def chartDocument (p : Plan) (chart : String) : Value :=
  .object [("mermaid_source", .text chart), ("nodes", Diagram.nodesValue p),
    ("edges", Diagram.edgesValue p)]

def instanceFields (i : Instance) : Record :=
  [("id", .text i.id), ("graph_id", .text i.graphId), ("plan_version", .text i.planVersion),
    ("status", Choice.toValue i.status), ("current_node_id", .text i.cursor),
    ("resume_at", timeValue? i.resumeAt), ("created_at", timeValue i.createdAt),
    ("completed_at", timeValue? i.completedAt), ("error", .ofText? i.error)]

def instanceDocument (i : Instance) : Value := .object (instanceFields i)

def entryDocument (entry : AuditEntry) : Value :=
  .object [("node_id", .ofText? entry.node), ("outcome", Choice.toValue entry.outcome),
    ("detail", .object entry.detail), ("timestamp", timeValue entry.time)]

/-- The numbers of invocations. -/
def attemptsValue (attempts : List (String × Int)) : Value :=
  .object (attempts.map fun (node, count) => (node, .int count))

/-- An instance with its event, its attempts, and its trail. -/
def trailDocument (i : Instance) (trail : List AuditEntry) : Value :=
  .object (instanceFields i ++
    [("event_context", .object i.context), ("attempts", attemptsValue i.attempts),
      ("audit_trail", .list (trail.map entryDocument))])

/-- The instances that an event has started. -/
def startedDocument (ids : List InstanceId) : Value :=
  .object [("accepted", .bool !ids.isEmpty), ("instance_ids", .list (ids.map Value.text))]

end WorkflowEngine.Api

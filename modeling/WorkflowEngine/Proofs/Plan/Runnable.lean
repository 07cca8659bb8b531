import Mathlib.Logic.Relation
import Mathlib.Order.WellFounded
import WorkflowEngine.Plan.Compilation
import WorkflowEngine.Proofs.Graph.Acyclic

/-!
# Runnable plans

Every plan that is made of a graph starts at one of its nodes, leads only to its nodes, and never
leads on for ever.
-/
namespace WorkflowEngine

namespace Graph

theorem mem_of_mem_firstsAfter {seen : List String} {nodes : List Node} {n : Node}
    (h : n ∈ firstsAfter seen nodes) : n ∈ nodes := by
  fun_induction firstsAfter seen nodes with
  | case1 => exact h
  | case2 _ m rest _ ih => exact List.mem_cons_of_mem m (ih h)
  | case3 _ m rest _ ih =>
    rcases List.mem_cons.mp h with rfl | h
    · exact List.mem_cons_self
    · exact List.mem_cons_of_mem m (ih h)

theorem exists_node_of_mem_ids {g : Graph} {id : String} (h : id ∈ g.ids) :
    ∃ n ∈ g.nodes, n.id = id := by
  obtain ⟨n, hn, rfl⟩ := List.mem_map.mp h
  exact ⟨n, mem_of_mem_firstsAfter hn, rfl⟩

theorem isUsable_of_mem_outgoing {g : Graph} {id : String} {e : Edge} (h : e ∈ g.outgoing id) :
    g.isUsable e = true ∧ e.source = id := by
  have := (List.mem_filter.mp h).2
  simp only [Bool.and_eq_true, beq_iff_eq] at this
  exact ⟨this.2, this.1⟩

theorem ends_mem_of_isUsable {g : Graph} {e : Edge} (h : g.isUsable e = true) :
    e.source ∈ g.ids ∧ e.target ∈ g.ids := by
  simp only [isUsable, Edge.unknownEnds, Bool.and_eq_true, List.isEmpty_iff,
    List.filter_eq_nil_iff] at h
  exact ⟨by simpa using h.1 e.source (by simp), by simpa using h.1 e.target (by simp)⟩

theorem outgoing_eq_nil {g : Graph} {id : String} (h : id ∉ g.ids) : g.outgoing id = [] := by
  rw [List.eq_nil_iff_forall_not_mem]
  intro e he
  obtain ⟨hu, rfl⟩ := isUsable_of_mem_outgoing he
  exact h (ends_mem_of_isUsable hu).1

theorem wellFounded_of_cycleDefects_eq_nil {g : Graph} (h : g.cycleDefects = []) :
    WellFounded (Search.Below Edge.target g.outgoing) :=
  Search.wellFounded_of_backEdges_eq_nil (fun _ => outgoing_eq_nil)
    (by simpa [cycleDefects] using h)

end Graph

namespace Plan

def Leads (p : Plan) (a b : String) : Prop := ∃ n, p.node? a = some n ∧ b ∈ n.successors

/-- A plan that can be followed from its trigger to an end. -/
structure IsRunnable (p : Plan) : Prop where
  trigger : (p.node? p.triggerId).isSome
  closed : ∀ {a b}, p.Leads a b → (p.node? b).isSome
  wellFounded : WellFounded fun b a => p.Leads a b

theorem id_of_node? {p : Plan} {id : String} {n : PlanNode} (h : p.node? id = some n) :
    n.id = id := by simpa using List.find?_some h

theorem IsRunnable.not_transGen_self {p : Plan} (h : p.IsRunnable) (a : String) :
    ¬ Relation.TransGen p.Leads a a := by
  intro hcycle
  have hswap : Relation.TransGen (fun b a => p.Leads a b) a a :=
    Relation.transGen_swap.mpr hcycle
  exact h.wellFounded.transGen.irrefl.irrefl a hswap

theorem exits_of_stepOf? {config : EngineConfig} {edges : List Edge} {body : NodeBody}
    {step : PlanStep} (h : stepOf? config edges body = some step) {id : String}
    (hid : id ∈ step.successors) : ∃ e ∈ edges, e.target = id := by
  have head {next : Option String} (hn : next = edges.head?.map (·.target))
      (hid : id ∈ (next.toList.map fun t => ((none : Option Branch), t)).map (·.2)) :
      ∃ e ∈ edges, e.target = id := by
    cases edges with
    | nil => simp [hn] at hid
    | cons e rest => exact ⟨e, by simp, by simpa [hn, eq_comm] using hid⟩
  have branch {b : Branch} {t : String} (ht : branchTarget? edges b = some t) :
      ∃ e ∈ edges, e.target = t := by
    obtain ⟨e, he, rfl⟩ := Option.map_eq_some_iff.mp ht
    exact ⟨e, List.mem_of_find?_eq_some he, rfl⟩
  cases body with
  | trigger kind filters =>
    obtain rfl : PlanStep.trigger kind filters _ = step := by simpa [stepOf?] using h
    exact head rfl hid
  | condition predicate =>
    simp only [stepOf?, Option.bind_eq_bind, Option.bind_eq_some_iff, Option.pure_def,
      Option.some.injEq] at h
    obtain ⟨onTrue, ht, onFalse, hf, rfl⟩ := h
    rcases (by simpa [PlanStep.successors, PlanStep.exits] using hid) with rfl | rfl
    · exact branch ht
    · exact branch hf
  | action kind params =>
    simp only [stepOf?, Option.bind_eq_bind, Option.bind_eq_some_iff, Option.pure_def,
      Option.some.injEq] at h
    obtain ⟨params, _, rfl⟩ := h
    exact head rfl hid
  | delay amount unit =>
    simp only [stepOf?, Option.bind_eq_bind, Option.bind_eq_some_iff, Option.pure_def,
      Option.ite_none_right_eq_some, Option.some.injEq] at h
    obtain ⟨e, he, _, rfl⟩ := h
    exact ⟨e, List.mem_of_head? he, by
      simpa [PlanStep.successors, PlanStep.exits, eq_comm] using hid⟩

theorem nodeOf?_eq_some {config : EngineConfig} {g : Graph} {n : Node} {m : PlanNode}
    (h : nodeOf? config g n = some m) :
    m.id = n.id ∧ ∀ id ∈ m.successors, ∃ e ∈ g.outgoing n.id, e.target = id := by
  obtain ⟨step, hstep, rfl⟩ := Option.map_eq_some_iff.mp h
  exact ⟨rfl, fun _ => exits_of_stepOf? hstep⟩

/-- A mapping that never fails gives an image of each item, and nothing else. -/
theorem mem_of_mapM_eq_some {α β : Type} {f : α → Option β} {items : List α} {images : List β}
    (h : items.mapM f = some images) :
    (∀ a ∈ items, ∃ b ∈ images, f a = some b) ∧ ∀ b ∈ images, ∃ a ∈ items, f a = some b := by
  induction items generalizing images with
  | nil =>
    obtain rfl : [] = images := by simpa using h
    simp
  | cons a items ih =>
    rw [List.mapM_cons] at h
    simp only [Option.bind_eq_bind, Option.bind_eq_some_iff, Option.pure_def,
      Option.some.injEq] at h
    obtain ⟨b, hb, rest, hrest, rfl⟩ := h
    obtain ⟨hleft, hright⟩ := ih hrest
    constructor
    · intro c hc
      rcases List.mem_cons.mp hc with rfl | hc
      · exact ⟨b, by simp, hb⟩
      · obtain ⟨d, hd, hcd⟩ := hleft c hc
        exact ⟨d, by simp [hd], hcd⟩
    · intro c hc
      rcases List.mem_cons.mp hc with rfl | hc
      · exact ⟨a, by simp, hb⟩
      · obtain ⟨d, hd, hcd⟩ := hright c hc
        exact ⟨d, by simp [hd], hcd⟩

theorem node?_isSome_of_mem {p : Plan} {n : PlanNode} (h : n ∈ p.nodes) :
    (p.node? n.id).isSome := by
  rw [node?, List.find?_isSome]
  exact ⟨n, h, by simp⟩

/-- The compilation of a graph succeeds only for one without defects, and then each node of the
plan is made of a node of the graph. -/
theorem ofGraph_eq_ok {config : EngineConfig} {g : Graph} {p : Plan}
    (h : ofGraph config g = .ok p) :
    g.defects = [] ∧ g.nodes.mapM (nodeOf? config g) = some p.nodes ∧
      (∃ trigger ∈ g.nodes, trigger.id = p.triggerId) ∧
      p.graphId = g.id ∧ p.version = versionOf config g := by
  unfold ofGraph at h
  split at h
  · rename_i trigger hdefects htrigger
    split at h
    · rename_i nodes hnodes
      obtain rfl := (Except.ok.inj h).symm
      exact ⟨hdefects, hnodes, ⟨trigger, List.mem_of_find?_eq_some htrigger, rfl⟩, rfl, rfl⟩
    · cases h
  · cases h

theorem isRunnable_of_ofGraph {config : EngineConfig} {g : Graph} {p : Plan}
    (h : ofGraph config g = .ok p) : p.IsRunnable := by
  obtain ⟨hdefects, hnodes, ⟨trigger, htrigger, hid⟩, -, -⟩ := ofGraph_eq_ok h
  obtain ⟨himage, hsource⟩ := mem_of_mapM_eq_some hnodes
  have isNode {n : Node} (hn : n ∈ g.nodes) : (p.node? n.id).isSome := by
    obtain ⟨m, hm, hnm⟩ := himage n hn
    exact (nodeOf?_eq_some hnm).1 ▸ node?_isSome_of_mem hm
  have edge {a b : String} (hab : p.Leads a b) : ∃ e ∈ g.outgoing a, e.target = b := by
    obtain ⟨m, hm, hb⟩ := hab
    obtain ⟨n, _, hnm⟩ := hsource m (List.mem_of_find?_eq_some hm)
    have hmid := nodeOf?_eq_some hnm
    rw [← hmid.1, id_of_node? hm] at hmid
    exact hmid.2 b hb
  have hcycles : g.cycleDefects = [] := by
    simp only [Graph.defects, List.append_eq_nil_iff] at hdefects
    exact hdefects.2
  refine ⟨hid ▸ isNode htrigger, fun hab => ?_, ?_⟩
  · obtain ⟨e, he, rfl⟩ := edge hab
    have hends := Graph.ends_mem_of_isUsable (Graph.isUsable_of_mem_outgoing he).1
    obtain ⟨n, hn, hn'⟩ := Graph.exists_node_of_mem_ids hends.2
    exact hn' ▸ isNode hn
  · exact (Graph.wellFounded_of_cycleDefects_eq_nil hcycles).mono fun b a hab => edge hab

def IsAction (p : Plan) (id : String) (kind : ActionKind) : Prop :=
  ∃ n, p.node? id = some n ∧ n.step.actionKind? = some kind

end Plan

/-- What is invoked at a node, and where it may lead. -/
def PlanStep.outline (s : PlanStep) : Option ActionKind × List String :=
  (s.actionKind?, s.successors)

namespace Plan

/-- Plans that invoke the same and may lead the same ways. -/
structure Alike (p q : Plan) : Prop where
  trigger : p.triggerId = q.triggerId
  nodes : ∀ id, (p.node? id).map (·.step.outline) = (q.node? id).map (·.step.outline)

theorem Alike.refl (p : Plan) : p.Alike p := ⟨rfl, fun _ => rfl⟩

theorem Alike.symm {p q : Plan} (h : p.Alike q) : q.Alike p :=
  ⟨h.trigger.symm, fun id => (h.nodes id).symm⟩

theorem Alike.node? {p q : Plan} (h : p.Alike q) {id : String} {n : PlanNode}
    (hn : p.node? id = some n) :
    ∃ m, q.node? id = some m ∧ m.step.actionKind? = n.step.actionKind? ∧
      m.successors = n.successors := by
  have houtline := h.nodes id
  rw [hn, Option.map_some, eq_comm, Option.map_eq_some_iff] at houtline
  obtain ⟨m, hm, houtline⟩ := houtline
  exact ⟨m, hm, congrArg Prod.fst houtline, congrArg Prod.snd houtline⟩

theorem Alike.isSome_node? {p q : Plan} (h : p.Alike q) {id : String}
    (hn : (p.node? id).isSome) : (q.node? id).isSome := by
  obtain ⟨n, hn⟩ := Option.isSome_iff_exists.mp hn
  obtain ⟨m, hm, -⟩ := h.node? hn
  exact Option.isSome_iff_exists.mpr ⟨m, hm⟩

theorem Alike.isAction {p q : Plan} (h : p.Alike q) {id : String} {kind : ActionKind}
    (hn : p.IsAction id kind) : q.IsAction id kind := by
  obtain ⟨n, hn, hkind⟩ := hn
  obtain ⟨m, hm, hsame, -⟩ := h.node? hn
  exact ⟨m, hm, hsame.trans hkind⟩

theorem Alike.leads {p q : Plan} (h : p.Alike q) {a b : String} (hab : p.Leads a b) :
    q.Leads a b := by
  obtain ⟨n, hn, hb⟩ := hab
  obtain ⟨m, hm, -, hsame⟩ := h.node? hn
  exact ⟨m, hm, hsame ▸ hb⟩

end Plan

namespace Sample

/-- A graph that waits for a minute before it sends a message. -/
def graph : Graph where
  id := "g"
  name := "Reminder"
  version := "1"
  nodes := [⟨"t", "", .trigger .manual {}⟩, ⟨"d", "", .delay 1 (some .minutes)⟩,
    ⟨"a", "", .action .sendWhatsapp [("message", .text "Hello")]⟩]
  edges := [⟨"t", "d", none⟩, ⟨"d", "a", none⟩]
  enabled := true
  description := ""

def nodes : List PlanNode :=
  [⟨"t", "", .trigger .manual {} (some "d")⟩, ⟨"d", "", .delay 60 "a"⟩,
    ⟨"a", "", .action .sendWhatsapp
      ⟨[("template", .null), ("message", .text "Hello"), ("session_id", .null)], []⟩ none⟩]

def plan : Plan where
  graphId := "g"
  graphVersion := "1"
  version := Plan.versionOf default graph
  name := "Reminder"
  enabled := true
  triggerId := "t"
  nodes
  order := Plan.orderFrom nodes "t"
  source := graph

theorem defects_graph : graph.defects = [] := by
  have hids : graph.ids = ["t", "d", "a"] := by decide
  have hcycles : graph.cycleDefects = [] := by
    have ht : graph.outgoing "t" = [⟨"t", "d", none⟩] := by decide
    have hd : graph.outgoing "d" = [⟨"d", "a", none⟩] := by decide
    have ha : graph.outgoing "a" = [] := by decide
    simp [Graph.cycleDefects, hids, Search.backEdges, ht, hd, ha]
  have hreach : graph.reachDefects = [] := by
    have ht : graph.targets "t" = ["d"] := by decide
    have hd : graph.targets "d" = ["a"] := by decide
    have ha : graph.targets "a" = [] := by decide
    have hreachable : graph.reachable "t" = ["a", "d", "t"] := by
      simp [Graph.reachable, hids, ht, hd, ha, Search.finishOrder]
    have htriggers : graph.triggers = [⟨"t", "", .trigger .manual {}⟩] := by decide
    simp only [Graph.reachDefects, htriggers, hreachable]
    decide
  have hrest : graph.duplicateDefects ++ graph.triggerDefects ++
      graph.edges.flatMap graph.edgeDefects ++ graph.distinctNodes.flatMap graph.nodeDefects =
        [] := by decide +kernel
  rw [Graph.defects, hrest, hreach, hcycles]
  rfl

theorem ofGraph_graph : Plan.ofGraph default graph = .ok plan := by
  have htrigger : graph.trigger? = some ⟨"t", "", .trigger .manual {}⟩ := by decide
  have hnodes : graph.nodes.mapM (Plan.nodeOf? default graph) = some nodes := by decide +kernel
  rw [Plan.ofGraph, defects_graph, htrigger]
  simp only [hnodes]
  rfl

end Sample
end WorkflowEngine

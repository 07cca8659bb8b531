import Mathlib.Data.List.Count
import Mathlib.Data.List.Forall2
import WorkflowEngine.Diagram
import WorkflowEngine.Proofs.Graph.WellFormed

/-!
# Plans as images of graphs

The plan of a graph has the nodes of the graph with what they do, and just its edges. Its order is
one in which every node stands before the nodes that it leads to.
-/
namespace WorkflowEngine

open Relation

/-- An edge as a plan has it. -/
def Edge.planned (e : Edge) : PlanEdge := ⟨e.source, e.target, e.branch⟩

/-- A step does what was authored, wherever it leads. -/
inductive PlanStep.Does (config : EngineConfig) : NodeBody → PlanStep → Prop
  | trigger (kind : TriggerKind) (filters : TriggerFilters) (next : Option String) :
      Does config (.trigger kind filters) (.trigger kind filters next)
  | condition (predicate : Predicate) (onTrue onFalse : String) :
      Does config (.condition predicate) (.condition predicate onTrue onFalse)
  | action {kind : ActionKind} {given : Record} {params : ActionParams} (next : Option String)
      (hparams : ActionParams.ofRecord kind given = .ok params) :
      Does config (.action kind given) (.action kind params next)
  | delay {amount : Int} {unit : Option DelayUnit} {seconds : Nat} (next : String)
      (hseconds : seconds = amount * (unit.getD config.defaultDelayUnit).seconds) :
      Does config (.delay amount unit) (.delay seconds next)

/-- A node of a plan and the node that it was made of. -/
structure PlanNode.IsOf (config : EngineConfig) (n : Node) (m : PlanNode) : Prop where
  id : m.id = n.id
  label : m.label = n.label
  does : PlanStep.Does config n.body m.step

namespace Plan

structure IsImage (config : EngineConfig) (g : Graph) (p : Plan) : Prop where
  nodes : List.Forall₂ (PlanNode.IsOf config) g.nodes p.nodes
  distinct : (p.nodes.map (·.id)).Nodup
  trigger : ∃ t ∈ g.nodes, t.kind = .trigger ∧ t.id = p.triggerId
  edges : ∃ listed, Diagram.edgesValue p = .list listed ∧
    listed.Perm (g.edges.map Edge.toValue) ∧ listed.Nodup
  closed : ∀ n ∈ p.nodes, ∀ id ∈ n.successors, (∃ m ∈ p.nodes, m.id = id) ∧ id ≠ p.triggerId
  order : p.order.Perm (g.nodes.map (·.id))
  first : p.order.head? = some p.triggerId
  sorted : ∀ n ∈ p.nodes, ∀ id ∈ n.successors,
    ∃ pre mid post, p.order = pre ++ n.id :: mid ++ id :: post

section Steps

variable {config : EngineConfig} {edges : List Edge} {body : NodeBody} {step : PlanStep}

/-- What `stepOf?` makes of each kind of node. -/
inductive IsStepOf (config : EngineConfig) (edges : List Edge) : NodeBody → PlanStep → Prop
  | trigger (kind : TriggerKind) (filters : TriggerFilters) :
      IsStepOf config edges (.trigger kind filters)
        (.trigger kind filters (edges.head?.map (·.target)))
  | condition (predicate : Predicate) {onTrue onFalse : String}
      (htrue : branchTarget? edges .onTrue = some onTrue)
      (hfalse : branchTarget? edges .onFalse = some onFalse) :
      IsStepOf config edges (.condition predicate) (.condition predicate onTrue onFalse)
  | action {kind : ActionKind} {given : Record} {params : ActionParams}
      (hparams : ActionParams.ofRecord kind given = .ok params) :
      IsStepOf config edges (.action kind given)
        (.action kind params (edges.head?.map (·.target)))
  | delay (amount : Int) (unit : Option DelayUnit) {e : Edge} (hnext : edges.head? = some e) :
      IsStepOf config edges (.delay amount unit)
        (.delay (amount * (unit.getD config.defaultDelayUnit).seconds).toNat e.target)

theorem isStepOf_of_stepOf? (h : stepOf? config edges body = some step) :
    IsStepOf config edges body step := by
  cases body with
  | trigger kind filters =>
    obtain rfl := Option.some.inj h
    exact .trigger kind filters
  | condition predicate =>
    simp only [stepOf?, Option.bind_eq_bind, Option.bind_eq_some_iff, Option.pure_def,
      Option.some.injEq] at h
    obtain ⟨onTrue, htrue, onFalse, hfalse, rfl⟩ := h
    exact .condition predicate htrue hfalse
  | action kind given =>
    simp only [stepOf?, Option.bind_eq_bind, Option.bind_eq_some_iff, Option.pure_def,
      Option.some.injEq] at h
    obtain ⟨params, hparams, rfl⟩ := h
    cases hread : ActionParams.ofRecord kind given with
    | error _ => simp [hread, Except.toOption] at hparams
    | ok _ =>
      obtain rfl : _ = params := by simpa [hread, Except.toOption] using hparams
      exact .action hread
  | delay amount unit =>
    simp only [stepOf?, Option.bind_eq_bind, Option.bind_eq_some_iff, Option.pure_def,
      Option.ite_none_right_eq_some, Option.some.injEq] at h
    obtain ⟨e, hnext, -, rfl⟩ := h
    exact .delay amount unit hnext

theorem IsStepOf.does (h : IsStepOf config edges body step) (hfits : body.Fits edges) :
    PlanStep.Does config body step := by
  cases h with
  | trigger kind filters => exact .trigger kind filters _
  | condition predicate _ _ => exact .condition predicate _ _
  | action hparams => exact .action _ hparams
  | delay amount unit _ =>
    have hseconds : 0 ≤ amount * (unit.getD config.defaultDelayUnit).seconds :=
      Int.mul_nonneg hfits.2 (Int.natCast_nonneg _)
    exact .delay _ (Int.toNat_of_nonneg hseconds)

/-- At most one edge leads on, and it has no label. -/
theorem exits_head? (hone : edges.length ≤ 1) (hlabels : ∀ e ∈ edges, e.branch = none) :
    ((edges.head?.map (·.target)).toList.map fun target => ((none : Option Branch), target)) =
      edges.map fun e => (e.branch, e.target) := by
  match edges, hone with
  | [], _ => rfl
  | [e], _ => simp [hlabels e List.mem_cons_self]

theorem exits_branch {branch : Branch} {target : String}
    (hone : edges.countP (·.branch = some branch) = 1)
    (h : branchTarget? edges branch = some target) :
    (edges.filter (·.branch = some branch)).map (fun e => (e.branch, e.target)) =
      [(some branch, target)] := by
  rw [List.countP_eq_length_filter] at hone
  obtain ⟨e, he⟩ := List.length_eq_one_iff.mp hone
  have hbranch : e.branch = some branch := by
    have hmem : e ∈ edges.filter (·.branch = some branch) := by simp [he]
    simpa using (List.mem_filter.mp hmem).2
  rw [branchTarget?, ← List.head?_filter, he] at h
  obtain rfl : e.target = target := by simpa using h
  rw [he, List.map_cons, hbranch, List.map_nil]

/-- A step leads where the edges of its node lead. -/
theorem IsStepOf.exits_perm (h : IsStepOf config edges body step) (hfits : body.Fits edges)
    (hlabels : ∀ e ∈ edges, (e.branch.isSome ↔ body.kind = .condition)) :
    step.exits.Perm (edges.map fun e => (e.branch, e.target)) := by
  have hplain (hkind : body.kind ≠ .condition) : ∀ e ∈ edges, e.branch = none := by
    intro e he
    have hnone : ¬ e.branch.isSome := fun hsome => hkind ((hlabels e he).mp hsome)
    simpa using hnone
  cases h with
  | trigger kind filters => exact .of_eq (exits_head? hfits (hplain (by simp [NodeBody.kind])))
  | action _ => exact .of_eq (exits_head? hfits.1 (hplain (by simp [NodeBody.kind])))
  | delay amount unit hnext =>
    have hexits := exits_head? (le_of_eq hfits.1) (hplain (by simp [NodeBody.kind]))
    rw [hnext] at hexits
    exact .of_eq hexits
  | condition predicate htrue hfalse =>
    have hrest : edges.filter (fun e => !decide (e.branch = some .onTrue)) =
        edges.filter (·.branch = some .onFalse) := by
      apply List.filter_congr
      intro e he
      obtain ⟨branch, hbranch⟩ := Option.isSome_iff_exists.mp ((hlabels e he).mpr rfl)
      cases branch <;> simp [hbranch]
    have hsplit := List.filter_append_perm (fun e => decide (e.branch = some .onTrue)) edges
    have hexits := hsplit.map fun e => (e.branch, e.target)
    rw [hrest, List.map_append, exits_branch (hfits .onTrue) htrue,
      exits_branch (hfits .onFalse) hfalse] at hexits
    exact hexits

end Steps

section Edges

/-- Edges put together by their sources. -/
theorem flatMap_filter_perm {ids : List String} (edges : List Edge) (hids : ids.Nodup) :
    (ids.flatMap fun id => edges.filter (·.source == id)).Perm
      (edges.filter fun e => ids.contains e.source) := by
  induction ids with
  | nil => simp
  | cons id ids ih =>
    obtain ⟨hid, hids⟩ := List.nodup_cons.mp hids
    have hown : (edges.filter fun e => (id :: ids).contains e.source).filter (·.source == id) =
        edges.filter (·.source == id) := by
      rw [List.filter_filter]
      apply List.filter_congr
      intro e _
      by_cases he : e.source = id <;> simp [he]
    have hrest : (edges.filter fun e => (id :: ids).contains e.source).filter
        (fun e => !(e.source == id)) = edges.filter fun e => ids.contains e.source := by
      rw [List.filter_filter]
      apply List.filter_congr
      intro e _
      by_cases he : e.source = id
      · simp [he, hid]
      · simp [he]
    have hsplit := List.filter_append_perm (fun e : Edge => e.source == id)
      (edges.filter fun e => (id :: ids).contains e.source)
    rw [hown, hrest] at hsplit
    rw [List.flatMap_cons]
    exact ((List.Perm.refl _).append (ih hids)).trans hsplit

variable {g : Graph}

theorem leaving_perm (h : g.WellFormed) :
    (g.nodes.flatMap fun n => g.leaving n.id).Perm g.edges := by
  have hperm := flatMap_filter_perm g.edges h.unique
  have hall : g.edges.filter (fun e => (g.nodes.map (·.id)).contains e.source) = g.edges := by
    apply List.filter_eq_self.mpr
    intro e he
    exact List.contains_iff_mem.mpr (h.ends e he).1
  rwa [hall, List.flatMap_map] at hperm

/-- The edges of a node are distinct, since their number or their labels are. -/
theorem count_le_one_of_fits {body : NodeBody} {edges : List Edge} {e : Edge}
    (hfits : body.Fits edges) (hlabel : e.branch.isSome ↔ body.kind = .condition) :
    edges.count e ≤ 1 := by
  cases body with
  | trigger kind filters => exact List.count_le_length.trans hfits
  | action kind given => exact List.count_le_length.trans hfits.1
  | delay amount unit => exact List.count_le_length.trans (le_of_eq hfits.1)
  | condition predicate =>
    obtain ⟨branch, hbranch⟩ := Option.isSome_iff_exists.mp (hlabel.mpr rfl)
    refine le_trans ?_ (le_of_eq (hfits branch))
    apply List.countP_mono_left
    intro d _ hd
    obtain rfl : d = e := by simpa using hd
    simpa using hbranch

theorem nodup_edges (h : g.WellFormed) : g.edges.Nodup := by
  rw [List.nodup_iff_count_le_one]
  intro e
  by_cases he : e ∈ g.edges
  · obtain ⟨n, hn, hid⟩ := List.mem_map.mp (h.ends e he).1
    have hcount : (g.leaving n.id).count e = g.edges.count e :=
      List.count_filter (by simp [hid])
    rw [← hcount]
    exact count_le_one_of_fits (h.fits n hn) (h.labels e he n hn hid)
  · rw [List.count_eq_zero_of_not_mem he]
    exact Nat.zero_le 1

theorem toValue_injective : Function.Injective Edge.toValue := by
  intro ⟨source, target, branch⟩ ⟨source', target', branch'⟩ h
  have hname (b b' : Branch) : Choice.toValue b = Choice.toValue b' ↔ b = b' := by
    cases b <;> cases b' <;> simp [Choice.toValue, Choice.name, Branch.name]
  cases branch <;> cases branch' <;> simp_all [Edge.toValue]

end Edges

section Nodes

variable {config : EngineConfig} {g : Graph} {p : Plan}

theorem forall₂_of_mapM {α β : Type} {f : α → Option β} {items : List α} {images : List β}
    (h : items.mapM f = some images) : List.Forall₂ (fun a b => f a = some b) items images := by
  induction items generalizing images with
  | nil =>
    obtain rfl : [] = images := by simpa using h
    exact .nil
  | cons a items ih =>
    rw [List.mapM_cons] at h
    simp only [Option.bind_eq_bind, Option.bind_eq_some_iff, Option.pure_def,
      Option.some.injEq] at h
    obtain ⟨b, hb, rest, hrest, rfl⟩ := h
    exact .cons hb (ih hrest)

/-- A node of a plan is that of a graph, and leads where its edges lead. -/
structure IsMadeOf (config : EngineConfig) (g : Graph) (n : Node) (m : PlanNode) : Prop where
  isOf : m.IsOf config n
  edges : m.edges.Perm ((g.leaving n.id).map Edge.planned)

theorem isMadeOf_of_nodeOf? (hg : g.WellFormed) {n : Node} {m : PlanNode} (hn : n ∈ g.nodes)
    (h : nodeOf? config g n = some m) : IsMadeOf config g n m := by
  rw [nodeOf?, Graph.outgoing_eq hg.edgeDefects_eq_nil, Option.map_eq_some_iff] at h
  obtain ⟨step, hstep, rfl⟩ := h
  have hstep := isStepOf_of_stepOf? hstep
  have hsource : ∀ e ∈ g.leaving n.id, e ∈ g.edges ∧ e.source = n.id := by
    intro e he
    simpa [Graph.leaving] using he
  have hlabels : ∀ e ∈ g.leaving n.id, (e.branch.isSome ↔ n.body.kind = .condition) :=
    fun e he => hg.labels e (hsource e he).1 n hn (hsource e he).2.symm
  refine ⟨⟨rfl, rfl, hstep.does (hg.fits n hn)⟩, ?_⟩
  have hexits := hstep.exits_perm (hg.fits n hn) hlabels
  have hedges := hexits.map fun exit => (⟨n.id, exit.2, exit.1⟩ : PlanEdge)
  have hplanned : (g.leaving n.id).map Edge.planned =
      (g.leaving n.id).map fun e => (⟨n.id, e.target, e.branch⟩ : PlanEdge) := by
    apply List.map_congr_left
    intro e he
    rw [Edge.planned, (hsource e he).2]
  rw [List.map_map] at hedges
  rw [hplanned]
  exact hedges

variable (h : ofGraph config g = .ok p)

include h

theorem wellFormed_of_ofGraph : g.WellFormed := Graph.defects_eq_nil_iff.mp (ofGraph_eq_ok h).1

theorem forall₂_isMadeOf : List.Forall₂ (IsMadeOf config g) g.nodes p.nodes := by
  have hnodes := forall₂_of_mapM (ofGraph_eq_ok h).2.1
  have hmem := (List.forall₂_and_left (p := (· ∈ g.nodes)) g.nodes p.nodes).mpr
    ⟨fun n hn => hn, hnodes⟩
  exact hmem.imp fun n m hnm => isMadeOf_of_nodeOf? (wellFormed_of_ofGraph h) hnm.1 hnm.2

theorem map_id_nodes : p.nodes.map (·.id) = g.nodes.map (·.id) := by
  have hmade := forall₂_isMadeOf h
  generalize g.nodes = nodes at hmade
  generalize p.nodes = images at hmade
  induction hmade with
  | nil => rfl
  | cons hnm _ ih => rw [List.map_cons, List.map_cons, ih, hnm.isOf.id]

theorem nodup_nodes : (p.nodes.map (·.id)).Nodup := by
  rw [map_id_nodes h]
  exact (wellFormed_of_ofGraph h).unique

theorem node?_of_mem {n : PlanNode} (hn : n ∈ p.nodes) : p.node? n.id = some n :=
  Keyed.find?_of_mem (nodup_nodes h) hn

theorem exists_isMadeOf {m : PlanNode} (hm : m ∈ p.nodes) :
    ∃ n ∈ g.nodes, IsMadeOf config g n m := by
  obtain ⟨n, hn, hnm⟩ := (mem_of_mapM_eq_some (ofGraph_eq_ok h).2.1).2 m hm
  exact ⟨n, hn, isMadeOf_of_nodeOf? (wellFormed_of_ofGraph h) hn hnm⟩

theorem mem_successors_iff {m : PlanNode} {b : String} (hm : m ∈ p.nodes) :
    b ∈ m.successors ↔ g.Joins m.id b := by
  obtain ⟨n, _, hnm⟩ := exists_isMadeOf h hm
  have htargets : m.successors = m.edges.map (·.target) := by
    simp [PlanNode.successors, PlanStep.successors, PlanNode.edges]
  rw [htargets, (hnm.edges.map _).mem_iff, hnm.isOf.id]
  simp [Graph.leaving, Graph.Joins, Edge.planned, and_assoc]

theorem mem_successorsOf_iff {a b : String} : b ∈ successorsOf p.nodes a ↔ g.Joins a b := by
  unfold successorsOf
  by_cases ha : a ∈ p.nodes.map (·.id)
  · obtain ⟨m, hm, rfl⟩ := List.mem_map.mp ha
    have hfound : p.nodes.find? (·.id == m.id) = some m := node?_of_mem h hm
    rw [hfound]
    exact mem_successors_iff h hm
  · have hnone : p.nodes.find? (·.id == a) = none := by
      apply List.find?_eq_none.mpr
      intro m hm hid
      exact ha (List.mem_map.mpr ⟨m, hm, by simpa using hid⟩)
    rw [hnone]
    constructor
    · intro hb
      cases hb
    · rintro ⟨e, he, rfl, -⟩
      rw [map_id_nodes h] at ha
      exact absurd ((wellFormed_of_ofGraph h).ends e he).1 ha

theorem joins_eq : (fun a b => b ∈ successorsOf p.nodes a) = g.Joins := by
  funext a b
  exact propext (mem_successorsOf_iff h)

theorem successorsOf_subset (a : String) : successorsOf p.nodes a ⊆ p.nodes.map (·.id) := by
  intro b hb
  obtain ⟨e, he, -, rfl⟩ := (mem_successorsOf_iff h).mp hb
  rw [map_id_nodes h]
  exact ((wellFormed_of_ofGraph h).ends e he).2

end Nodes

section Order

variable {config : EngineConfig} {g : Graph} {p : Plan} (h : ofGraph config g = .ok p)

include h

theorem order_eq : (∃ t ∈ g.nodes, t.kind = .trigger ∧ t.id = p.triggerId) ∧
    p.order = orderFrom p.nodes p.triggerId := by
  unfold ofGraph at h
  split at h
  · next trigger _ htrigger =>
    split at h
    · obtain rfl := (Except.ok.inj h).symm
      have hkind : trigger.kind = .trigger := by
        simpa [Node.isTrigger] using List.find?_some htrigger
      exact ⟨⟨trigger, List.mem_of_find?_eq_some htrigger, hkind, rfl⟩, rfl⟩
    · cases h
  · cases h

theorem triggerId_mem : p.triggerId ∈ p.nodes.map (·.id) := by
  obtain ⟨⟨t, ht, -, hid⟩, -⟩ := order_eq h
  rw [map_id_nodes h, ← hid]
  exact List.mem_map_of_mem ht

theorem order_perm : p.order.Perm (p.nodes.map (·.id)) := by
  obtain ⟨⟨t, ht, hkind, hid⟩, horder⟩ := order_eq h
  have hnodes := nodup_nodes h
  rw [horder, orderFrom]
  refine (List.reverse_perm _).trans ?_
  rw [List.perm_ext_iff_of_nodup (Search.nodup_finishOrder (.start hnodes)) hnodes]
  intro b
  rw [Search.mem_visited_iff hnodes (fun a _ => successorsOf_subset h a) (triggerId_mem h),
    joins_eq h, map_id_nodes h]
  constructor
  · intro hreach
    rcases ReflTransGen.cases_tail hreach with heq | ⟨a, -, e, he, -, rfl⟩
    · rw [heq, ← hid]
      exact List.mem_map_of_mem ht
    · exact ((wellFormed_of_ofGraph h).ends e he).2
  · intro hb
    obtain ⟨n, hn, rfl⟩ := List.mem_map.mp hb
    rw [← hid]
    exact (wellFormed_of_ofGraph h).reached t ht hkind n hn

theorem head?_order : p.order.head? = some p.triggerId := by
  rw [(order_eq h).2, orderFrom, List.head?_reverse, Search.getLast?_finishOrder]
  rfl

/-- Every node stands before the nodes that it leads to. -/
theorem exists_order_eq {a b : String} (hab : g.Joins a b) :
    ∃ pre mid post, p.order = pre ++ a :: mid ++ b :: post := by
  have hnodes := nodup_nodes h
  have hacyclic : ∀ c, ¬ TransGen (fun a b => b ∈ successorsOf p.nodes a) c c := by
    rw [joins_eq h]
    exact (wellFormed_of_ofGraph h).acyclic
  obtain ⟨e, he, rfl, rfl⟩ := hab
  have ha : e.source ∈ p.order := by
    rw [(order_perm h).mem_iff, map_id_nodes h]
    exact ((wellFormed_of_ofGraph h).ends e he).1
  obtain ⟨pre, post, hsplit⟩ := List.append_of_mem ha
  have hvisited := congrArg List.reverse hsplit
  rw [(order_eq h).2, orderFrom, List.reverse_reverse, List.reverse_append, List.reverse_cons,
    List.append_assoc, List.singleton_append] at hvisited
  have hb := Search.mem_of_visited_eq hnodes (fun a _ => successorsOf_subset h a) hacyclic
    (triggerId_mem h) hvisited ((mem_successorsOf_iff h).mpr ⟨e, he, rfl, rfl⟩)
  obtain ⟨mid, post, rfl⟩ := List.append_of_mem (List.mem_reverse.mp hb)
  exact ⟨pre, mid, post, by rw [hsplit, List.append_assoc, List.cons_append]⟩

theorem orderedNodes_perm : p.orderedNodes.Perm p.nodes := by
  have hself : (p.nodes.map (·.id)).filterMap p.node? = p.nodes := by
    rw [List.filterMap_map]
    calc p.nodes.filterMap (p.node? ∘ (·.id)) = p.nodes.filterMap some :=
          List.filterMap_congr fun n hn => node?_of_mem h hn
      _ = p.nodes := List.filterMap_some
  have hperm := (order_perm h).filterMap p.node?
  rwa [hself] at hperm

/-- The edges of a plan are those that were authored. -/
theorem edges_perm : p.edges.Perm (g.edges.map Edge.planned) := by
  have hnodes : (p.nodes.flatMap PlanNode.edges).Perm
      (g.nodes.flatMap fun n => (g.leaving n.id).map Edge.planned) := by
    have hmade := forall₂_isMadeOf h
    generalize g.nodes = nodes at hmade
    generalize p.nodes = images at hmade
    induction hmade with
    | nil => exact .refl _
    | cons hnm _ ih =>
      rw [List.flatMap_cons, List.flatMap_cons]
      exact hnm.edges.append ih
  have hedges : (p.nodes.flatMap PlanNode.edges).Perm (g.edges.map Edge.planned) := by
    refine hnodes.trans ?_
    rw [← List.map_flatMap]
    exact (leaving_perm (wellFormed_of_ofGraph h)).map _
  exact ((orderedNodes_perm h).flatMap_right _).trans hedges

end Order

/-- A plan is an image of the graph that it is made of. -/
theorem isImage_of_ofGraph (config : EngineConfig) (g : Graph) (p : Plan)
    (h : ofGraph config g = .ok p) : p.IsImage config g where
  nodes := (forall₂_isMadeOf h).imp fun _ _ hnm => hnm.isOf
  distinct := nodup_nodes h
  trigger := (order_eq h).1
  edges := by
    have hlisted : (p.edges.map Diagram.edgeValue).Perm (g.edges.map Edge.toValue) := by
      have hedges := (edges_perm h).map Diagram.edgeValue
      rwa [List.map_map] at hedges
    refine ⟨_, rfl, hlisted, hlisted.nodup_iff.mpr ?_⟩
    exact (nodup_edges (wellFormed_of_ofGraph h)).map toValue_injective
  closed := by
    intro n hn id hid
    obtain ⟨e, he, -, rfl⟩ := (mem_successors_iff h hn).mp hid
    have hg := wellFormed_of_ofGraph h
    constructor
    · have htarget := (hg.ends e he).2
      rw [← map_id_nodes h] at htarget
      obtain ⟨m, hm, hmid⟩ := List.mem_map.mp htarget
      exact ⟨m, hm, hmid⟩
    · obtain ⟨⟨t, ht, hkind, htid⟩, -⟩ := order_eq h
      intro htarget
      exact hg.entry e he t ht (htid.trans htarget.symm) hkind
  order := map_id_nodes h ▸ order_perm h
  first := head?_order h
  sorted := fun _ hn _ hid => exists_order_eq h ((mem_successors_iff h hn).mp hid)

end Plan

theorem Sample.isImage_plan :
    Plan.ofGraph default graph = .ok plan ∧ plan.IsImage default graph :=
  ⟨ofGraph_graph, Plan.isImage_of_ofGraph default graph plan ofGraph_graph⟩

end WorkflowEngine

import WorkflowEngine.Plan.Compilation
import WorkflowEngine.Proofs.Action.Checked
import WorkflowEngine.Proofs.Graph.Traversal
import WorkflowEngine.Proofs.Plan.Runnable

/-!
# Well-formed graphs

A graph is well-formed if it meets the requirements on nodes and edges as they were authored. The
checks of a graph look at parts of it only, such as the first node with each identifier and the
edges that can be followed. They pass if the graph is well-formed, and only then; so the well-formed
graphs are those that have a plan, and the defects of all others are listed.
-/
namespace WorkflowEngine

open Relation

theorem Keyed.find?_of_mem {α : Type} {key : α → String} {items : List α} {a : α}
    (hkeys : (items.map key).Nodup) (ha : a ∈ items) :
    items.find? (key · == key a) = some a := by
  obtain ⟨pre, post, rfl⟩ := List.append_of_mem ha
  rw [List.map_append, List.nodup_append] at hkeys
  have hpre : pre.find? (key · == key a) = none := by
    apply List.find?_eq_none.mpr
    intro b hb
    simpa using hkeys.2.2 (key b) (List.mem_map_of_mem hb) (key a) (by simp)
  simp [List.find?_append, hpre]

/-- The parameters that a kind of action declares can be read, and a message has a content. -/
structure ActionKind.Accepts (kind : ActionKind) (given : Record) : Prop where
  declared : ∀ spec ∈ kind.params, ∃ v, spec.read given = .ok v
  content : kind = .sendWhatsapp → ∃ spec ∈ kind.params,
    (spec.name = "template" ∨ spec.name = "message") ∧
      ∃ v, spec.read given = .ok v ∧ v.isGiven = true

/-- What a node needs of its own data and of the edges that leave it. -/
def NodeBody.Fits (edges : List Edge) : NodeBody → Prop
  | .trigger _ _ => edges.length ≤ 1
  | .condition _ => ∀ branch, edges.countP (·.branch = some branch) = 1
  | .action kind given => edges.length ≤ 1 ∧ kind.Accepts given
  | .delay amount _ => edges.length = 1 ∧ 0 ≤ amount

namespace Graph

def Joins (g : Graph) (a b : String) : Prop := ∃ e ∈ g.edges, e.source = a ∧ e.target = b

/-- The edges that leave a node, whether they can be followed or not. -/
def leaving (g : Graph) (id : String) : List Edge := g.edges.filter (·.source == id)

structure WellFormed (g : Graph) : Prop where
  unique : (g.nodes.map (·.id)).Nodup
  trigger : ∃ t, g.nodes.filter Node.isTrigger = [t]
  ends : ∀ e ∈ g.edges, e.source ∈ g.nodes.map (·.id) ∧ e.target ∈ g.nodes.map (·.id)
  entry : ∀ e ∈ g.edges, ∀ n ∈ g.nodes, n.id = e.target → n.kind ≠ .trigger
  labels : ∀ e ∈ g.edges, ∀ n ∈ g.nodes, n.id = e.source →
    (e.branch.isSome ↔ n.kind = .condition)
  fits : ∀ n ∈ g.nodes, n.body.Fits (g.leaving n.id)
  reached : ∀ t ∈ g.nodes, t.kind = .trigger → ∀ n ∈ g.nodes, ReflTransGen g.Joins t.id n.id
  acyclic : ∀ id, ¬ TransGen g.Joins id id

section Nodes

theorem repeatsAfter_eq_nil_iff {seen : List String} {nodes : List Node} :
    repeatsAfter seen nodes = [] ↔
      (nodes.map (·.id)).Nodup ∧ ∀ n ∈ nodes, n.id ∉ seen := by
  fun_induction repeatsAfter seen nodes with
  | case1 => simp
  | case2 seen n rest hseen ih =>
    constructor
    · intro h
      cases h
    · intro h
      exact absurd hseen (h.2 n List.mem_cons_self)
  | case3 seen n rest hnew ih =>
    rw [ih, List.map_cons, List.nodup_cons]
    constructor
    · intro ⟨hrest, hout⟩
      refine ⟨⟨?_, hrest⟩, fun m hm => ?_⟩
      · intro hmem
        obtain ⟨m, hm, hid⟩ := List.mem_map.mp hmem
        exact hout m hm (hid ▸ List.mem_cons_self)
      · rcases List.mem_cons.mp hm with rfl | hm
        · exact hnew
        · exact fun hseen => hout m hm (List.mem_cons_of_mem _ hseen)
    · intro ⟨⟨hn, hrest⟩, hout⟩
      refine ⟨hrest, fun m hm hmem => ?_⟩
      rcases List.mem_cons.mp hmem with hid | hseen
      · exact hn (hid ▸ List.mem_map_of_mem hm)
      · exact hout m (List.mem_cons_of_mem _ hm) hseen

theorem firstsAfter_eq {seen : List String} {nodes : List Node}
    (h : repeatsAfter seen nodes = []) : firstsAfter seen nodes = nodes := by
  fun_induction firstsAfter seen nodes with
  | case1 => rfl
  | case2 seen n rest hseen ih => simp [repeatsAfter, hseen] at h
  | case3 seen n rest hnew ih =>
    rw [repeatsAfter, if_neg hnew] at h
    rw [ih h]

variable {g : Graph}

theorem duplicateDefects_eq_nil_iff :
    g.duplicateDefects = [] ↔ (g.nodes.map (·.id)).Nodup := by
  rw [duplicateDefects, List.map_eq_nil_iff, repeatsAfter_eq_nil_iff]
  simp

variable (hunique : (g.nodes.map (·.id)).Nodup)

include hunique

theorem distinctNodes_eq : g.distinctNodes = g.nodes :=
  firstsAfter_eq (repeatsAfter_eq_nil_iff.mpr ⟨hunique, by simp⟩)

theorem ids_eq : g.ids = g.nodes.map (·.id) := by rw [ids, distinctNodes_eq hunique]

theorem find?_eq_some {n : Node} (hn : n ∈ g.nodes) : g.find? n.id = some n :=
  Keyed.find?_of_mem hunique hn

theorem triggerDefects_eq_nil_iff :
    g.triggerDefects = [] ↔ ∃ t, g.nodes.filter Node.isTrigger = [t] := by
  unfold triggerDefects triggers
  rw [distinctNodes_eq hunique]
  cases g.nodes.filter Node.isTrigger with
  | nil => simp
  | cons t rest => simp

end Nodes

section Edges

variable {g : Graph} {e : Edge}

theorem unknownEnds_eq_nil_iff :
    e.unknownEnds g.ids = [] ↔ e.source ∈ g.ids ∧ e.target ∈ g.ids := by
  simp [Edge.unknownEnds, List.filter_eq_nil_iff]

theorem labelDefects_eq_nil_iff :
    g.labelDefects e = [] ↔ (e.branch.isSome ↔ g.isCondition e.source = true) := by
  unfold labelDefects
  cases g.isCondition e.source <;> cases e.branch <;> simp

theorem edgeDefects_eq_nil_iff :
    g.edgeDefects e = [] ↔ (e.source ∈ g.ids ∧ e.target ∈ g.ids) ∧
      g.isTrigger e.target = false ∧ (e.branch.isSome ↔ g.isCondition e.source = true) := by
  rw [← unknownEnds_eq_nil_iff, ← labelDefects_eq_nil_iff]
  unfold edgeDefects
  cases hends : e.unknownEnds g.ids with
  | nil => cases g.isTrigger e.target <;> simp
  | cons _ _ => simp

/-- An edge without defects can be followed. -/
theorem isUsable_of_edgeDefects_eq_nil (h : g.edgeDefects e = []) : g.isUsable e = true := by
  obtain ⟨hends, -, hlabel⟩ := edgeDefects_eq_nil_iff.mp h
  have hknown : e.unknownEnds g.ids = [] := unknownEnds_eq_nil_iff.mpr hends
  rw [isUsable, hknown]
  cases hcondition : g.isCondition e.source
  · simp
  · simp [hlabel.mpr hcondition]

theorem outgoing_eq (h : ∀ e ∈ g.edges, g.edgeDefects e = []) (id : String) :
    g.outgoing id = g.leaving id := by
  unfold outgoing leaving
  apply List.filter_congr
  intro e he
  rw [isUsable_of_edgeDefects_eq_nil (h e he), Bool.and_true]

end Edges

section Resolved

variable {g : Graph} (hunique : (g.nodes.map (·.id)).Nodup)

include hunique

theorem isTrigger_id_iff {n : Node} (hn : n ∈ g.nodes) :
    g.isTrigger n.id = true ↔ n.kind = .trigger := by
  simp [isTrigger, find?_eq_some hunique hn, Node.isTrigger]

theorem isCondition_id_iff {n : Node} (hn : n ∈ g.nodes) :
    g.isCondition n.id = true ↔ n.kind = .condition := by
  simp [isCondition, find?_eq_some hunique hn, Node.isCondition]

/-- An edge has no defects if it joins two nodes that it may join, and has the label it needs. -/
theorem edgeDefects_eq_nil_iff_forall {e : Edge} :
    g.edgeDefects e = [] ↔
      (e.source ∈ g.nodes.map (·.id) ∧ e.target ∈ g.nodes.map (·.id)) ∧
      (∀ n ∈ g.nodes, n.id = e.target → n.kind ≠ .trigger) ∧
      ∀ n ∈ g.nodes, n.id = e.source → (e.branch.isSome ↔ n.kind = .condition) := by
  rw [edgeDefects_eq_nil_iff, ids_eq hunique]
  refine and_congr_right fun ⟨hsource, htarget⟩ => ?_
  obtain ⟨source, hs, hsid⟩ := List.mem_map.mp hsource
  obtain ⟨target, ht, htid⟩ := List.mem_map.mp htarget
  rw [← hsid, ← htid, isCondition_id_iff hunique hs, Bool.eq_false_iff, ne_eq,
    isTrigger_id_iff hunique ht]
  constructor
  · intro ⟨hentry, hlabel⟩
    constructor
    · intro n hn hid
      rwa [List.inj_on_of_nodup_map hunique hn ht hid]
    · intro n hn hid
      rwa [List.inj_on_of_nodup_map hunique hn hs hid]
  · intro ⟨hentry, hlabel⟩
    exact ⟨hentry target ht rfl, hlabel source hs rfl⟩

end Resolved

section Data

variable {kind : ActionKind} {given : Record}

theorem any_lookup_valuesOf_iff (given : Record) (spec : ParamSpec) (hspec : spec ∈ kind.params) :
    ((ActionParams.valuesOf kind.params given).lookup spec.name).any Value.isGiven = true ↔
      ∃ v, spec.read given = .ok v ∧ v.isGiven = true := by
  rw [ActionParams.lookup_valuesOf hspec]
  cases spec.read given <;> simp [Except.toOption]

theorem hasContent_iff :
    ActionParams.hasContent kind (ActionParams.valuesOf kind.params given) = true ↔
      (kind = .sendWhatsapp → ∃ spec ∈ kind.params,
        (spec.name = "template" ∨ spec.name = "message") ∧
          ∃ v, spec.read given = .ok v ∧ v.isGiven = true) := by
  unfold ActionParams.hasContent
  by_cases hkind : kind = .sendWhatsapp
  · subst hkind
    have hmem (name : String) (hname : name = "template" ∨ name = "message") :
        ActionKind.optional name .optionalText ∈ ActionKind.params .sendWhatsapp := by
      rcases hname with rfl | rfl <;> simp [ActionKind.params]
    have htemplate := any_lookup_valuesOf_iff given _ (hmem "template" (.inl rfl))
    have hmessage := any_lookup_valuesOf_iff given _ (hmem "message" (.inr rfl))
    simp only [ActionKind.optional] at htemplate hmessage
    simp only [List.any_cons, List.any_nil, Bool.or_false, Bool.or_eq_true, htemplate, hmessage]
    simp [ActionKind.params, ActionKind.optional]
  · simp [hkind]

theorem exists_params_iff :
    (∃ p, ActionParams.ofRecord kind given = .ok p) ↔ kind.Accepts given := by
  rw [ActionParams.exists_ofRecord_iff, hasContent_iff]
  exact ⟨fun h => ⟨h.1, h.2⟩, fun h => ⟨h.declared, h.content⟩⟩

theorem branchDefects_eq_nil_iff {id : String} {edges : List Edge} {branch : Branch} :
    branchDefects id edges branch = [] ↔ edges.countP (·.branch = some branch) = 1 := by
  unfold branchDefects
  split
  · next hcount => simp [hcount]
  · next hcount => simp [hcount]
  · next hmany => simpa using hmany

theorem dataDefects_action_eq_nil_iff {id label : String} :
    dataDefects ⟨id, label, .action kind given⟩ = [] ↔ kind.Accepts given := by
  rw [← exists_params_iff]
  unfold dataDefects
  dsimp only
  cases ActionParams.ofRecord kind given <;> simp

/-- A node has no defects of its own if it fits the edges that leave it. -/
theorem ownDefects_eq_nil_iff {n : Node} {edges : List Edge} :
    successorDefects n edges ++ dataDefects n = [] ↔ n.body.Fits edges := by
  rw [List.append_eq_nil_iff]
  obtain ⟨id, label, body⟩ := n
  cases body with
  | trigger kind filters =>
    simp [successorDefects, dataDefects, NodeBody.Fits, Node.isCondition, Node.kind, NodeBody.kind]
  | condition predicate =>
    simp only [successorDefects, dataDefects, NodeBody.Fits, Node.isCondition, Node.kind,
      NodeBody.kind, decide_true, if_true, List.flatMap_eq_nil_iff, branchDefects_eq_nil_iff,
      and_true]
    exact ⟨fun h branch => h branch (Choice.mem_all branch), fun h branch _ => h branch⟩
  | action kind given =>
    rw [dataDefects_action_eq_nil_iff]
    simp [successorDefects, NodeBody.Fits, Node.isCondition, Node.kind, NodeBody.kind]
  | delay amount unit =>
    have hone : (edges.length ≤ 1 ∧ edges ≠ []) ↔ edges.length = 1 := by
      rw [← List.length_pos_iff]
      omega
    simp [successorDefects, dataDefects, NodeBody.Fits, Node.isCondition, Node.kind, NodeBody.kind,
      ← hone]

end Data

section Searches

variable {g : Graph} (hunique : (g.nodes.map (·.id)).Nodup)
  (hedges : ∀ e ∈ g.edges, g.edgeDefects e = [])

theorem targets_subset (g : Graph) (id : String) : g.targets id ⊆ g.ids := by
  intro target htarget
  obtain ⟨e, he, rfl⟩ := List.mem_map.mp htarget
  exact (ends_mem_of_isUsable (isUsable_of_mem_outgoing he).1).2

include hedges

theorem below_outgoing : Search.Below Edge.target g.outgoing = Function.swap g.Joins := by
  funext b a
  apply propext
  simp only [Search.Below, outgoing_eq hedges, Function.swap, Joins, leaving, List.mem_filter,
    beq_iff_eq, and_assoc]

theorem mem_targets_iff {a b : String} : b ∈ g.targets a ↔ g.Joins a b := by
  simp only [targets, outgoing_eq hedges, leaving, Joins, List.mem_map, List.mem_filter, beq_iff_eq,
    and_assoc]

include hunique

theorem mem_reachable_iff {a b : String} (ha : a ∈ g.ids) :
    b ∈ g.reachable a ↔ ReflTransGen g.Joins a b := by
  have hids : g.ids.Nodup := by
    rw [ids_eq hunique]
    exact hunique
  rw [reachable, Search.mem_visited_iff hids (fun id _ => targets_subset g id) ha]
  simp only [mem_targets_iff hedges]

theorem reachDefects_eq_nil_iff {t : Node} (ht : g.nodes.filter Node.isTrigger = [t]) :
    g.reachDefects = [] ↔ ∀ n ∈ g.nodes, ReflTransGen g.Joins t.id n.id := by
  have hmem : t ∈ g.nodes := by
    have : t ∈ g.nodes.filter Node.isTrigger := by simp [ht]
    exact (List.mem_filter.mp this).1
  have hid : t.id ∈ g.ids := by
    rw [ids_eq hunique]
    exact List.mem_map_of_mem hmem
  unfold reachDefects triggers
  rw [distinctNodes_eq hunique, ht]
  simp only [List.map_eq_nil_iff, List.filter_eq_nil_iff, Bool.and_eq_true, Bool.not_eq_true',
    not_and, List.contains_iff_mem, mem_reachable_iff hunique hedges hid, Bool.not_eq_false]
  constructor
  · intro h n hn
    by_cases htrigger : n.isTrigger = true
    · have : n ∈ g.nodes.filter Node.isTrigger := List.mem_filter.mpr ⟨hn, htrigger⟩
      obtain rfl : n = t := by simpa [ht] using this
      exact .refl
    · simpa [mem_reachable_iff hunique hedges hid] using h n hn (by simpa using htrigger)
  · intro h n hn _
    simpa [mem_reachable_iff hunique hedges hid] using h n hn

theorem cycleDefects_eq_nil_iff : g.cycleDefects = [] ↔ ∀ id, ¬ TransGen g.Joins id id := by
  have hids : g.ids.Nodup := by
    rw [ids_eq hunique]
    exact hunique
  constructor
  · intro h id hcycle
    have hbelow := wellFounded_of_cycleDefects_eq_nil h
    rw [below_outgoing hedges] at hbelow
    exact hbelow.transGen.irrefl.irrefl id (transGen_swap.mpr hcycle)
  · intro h
    rw [cycleDefects, Search.backEdges_eq_nil _ (.idle hids), List.map_nil]
    intro id hcycle
    rw [below_outgoing hedges, transGen_swap] at hcycle
    exact h id hcycle

end Searches

section Checks

variable {g : Graph}

theorem WellFormed.edgeDefects_eq_nil (h : g.WellFormed) : ∀ e ∈ g.edges, g.edgeDefects e = [] :=
  fun e he =>
    (edgeDefects_eq_nil_iff_forall h.unique).mpr ⟨h.ends e he, h.entry e he, h.labels e he⟩

/-- The checks of a graph find nothing if it is well-formed, and only then. -/
theorem defects_eq_nil_iff : g.defects = [] ↔ g.WellFormed := by
  have htrigger {t : Node} (ht : g.nodes.filter Node.isTrigger = [t]) {n : Node} :
      n ∈ g.nodes ∧ n.kind = .trigger ↔ n = t := by
    have hmem : n ∈ g.nodes.filter Node.isTrigger ↔ n = t := by rw [ht, List.mem_singleton]
    rw [← hmem, List.mem_filter, Node.isTrigger, decide_eq_true_iff]
  simp only [defects, List.append_eq_nil_iff, List.flatMap_eq_nil_iff, nodeDefects,
    duplicateDefects_eq_nil_iff, and_assoc]
  constructor
  · rintro ⟨hunique, ht, hedges, hnodes, hreach, hcycles⟩
    rw [triggerDefects_eq_nil_iff hunique] at ht
    obtain ⟨t, ht⟩ := ht
    rw [distinctNodes_eq hunique] at hnodes
    rw [reachDefects_eq_nil_iff hunique hedges ht] at hreach
    have hresolved e he := (edgeDefects_eq_nil_iff_forall hunique).mp (hedges e he)
    refine {
      unique := hunique
      trigger := ⟨t, ht⟩
      ends := fun e he => (hresolved e he).1
      entry := fun e he => (hresolved e he).2.1
      labels := fun e he => (hresolved e he).2.2
      fits := fun n hn => ?_
      reached := fun s hs hkind => ?_
      acyclic := (cycleDefects_eq_nil_iff hunique hedges).mp hcycles }
    · rw [← outgoing_eq hedges, ← ownDefects_eq_nil_iff]
      exact List.append_eq_nil_iff.mpr (hnodes n hn)
    · obtain rfl := (htrigger ht).mp ⟨hs, hkind⟩
      exact hreach
  · intro h
    obtain ⟨t, ht⟩ := h.trigger
    have hedges := h.edgeDefects_eq_nil
    obtain ⟨hmem, hkind⟩ := (htrigger ht).mpr rfl
    refine ⟨h.unique, ?_, hedges, ?_, ?_, ?_⟩
    · exact (triggerDefects_eq_nil_iff h.unique).mpr ⟨t, ht⟩
    · intro n hn
      rw [distinctNodes_eq h.unique] at hn
      rw [← List.append_eq_nil_iff, ownDefects_eq_nil_iff, outgoing_eq hedges]
      exact h.fits n hn
    · exact (reachDefects_eq_nil_iff h.unique hedges ht).mpr (h.reached t hmem hkind)
    · exact (cycleDefects_eq_nil_iff h.unique hedges).mpr h.acyclic

end Checks

end Graph
end WorkflowEngine

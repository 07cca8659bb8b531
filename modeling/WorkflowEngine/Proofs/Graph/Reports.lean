import Mathlib.Data.List.Count
import WorkflowEngine.Proofs.Plan.Accepted

/-!
# What is reported of a graph

The checks of a graph look at the first node with each identifier, and at the edges between such
nodes. So a defect is missed if the node that it is about repeats an identifier, if an edge has an
end that is no node, or if an edge that closes a loop lacks the label that its condition asks for.
Another defect is reported instead each time, and nothing else is missed.
-/
namespace WorkflowEngine

open Relation

/-- A defect is reported a number of times if there is cause for it, and never otherwise. -/
structure Defect.IsReported (d : Defect) (times : Nat) (cause : Prop) (found : List Defect) :
    Prop where
  complete : cause → found.count d = times
  sound : d ∈ found → cause

theorem Defect.IsReported.congr {d : Defect} {times : Nat} {cause cause' : Prop}
    {found : List Defect} (h : d.IsReported times cause found) (hcause : cause ↔ cause') :
    d.IsReported times cause' found :=
  ⟨fun hc => h.complete (hcause.mpr hc), fun hd => hcause.mp (h.sound hd)⟩

namespace Graph

/-- Both ends of an edge are nodes. -/
def Knows (g : Graph) (e : Edge) : Prop :=
  (∃ n ∈ g.nodes, n.id = e.source) ∧ ∃ n ∈ g.nodes, n.id = e.target

/-- An edge leads from one node to another. -/
def Connects (g : Graph) (a b : String) : Prop :=
  ∃ e ∈ g.edges, g.Knows e ∧ e.source = a ∧ e.target = b

/-- An edge leads from one node to another, with a label if it leaves a condition. -/
def Follows (g : Graph) (a b : String) : Prop :=
  ∃ e ∈ g.edges, g.Knows e ∧ (e.branch = none → ∀ n, g.find? a = some n → n.kind ≠ .condition) ∧
    e.source = a ∧ e.target = b

/-- What is reported of a graph, and how often. -/
structure Reports (g : Graph) (found : List Defect) : Prop where
  /-- Every use of an identifier but the first is reported. -/
  repeated : ∀ id, found.count (.duplicateNodeId id) = g.nodes.countP (·.id == id) - 1
  /-- Parameters are reported of the first node with an identifier only. -/
  params : ∀ id kind e, Defect.IsReported (.invalidParams id kind e) 1
    (∃ n given, g.find? id = some n ∧ n.body = .action kind given ∧
      ActionParams.ofRecord kind given = .error e) found
  /-- Negative delays are reported of the first node with an identifier only. -/
  delays : ∀ id amount, Defect.IsReported (.negativeDelay id amount) 1
    (∃ n unit, g.find? id = some n ∧ n.body = .delay amount unit ∧ amount < 0) found
  /-- Every end of an edge that is no node is reported. -/
  unknown : ∀ e id, found.count (.unknownNode e id) =
    if id ∈ g.nodes.map (·.id) then 0 else g.edges.count e * [e.source, e.target].count id
  entry : ∀ e, Defect.IsReported (.triggerHasIncoming e) (g.edges.count e)
    (e ∈ g.edges ∧ g.Knows e ∧ ∃ n, g.find? e.target = some n ∧ n.kind = .trigger) found
  unlabelled : ∀ e, Defect.IsReported (.missingBranchLabel e) (g.edges.count e)
    (e ∈ g.edges ∧ g.Knows e ∧ e.branch = none ∧
      ∃ n, g.find? e.source = some n ∧ n.kind = .condition) found
  labelled : ∀ e, Defect.IsReported (.unexpectedBranchLabel e) (g.edges.count e)
    (e ∈ g.edges ∧ g.Knows e ∧ e.branch ≠ none ∧
      ∃ n, g.find? e.source = some n ∧ n.kind ≠ .condition) found
  /-- A trigger is one too many if it comes after another, each the first node with its identifier. -/
  triggers : ∀ id, Defect.IsReported (.multipleTriggers id) 1
    (∃ before n after, g.nodes = before ++ n :: after ∧ n.id = id ∧ n.kind = .trigger ∧
      (∀ m ∈ before, m.id ≠ id) ∧ ∃ t ∈ before, t.kind = .trigger ∧ g.find? t.id = some t) found
  cycles : (∃ e, .cycle e ∈ found) ↔ ∃ id, TransGen g.Follows id id

/-- Where something keeps a check from finding a defect, it is reported itself. -/
structure Covers (g : Graph) (found : List Defect) : Prop where
  nodes : ∀ n ∈ g.nodes, g.find? n.id = some n ∨ .duplicateNodeId n.id ∈ found
  edges : ∀ e ∈ g.edges, g.Knows e ∨ ∃ id, .unknownNode e id ∈ found
  cycles : (∃ id, TransGen g.Connects id id) →
    (∃ e, .cycle e ∈ found) ∨ ∃ e, .missingBranchLabel e ∈ found

variable {g : Graph}

section Known

theorem exists_find?_of_mem {id : String} (h : ∃ n ∈ g.nodes, n.id = id) :
    ∃ n, g.find? id = some n := by
  obtain ⟨n, hn, hid⟩ := h
  exact Option.isSome_iff_exists.mp (List.find?_isSome.mpr ⟨n, hn, by simpa using hid⟩)

theorem mem_ids_iff {id : String} : id ∈ g.ids ↔ ∃ n ∈ g.nodes, n.id = id := by
  refine ⟨exists_node_of_mem_ids, fun h => ?_⟩
  obtain ⟨m, hm⟩ := exists_find?_of_mem h
  have hmid : m.id = id := by simpa using List.find?_some hm
  have hfirst : g.find? m.id = some m := by rw [hmid]; exact hm
  exact List.mem_map.mpr ⟨m, mem_distinctNodes_iff.mpr hfirst, hmid⟩

theorem knows_iff {e : Edge} : e.unknownEnds g.ids = [] ↔ g.Knows e := by
  rw [unknownEnds_eq_nil_iff, mem_ids_iff, mem_ids_iff, Knows]

theorem isCondition_eq_true_iff {id : String} :
    g.isCondition id = true ↔ ∃ n, g.find? id = some n ∧ n.kind = .condition := by
  simp [isCondition, Option.any_eq_true, Node.isCondition]

theorem isTrigger_eq_true_iff {id : String} :
    g.isTrigger id = true ↔ ∃ n, g.find? id = some n ∧ n.kind = .trigger := by
  simp [isTrigger, Option.any_eq_true, Node.isTrigger]

end Known

section Data

variable {id : String}

/-- What is wrong with the data of a node is reported of the first node with its identifier. -/
theorem isReported_of_dataDefects {d : Defect} (hcheck : d.check? = some .data)
    (hid : ∀ n, d ∈ dataDefects n → n.id = id) :
    d.IsReported 1 (∃ n, g.find? id = some n ∧ d ∈ dataDefects n) g.defects where
  complete := by
    rintro ⟨n, hn, hd⟩
    obtain rfl := hid n hd
    have honly : ∀ m ∈ g.distinctNodes, d ∈ dataDefects m → m = n := by
      intro m hm hdm
      have hfirst := mem_distinctNodes_iff.mp hm
      rw [hid m hdm, hn] at hfirst
      exact (Option.some.inj hfirst).symm
    have hnode : g.distinctNodes.count n = 1 :=
      List.count_eq_one_of_mem nodup_ids.of_map (mem_distinctNodes_iff.mpr hn)
    have hdata : (dataDefects n).count d = 1 := by
      have hpos := List.count_pos_iff.mpr hd
      have hle := List.count_le_length (a := d) (l := dataDefects n)
      have hone := length_dataDefects_le n
      omega
    rw [count_defects hcheck, foundBy, count_flatMap_of_about honly, hnode, hdata]
  sound h := by
    obtain ⟨n, hn, hd⟩ := List.mem_flatMap.mp ((mem_defects_iff _ hcheck).mp h)
    exact ⟨n, by rw [← hid n hd]; exact mem_distinctNodes_iff.mp hn, hd⟩

end Data

section Edges

variable {e e' : Edge}

theorem edgeDefects_of_knows (h : g.Knows e) : g.edgeDefects e =
    (if g.isTrigger e.target then [.triggerHasIncoming e] else []) ++ g.labelDefects e := by
  rw [edgeDefects, knows_iff.mpr h]

theorem mem_labelDefects_iff {d : Defect} : d ∈ g.labelDefects e ↔
    d = .missingBranchLabel e ∧ g.isCondition e.source = true ∧ e.branch = none ∨
      d = .unexpectedBranchLabel e ∧ g.isCondition e.source = false ∧ e.branch ≠ none := by
  unfold labelDefects
  cases g.isCondition e.source <;> cases e.branch <;> simp

theorem mem_edgeDefects_iff {d : Defect} : d ∈ g.edgeDefects e ↔
    g.Knows e ∧ (d = .triggerHasIncoming e ∧ g.isTrigger e.target = true ∨ d ∈ g.labelDefects e) ∨
      ∃ id ∈ e.unknownEnds g.ids, d = .unknownNode e id := by
  by_cases hknows : g.Knows e
  · rw [edgeDefects_of_knows hknows, knows_iff.mpr hknows]
    cases g.isTrigger e.target <;> simp [hknows]
  · have hunknown : e.unknownEnds g.ids ≠ [] := fun h => hknows (knows_iff.mp h)
    unfold edgeDefects
    split
    · next h => exact absurd h hunknown
    · simp only [hknows, false_and, false_or, List.mem_map, @eq_comm _ d]

theorem nodup_edgeDefects (h : g.Knows e) : (g.edgeDefects e).Nodup := by
  rw [edgeDefects_of_knows h, labelDefects]
  cases g.isTrigger e.target <;> cases g.isCondition e.source <;> cases e.branch <;> simp

/-- What is wrong with an edge between nodes is reported once for each such edge. -/
theorem isReported_of_edgeDefects {d : Defect} (hcheck : d.check? = some .edges)
    (habout : ∀ f, d ∈ g.edgeDefects f → f = e) (hknows : d ∈ g.edgeDefects e → g.Knows e) :
    d.IsReported (g.edges.count e) (e ∈ g.edges ∧ d ∈ g.edgeDefects e) g.defects where
  complete := by
    rintro ⟨-, hd⟩
    have hone := List.count_eq_one_of_mem (nodup_edgeDefects (hknows hd)) hd
    rw [count_defects hcheck, foundBy, count_flatMap_of_about fun f _ => habout f, hone,
      Nat.mul_one]
  sound h := by
    obtain ⟨f, hf, hd⟩ := List.mem_flatMap.mp ((mem_defects_iff _ hcheck).mp h)
    obtain rfl := habout f hd
    exact ⟨hf, hd⟩

theorem triggerHasIncoming_mem_edgeDefects_iff : .triggerHasIncoming e ∈ g.edgeDefects e' ↔
    e' = e ∧ g.Knows e ∧ ∃ n, g.find? e.target = some n ∧ n.kind = .trigger := by
  rw [mem_edgeDefects_iff, mem_labelDefects_iff, ← isTrigger_eq_true_iff]
  constructor
  · rintro (⟨hknows, ⟨h, htrigger⟩ | ⟨h, -⟩ | ⟨h, -⟩⟩ | ⟨_, -, h⟩) <;> cases h
    exact ⟨rfl, hknows, htrigger⟩
  · rintro ⟨rfl, hknows, htrigger⟩
    exact .inl ⟨hknows, .inl ⟨rfl, htrigger⟩⟩

theorem missingBranchLabel_mem_edgeDefects_iff : .missingBranchLabel e ∈ g.edgeDefects e' ↔
    e' = e ∧ g.Knows e ∧ e.branch = none ∧
      ∃ n, g.find? e.source = some n ∧ n.kind = .condition := by
  rw [mem_edgeDefects_iff, mem_labelDefects_iff, ← isCondition_eq_true_iff]
  constructor
  · rintro (⟨hknows, ⟨h, -⟩ | ⟨h, hcondition, hnone⟩ | ⟨h, -⟩⟩ | ⟨_, -, h⟩) <;> cases h
    exact ⟨rfl, hknows, hnone, hcondition⟩
  · rintro ⟨rfl, hknows, hnone, hcondition⟩
    exact .inl ⟨hknows, .inr (.inl ⟨rfl, hcondition, hnone⟩)⟩

theorem unexpectedBranchLabel_mem_edgeDefects_iff : .unexpectedBranchLabel e ∈ g.edgeDefects e' ↔
    e' = e ∧ g.Knows e ∧ e.branch ≠ none ∧
      ∃ n, g.find? e.source = some n ∧ n.kind ≠ .condition := by
  rw [mem_edgeDefects_iff, mem_labelDefects_iff]
  constructor
  · rintro (⟨hknows, ⟨h, -⟩ | ⟨h, -⟩ | ⟨h, hother, hsome⟩⟩ | ⟨_, -, h⟩) <;> cases h
    obtain ⟨n, hn⟩ := exists_find?_of_mem hknows.1
    refine ⟨rfl, hknows, hsome, n, hn, fun hkind => ?_⟩
    simp [isCondition_eq_true_iff.mpr ⟨n, hn, hkind⟩] at hother
  · rintro ⟨rfl, hknows, hsome, n, hn, hkind⟩
    have hother : g.isCondition e'.source = false := by
      simpa [isCondition, hn, Node.isCondition] using hkind
    exact .inl ⟨hknows, .inr (.inr ⟨rfl, hother, hsome⟩)⟩

theorem count_unknownEnds (e : Edge) (ids : List String) (id : String) :
    (e.unknownEnds ids).count id = if id ∈ ids then 0 else [e.source, e.target].count id := by
  split
  · next h => exact List.count_eq_zero.mpr fun hmem => by simp [Edge.unknownEnds, h] at hmem
  · next h => exact List.count_filter (by simpa using h)

theorem count_unknownNode_edgeDefects (e : Edge) (id : String) :
    (g.edgeDefects e).count (.unknownNode e id) = (e.unknownEnds g.ids).count id := by
  by_cases hknows : g.Knows e
  · rw [knows_iff.mpr hknows, List.count_nil, List.count_eq_zero, mem_edgeDefects_iff,
      knows_iff.mpr hknows, mem_labelDefects_iff]
    simp
  · unfold edgeDefects
    split
    · next h => exact absurd (knows_iff.mp h) hknows
    · exact List.count_map_of_injective _ _ (fun a b h => by cases h; rfl) id

/-- Every end of an edge that is no node is reported. -/
theorem count_unknownNode (e : Edge) (id : String) : g.defects.count (.unknownNode e id) =
    if id ∈ g.nodes.map (·.id) then 0 else g.edges.count e * [e.source, e.target].count id := by
  have habout : ∀ f ∈ g.edges, .unknownNode e id ∈ g.edgeDefects f → f = e := by
    intro f _ h
    rw [mem_edgeDefects_iff, mem_labelDefects_iff] at h
    rcases h with ⟨-, ⟨h, -⟩ | ⟨h, -⟩ | ⟨h, -⟩⟩ | ⟨_, -, h⟩ <;> cases h
    rfl
  have hnode : id ∈ g.nodes.map (·.id) ↔ id ∈ g.ids := by rw [mem_ids_iff, List.mem_map]
  rw [count_defects rfl, foundBy, count_flatMap_of_about habout, count_unknownNode_edgeDefects,
    count_unknownEnds]
  by_cases h : id ∈ g.ids <;> simp only [hnode, h, if_true, if_false, Nat.mul_zero]

end Edges

section Triggers

variable {before after : List Node} {n : Node} {seen : List String}

/-- The nodes before a first one are checked before it. -/
theorem firstsAfter_append (after : List Node) (hseen : n.id ∉ seen)
    (hnew : ∀ m ∈ before, m.id ≠ n.id) :
    ∃ rest, firstsAfter seen (before ++ n :: after) = firstsAfter seen before ++ n :: rest := by
  fun_induction firstsAfter seen before with
  | case1 seen => exact ⟨firstsAfter (n.id :: seen) after, by simp [firstsAfter, hseen]⟩
  | case2 seen m before hm ih =>
    obtain ⟨rest, hrest⟩ := ih hseen fun k hk => hnew k (List.mem_cons_of_mem _ hk)
    exact ⟨rest, by rw [List.cons_append, firstsAfter, if_pos hm, hrest]⟩
  | case3 seen m before hm ih =>
    have hne : n.id ∉ m.id :: seen := by
      simpa [hseen] using (hnew m List.mem_cons_self).symm
    obtain ⟨rest, hrest⟩ := ih hne fun k hk => hnew k (List.mem_cons_of_mem _ hk)
    exact ⟨rest, by rw [List.cons_append, firstsAfter, if_neg hm, hrest, List.cons_append]⟩

theorem multipleTriggers_mem_triggerDefects_iff {id : String} :
    .multipleTriggers id ∈ g.triggerDefects ↔ ∃ n ∈ g.triggers.tail, n.id = id := by
  unfold triggerDefects
  cases g.triggers with
  | nil => simp
  | cons t extra => simp

theorem nodup_triggers : (g.triggers.map (·.id)).Nodup :=
  nodup_ids.sublist (List.filter_sublist.map _)

theorem nodup_triggerDefects : g.triggerDefects.Nodup := by
  have hids := nodup_triggers (g := g)
  unfold triggerDefects
  split
  · exact List.nodup_singleton _
  · next t extra htriggers =>
    rw [htriggers, List.map_cons, List.nodup_cons] at hids
    have hinjective : Function.Injective Defect.multipleTriggers := fun a b h => by cases h; rfl
    simpa only [List.map_map, Function.comp_def] using hids.2.map hinjective

/-- An item of a list without repetition is in its tail if there are items before it. -/
theorem mem_tail_append_iff {α : Type} {front back : List α} {a : α}
    (h : (front ++ a :: back).Nodup) : a ∈ (front ++ a :: back).tail ↔ ∃ b, b ∈ front := by
  cases front with
  | nil => simpa using (List.nodup_cons.mp h).1
  | cons b front => exact iff_of_true (by simp) ⟨b, List.mem_cons_self⟩

/-- A trigger is one too many if another is checked before it. -/
theorem mem_tail_triggers_iff (hsplit : g.nodes = before ++ n :: after)
    (hnew : ∀ m ∈ before, m.id ≠ n.id) (hkind : n.kind = .trigger) :
    n ∈ g.triggers.tail ↔ ∃ t ∈ before, t.kind = .trigger ∧ g.find? t.id = some t := by
  obtain ⟨rest, hrest⟩ := firstsAfter_append after List.not_mem_nil hnew
  have htriggers : g.triggers = (firstsAfter [] before).filter Node.isTrigger ++
      n :: rest.filter Node.isTrigger := by
    have htrigger : n.isTrigger = true := by simp [Node.isTrigger, hkind]
    rw [triggers, distinctNodes, hsplit, hrest, List.filter_append,
      List.filter_cons_of_pos htrigger]
  have hnodup := (nodup_triggers (g := g)).of_map
  rw [htriggers] at hnodup ⊢
  rw [mem_tail_append_iff hnodup]
  refine exists_congr fun t => ?_
  rw [List.mem_filter, mem_firstsAfter_iff, Node.isTrigger, decide_eq_true_iff]
  constructor
  · rintro ⟨⟨hfirst, -⟩, ht⟩
    refine ⟨List.mem_of_find?_eq_some hfirst, ht, ?_⟩
    rw [find?, hsplit, List.find?_append, hfirst, Option.some_or]
  · rintro ⟨hmem, ht, hfirst⟩
    refine ⟨⟨?_, List.not_mem_nil⟩, ht⟩
    obtain ⟨m, hm⟩ := Option.isSome_iff_exists.mp
      (List.find?_isSome.mpr ⟨t, hmem, beq_self_eq_true t.id⟩ :
        (before.find? (·.id == t.id)).isSome)
    rw [find?, hsplit, List.find?_append, hm, Option.some_or] at hfirst
    rw [hm, hfirst]

theorem isReported_multipleTriggers (id : String) : Defect.IsReported (.multipleTriggers id) 1
    (∃ before n after, g.nodes = before ++ n :: after ∧ n.id = id ∧ n.kind = .trigger ∧
      (∀ m ∈ before, m.id ≠ id) ∧ ∃ t ∈ before, t.kind = .trigger ∧ g.find? t.id = some t)
    g.defects where
  complete := by
    rintro ⟨before, n, after, hsplit, rfl, hkind, hnew, hbefore⟩
    have hmem := (mem_tail_triggers_iff hsplit hnew hkind).mpr hbefore
    rw [count_defects rfl]
    exact List.count_eq_one_of_mem nodup_triggerDefects
      (multipleTriggers_mem_triggerDefects_iff.mpr ⟨n, hmem, rfl⟩)
  sound h := by
    rw [mem_defects_iff _ rfl] at h
    obtain ⟨n, hn, rfl⟩ := multipleTriggers_mem_triggerDefects_iff.mp h
    obtain ⟨hfirst, hkind⟩ := List.mem_filter.mp (List.mem_of_mem_tail hn)
    rw [Node.isTrigger, decide_eq_true_iff] at hkind
    obtain ⟨-, before, after, hsplit, hnew⟩ :=
      List.find?_eq_some_iff_append.mp (mem_distinctNodes_iff.mp hfirst)
    have hnew : ∀ m ∈ before, m.id ≠ n.id := by simpa using hnew
    exact ⟨before, n, after, hsplit, rfl, hkind, hnew,
      (mem_tail_triggers_iff hsplit hnew hkind).mp hn⟩

end Triggers

section Cycles

theorem isUsable_iff {e : Edge} : g.isUsable e = true ↔
    g.Knows e ∧ (e.branch = none → ∀ n, g.find? e.source = some n → n.kind ≠ .condition) := by
  rw [isUsable, Bool.and_eq_true, List.isEmpty_iff, knows_iff, Bool.or_eq_true, Bool.not_eq_true',
    Bool.eq_false_iff, ne_eq, isCondition_eq_true_iff]
  cases e.branch <;> simp

/-- The search for cycles goes by the edges that can be followed. -/
theorem below_eq_swap_follows :
    Search.Below Edge.target g.outgoing = Function.swap g.Follows := by
  funext b a
  apply propext
  simp only [Search.Below, outgoing, List.mem_filter, Bool.and_eq_true, beq_iff_eq, isUsable_iff,
    Function.swap, Follows]
  constructor
  · rintro ⟨e, ⟨he, rfl, hknows, hlabel⟩, rfl⟩
    exact ⟨e, he, hknows, hlabel, rfl, rfl⟩
  · rintro ⟨e, he, hknows, hlabel, rfl, rfl⟩
    exact ⟨e, ⟨he, rfl, hknows, hlabel⟩, rfl⟩

theorem exists_cycle_mem_defects_iff :
    (∃ e, .cycle e ∈ g.defects) ↔ ∃ id, TransGen g.Follows id id := by
  have hnone : g.cycleDefects = [] ↔ ∀ id, ¬ TransGen g.Follows id id := by
    constructor
    · intro h id hcycle
      have hbelow := wellFounded_of_cycleDefects_eq_nil h
      rw [below_eq_swap_follows] at hbelow
      exact hbelow.transGen.irrefl.irrefl id (transGen_swap.mpr hcycle)
    · intro h
      rw [cycleDefects, Search.backEdges_eq_nil _ (.idle nodup_ids), List.map_nil]
      intro id hcycle
      rw [below_eq_swap_follows, transGen_swap] at hcycle
      exact h id hcycle
  have hsome : (∃ e, .cycle e ∈ g.defects) ↔ g.cycleDefects ≠ [] := by
    simp only [mem_defects_iff (d := .cycle _) .cycles rfl, foundBy]
    constructor
    · rintro ⟨e, he⟩
      exact List.ne_nil_of_mem he
    · intro h
      obtain ⟨d, hd⟩ := List.exists_mem_of_ne_nil _ h
      obtain ⟨e, -, rfl⟩ := List.mem_map.mp hd
      exact ⟨e, hd⟩
  rw [hsome, ne_eq, hnone, not_forall]
  simp only [not_not]

end Cycles

/-- What is reported of a graph is what its checks are there for, as far as they look. -/
theorem reports_defects (g : Graph) : g.Reports g.defects where
  repeated id := by
    have hmap : g.duplicateDefects.count (.duplicateNodeId id) =
        (repeatsAfter [] g.nodes).countP (·.id == id) := by
      rw [duplicateDefects, List.count, List.countP_map]
      congr 1
      funext n
      simp [beq_eq_decide]
    rw [count_defects rfl, foundBy, hmap, count_repeatsAfter, if_neg List.not_mem_nil]
  params id kind e := by
    refine (isReported_of_dataDefects rfl fun n h =>
      (invalidParams_mem_dataDefects_iff.mp h).1).congr ⟨?_, ?_⟩
    · rintro ⟨n, hn, hd⟩
      obtain ⟨-, given, hbody, herror⟩ := invalidParams_mem_dataDefects_iff.mp hd
      exact ⟨n, given, hn, hbody, herror⟩
    · rintro ⟨n, given, hn, hbody, herror⟩
      exact ⟨n, hn, invalidParams_mem_dataDefects_iff.mpr
        ⟨by simpa using List.find?_some hn, given, hbody, herror⟩⟩
  delays id amount := by
    refine (isReported_of_dataDefects rfl fun n h =>
      (negativeDelay_mem_dataDefects_iff.mp h).1).congr ⟨?_, ?_⟩
    · rintro ⟨n, hn, hd⟩
      obtain ⟨-, unit, hbody, hnegative⟩ := negativeDelay_mem_dataDefects_iff.mp hd
      exact ⟨n, unit, hn, hbody, hnegative⟩
    · rintro ⟨n, unit, hn, hbody, hnegative⟩
      exact ⟨n, hn, negativeDelay_mem_dataDefects_iff.mpr
        ⟨by simpa using List.find?_some hn, unit, hbody, hnegative⟩⟩
  unknown := count_unknownNode
  entry e := (isReported_of_edgeDefects rfl
    (fun _ h => (triggerHasIncoming_mem_edgeDefects_iff.mp h).1)
    fun h => (triggerHasIncoming_mem_edgeDefects_iff.mp h).2.1).congr
      (by rw [triggerHasIncoming_mem_edgeDefects_iff, eq_self, true_and])
  unlabelled e := (isReported_of_edgeDefects rfl
    (fun _ h => (missingBranchLabel_mem_edgeDefects_iff.mp h).1)
    fun h => (missingBranchLabel_mem_edgeDefects_iff.mp h).2.1).congr
      (by rw [missingBranchLabel_mem_edgeDefects_iff, eq_self, true_and])
  labelled e := (isReported_of_edgeDefects rfl
    (fun _ h => (unexpectedBranchLabel_mem_edgeDefects_iff.mp h).1)
    fun h => (unexpectedBranchLabel_mem_edgeDefects_iff.mp h).2.1).congr
      (by rw [unexpectedBranchLabel_mem_edgeDefects_iff, eq_self, true_and])
  triggers := isReported_multipleTriggers
  cycles := exists_cycle_mem_defects_iff

theorem covers_defects (g : Graph) : g.Covers g.defects where
  nodes n hn := by
    refine (mem_firstsAfter_or_mem_repeatsAfter hn).imp mem_distinctNodes_iff.mp fun h => ?_
    exact (mem_defects_iff .identifiers rfl).mpr (List.mem_map_of_mem h)
  edges e he := by
    by_cases hknows : g.Knows e
    · exact .inl hknows
    · obtain ⟨id, hid⟩ := List.exists_mem_of_ne_nil _ fun h => hknows (knows_iff.mp h)
      refine .inr ⟨id, (mem_defects_iff .edges rfl).mpr ?_⟩
      exact List.mem_flatMap.mpr ⟨e, he, mem_edgeDefects_iff.mpr (.inr ⟨id, hid, rfl⟩)⟩
  cycles := by
    rintro ⟨id, hcycle⟩
    by_cases hmissing : ∃ e, .missingBranchLabel e ∈ g.defects
    · exact .inr hmissing
    refine .inl (exists_cycle_mem_defects_iff.mpr
      ⟨id, TransGen.mono (fun a b hab => ?_) _ _ hcycle⟩)
    obtain ⟨e, he, hknows, rfl, rfl⟩ := hab
    refine ⟨e, he, hknows, fun hlabel n hn hkind => hmissing ⟨e, ?_⟩, rfl, rfl⟩
    have hedge := missingBranchLabel_mem_edgeDefects_iff.mpr ⟨rfl, hknows, hlabel, n, hn, hkind⟩
    exact (mem_defects_iff .edges rfl).mpr (List.mem_flatMap.mpr ⟨e, he, hedge⟩)

end Graph

namespace Plan

variable {config : EngineConfig} {g : Graph} {e : Error}

/-- A graph is refused with a list of its defects, unless a defect cannot be written or the graph
has none and a delay is too long. -/
theorem refused_of_ofGraph_eq_error (h : ofGraph config g = .error e) :
    (e = .compile g.id (g.defects.map Defect.issue) ∧ g.defects ≠ []) ∨
      (e = .shape .unwritableInteger ∧ ∃ id amount, .negativeDelay id amount ∈ g.defects ∧
        Text.Integer.isWritable amount = false) ∨
      (e = .outOfRange ∧ g.defects = []) := by
  by_cases hnone : g.defects = []
  · obtain ⟨t, ht⟩ := exists_trigger?_of_wellFormed (Graph.defects_eq_nil_iff.mp hnone)
    rw [ofGraph, hnone, ht] at h
    dsimp only at h
    split at h
    · cases h
    · exact .inr (.inr ⟨(Except.error.inj h).symm, hnone⟩)
  · rw [ofGraph_of_defects hnone] at h
    obtain rfl := Except.error.inj h
    unfold refusalOf
    split
    · exact .inl ⟨rfl, hnone⟩
    · next hunwritable =>
      refine .inr (.inl ⟨rfl, ?_⟩)
      obtain ⟨d, hd, hwritable⟩ : ∃ d ∈ g.defects, d.isWritable = false := by
        simpa using hunwritable
      cases d with
      | negativeDelay id amount => exact ⟨id, amount, hd, hwritable⟩
      | _ => cases hwritable

/-- A refusal lists what the checks find: each defect that the first nodes with their identifiers
and the edges between nodes have, as often as it occurs. Whatever keeps a defect from being found is
listed itself. -/
theorem ofGraph_reports (h : ofGraph config g = .error e) :
    g.Reports g.defects ∧ g.Covers g.defects ∧
      ((e = .compile g.id (g.defects.map Defect.issue) ∧ g.defects ≠ []) ∨
        (e = .shape .unwritableInteger ∧ ∃ id amount, .negativeDelay id amount ∈ g.defects ∧
          Text.Integer.isWritable amount = false) ∨
        (e = .outOfRange ∧ g.defects = [])) :=
  ⟨g.reports_defects, g.covers_defects, refused_of_ofGraph_eq_error h⟩

end Plan

namespace Sample

/-- A graph with an action that repeats the identifier of another and names no tag. -/
def repeating : Graph where
  id := "g"
  name := "Tagging"
  version := "1"
  nodes := [⟨"t", "", .trigger .manual {}⟩, ⟨"a", "", .action .addTag [("tag_id", .text "vip")]⟩,
    ⟨"a", "", .action .addTag []⟩]
  edges := [⟨"t", "a", none⟩]
  enabled := true
  description := ""

/-- The graph is refused for the repeated identifier. The missing tag is not reported. -/
theorem misses_params : (∃ e, ActionParams.ofRecord .addTag [] = .error e) ∧
    Plan.ofGraph default repeating =
      .error (.compile "g" (repeating.defects.map Defect.issue)) ∧
    repeating.defects.count (.duplicateNodeId "a") = 1 ∧
    ∀ kind e, .invalidParams "a" kind e ∉ repeating.defects := by
  have hfit : repeating.DelaysFit default := by
    intro n hn amount unit hbody
    simp only [repeating, List.mem_cons, List.not_mem_nil, or_false] at hn
    rcases hn with rfl | rfl | rfl <;> cases hbody
  have hrepeated : repeating.defects.count (.duplicateNodeId "a") = 1 :=
    repeating.reports_defects.repeated "a"
  have hrefused : Plan.ofGraph default repeating =
      .error (.compile "g" (repeating.defects.map Defect.issue)) := by
    refine Plan.ofGraph_eq_error hfit fun hnone => ?_
    rw [hnone] at hrepeated
    cases hrepeated
  obtain ⟨hreports, -, -⟩ := Plan.ofGraph_reports hrefused
  refine ⟨⟨_, rfl⟩, hrefused, hrepeated, fun kind e h => ?_⟩
  obtain ⟨n, given, hn, hbody, herror⟩ := (hreports.params "a" kind e).sound h
  have hfirst : repeating.find? "a" =
      some ⟨"a", "", .action .addTag [("tag_id", .text "vip")]⟩ := rfl
  obtain rfl := Option.some.inj (hfirst.symm.trans hn)
  cases hbody
  cases herror

end Sample
end WorkflowEngine

import Mathlib.Algebra.Ring.Nat
import WorkflowEngine.Proofs.Plan.Image
import WorkflowEngine.Proofs.Template.Substitution

/-!
# What charts show

A chart is a text of lines. Each node and each edge of a plan has one of its own unless a caption
has line breaks, and an edge can be told from its line unless two nodes have identifiers that a
chart writes alike.
-/
namespace WorkflowEngine

namespace Text

/-- The lines of a text. -/
def lines (s : String) : List String := (s.toList.splitOn '\n').map String.ofList

theorem length_splitOn {α : Type} [DecidableEq α] (a : α) (as : List α) :
    (as.splitOn a).length = as.count a + 1 := by
  unfold List.splitOn
  induction as with
  | nil => rfl
  | cons b as ih =>
    rw [List.splitOnP_cons_eq_if_modifyHead, List.count_cons]
    split
    · rw [List.length_cons, ih]
    · rw [List.length_modifyHead, ih, Nat.add_zero]

theorem length_lines (s : String) : (lines s).length = s.toList.count '\n' + 1 := by
  rw [lines, List.length_map, length_splitOn]

theorem count_intercalate {α : Type} [DecidableEq α] (a : α) {parts : List (List α)}
    (h : parts ≠ []) : ([a].intercalate parts).count a + 1 =
      parts.length + (parts.map (List.count a)).sum := by
  induction parts with
  | nil => exact absurd rfl h
  | cons part parts ih =>
    cases parts with
    | nil => simp [Nat.add_comm]
    | cons next parts =>
      have hrest := ih (List.cons_ne_nil next parts)
      rw [List.intercalate_cons_cons, List.count_append, List.count_append, List.map_cons,
        List.sum_cons, List.length_cons, List.count_singleton_self]
      omega

/-- Lines that are joined are as many, and one more for every break within one of them. -/
theorem length_lines_intercalate {parts : List String} (h : parts ≠ []) :
    (lines ("\n".intercalate parts)).length =
      parts.length + (parts.map fun part => part.toList.count '\n').sum := by
  have hne : parts.map String.toList ≠ [] := by simpa using h
  have hcount := count_intercalate '\n' hne
  rw [List.length_map, List.map_map] at hcount
  rw [length_lines, String.toList_intercalate]
  exact hcount

theorem lines_intercalate {parts : List String} (h : parts ≠ [])
    (hbreak : ∀ part ∈ parts, '\n' ∉ part.toList) : lines ("\n".intercalate parts) = parts := by
  have hsplit : (['\n'].intercalate (parts.map String.toList)).splitOn '\n' =
      parts.map String.toList := by
    refine List.splitOn_intercalate '\n' (fun part hpart => ?_) (by simpa using h)
    obtain ⟨s, hs, rfl⟩ := List.mem_map.mp hpart
    exact hbreak s hs
  rw [lines, String.toList_intercalate]
  exact (congrArg (List.map String.ofList) hsplit).trans (by simp [Function.comp_def])

/-- Two texts of a class of characters are told apart by what begins with a character that is not of
the class. -/
theorem append_inj_of_class {α : Type} {p : α → Bool} {as bs front back : List α}
    (has : ∀ a ∈ as, p a = true) (hbs : ∀ b ∈ bs, p b = true)
    (hfront : ∀ a ∈ front.head?, p a = false) (hback : ∀ b ∈ back.head?, p b = false)
    (h : as ++ front = bs ++ back) : as = bs ∧ front = back := by
  have htake := congrArg (List.takeWhile p) h
  have hdrop := congrArg (List.dropWhile p) h
  rw [List.takeWhile_append_of_pos has, List.takeWhile_append_of_pos hbs, takeWhile_of_head hfront,
    takeWhile_of_head hback, List.append_nil, List.append_nil] at htake
  rw [List.dropWhile_append_of_pos has, List.dropWhile_append_of_pos hbs, dropWhile_of_head hfront,
    dropWhile_of_head hback] at hdrop
  exact ⟨htake, hdrop⟩

end Text

namespace Diagram

/-- Identifiers of one length that differ only where neither has a letter or a digit. -/
def Resembles (a b : String) : Prop :=
  List.Forall₂ (fun c d => c = d ∨ (c.isAlphanum = false ∧ d.isAlphanum = false)) a.toList b.toList

/-- A chart has a heading, a line for each node, which is named there as no other is, and a line for
each edge, from which the edge can be told. -/
structure IsFaithful (p : Plan) : Prop where
  lines : ∃ nodes : List PlanNode, nodes.Perm p.nodes ∧
    Text.lines (chart p) = "graph TD" :: nodes.map nodeLine ++ p.edges.map edgeLine
  distinct : (p.nodes.map fun n => name n.id).Nodup
  edges : ∀ e ∈ p.edges, ∀ f ∈ p.edges, edgeLine e = edgeLine f → e = f

section Names

variable {a b : String}

theorem isNameChar_of_mem_name {c : Char} (h : c ∈ (name a).toList) : isNameChar c = true := by
  rw [name, String.toList_ofList] at h
  obtain ⟨d, -, rfl⟩ := List.mem_map.mp h
  split
  · next hd => exact hd
  · rfl

/-- A chart writes just those identifiers alike that resemble each other. -/
theorem name_eq_iff : name a = name b ↔ Resembles a b := by
  have hchar (c d : Char) : (if isNameChar c then c else '_') = (if isNameChar d then d else '_') ↔
      c = d ∨ (c.isAlphanum = false ∧ d.isAlphanum = false) := by
    have hshown (c : Char) :
        (if isNameChar c then c else '_') = if c.isAlphanum then c else '_' := by
      by_cases hc : c = '_' <;> simp [isNameChar, hc]
    have hline : '_'.isAlphanum = false := by decide
    rw [hshown, hshown]
    cases hc : c.isAlphanum <;> cases hd : d.isAlphanum
    · simp
    · have hne : '_' ≠ d := fun heq => by simp [← heq, hline] at hd
      have hne' : c ≠ d := fun heq => by simp [heq, hd] at hc
      simp [hne, hne']
    · have hne : c ≠ '_' := fun heq => by simp [heq, hline] at hc
      have hne' : c ≠ d := fun heq => by simp [heq, hd] at hc
      simp [hne, hne']
    · simp
  rw [Resembles, name, name, String.ofList_inj, ← List.forall₂_eq_eq_eq, List.forall₂_map_left_iff,
    List.forall₂_map_right_iff]
  simp only [hchar]

/-- Nodes are named apart just if no two of them have identifiers that resemble each other. -/
theorem nodup_names_iff {nodes : List PlanNode} : (nodes.map fun n => name n.id).Nodup ↔
    nodes.Pairwise fun m n => ¬ Resembles m.id n.id := by
  rw [List.Nodup, List.pairwise_map]
  simp only [ne_eq, name_eq_iff]

end Names

section Lines

variable {e f : PlanEdge}

/-- The arrow of an edge, with its branch. -/
def arrow : Option Branch → String
  | some branch => " -->|" ++ branch.name ++ "| "
  | none => " --> "

theorem edgeLine_eq (e : PlanEdge) :
    edgeLine e = "    " ++ name e.source ++ arrow e.branch ++ name e.target := by
  unfold edgeLine
  cases e.branch <;> rfl

theorem arrow_append_inj {b c : Option Branch} {as bs : List Char} :
    (arrow b).toList ++ as = (arrow c).toList ++ bs ↔ b = c ∧ as = bs := by
  rcases b with _ | (_ | _) <;> rcases c with _ | (_ | _) <;> simp [arrow, Branch.name]

/-- An edge is told by its line up to identifiers that resemble each other. -/
theorem edgeLine_eq_iff : edgeLine e = edgeLine f ↔
    Resembles e.source f.source ∧ Resembles e.target f.target ∧ e.branch = f.branch := by
  have hspace (b : Option Branch) (as : List Char) :
      ∀ c ∈ ((arrow b).toList ++ as).head?, isNameChar c = false := by
    have hblank : isNameChar ' ' = false := by decide
    rcases b with _ | (_ | _) <;> simp [arrow, Branch.name, hblank]
  rw [← name_eq_iff, ← name_eq_iff, edgeLine_eq, edgeLine_eq, ← String.toList_inj]
  simp only [String.toList_append, List.append_assoc, List.append_cancel_left_eq]
  constructor
  · intro h
    obtain ⟨hsource, hrest⟩ := Text.append_inj_of_class (fun _ => isNameChar_of_mem_name)
      (fun _ => isNameChar_of_mem_name) (hspace _ _) (hspace _ _) h
    obtain ⟨hbranch, htarget⟩ := arrow_append_inj.mp hrest
    exact ⟨String.toList_inj.mp hsource, String.toList_inj.mp htarget, hbranch⟩
  · rintro ⟨hsource, htarget, hbranch⟩
    rw [hsource, htarget, hbranch]

theorem count_break_name (id : String) : (name id).toList.count '\n' = 0 :=
  List.count_eq_zero.mpr fun h => absurd (isNameChar_of_mem_name h) (by decide)

/-- The breaks within the line of a node are those of its caption. -/
theorem count_break_nodeLine (n : PlanNode) :
    (nodeLine n).toList.count '\n' = n.caption.toList.count '\n' := by
  have hcaption : (captionText n).toList.count '\n' = n.caption.toList.count '\n' := by
    rw [captionText, String.toList_ofList]
    exact List.count_filter (by decide)
  have hbrackets : (brackets n.step.kind).1.toList.count '\n' = 0 ∧
      (brackets n.step.kind).2.toList.count '\n' = 0 := by
    cases n.step.kind <;> decide
  simp [nodeLine, count_break_name, hcaption, hbrackets]

theorem count_break_edgeLine (e : PlanEdge) : (edgeLine e).toList.count '\n' = 0 := by
  have harrow : (arrow e.branch).toList.count '\n' = 0 := by
    rcases e.branch with _ | (_ | _) <;> decide
  simp [edgeLine_eq, count_break_name, harrow]

end Lines

section Charts

variable {config : EngineConfig} {g : Graph} {p : Plan} (h : Plan.ofGraph config g = .ok p)

include h

/-- A chart has a line for its heading, for every node and for every edge, and one more for every
break in a caption. -/
theorem length_lines_chart : (Text.lines (chart p)).length = 1 + p.nodes.length + p.edges.length +
    (p.nodes.map fun n => n.caption.toList.count '\n').sum := by
  have hnodes := Plan.orderedNodes_perm h
  have hlength : (lines p).length = 1 + p.nodes.length + p.edges.length := by
    simp only [lines, List.length_cons, List.length_append, List.length_map, hnodes.length_eq]
    omega
  have hbreaks : ((lines p).map fun line => line.toList.count '\n').sum =
      (p.nodes.map fun n => n.caption.toList.count '\n').sum := by
    have hcaptions := (hnodes.map fun n => n.caption.toList.count '\n').sum_nat
    simp [lines, Function.comp_def, count_break_nodeLine, count_break_edgeLine, hcaptions]
  rw [chart, Text.length_lines_intercalate (by simp [lines]), hlength, hbreaks]

theorem lines_chart (hbreak : ∀ n ∈ p.nodes, '\n' ∉ n.caption.toList) :
    Text.lines (chart p) = lines p := by
  refine Text.lines_intercalate (by simp [lines]) fun line hline => ?_
  rw [lines, List.cons_append, List.mem_cons, List.mem_append] at hline
  rw [← List.count_eq_zero]
  rcases hline with rfl | hline | hline
  · decide
  · obtain ⟨n, hn, rfl⟩ := List.mem_map.mp hline
    rw [count_break_nodeLine, List.count_eq_zero]
    exact hbreak n ((Plan.orderedNodes_perm h).subset hn)
  · obtain ⟨e, -, rfl⟩ := List.mem_map.mp hline
    exact count_break_edgeLine e

theorem ends_mem_of_mem_edges {e : PlanEdge} (he : e ∈ p.edges) :
    e.source ∈ p.nodes.map (·.id) ∧ e.target ∈ p.nodes.map (·.id) := by
  obtain ⟨d, hd, rfl⟩ := List.mem_map.mp ((Plan.edges_perm h).subset he)
  rw [Plan.map_id_nodes h]
  exact (Plan.wellFormed_of_ofGraph h).ends d hd

/-- Where nodes are named apart, edges are told by their lines. -/
theorem eq_of_edgeLine_eq (hnames : (p.nodes.map fun n => name n.id).Nodup) {e f : PlanEdge}
    (he : e ∈ p.edges) (hf : f ∈ p.edges) (hline : edgeLine e = edgeLine f) : e = f := by
  have hsame {a b : String} (ha : a ∈ p.nodes.map (·.id)) (hb : b ∈ p.nodes.map (·.id))
      (hab : Resembles a b) : a = b := by
    obtain ⟨m, hm, rfl⟩ := List.mem_map.mp ha
    obtain ⟨n, hn, rfl⟩ := List.mem_map.mp hb
    rw [List.inj_on_of_nodup_map hnames hm hn (name_eq_iff.mpr hab)]
  obtain ⟨hsource, htarget, hbranch⟩ := edgeLine_eq_iff.mp hline
  have hends := ends_mem_of_mem_edges h he
  have hends' := ends_mem_of_mem_edges h hf
  obtain ⟨source, target, branch⟩ := e
  obtain ⟨source', target', branch'⟩ := f
  obtain rfl := hsame hends.1 hends'.1 hsource
  obtain rfl := hsame hends.2 hends'.2 htarget
  obtain rfl : branch = branch' := hbranch
  rfl

/-- What a chart shows of a plan. Its lines are counted by the nodes, the edges and the breaks in
captions; two edges have the same line just if they have the same branch and their ends resemble
each other; and the chart is faithful just if no caption has a break and no two nodes have
identifiers that resemble each other. -/
theorem shows_plan :
    (Text.lines (chart p)).length = 1 + p.nodes.length + p.edges.length +
      (p.nodes.map fun n => n.caption.toList.count '\n').sum ∧
    (∀ e ∈ p.edges, ∀ f ∈ p.edges, edgeLine e = edgeLine f ↔
      Resembles e.source f.source ∧ Resembles e.target f.target ∧ e.branch = f.branch) ∧
    (IsFaithful p ↔ (∀ n ∈ p.nodes, '\n' ∉ n.caption.toList) ∧
      p.nodes.Pairwise fun m n => ¬ Resembles m.id n.id) := by
  have hlength := length_lines_chart h
  refine ⟨hlength, fun e _ f _ => edgeLine_eq_iff, fun hfaithful => ?_, fun ⟨hbreak, hunlike⟩ => ?_⟩
  · refine ⟨fun n hn => ?_, nodup_names_iff.mp hfaithful.distinct⟩
    obtain ⟨nodes, hnodes, hlines⟩ := hfaithful.lines
    have hcount : (Text.lines (chart p)).length = 1 + p.nodes.length + p.edges.length := by
      rw [hlines, ← hnodes.length_eq]
      simp only [List.length_cons, List.length_append, List.length_map]
      omega
    have hsum : (p.nodes.map fun n => n.caption.toList.count '\n').sum = 0 := by omega
    have hzero := List.sum_eq_zero_iff_forall_eq_nat.mp hsum _ (List.mem_map_of_mem hn)
    exact List.count_eq_zero.mp hzero
  · have hnames := nodup_names_iff.mpr hunlike
    exact ⟨⟨p.orderedNodes, Plan.orderedNodes_perm h, lines_chart h hbreak⟩, hnames,
      fun e he f hf => eq_of_edgeLine_eq h hnames he hf⟩

end Charts

end Diagram

namespace Sample

/-- A trigger whose label looks like an edge on a line of its own, and two actions whose identifiers
differ in a blank. -/
def confused : Graph where
  id := "g"
  name := "Tag"
  version := "1"
  nodes := [⟨"t", "x\n    a_b --> t", .trigger .manual {}⟩,
    ⟨"a b", "", .action .addTag [("tag_id", .text "vip")]⟩,
    ⟨"a_b", "", .action .addTag [("tag_id", .text "vip")]⟩]
  edges := [⟨"t", "a b", none⟩, ⟨"a b", "a_b", none⟩]
  enabled := true
  description := ""

def confusedNodes : List PlanNode :=
  [⟨"t", "x\n    a_b --> t", .trigger .manual {} (some "a b")⟩,
    ⟨"a b", "", .action .addTag ⟨[("tag_id", .text "vip")], []⟩ (some "a_b")⟩,
    ⟨"a_b", "", .action .addTag ⟨[("tag_id", .text "vip")], []⟩ none⟩]

def confusedPlan : Plan where
  graphId := "g"
  graphVersion := "1"
  version := Plan.versionOf default confused
  name := "Tag"
  enabled := true
  triggerId := "t"
  nodes := confusedNodes
  order := Plan.orderFrom confusedNodes "t"
  source := confused

theorem ofGraph_confused : Plan.ofGraph default confused = .ok confusedPlan := by
  have hdefects : confused.defects = [] := by
    have hcycles : confused.cycleDefects = [] := by cbv
    have hreach : confused.reachDefects = [] := by cbv
    have hrest : confused.duplicateDefects ++ confused.triggerDefects ++
        confused.edges.flatMap confused.edgeDefects ++
          confused.distinctNodes.flatMap confused.nodeDefects = [] := by decide +kernel
    rw [Graph.defects, hrest, hreach, hcycles]
    rfl
  have htrigger : confused.trigger? = some ⟨"t", "x\n    a_b --> t", .trigger .manual {}⟩ := by
    decide
  have hnodes : confused.nodes.mapM (Plan.nodeOf? default confused) = some confusedNodes := by
    decide +kernel
  rw [Plan.ofGraph, hdefects, htrigger]
  simp only [hnodes]
  rfl

/-- Three nodes and two edges come out as seven lines, with two nodes of one name. -/
theorem misdraws_confused :
    Plan.ofGraph default confused = .ok confusedPlan ∧
      (Text.lines (Diagram.chart confusedPlan)).length = 7 ∧
      Diagram.edgeLine ⟨"t", "a b", none⟩ = Diagram.edgeLine ⟨"t", "a_b", none⟩ ∧
      ¬ Diagram.IsFaithful confusedPlan ∧
    Plan.ofGraph default graph = .ok plan ∧ Diagram.IsFaithful plan := by
  obtain ⟨hlength, -, hfaithful⟩ := Diagram.shows_plan ofGraph_confused
  obtain ⟨-, -, hfaithful'⟩ := Diagram.shows_plan ofGraph_graph
  refine ⟨ofGraph_confused, ?_, by decide +kernel, fun h => ?_, ofGraph_graph,
    hfaithful'.mpr ⟨?_, ?_⟩⟩
  · rw [hlength, (Plan.edges_perm ofGraph_confused).length_eq]
    decide +kernel
  · have hbreak : '\n' ∈ "x\n    a_b --> t".toList := by decide
    exact (hfaithful.mp h).1 _ List.mem_cons_self hbreak
  · decide +kernel
  · rw [← Diagram.nodup_names_iff]
    decide +kernel

end Sample

end WorkflowEngine

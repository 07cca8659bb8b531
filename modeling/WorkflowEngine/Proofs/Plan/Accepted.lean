import WorkflowEngine.Proofs.Graph.Found
import WorkflowEngine.Proofs.Graph.WellFormed

/-!
# Which graphs have a plan

A graph whose delays are durations has a plan if it is well-formed, and only then. It is refused
otherwise, with a report of what is wrong.
-/
namespace WorkflowEngine

/-- In seconds, every delay of a graph is a duration. -/
def Graph.DelaysFit (config : EngineConfig) (g : Graph) : Prop :=
  ∀ n ∈ g.nodes, ∀ amount unit, n.body = .delay amount unit →
    Duration.isRepresentable (amount * (unit.getD config.defaultDelayUnit).seconds) = true

namespace Graph

variable {g : Graph} {config : EngineConfig}

section Written

variable {id : String} {amount : Int}

theorem exists_delay_of_mem_defects (h : .negativeDelay id amount ∈ g.defects) :
    ∃ n ∈ g.nodes, ∃ unit, n.body = .delay amount unit := by
  obtain ⟨n, hn, hd⟩ := List.mem_flatMap.mp ((mem_defects_iff .data rfl).mp h)
  obtain ⟨-, unit, hbody, -⟩ := negativeDelay_mem_dataDefects_iff.mp hd
  exact ⟨n, mem_of_mem_firstsAfter hn, unit, hbody⟩

/-- An amount of time that is a duration has few digits. -/
theorem isWritable_of_isRepresentable {unit : DelayUnit}
    (h : Duration.isRepresentable (amount * unit.seconds) = true) :
    Text.Integer.isWritable amount = true := by
  have hunit : 0 < unit.seconds := by cases unit <;> decide
  have hbound : amount.natAbs * unit.seconds < 10 ^ 14 := by
    simp only [Duration.isRepresentable, Bool.and_eq_true, decide_eq_true_eq] at h
    have habs : (amount * unit.seconds).natAbs = amount.natAbs * unit.seconds := by
      simp [Int.natAbs_mul]
    rw [← habs]
    omega
  have hamount : amount.natAbs ≤ amount.natAbs * unit.seconds := Nat.le_mul_of_pos_right _ hunit
  have hdigits : ∀ n, 14 ≤ n → amount.natAbs < Nat.pow 10 n := fun n hn =>
    hamount.trans_lt (hbound.trans_le (Nat.pow_le_pow_right (by decide) hn))
  rw [Text.Integer.isWritable, decide_eq_true_iff]
  exact hdigits Text.Integer.maxDigits (by decide)

theorem isWritable_of_mem_defects (hfit : g.DelaysFit config) {d : Defect} (h : d ∈ g.defects) :
    d.isWritable = true := by
  cases d with
  | negativeDelay id amount =>
    obtain ⟨n, hn, unit, hbody⟩ := exists_delay_of_mem_defects h
    exact isWritable_of_isRepresentable (hfit n hn amount unit hbody)
  | _ => rfl

end Written

end Graph

namespace Plan

variable {g : Graph} {config : EngineConfig}

theorem exists_branchTarget? {edges : List Edge} {branch : Branch}
    (h : edges.countP (·.branch = some branch) = 1) : ∃ t, branchTarget? edges branch = some t := by
  have hpos : 0 < edges.countP (·.branch = some branch) := by omega
  obtain ⟨e, he, hbranch⟩ := List.countP_pos_iff.mp hpos
  have hfound : (edges.find? (·.branch = some branch)).isSome :=
    List.find?_isSome.mpr ⟨e, he, hbranch⟩
  obtain ⟨f, hf⟩ := Option.isSome_iff_exists.mp hfound
  exact ⟨f.target, by rw [branchTarget?, hf, Option.map_some]⟩

theorem exists_stepOf? {edges : List Edge} {body : NodeBody} (h : body.Fits edges)
    (hfit : ∀ amount unit, body = .delay amount unit →
      Duration.isRepresentable (amount * (unit.getD config.defaultDelayUnit).seconds) = true) :
    ∃ step, stepOf? config edges body = some step := by
  cases body with
  | trigger kind filters => exact ⟨_, rfl⟩
  | condition predicate =>
    obtain ⟨onTrue, ht⟩ := exists_branchTarget? (h .onTrue)
    obtain ⟨onFalse, hf⟩ := exists_branchTarget? (h .onFalse)
    exact ⟨.condition predicate onTrue onFalse, by simp [stepOf?, ht, hf]⟩
  | action kind given =>
    obtain ⟨params, hparams⟩ := Graph.exists_params_iff.mpr h.2
    exact ⟨.action kind params (edges.head?.map (·.target)), by
      simp [stepOf?, hparams, Except.toOption]⟩
  | delay amount unit =>
    obtain ⟨e, rfl⟩ := List.length_eq_one_iff.mp h.1
    have hseconds := hfit amount unit rfl
    exact ⟨.delay (amount * (unit.getD config.defaultDelayUnit).seconds).toNat e.target, by
      simp [stepOf?, hseconds]⟩

theorem exists_mapM_eq_some {α β : Type} {f : α → Option β} {items : List α}
    (h : ∀ a ∈ items, ∃ b, f a = some b) : ∃ images, items.mapM f = some images := by
  induction items with
  | nil => exact ⟨[], rfl⟩
  | cons a rest ih =>
    obtain ⟨b, hb⟩ := h a List.mem_cons_self
    obtain ⟨images, himages⟩ := ih fun c hc => h c (List.mem_cons_of_mem _ hc)
    exact ⟨b :: images, by simp [List.mapM_cons, hb, himages]⟩

theorem exists_trigger?_of_wellFormed (h : g.WellFormed) : ∃ t, g.trigger? = some t := by
  obtain ⟨t, ht⟩ := h.trigger
  exact ⟨t, by rw [Graph.trigger?, ← List.head?_filter, ht, List.head?_cons]⟩

theorem exists_of_wellFormed (hfit : g.DelaysFit config) (h : g.WellFormed) :
    ∃ p, ofGraph config g = .ok p := by
  obtain ⟨t, htrigger⟩ := exists_trigger?_of_wellFormed h
  have hnodes : ∃ nodes, g.nodes.mapM (nodeOf? config g) = some nodes := by
    apply exists_mapM_eq_some
    intro n hn
    have hedges := Graph.outgoing_eq h.edgeDefects_eq_nil n.id
    obtain ⟨step, hstep⟩ := exists_stepOf? (h.fits n hn) (hfit n hn)
    exact ⟨⟨n.id, n.label, step⟩, by rw [nodeOf?, hedges, hstep, Option.map_some]⟩
  obtain ⟨nodes, hnodes⟩ := hnodes
  rw [ofGraph, Graph.defects_eq_nil_iff.mpr h, htrigger]
  simp only [hnodes]
  exact ⟨_, rfl⟩

theorem ofGraph_of_defects (h : g.defects ≠ []) :
    ofGraph config g = .error (refusalOf g g.defects) := by
  unfold ofGraph
  split
  · next hnone _ => exact absurd hnone h
  · rfl

theorem ofGraph_eq_error (hfit : g.DelaysFit config) (h : g.defects ≠ []) :
    ofGraph config g = .error (.compile g.id (g.defects.map Defect.issue)) := by
  have hwritable : g.defects.all Defect.isWritable = true :=
    List.all_eq_true.mpr fun d hd => Graph.isWritable_of_mem_defects hfit hd
  rw [ofGraph_of_defects h, refusalOf, if_pos hwritable]

/-- A graph is compiled just if it is well-formed. All others are refused, with a list of issues. -/
theorem compiles_iff_wellFormed (config : EngineConfig) (g : Graph) (hfit : g.DelaysFit config) :
    ((∃ p, ofGraph config g = .ok p) ↔ g.WellFormed) ∧
      (¬ g.WellFormed →
        ∃ issues, issues ≠ [] ∧ ofGraph config g = .error (.compile g.id issues)) := by
  refine ⟨⟨fun ⟨p, hp⟩ => ?_, exists_of_wellFormed hfit⟩, fun h => ?_⟩
  · exact Graph.defects_eq_nil_iff.mp (ofGraph_eq_ok hp).1
  · have hdefects : g.defects ≠ [] := mt Graph.defects_eq_nil_iff.mp h
    exact ⟨_, by simpa using hdefects, ofGraph_eq_error hfit hdefects⟩

end Plan

namespace Sample

/-- The same nodes without a way from one to the next. -/
def scattered : Graph := { graph with edges := [] }

theorem compiles_graph_of_fit : graph.DelaysFit default ∧ graph.WellFormed ∧
    scattered.DelaysFit default ∧ ¬ scattered.WellFormed ∧
      ∃ issues, issues ≠ [] ∧ Plan.ofGraph default scattered = .error (.compile "g" issues) := by
  have hfit : graph.DelaysFit default := by
    intro n hn amount unit hbody
    simp only [graph, List.mem_cons, List.not_mem_nil, or_false] at hn
    rcases hn with rfl | rfl | rfl
    · cases hbody
    · cases hbody
      decide
    · cases hbody
  have hscattered : ¬ scattered.WellFormed := by
    intro h
    have hone := (h.fits ⟨"d", "", .delay 1 (some .minutes)⟩ (by simp [scattered, graph])).1
    simp [scattered, Graph.leaving] at hone
  exact ⟨hfit, (Plan.compiles_iff_wellFormed default graph hfit).1.mp ⟨plan, ofGraph_graph⟩, hfit,
    hscattered, (Plan.compiles_iff_wellFormed default scattered hfit).2 hscattered⟩

end Sample
end WorkflowEngine

import WorkflowEngine.Proofs.Graph.Legible
import WorkflowEngine.Proofs.Graph.Reports

/-!
# What becomes of authored data

Authored data is compiled, or it is refused with a list of issues. There are three exceptions: data
that is not legible, a negative delay that is too long to be written in a report, and a delay that
is too long to be a duration.
-/
namespace WorkflowEngine

/-- There is a plan, or a list of issues. -/
inductive Plan.Settled : Outcome Plan → Prop
  | compiled (p : Plan) : Settled (.ok p)
  | refused (graphId : String) {issues : List Issue} (hissues : issues ≠ []) :
      Settled (.error (.compile graphId issues))

namespace Graph

/-- Every negative delay that is reported can be written. -/
def IsWritable (g : Graph) : Prop :=
  ∀ n amount unit, g.find? n.id = some n → n.body = .delay amount unit → amount < 0 →
    Text.Integer.isWritable amount = true

variable {g : Graph} {config : EngineConfig}

theorem isWritable_iff : g.IsWritable ↔ ∀ d ∈ g.defects, d.isWritable = true := by
  have hdelay (id : String) (amount : Int) : .negativeDelay id amount ∈ g.defects ↔
      ∃ n unit, g.find? id = some n ∧ n.body = .delay amount unit ∧ amount < 0 := by
    have hreported := g.reports_defects.delays id amount
    refine ⟨hreported.sound, fun hcause => List.count_pos_iff.mp ?_⟩
    rw [hreported.complete hcause]
    exact Nat.one_pos
  constructor
  · intro h d hd
    cases d with
    | negativeDelay id amount =>
      obtain ⟨n, unit, hn, hbody, hnegative⟩ := (hdelay id amount).mp hd
      have hid : n.id = id := by simpa using List.find?_some hn
      exact h n amount unit (hid ▸ hn) hbody hnegative
    | _ => rfl
  · intro h n amount unit hn hbody hnegative
    have hwritable : (Defect.negativeDelay n.id amount).isWritable = true :=
      h (.negativeDelay n.id amount) ((hdelay n.id amount).mpr ⟨n, unit, hn, hbody, hnegative⟩)
    exact hwritable

/-- The nodes of a plan have durations for delays. -/
theorem delaysFit_of_ofGraph {p : Plan} (h : Plan.ofGraph config g = .ok p) :
    g.DelaysFit config := by
  obtain ⟨-, hnodes, -⟩ := Plan.ofGraph_eq_ok h
  intro n hn amount unit hbody
  obtain ⟨m, -, hm⟩ := (Plan.mem_of_mapM_eq_some hnodes).1 n hn
  rw [Plan.nodeOf?, Option.map_eq_some_iff, hbody] at hm
  obtain ⟨step, hstep, -⟩ := hm
  obtain ⟨edge, -, hstep⟩ := Option.bind_eq_some_iff.mp hstep
  by_contra hfar
  rw [if_neg hfar] at hstep
  cases hstep

/-- A negative delay that is too long to be written ends the compilation. -/
theorem ofGraph_of_not_isWritable (h : ¬ g.IsWritable) :
    Plan.ofGraph config g = .error (.shape .unwritableInteger) := by
  rw [isWritable_iff] at h
  have hdefects : g.defects ≠ [] := fun hnone => h (by simp [hnone])
  have hall : ¬ g.defects.all Defect.isWritable = true := fun hall => h (List.all_eq_true.mp hall)
  rw [Plan.ofGraph_of_defects hdefects, Plan.refusalOf, if_neg hall]

/-- So does a delay that is too long to be a duration, if nothing else is wrong. -/
theorem ofGraph_of_not_delaysFit (hwell : g.WellFormed) (hfit : ¬ g.DelaysFit config) :
    Plan.ofGraph config g = .error .outOfRange := by
  have hnone := defects_eq_nil_iff.mpr hwell
  cases hplan : Plan.ofGraph config g with
  | ok p => exact absurd (delaysFit_of_ofGraph hplan) hfit
  | error e =>
    rcases Plan.refused_of_ofGraph_eq_error hplan with
      ⟨-, hsome⟩ | ⟨-, id, amount, hmem, -⟩ | ⟨rfl, -⟩
    · exact absurd hnone hsome
    · simp [hnone] at hmem
    · rfl

/-- A graph is compiled or refused with issues, unless there is a number that does not fit. -/
theorem settled_ofGraph_iff : Plan.Settled (Plan.ofGraph config g) ↔
    g.IsWritable ∧ (g.WellFormed → g.DelaysFit config) := by
  constructor
  · intro h
    constructor
    · by_contra hunwritable
      rw [ofGraph_of_not_isWritable hunwritable] at h
      cases h
    · intro hwell
      by_contra hfar
      rw [ofGraph_of_not_delaysFit hwell hfar] at h
      cases h
  · rintro ⟨hwritable, hfit⟩
    cases hplan : Plan.ofGraph config g with
    | ok p => exact .compiled p
    | error e =>
      rcases Plan.refused_of_ofGraph_eq_error hplan with
        ⟨rfl, hsome⟩ | ⟨-, id, amount, hmem, hlong⟩ | ⟨-, hnone⟩
      · exact .refused g.id (by simpa using hsome)
      · have hwritten : Text.Integer.isWritable amount = true :=
          isWritable_iff.mp hwritable (.negativeDelay id amount) hmem
        exact absurd (hlong.symm.trans hwritten) Bool.false_ne_true
      · have hwell := defects_eq_nil_iff.mp hnone
        obtain ⟨p, hp⟩ := Plan.exists_of_wellFormed (hfit hwell) hwell
        rw [hp] at hplan
        cases hplan

section Reading

variable {d : Record}

theorem ofValue_of_isLegible (h : IsLegible d) :
    (∃ g, ofValue (.object d) = .ok g) ∨ ∃ id issues, issues ≠ [] ∧
      ofValue (.object d) = .error (.compile id issues) := by
  rcases read_of_isLegible h with ⟨g, hg⟩ | ⟨id, defects, hdefects, hread⟩
  · exact .inl ⟨g, by rw [ofValue, hg]; rfl⟩
  · refine .inr ⟨id, defects.map Defect.issue, by simpa using hdefects, ?_⟩
    rw [ofValue, hread]
    rfl

theorem ofValue_of_not_isLegible (h : ¬ IsLegible d) :
    ∃ e, ofValue (.object d) = .error (.shape e) ∧ EndsReading e := by
  obtain ⟨e, he, hends⟩ := read_of_not_isLegible h
  exact ⟨e, by rw [ofValue, he]; rfl, hends⟩

end Reading

end Graph

namespace Plan

/-- How the registration of authored data comes out. -/
structure Registers (config : EngineConfig) (d : Record) (outcome : Outcome Plan) : Prop where
  settled_iff : Settled outcome ↔ Graph.IsLegible d ∧
    ∀ g, Graph.ofValue (.object d) = .ok g →
      g.IsWritable ∧ (g.WellFormed → g.DelaysFit config)
  /-- A field or the items of something are looked for that has none. -/
  illegible : ¬ Graph.IsLegible d →
    ∃ e, outcome = .error (.shape e) ∧ Graph.EndsReading e
  unwritable : ∀ g, Graph.ofValue (.object d) = .ok g → ¬ g.IsWritable →
    outcome = .error (.shape .unwritableInteger)
  outOfRange : ∀ g, Graph.ofValue (.object d) = .ok g → g.WellFormed → ¬ g.DelaysFit config →
    outcome = .error .outOfRange

variable (config : EngineConfig) (d : Record)

/-- Registration compiles authored data or refuses it with issues, if the data is legible and its
numbers fit. Otherwise it fails in another way. -/
theorem registers : Registers config d (Graph.ofValue (.object d) >>= ofGraph config) where
  settled_iff := by
    by_cases hlegible : Graph.IsLegible d
    · rcases Graph.ofValue_of_isLegible hlegible with ⟨g, hg⟩ | ⟨id, issues, hissues, hrefused⟩
      · have hsettled : Settled (ofGraph config g) ↔
            g.IsWritable ∧ (g.WellFormed → g.DelaysFit config) := Graph.settled_ofGraph_iff
        rw [hg]
        refine hsettled.trans ⟨fun h => ⟨hlegible, ?_⟩, fun h => h.2 g rfl⟩
        rintro _ ⟨⟩
        exact h
      · rw [hrefused]
        exact iff_of_true (.refused id hissues) ⟨hlegible, nofun⟩
    · obtain ⟨e, he, -⟩ := Graph.ofValue_of_not_isLegible hlegible
      rw [he]
      exact iff_of_false nofun fun h => hlegible h.1
  illegible h := by
    obtain ⟨e, he, hends⟩ := Graph.ofValue_of_not_isLegible h
    exact ⟨e, by rw [he]; rfl, hends⟩
  unwritable g hg h := by
    rw [hg]
    exact Graph.ofGraph_of_not_isWritable h
  outOfRange g hg hwell hfit := by
    rw [hg]
    exact Graph.ofGraph_of_not_delaysFit hwell hfit

end Plan

namespace Sample

/-- A graph with one node. -/
def single (node : Value) : Record := [("id", .text "g"), ("nodes", .list [node])]

/-- A node that is a text ends the registration. A node that is an object without fields is
reported. -/
theorem ends_at_text :
    (∃ e, (Graph.ofValue (.object (single (.text "x"))) >>= Plan.ofGraph default) =
      .error (.shape e) ∧ Graph.EndsReading e) ∧
    Plan.Settled (Graph.ofValue (.object (single (.object []))) >>= Plan.ofGraph default) := by
  constructor
  · refine (Plan.registers default (single (.text "x"))).illegible fun h => ?_
    obtain ⟨items, hitems, hall⟩ := h.nodes rfl
    obtain rfl : [.text "x"] = items := Value.list.inj hitems
    cases hall (.text "x") List.mem_cons_self
  · refine (Plan.registers default (single (.object []))).settled_iff.mpr ⟨⟨fun _ => ?_, ?_⟩, ?_⟩
    · refine ⟨[.object []], rfl, fun v hv => ?_⟩
      obtain rfl := List.mem_singleton.mp hv
      exact .nameless rfl
    · intro h
      cases h
    · intro g hg
      cases hg

end Sample
end WorkflowEngine

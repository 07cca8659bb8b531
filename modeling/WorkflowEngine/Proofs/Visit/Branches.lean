import WorkflowEngine.Proofs.Graph.Canonical
import WorkflowEngine.Proofs.Visit.Stumped

/-!
# The branches of conditions

A predicate settles every question but one: whether an object has a list or an object for a key. To
anything else it finds an answer, or it says that there is none and does not match. So a condition
leads an instance along one of its two branches, or the one question stumps the engine.
-/
namespace WorkflowEngine

/-- Lists and objects. -/
inductive Value.IsContainer : Value → Prop
  | list (items : List Value) : IsContainer (.list items)
  | object (fields : Record) : IsContainer (.object fields)

theorem Value.key_eq_error_iff {v : Value} {e : ShapeError} :
    v.key = .error e ↔ v.IsContainer ∧ e = .unhashable v.kindName := by
  constructor
  · intro h
    cases v with
    | list items => exact ⟨.list items, (Except.error.inj h).symm⟩
    | object fields => exact ⟨.object fields, (Except.error.inj h).symm⟩
    | null | bool | int | float | text => cases h
  · rintro ⟨hv, rfl⟩
    cases hv <;> rfl

namespace Path

/-- Data in which some segments lead to a value. -/
def leadingTo (v : Value) : List String → Value
  | [] => v
  | segment :: rest => .object [(segment, leadingTo v rest)]

theorem follow?_leadingTo (v : Value) (segments : List String) :
    follow? (leadingTo v segments) segments = some v := by
  induction segments with
  | nil => rfl
  | cons segment rest ih => simpa [leadingTo, follow?, step?] using ih

/-- Each path leads to each value in some event data. -/
theorem exists_resolve?_eq (path : String) (v : Value) :
    ∃ context : Record, resolve? (.object context) path = some v := by
  have hne : segments path ≠ [] := by simpa [segments] using splitChars_ne_nil path.toList
  obtain ⟨segment, rest, hsegments⟩ := List.exists_cons_of_ne_nil hne
  refine ⟨[(segment, leadingTo v rest)], ?_⟩
  rw [resolve?, hsegments]
  exact follow?_leadingTo v (segment :: rest)

end Path

namespace Predicate

/-- An object is asked for a list or an object as a key. -/
inductive Misfits (context : Value) : Predicate → Prop
  | intro {path : String} {operand : Value} {fields : Record}
      (hobject : Path.resolve? context path = some (.object fields))
      (hoperand : operand.IsContainer) : Misfits context (.field path .contains operand)

/-- The data has no value to look at, or a value without parts. -/
inductive Unanswerable (context : Value) : Predicate → Prop
  | missing {path : String} {operator : Operator} {operand : Value}
      (hoperator : operator ≠ .isEmpty ∧ operator ≠ .isNotEmpty)
      (hnone : Path.resolve? context path = none) :
      Unanswerable context (.field path operator operand)
  | partless {path : String} {operand actual : Value}
      (hactual : Path.resolve? context path = some actual)
      (hpartless : ¬ actual.IsContainer ∧ ∀ s, actual ≠ .text s) :
      Unanswerable context (.field path .contains operand)
  | untagged {wanted : String}
      (htags : ∀ items, Path.resolve? context "tags" ≠ some (.list items)) :
      Unanswerable context (.tag wanted)

/-- What is found in the data. It is no match if the data has no answer. -/
structure Finds (p : Predicate) (context : Value) (f : Finding) : Prop where
  evaluated : p.evaluate context = .ok f
  resolved_iff : f.resolved = false ↔ Unanswerable context p
  unmatched : f.resolved = false → f.matched = false

theorem Misfits.refused {p : Predicate} {context : Value} (h : Misfits context p) :
    ∃ kind, p.evaluate context = .error (.unhashable kind) := by
  obtain ⟨hobject, hoperand⟩ := h
  have hkey := Value.key_eq_error_iff.mpr ⟨hoperand, rfl⟩
  exact ⟨_, evaluate_eq_error_iff.mpr ⟨_, _, _, rfl, hobject, hkey⟩⟩

theorem evaluate_eq_error_iff_misfits {p : Predicate} {context : Value} :
    (∃ e, p.evaluate context = .error e) ↔ Misfits context p := by
  constructor
  · rintro ⟨e, h⟩
    obtain ⟨path, operand, fields, rfl, hobject, hkey⟩ := evaluate_eq_error_iff.mp h
    exact .intro hobject (Value.key_eq_error_iff.mp hkey).1
  · intro h
    obtain ⟨kind, hkind⟩ := h.refused
    exact ⟨_, hkind⟩

/-- A finding that says that there is no answer is no match. -/
theorem finds_unresolved {p : Predicate} {context : Value} {cause : String} {detail : Record}
    (h : p.evaluate context = .ok (.unresolved cause detail)) (hnone : Unanswerable context p) :
    p.Finds context (.unresolved cause detail) :=
  ⟨h, iff_of_true rfl hnone, fun _ => rfl⟩

theorem finds_answered {p : Predicate} {context : Value} {matched : Bool} {detail : Record}
    (h : p.evaluate context = .ok (.answered matched detail)) (hsome : ¬ Unanswerable context p) :
    p.Finds context (.answered matched detail) :=
  ⟨h, iff_of_false (by simp [Finding.answered]) hsome, by simp [Finding.answered]⟩

/-- A container is looked into. -/
theorem evaluate_contains_finds {path : String} {operand context actual : Value} {f : Finding}
    (hactual : Path.resolve? context path = some actual)
    (h : (Predicate.field path .contains operand).evaluate context = .ok f) :
    (Predicate.field path .contains operand).Finds context f := by
  have hcontains : contains actual operand
      [("field", .text path), ("operator", .text (Operator.name .contains))] = .ok f := by
    simpa only [evaluate, evaluateField, hactual] using h
  have hanswerable (hparts : actual.IsContainer ∨ ∃ s, actual = .text s) :
      ¬ Unanswerable context (.field path .contains operand) := by
    intro hnone
    cases hnone with
    | missing _ hnone => simp [hactual] at hnone
    | partless hother hpartless =>
      obtain rfl := Option.some.inj (hactual.symm.trans hother)
      rcases hparts with hcontainer | ⟨s, rfl⟩
      · exact hpartless.1 hcontainer
      · exact hpartless.2 s rfl
  cases actual with
  | text s =>
    obtain rfl := Except.ok.inj hcontains
    exact finds_answered h (hanswerable (.inr ⟨s, rfl⟩))
  | list items =>
    obtain rfl := Except.ok.inj hcontains
    exact finds_answered h (hanswerable (.inl (.list items)))
  | object fields =>
    obtain ⟨key, -, hkey⟩ := of_bind_eq_ok hcontains
    have hsome := hanswerable (.inl (.object fields))
    cases key <;> obtain rfl := Except.ok.inj hkey <;> exact finds_answered h hsome
  | null | bool | int | float =>
    obtain rfl := Except.ok.inj hcontains
    exact finds_unresolved h (.partless hactual ⟨by rintro ⟨⟩, by rintro s ⟨⟩⟩)

theorem evaluate_missing {path : String} {operator : Operator} (operand : Value) {context : Value}
    (hoperator : operator ≠ .isEmpty ∧ operator ≠ .isNotEmpty)
    (hnone : Path.resolve? context path = none) :
    (Predicate.field path operator operand).evaluate context = .ok (.unresolved "missing_field"
      [("field", .text path), ("operator", .text operator.name)]) := by
  cases operator with
  | isEmpty | isNotEmpty => simp at hoperator
  | equals | notEquals | contains => simp only [evaluate, evaluateField, hnone]

theorem evaluate_compared {path : String} {operator : Operator} (operand : Value)
    {context actual : Value} (hoperator : operator = .equals ∨ operator = .notEquals)
    (hactual : Path.resolve? context path = some actual) :
    ∃ matched, (Predicate.field path operator operand).evaluate context = .ok (.answered matched
      [("field", .text path), ("operator", .text operator.name)]) := by
  rcases hoperator with rfl | rfl
  · exact ⟨equals actual operand, by simp only [evaluate, evaluateField, hactual]⟩
  · exact ⟨!equals actual operand, by simp only [evaluate, evaluateField, hactual]⟩

theorem evaluate_field_finds {path : String} {operator : Operator} {operand context : Value}
    {f : Finding} (h : (Predicate.field path operator operand).evaluate context = .ok f) :
    (Predicate.field path operator operand).Finds context f := by
  by_cases hempty : operator = .isEmpty ∨ operator = .isNotEmpty
  · have hsome : ¬ Unanswerable context (.field path operator operand) := by
      intro hnone
      cases hnone with
      | missing hoperator => exact hempty.elim hoperator.1 hoperator.2
      | partless => simp at hempty
    rcases hempty with rfl | rfl <;> obtain rfl := Except.ok.inj h <;>
      exact finds_answered h hsome
  rw [not_or] at hempty
  cases hactual : Path.resolve? context path with
  | none =>
    obtain rfl := Except.ok.inj (h.symm.trans (evaluate_missing operand hempty hactual))
    exact finds_unresolved h (.missing hempty hactual)
  | some actual =>
    by_cases hcompares : operator = .equals ∨ operator = .notEquals
    · obtain ⟨matched, hfinding⟩ := evaluate_compared operand hcompares hactual
      obtain rfl := Except.ok.inj (h.symm.trans hfinding)
      refine finds_answered h fun hnone => ?_
      cases hnone with
      | missing _ hnone => simp [hactual] at hnone
      | partless => simp at hcompares
    · obtain rfl : operator = .contains := by cases operator <;> simp_all
      exact evaluate_contains_finds hactual h

theorem evaluate_tag_finds (wanted : String) (context : Value) :
    (Predicate.tag wanted).Finds context (evaluateTag wanted context) := by
  have h : (Predicate.tag wanted).evaluate context = .ok (evaluateTag wanted context) := rfl
  revert h
  rw [evaluateTag]
  split
  · next hnone => exact fun h => finds_unresolved h (.untagged (by simp [hnone]))
  · next hnull => exact fun h => finds_unresolved h (.untagged (by simp [hnull]))
  · next items hlist =>
    refine fun h => finds_answered h fun hnone => ?_
    cases hnone with
    | untagged htags => exact htags items hlist
  · next hlist htags =>
    exact fun h => finds_unresolved h (.untagged (by simpa [htags] using hlist))

/-- Whatever a predicate finds is a match only if the data has an answer. -/
theorem finds_of_evaluate {p : Predicate} {context : Value} {f : Finding}
    (h : p.evaluate context = .ok f) : p.Finds context f := by
  cases p with
  | field path operator operand => exact evaluate_field_finds h
  | tag wanted =>
    obtain rfl := Except.ok.inj h
    exact evaluate_tag_finds wanted context
  | always outcome =>
    obtain rfl := Except.ok.inj h
    exact finds_answered h nofun

end Predicate

/-- The outcome that is recorded for a branch. -/
def Branch.outcome : Branch → AuditOutcome
  | onTrue => .conditionTrue
  | onFalse => .conditionFalse

/-- A step leads an instance along one branch of a condition, and says so. -/
structure Step.Takes (branch : Branch) (target : String) (i : Instance) (step : Step) : Prop where
  next : step.next = { i with cursor := target }
  outcome : step.entry.outcome = branch.outcome
  detail : step.entry.detail.lookup "branch" = some (Choice.toValue branch)

theorem Branch.eq_of_takes {a b : Branch} {s t : String} {i : Instance} {step : Step}
    (ha : step.Takes a s i) (hb : step.Takes b t i) : a = b := by
  have hsame := ha.outcome.symm.trans hb.outcome
  cases a <;> cases b <;> first | rfl | cases hsame

/-- A condition that finds something takes the branch for it. -/
theorem branchStep_takes {i : Instance} {p : Predicate} {f : Finding}
    (h : p.evaluate (.object i.context) = .ok f) (node onTrue onFalse : String) (now : Instant) :
    ∃ step, branchStep i node p onTrue onFalse now = .ok step ∧
      step.Takes (.ofOutcome f.matched) (if f.matched then onTrue else onFalse) i := by
  obtain ⟨matched, resolved, detail⟩ := f
  refine ⟨Step.advance i node (some (if matched then onTrue else onFalse)) now
    (if matched then .conditionTrue else .conditionFalse)
    (("branch", Choice.toValue (Branch.ofOutcome matched)) :: detail), ?_, ?_⟩
  · rw [branchStep, h]
    rfl
  · cases matched <;> exact ⟨rfl, rfl, rfl⟩

theorem Env.visit_of_condition {env : Env} {i : Instance} {n : PlanNode} {p : Predicate}
    {onTrue onFalse : String} (hlive : i.isTerminal = false)
    (hnode : env.planNode i i.cursor = .ok n) (hstep : n.step = .condition p onTrue onFalse) :
    visit env i = (branchStep i n.id p onTrue onFalse env.now >>= fun step => .ok (.done step)) := by
  obtain ⟨id, label, step⟩ := n
  cases hstep
  rw [visit, hlive, hnode]
  rfl

namespace Predicate

/-- How a predicate, and each condition on it, deals with event data. -/
structure Settles (p : Predicate) : Prop where
  /-- Some data that can be authored for the predicate misfits some event data. -/
  misfits_iff : (∃ data context : Record, ofValue (.object data) = .ok p ∧
      Misfits (.object context) p) ↔
    ∃ path operand, p = .field path .contains operand ∧ path ≠ "" ∧ operand.IsContainer
  refuses : ∀ context, Misfits context p →
    ∃ kind, p.evaluate context = .error (.unhashable kind)
  finds : ∀ context, ¬ Misfits context p → ∃ f, p.Finds context f
  /-- A condition on the predicate takes one branch of two, or is refused. -/
  visits : ∀ (env : Env) (i : Instance) (n : PlanNode) (onTrue onFalse : String),
    i.isTerminal = false → env.planNode i i.cursor = .ok n →
    n.step = .condition p onTrue onFalse →
      (Misfits (.object i.context) p ∧
        ∃ kind, visit env i = .error (.shape (.unhashable kind))) ∨
      ∃ f step, p.Finds (.object i.context) f ∧ visit env i = .ok (.done step) ∧
        step.Takes (.ofOutcome f.matched) (if f.matched then onTrue else onFalse) i ∧
        ∃! branch, ∃ target, step.Takes branch target i

theorem exists_misfits_iff {p : Predicate} :
    (∃ data context : Record, ofValue (.object data) = .ok p ∧ Misfits (.object context) p) ↔
      ∃ path operand, p = .field path .contains operand ∧ path ≠ "" ∧ operand.IsContainer := by
  constructor
  · rintro ⟨data, context, hp, -, hoperand⟩
    exact ⟨_, _, rfl, isTidy_of_ofValue hp, hoperand⟩
  · rintro ⟨path, operand, rfl, hpath, hoperand⟩
    obtain ⟨context, hcontext⟩ := Path.exists_resolve?_eq path (.object [])
    exact ⟨_, context, ofValue_toValue_of_isTidy hpath, .intro hcontext hoperand⟩

/-- A predicate finds something in all event data, and a condition takes one branch, unless an
object is asked for a list or an object as a key. -/
theorem settles_or_refuses (p : Predicate) : p.Settles where
  misfits_iff := exists_misfits_iff
  refuses _ h := h.refused
  finds context h := by
    cases hfound : p.evaluate context with
    | ok f => exact ⟨f, finds_of_evaluate hfound⟩
    | error e => exact absurd (evaluate_eq_error_iff_misfits.mp ⟨e, hfound⟩) h
  visits env i n onTrue onFalse hlive hnode hstep := by
    rw [Env.visit_of_condition hlive hnode hstep]
    cases hfound : p.evaluate (.object i.context) with
    | error e =>
      have hmisfits := evaluate_eq_error_iff_misfits.mp ⟨e, hfound⟩
      obtain ⟨kind, hkind⟩ := hmisfits.refused
      refine .inl ⟨hmisfits, kind, ?_⟩
      rw [branchStep, hkind]
      rfl
    | ok f =>
      obtain ⟨step, hbranch, htakes⟩ := branchStep_takes hfound n.id onTrue onFalse env.now
      refine .inr ⟨f, step, finds_of_evaluate hfound, by rw [hbranch]; rfl, htakes, _,
        ⟨_, htakes⟩, ?_⟩
      rintro branch ⟨target, hother⟩
      exact Branch.eq_of_takes hother htakes

end Predicate

namespace Sample

/-- Asks whether the lead of an event contains a list. -/
def asking : Predicate := .field "lead" .contains (.list [.text "x"])

/-- A condition on a lead can be authored so that it is refused when the lead is an object. Without a
lead it finds that there is no answer. -/
theorem refuses_lead :
    Predicate.ofValue (.object [("condition_field", .text "lead"),
      ("condition_operator", .text "contains"), ("condition_value", .list [.text "x"])]) =
        .ok asking ∧
    (∃ kind, asking.evaluate (.object [("lead", .object [])]) = .error (.unhashable kind)) ∧
    ∃ f, asking.Finds (.object []) f ∧ f.resolved = false ∧ f.matched = false := by
  have hmissing : Path.resolve? (.object []) "lead" = none := by decide
  have hlead : Path.resolve? (.object [("lead", .object [])]) "lead" = some (.object []) := by
    decide
  have hfits : ¬ Predicate.Misfits (.object []) asking := by
    rintro ⟨hobject, -⟩
    simp [hmissing] at hobject
  obtain ⟨f, hf⟩ := asking.settles_or_refuses.finds _ hfits
  have hresolved := hf.resolved_iff.mpr (.missing (by decide) hmissing)
  have hrefused := asking.settles_or_refuses.refuses _ (.intro hlead (.list _))
  exact ⟨by decide +kernel, hrefused, f, hf, hresolved, hf.unmatched hresolved⟩

end Sample
end WorkflowEngine

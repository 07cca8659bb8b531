import WorkflowEngine.Call.Run
import WorkflowEngine.Proofs.Visit.Stepped

/-!
# What stumps the engine

An instance whose plan or node is gone is failed, and so is one whose action fails for good. Nothing
is done about any other error: a condition that asks an object for a list or an object, a time that
is too far away to be represented, and a reply that is no result.
-/
namespace WorkflowEngine

/-- A predicate is refused only where an object is asked for a list or an object as a key. -/
theorem Predicate.evaluate_eq_error_iff {p : Predicate} {context : Value} {e : ShapeError} :
    p.evaluate context = .error e ↔
      ∃ path operand fields, p = .field path .contains operand ∧
        Path.resolve? context path = some (.object fields) ∧ operand.key = .error e := by
  constructor
  · intro h
    cases p with
    | tag wanted => cases h
    | always outcome => cases h
    | field path operator operand =>
      cases operator with
      | isEmpty | isNotEmpty => cases h
      | equals | notEquals =>
        simp only [evaluate, evaluateField] at h
        cases hactual : Path.resolve? context path <;> simp [hactual] at h
      | contains =>
        simp only [evaluate, evaluateField] at h
        cases hactual : Path.resolve? context path with
        | none => simp [hactual] at h
        | some actual =>
          rw [hactual] at h
          cases actual with
          | object fields =>
            refine ⟨path, operand, fields, rfl, hactual, ?_⟩
            simp only [contains] at h
            cases hkey : operand.key with
            | error e' =>
              rw [hkey] at h
              exact congrArg Except.error (Except.error.inj h)
            | ok key =>
              rw [hkey] at h
              cases key <;> cases h
          | null | bool | int | float | text | list => cases h
  · rintro ⟨path, operand, fields, rfl, hactual, hkey⟩
    simp only [evaluate, evaluateField, hactual, contains, hkey]
    rfl

/-- A computation in two parts fails if one of them does. -/
theorem of_bind_eq_error {ε α β : Type} {x : Except ε α} {f : α → Except ε β} {e : ε}
    (h : x >>= f = .error e) : x = .error e ∨ ∃ a, x = .ok a ∧ f a = .error e := by
  cases x with
  | error e' => exact .inl (congrArg Except.error (Except.error.inj h))
  | ok a => exact .inr ⟨a, rfl, h⟩

/-- An instance whose node is not found is failed. -/
theorem Env.unrunnable_of_planNode {env : Env} {i : Instance} {id : String} {e : Error}
    (h : env.planNode i id = .error e) : e.unrunnable?.isSome := by
  rcases of_bind_eq_error h with hplan | ⟨p, -, hnode⟩
  · unfold Registry.plan at hplan
    split at hplan
    · split at hplan
      · cases hplan
      · cases hplan
        rfl
    · cases hplan
      rfl
  · unfold Plan.node at hnode
    split at hnode
    · cases hnode
    · cases hnode
      rfl

/-- The engine cannot go on at the node under the cursor of an instance. -/
inductive Env.Stumped (env : Env) (i : Instance) : Prop
  | condition {n : PlanNode} {path onTrue onFalse : String} {operand : Value} {fields : Record}
      {e : ShapeError} (hnode : env.planNode i i.cursor = .ok n)
      (hstep : n.step = .condition (.field path .contains operand) onTrue onFalse)
      (hobject : Path.resolve? (.object i.context) path = some (.object fields))
      (hkey : operand.key = .error e)
  | delay {n : PlanNode} {seconds : Nat} {next : String}
      (hnode : env.planNode i i.cursor = .ok n) (hstep : n.step = .delay seconds next)
      (hfar : env.now.add? seconds = none)

theorem branchStep_eq_error {i : Instance} {node onTrue onFalse : String} {predicate : Predicate}
    {now : Instant} {e : Error}
    (h : branchStep i node predicate onTrue onFalse now = .error e) :
    ∃ path operand fields e', predicate = .field path .contains operand ∧
      Path.resolve? (.object i.context) path = some (.object fields) ∧ operand.key = .error e' := by
  rcases of_bind_eq_error h with hasked | ⟨_, -, hstep⟩
  · cases hfinding : predicate.evaluate (.object i.context) with
    | ok => simp [hfinding, Shaped.toOutcome] at hasked
    | error e' =>
      obtain ⟨path, operand, fields, hrest⟩ := Predicate.evaluate_eq_error_iff.mp hfinding
      exact ⟨path, operand, fields, e', hrest⟩
  · cases hstep

/-- A visit is refused because its node is gone, or because it stumps the engine. -/
theorem Env.planNode_or_stumped {env : Env} {i : Instance} {e : Error}
    (hlive : i.isTerminal = false) (h : visit env i = .error e) :
    env.planNode i i.cursor = .error e ∨ env.Stumped i := by
  unfold visit at h
  rw [hlive] at h
  rcases of_bind_eq_error h with hfound | ⟨n, hnode, h⟩
  · exact .inl hfound
  · right
    cases hstep : n.step with
    | trigger kind filters next =>
      rw [hstep] at h
      cases h
    | condition predicate onTrue onFalse =>
      rw [hstep] at h
      rcases of_bind_eq_error h with hbranch | ⟨_, -, hdone⟩
      · obtain ⟨path, operand, fields, e', rfl, hobject, hkey⟩ := branchStep_eq_error hbranch
        exact .condition hnode hstep hobject hkey
      · cases hdone
    | action kind params next =>
      rw [hstep] at h
      dsimp only at h
      split at h <;> cases h
    | delay seconds next =>
      rw [hstep] at h
      rcases of_bind_eq_error h with hsuspend | ⟨_, -, hdone⟩
      · unfold Step.suspend at hsuspend
        split at hsuspend
        · rename_i hfar
          exact .delay hnode hstep hfar
        · cases hsuspend
      · cases hdone

/-- Any error of a visit is recorded, unless the engine is stumped. -/
theorem Env.stumped_iff {env : Env} {i : Instance} (hlive : i.isTerminal = false) :
    env.Stumped i ↔ ∃ e, visit env i = .error e ∧ e.unrunnable? = none := by
  constructor
  · intro h
    cases h with
    | @condition n path onTrue onFalse operand fields e hnode hstep hobject hkey =>
      have hasked : (Predicate.field path .contains operand).evaluate (.object i.context) =
          .error e :=
        Predicate.evaluate_eq_error_iff.mpr ⟨path, operand, fields, rfl, hobject, hkey⟩
      have hbranch : branchStep i n.id (.field path .contains operand) onTrue onFalse env.now =
          .error (.shape e) := by
        rw [branchStep, hasked]
        rfl
      refine ⟨.shape e, ?_, rfl⟩
      obtain ⟨id, label, step⟩ := n
      cases hstep
      rw [visit, hlive, hnode]
      exact congrArg (fun branch => do return Visit.done (← branch)) hbranch
    | @delay n seconds next hnode hstep hfar =>
      have hsuspend : Step.suspend i n.id seconds next env.now = .error .outOfRange := by
        rw [Step.suspend, hfar]
      refine ⟨.outOfRange, ?_, rfl⟩
      obtain ⟨id, label, step⟩ := n
      cases hstep
      rw [visit, hlive, hnode]
      exact congrArg (fun slept => do return Visit.done (← slept)) hsuspend
  · rintro ⟨e, h, hquiet⟩
    rcases planNode_or_stumped hlive h with hfound | hstumped
    · have hrecorded := unrunnable_of_planNode hfound
      rw [hquiet] at hrecorded
      cases hrecorded
    · exact hstumped

/-- An instance whose node is there is not failed by a visit. -/
theorem Env.unrunnable?_of_visit {env : Env} {i : Instance} {n : PlanNode} {e : Error}
    (hlive : i.isTerminal = false) (hnode : env.planNode i i.cursor = .ok n)
    (h : visit env i = .error e) : e.unrunnable? = none := by
  rcases planNode_or_stumped hlive h with hgone | hstumped
  · rw [hnode] at hgone
    cases hgone
  · obtain ⟨e', h', hquiet⟩ := (stumped_iff hlive).mp hstumped
    obtain rfl := Except.error.inj (h.symm.trans h')
    exact hquiet

theorem recover_cases (env : Env) (i : Instance) :
    (∃ step, recover env i = .ok (some step)) ∨ i.dispatching = none ∧ recover env i = .ok none ∨
      ∃ e, recover env i = .error e ∧ e.unrunnable?.isSome := by
  unfold recover
  cases hintent : i.dispatching with
  | none => exact .inr (.inl ⟨rfl, rfl⟩)
  | some node =>
    cases hnode : env.planNode i node with
    | ok n =>
      refine .inl ⟨recoverAt i n env.now, ?_⟩
      simp only [hnode]
      rfl
    | error e =>
      refine .inr (.inr ⟨e, ?_, Env.unrunnable_of_planNode hnode⟩)
      simp only [hnode]
      rfl

/-- The engine cannot go on with the reply to an invocation. -/
inductive Invocation.Stumps (config : EngineConfig) (v : Invocation) : Reply → Prop
  | strange (value : Value) : Stumps config v (.strange value)
  | retry {reply : Reply} {reason : String} (hreply : reply.settle = .ok (.failure reason false))
      (hmore : v.attempt < config.maxAttempts) (hfar : v.retryTime? config = none) :
      Stumps config v reply

theorem Invocation.stumps_iff {config : EngineConfig} {v : Invocation} {reply : Reply} :
    v.Stumps config reply ↔
      ∃ e, reply.settle.toOutcome.bind (v.conclude config) = .error e := by
  constructor
  · intro h
    cases h with
    | strange value => exact ⟨_, rfl⟩
    | @retry _ reason hreply hmore hfar =>
      refine ⟨.outOfRange, ?_⟩
      have hless : ¬ config.maxAttempts ≤ v.attempt := by omega
      simp [hreply, Shaped.toOutcome, Except.bind, conclude, hless, hfar]
  · rintro ⟨e, h⟩
    cases hreply : reply.settle with
    | error e' =>
      cases reply with
      | strange value => exact .strange value
      | result | raised => cases hreply
    | ok result =>
      have h : v.conclude config result = .error e := by rw [hreply] at h; exact h
      cases result with
      | success => cases h
      | failure reason isPermanent =>
        simp only [conclude] at h
        split at h
        · cases h
        · rename_i hlast
          rw [not_or, Bool.not_eq_true] at hlast
          obtain ⟨rfl, hmore⟩ := hlast
          split at h
          · cases h
          · rename_i hfar
            exact .retry hreply (by omega) hfar

end WorkflowEngine

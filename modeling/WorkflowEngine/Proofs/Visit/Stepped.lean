import WorkflowEngine.Proofs.Plan.Runnable
import WorkflowEngine.Visit

/-!
# Computed steps

`Stepped` says once what a computed step can be: which node of the plan it belongs to, what it
writes, and what it leaves as it is.
-/
namespace WorkflowEngine

/-- A computation in two parts succeeds only if both do. -/
theorem of_bind_eq_ok {ε α β : Type} {x : Except ε α} {f : α → Except ε β} {b : β}
    (h : x >>= f = .ok b) : ∃ a, x = .ok a ∧ f a = .ok b := by
  cases x with
  | error e => cases h
  | ok a => exact ⟨a, rfl, h⟩

theorem Shaped.of_toOutcome_eq_ok {α : Type} {x : Shaped α} {a : α} (h : x.toOutcome = .ok a) :
    x = .ok a := by
  cases x with
  | error e => cases h
  | ok a => exact congrArg Except.ok (Except.ok.inj h)

/-- Where a node leads with the data of an event, none if it is an end. -/
def PlanStep.exit : PlanStep → Record → Shaped (Option String)
  | trigger _ _ next, _ | action _ _ next, _ => .ok next
  | condition predicate onTrue onFalse, context => do
    let finding ← predicate.evaluate (.object context)
    return some (if finding.matched then onTrue else onFalse)
  | delay _ next, _ => .ok (some next)

theorem PlanStep.mem_successors {s : PlanStep} {context : Record} {target : String}
    (h : s.exit context = .ok (some target)) : target ∈ s.successors := by
  cases s with
  | trigger kind filters next =>
    obtain rfl := Except.ok.inj h
    simp [successors, exits]
  | condition predicate onTrue onFalse =>
    obtain ⟨finding, -, hexit⟩ := of_bind_eq_ok h
    obtain rfl := Option.some.inj (Except.ok.inj hexit)
    cases finding.matched <;> simp [successors, exits]
  | action kind params next =>
    obtain rfl := Except.ok.inj h
    simp [successors, exits]
  | delay seconds next =>
    obtain rfl : next = target := by simpa [exit] using h
    simp [successors, exits]

namespace Step

variable (i : Instance) (node : String) (exit : Option String) (now : Instant)
  (outcome : AuditOutcome) (detail : Record)

@[simp] theorem advance_dispatching :
    (advance i node exit now outcome detail).next.dispatching = i.dispatching := by
  cases exit <;> rfl

@[simp] theorem advance_entry_outcome :
    (advance i node exit now outcome detail).entry.outcome = outcome := by
  cases exit <;> rfl

end Step

/-- A registry has a plan to which an instance is bound. -/
def Registry.Binds (r : Registry) (p : Plan) (i : Instance) : Prop :=
  p ∈ r.plans ∧ p.graphId = i.graphId ∧ p.version = i.planVersion

theorem Registry.plan_eq_ok {r : Registry} {graphId : String} {version : Option String} {p : Plan}
    (h : r.plan graphId version = .ok p) :
    p ∈ r.plans ∧ p.graphId = graphId ∧ ∀ v, version = some v → p.version = v := by
  unfold plan at h
  split at h
  · rename_i hversion
    split at h
    · rename_i hfound
      obtain rfl := Except.ok.inj h
      have hkeys := List.find?_some hfound
      simp only [Bool.and_eq_true, beq_iff_eq] at hkeys
      refine ⟨List.mem_of_find?_eq_some hfound, hkeys.1, ?_⟩
      rintro v rfl
      rw [Option.some_or, Option.some.injEq] at hversion
      exact hversion ▸ hkeys.2
    · cases h
  · cases h

theorem Registry.plan_of_plan? {r : Registry} {graphId version : String} {p : Plan}
    (h : r.plan? graphId version = some p) : r.plan graphId (some version) = .ok p := by
  have hkeys := List.find?_some h
  simp only [Bool.and_eq_true, beq_iff_eq] at hkeys
  have hmem : p ∈ r.plansOf graphId :=
    List.mem_filter.mpr ⟨List.mem_of_find?_eq_some h, by simpa using hkeys.1⟩
  cases hplans : r.plansOf graphId with
  | nil =>
    rw [hplans] at hmem
    cases hmem
  | cons q rest => simp [plan, hplans, h]

theorem Env.planNode_eq_ok {env : Env} {i : Instance} {id : String} {n : PlanNode}
    (h : env.planNode i id = .ok n) :
    ∃ p, env.registry.Binds p i ∧ p.node? id = some n := by
  obtain ⟨p, hplan, hnode⟩ := of_bind_eq_ok h
  obtain ⟨hmem, hgraph, hversion⟩ := Registry.plan_eq_ok hplan
  refine ⟨p, ⟨hmem, hgraph, hversion _ rfl⟩, ?_⟩
  unfold Plan.node at hnode
  split at hnode
  · rename_i hfound
    exact Except.ok.inj hnode ▸ hfound
  · cases hnode

/-- An invocation of the action under the cursor of an instance, whose intent is stored. -/
structure Invocation.IsFor (p : Plan) (i : Instance) (v : Invocation) : Prop where
  base : v.base = i
  node : v.node = i.cursor
  intent : i.dispatching = some i.cursor
  action : ∃ n params, p.node? i.cursor = some n ∧ n.step = .action v.kind params v.exit

/-- What a step computed for an instance can be, given the plan that the instance is bound to and
the invocations that were made. -/
inductive Stepped (config : EngineConfig) (p : Plan) (made : Invocation → Prop) (i : Instance) :
    Step → Prop where
  /-- A trigger or a condition leads on, or a trigger ends the run. -/
  | passed {n : PlanNode} {exit : Option String} {outcome : AuditOutcome} {detail : Record}
      {now : Instant} (hnode : p.node? i.cursor = some n)
      (hkind : n.step.actionKind? = none)
      (houtcome : outcome = .triggered ∨ outcome = .conditionTrue ∨ outcome = .conditionFalse)
      (hexit : n.step.exit i.context = .ok exit) :
      Stepped config p made i (Step.advance i i.cursor exit now outcome detail)
  | intended {n : PlanNode} {kind : ActionKind} {now : Instant}
      (hnode : p.node? i.cursor = some n) (hkind : n.step.actionKind? = some kind)
      (hintent : i.dispatching ≠ some i.cursor) :
      Stepped config p made i (Step.intend i i.cursor kind now)
  | slept {n : PlanNode} {seconds : Nat} {target : String} {now wakeAt : Instant}
      {detail : Record} (hnode : p.node? i.cursor = some n)
      (hdelay : n.step = .delay seconds target) :
      Stepped config p made i {
        next := { i with
          cursor := target
          status := .waitingDelay
          owner := none
          resumeAt := some wakeAt }
        entry := ⟨i.id, some i.cursor, .delayed, detail, now⟩
        wakeAt := some wakeAt }
  | succeeded {v : Invocation} {detail : Record} (hv : v.IsFor p i) (hmade : made v) :
      Stepped config p made i
        { Step.advance v.counted v.node v.exit v.time .actionSucceeded detail with
          invoked := true }
  | gaveUp {v : Invocation} {reason : String} {isPermanent : Bool} (hv : v.IsFor p i)
      (hmade : made v) : Stepped config p made i (v.giveUp reason isPermanent)
  | retried {v : Invocation} {reason : String} {wakeAt : Instant} (hv : v.IsFor p i)
      (hmade : made v) (hmore : v.attempt < config.maxAttempts) :
      Stepped config p made i (v.retry reason wakeAt)
  /-- An intent left behind is taken up again. -/
  | recovered {n : PlanNode} {kind : ActionKind} {detail : Record} {now : Instant}
      (hintent : i.dispatching = some n.id) (hnode : p.node? n.id = some n)
      (hkind : n.step.actionKind? = some kind) (hidempotent : kind.isIdempotent = true) :
      Stepped config p made i {
        next := { i with cursor := n.id }
        entry := ⟨i.id, some n.id, .recovered, detail, now⟩ }
  /-- It is unknown whether an action ran that must not be repeated. -/
  | abandoned {n : PlanNode} {error : String} {detail : Record} {now : Instant}
      (hintent : i.dispatching = some n.id) (hnode : p.node? n.id = some n)
      (hrisky : ∀ kind, n.step.actionKind? = some kind → kind.isIdempotent = false) :
      Stepped config p made i {
        next := { i with
          status := .failed
          dispatching := none
          owner := none
          error := some error
          completedAt := some now }
        entry := ⟨i.id, some n.id, .failed, detail, now⟩ }

section
variable {config : EngineConfig} {made : Invocation → Prop} {env : Env} {i : Instance}
  {step : Step}

theorem stepped_of_branch {p : Plan} {n : PlanNode} {predicate : Predicate}
    {onTrue onFalse : String} {now : Instant} (hnode : p.node? i.cursor = some n)
    (hstep : n.step = .condition predicate onTrue onFalse)
    (h : branchStep i i.cursor predicate onTrue onFalse now = .ok step) :
    Stepped config p made i step := by
  obtain ⟨finding, hfinding, h⟩ := of_bind_eq_ok h
  have hfinding := Shaped.of_toOutcome_eq_ok hfinding
  obtain rfl := Except.ok.inj h
  refine .passed hnode (by rw [hstep]; rfl) ?_ ?_
  · cases finding.matched
    · exact .inr (.inr rfl)
    · exact .inr (.inl rfl)
  · rw [hstep, PlanStep.exit, hfinding]
    rfl

theorem stepped_of_suspend {p : Plan} {n : PlanNode} {seconds : Nat} {target : String}
    {now : Instant} (hnode : p.node? i.cursor = some n) (hstep : n.step = .delay seconds target)
    (h : Step.suspend i i.cursor seconds target now = .ok step) :
    Stepped config p made i step := by
  unfold Step.suspend at h
  split at h
  · cases h
  · obtain rfl := Except.ok.inj h
    exact .slept hnode hstep

/-- A visit looks up the node under the cursor of an instance that has not ended. -/
theorem visit_eq_ok {result : Visit} (h : visit env i = .ok result) :
    ∃ p n, env.registry.Binds p i ∧ p.node? i.cursor = some n ∧
      match n.step with
      | .trigger kind _ next =>
        result = .done (.advance i i.cursor next env.now .triggered
          [("trigger", Choice.toValue kind)])
      | .condition predicate onTrue onFalse =>
        ∃ step, branchStep i i.cursor predicate onTrue onFalse env.now = .ok step ∧
          result = .done step
      | .action kind params next =>
        if i.dispatching = some i.cursor then
          result = .invoke (invocation i i.cursor kind params next env.now)
        else result = .done (.intend i i.cursor kind env.now)
      | .delay seconds next =>
        ∃ step, Step.suspend i i.cursor seconds next env.now = .ok step ∧
          result = .done step := by
  unfold visit at h
  split at h
  · cases h
  · obtain ⟨-, -, h⟩ := of_bind_eq_ok h
    obtain ⟨n, hplan, h⟩ := of_bind_eq_ok h
    obtain ⟨p, hbinds, hnode⟩ := Env.planNode_eq_ok hplan
    rw [Plan.id_of_node? hnode] at h
    refine ⟨p, n, hbinds, hnode, ?_⟩
    cases hstep : n.step with
    | trigger kind filters next =>
      rw [hstep] at h
      exact (Except.ok.inj h).symm
    | condition predicate onTrue onFalse =>
      rw [hstep] at h
      obtain ⟨step, hbranch, h⟩ := of_bind_eq_ok h
      exact ⟨step, hbranch, (Except.ok.inj h).symm⟩
    | action kind params next =>
      rw [hstep] at h
      by_cases hintent : i.dispatching = some i.cursor
      · simp only [if_pos hintent] at h ⊢
        exact (Except.ok.inj h).symm
      · simp only [if_neg hintent] at h ⊢
        exact (Except.ok.inj h).symm
    | delay seconds target =>
      rw [hstep] at h
      obtain ⟨step, hsuspend, h⟩ := of_bind_eq_ok h
      exact ⟨step, hsuspend, (Except.ok.inj h).symm⟩

/-- A visit that asks for nothing computes a step. -/
theorem stepped_of_visit (h : visit env i = .ok (.done step)) :
    ∃ p, env.registry.Binds p i ∧ Stepped config p made i step := by
  obtain ⟨p, n, hbinds, hnode, h⟩ := visit_eq_ok h
  refine ⟨p, hbinds, ?_⟩
  cases hstep : n.step with
  | trigger kind filters next =>
    rw [hstep] at h
    obtain rfl := Visit.done.inj h
    exact .passed hnode (by rw [hstep]; rfl) (.inl rfl) (by rw [hstep]; rfl)
  | condition predicate onTrue onFalse =>
    rw [hstep] at h
    obtain ⟨_, hbranch, hdone⟩ := h
    obtain rfl := Visit.done.inj hdone
    exact stepped_of_branch hnode hstep hbranch
  | action kind params next =>
    rw [hstep] at h
    by_cases hintent : i.dispatching = some i.cursor
    · simp [hintent] at h
    · simp only [if_neg hintent] at h
      obtain rfl := Visit.done.inj h
      exact .intended hnode (by rw [hstep]; rfl) hintent
  | delay seconds target =>
    rw [hstep] at h
    obtain ⟨_, hsuspend, hdone⟩ := h
    obtain rfl := Visit.done.inj hdone
    exact stepped_of_suspend hnode hstep hsuspend

/-- A visit asks for the action under the cursor, and only if its intent is stored. -/
theorem isFor_of_visit {v : Invocation} (h : visit env i = .ok (.invoke v)) :
    ∃ p, env.registry.Binds p i ∧ v.IsFor p i := by
  obtain ⟨p, n, hbinds, hnode, h⟩ := visit_eq_ok h
  refine ⟨p, hbinds, ?_⟩
  cases hstep : n.step with
  | trigger kind filters next => simp [hstep] at h
  | condition predicate onTrue onFalse => simp [hstep] at h
  | action kind params next =>
    rw [hstep] at h
    by_cases hintent : i.dispatching = some i.cursor
    · simp only [if_pos hintent] at h
      obtain rfl := Visit.invoke.inj h
      exact ⟨rfl, rfl, hintent, n, params, hnode, hstep⟩
    · simp [hintent] at h
  | delay seconds target => simp [hstep] at h

/-- An intent that a run finds is taken up again, or is the end of the instance. -/
theorem stepped_of_recover (h : recover env i = .ok (some step)) :
    ∃ p, env.registry.Binds p i ∧ Stepped config p made i step := by
  unfold recover at h
  split at h
  · cases h
  · rename_i id hintent
    obtain ⟨n, hplan, hstep⟩ := of_bind_eq_ok h
    obtain rfl := Option.some.inj (Except.ok.inj hstep)
    obtain ⟨p, hbinds, hnode⟩ := Env.planNode_eq_ok hplan
    obtain rfl := Plan.id_of_node? hnode
    refine ⟨p, hbinds, ?_⟩
    unfold recoverAt
    cases hkind : n.step.actionKind? with
    | none => exact .abandoned hintent hnode fun kind hk => by simp [hkind] at hk
    | some kind =>
      cases hidempotent : kind.isIdempotent with
      | false =>
        simp only [Option.any_some, hidempotent]
        refine .abandoned hintent hnode fun _ hk => ?_
        obtain rfl := Option.some.inj (hkind.symm.trans hk)
        exact hidempotent
      | true =>
        simp only [Option.any_some, hidempotent]
        exact .recovered hintent hnode hkind hidempotent

/-- The result of an action leads to a step. -/
theorem stepped_of_conclude {p : Plan} {v : Invocation} {result : ActionResult}
    (hv : v.IsFor p i) (hmade : made v) (h : v.conclude config result = .ok step) :
    Stepped config p made i step := by
  unfold Invocation.conclude at h
  cases result with
  | success result =>
    obtain rfl := Except.ok.inj h
    exact .succeeded hv hmade
  | failure reason isPermanent =>
    simp only at h
    split at h
    · obtain rfl := Except.ok.inj h
      exact .gaveUp hv hmade
    · rename_i hlast
      split at h
      · obtain rfl := Except.ok.inj h
        exact .retried hv hmade (by omega)
      · cases h

end
end WorkflowEngine

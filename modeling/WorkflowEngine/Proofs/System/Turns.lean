import Mathlib.Data.Finset.Card
import WorkflowEngine.Call.Run
import WorkflowEngine.Proofs.System.Calls

/-!
# Turns of a run

A run takes a turn each time that it finds its instance running. In a turn it stores the intent to
invoke an action, or it leaves a node for one that comes later in the plan, or it leaves the
instance. So whatever a run is answered, it is over after two turns for each node of the plan.
-/
namespace WorkflowEngine

namespace Plan

variable {p q : Plan} {a b : String}

open Classical in
/-- The nodes that come after a node. -/
noncomputable def after (p : Plan) (a : String) : Finset String :=
  (p.nodes.map (·.id)).toFinset.filter (Relation.TransGen p.Leads a)

/-- How many nodes come after a node. -/
noncomputable def rank (p : Plan) (a : String) : Nat := (p.after a).card

theorem mem_ids_iff : a ∈ (p.nodes.map (·.id)).toFinset ↔ (p.node? a).isSome := by
  simp [node?]

theorem IsRunnable.mem_after (hp : p.IsRunnable) :
    b ∈ p.after a ↔ Relation.TransGen p.Leads a b := by
  classical
  rw [after, Finset.mem_filter, mem_ids_iff, and_iff_right_iff_imp]
  intro h
  obtain ⟨c, -, hcb⟩ := Relation.TransGen.tail'_iff.mp h
  exact hp.closed hcb

theorem IsRunnable.rank_lt_of_leads (hp : p.IsRunnable) (hab : p.Leads a b) :
    p.rank b < p.rank a := by
  refine Finset.card_lt_card (Finset.ssubset_iff_of_subset ?_ |>.mpr ⟨b, ?_, ?_⟩)
  · intro c hc
    rw [hp.mem_after] at hc ⊢
    exact .head hab hc
  · exact hp.mem_after.mpr (.single hab)
  · rw [hp.mem_after]
    exact hp.not_transGen_self b

theorem IsRunnable.rank_lt_length (hp : p.IsRunnable) (a : String) :
    p.rank a < p.nodes.length := by
  classical
  have hsubset : p.after a ⊆ (p.nodes.map (·.id)).toFinset := Finset.filter_subset _ _
  have hlength : (p.nodes.map (·.id)).toFinset.card ≤ p.nodes.length := by
    simpa using List.toFinset_card_le (p.nodes.map (·.id))
  -- A node is not after itself, and nothing is after what is no node.
  obtain ⟨c, hc, hcafter⟩ : ∃ c ∈ (p.nodes.map (·.id)).toFinset, c ∉ p.after a := by
    by_cases ha : (p.node? a).isSome
    · exact ⟨a, mem_ids_iff.mpr ha, fun h => hp.not_transGen_self a (hp.mem_after.mp h)⟩
    · refine ⟨p.triggerId, mem_ids_iff.mpr hp.trigger, fun h => ha ?_⟩
      obtain ⟨b, ⟨n, hn, -⟩, -⟩ := Relation.TransGen.head'_iff.mp (hp.mem_after.mp h)
      simp [hn]
  have hssubset := Finset.ssubset_iff_of_subset hsubset |>.mpr ⟨c, hc, hcafter⟩
  exact (Finset.card_lt_card hssubset).trans_le hlength

end Plan

namespace Instance

/-- Whether an instance names a plan. -/
def IsOf (p : Plan) (i : Instance) : Prop := p.graphId = i.graphId ∧ p.version = i.planVersion

/-- How many turns a run may take at most, with an instance of a plan. -/
noncomputable def turnsLeft (p : Plan) (i : Instance) : Nat :=
  if i.status = .running then
    2 * p.rank i.cursor + if i.dispatching = some i.cursor then 1 else 2
  else 0

theorem turnsLeft_le (p : Plan) (i : Instance) : i.turnsLeft p ≤ 2 * p.rank i.cursor + 2 := by
  unfold turnsLeft
  split <;> [split; skip] <;> omega

end Instance

/-- The outcomes with which a run records what it does about an intent that was left behind. -/
def AuditOutcome.isRecovery : AuditOutcome → Bool
  | recovered | failed => true
  | _ => false

/-- Whatever a registry holds under the name of a plan leads the same ways. -/
def Registry.KeepsTo (r : Registry) (p : Plan) : Prop :=
  ∀ q ∈ r.plans, q.graphId = p.graphId → q.version = p.version → q.Alike p

theorem Registry.KeepsTo.alike {r : Registry} {p q : Plan} {i : Instance} (hr : r.KeepsTo p)
    (hi : i.IsOf p) (hbinds : r.Binds q i) : q.Alike p :=
  hr q hbinds.1 (hbinds.2.1.trans hi.1.symm) (hbinds.2.2.trans hi.2.symm)

section
variable {config : EngineConfig} {p q : Plan} {made : Invocation → Prop} {i : Instance}
  {step : Step}

theorem Stepped.isOf (hstep : Stepped config q made i step) (hi : i.IsOf p) :
    step.next.IsOf p := by
  have horigin := hstep.next_eq.2.1
  simp only [Instance.origin, Prod.mk.injEq] at horigin
  exact ⟨hi.1.trans horigin.1.symm, hi.2.trans horigin.2.1.symm⟩

/-- A step that leaves its instance running leads on, or stores an intent, or takes one up. -/
theorem Stepped.leads_or_intends (hstep : Stepped config q made i step)
    (hrunning : step.next.status = .running) : q.Leads i.cursor step.next.cursor ∨
      step.next.dispatching = some step.next.cursor ∧
        (step.next.cursor = i.cursor ∧ i.dispatching ≠ some i.cursor ∨
          step.entry.outcome = .recovered) := by
  cases hstep with
  | @passed n exit _ _ _ hnode _ _ hexit =>
    cases exit with
    | none => cases hrunning
    | some target => exact .inl ⟨n, hnode, PlanStep.mem_successors hexit⟩
  | intended _ _ hintent => exact .inr ⟨rfl, .inl ⟨rfl, hintent⟩⟩
  | slept => cases hrunning
  | @succeeded v _ hv =>
    obtain ⟨n, params, hnode, haction⟩ := hv.action
    obtain rfl := hv.base
    revert hrunning
    simp only [Step.advance]
    cases hexit : v.exit with
    | none => intro hrunning; cases hrunning
    | some target =>
      refine fun _ => .inl ⟨n, hnode, ?_⟩
      simp [PlanNode.successors, PlanStep.successors, PlanStep.exits, haction, hexit]
  | gaveUp => cases hrunning
  | retried => cases hrunning
  | recovered hintent => exact .inr ⟨hintent, .inr rfl⟩
  | abandoned => cases hrunning

/-- A step leaves fewer turns than two for each node. -/
theorem Stepped.turnsLeft_lt (hp : p.IsRunnable) (halike : q.Alike p)
    (hstep : Stepped config q made i step) : step.next.turnsLeft p < 2 * p.nodes.length := by
  have hlast := hp.rank_lt_length step.next.cursor
  by_cases hrunning : step.next.status = .running
  · rcases hstep.leads_or_intends hrunning with hleads | ⟨hintent, -⟩
    · have hrank := hp.rank_lt_of_leads (halike.leads hleads)
      have hfirst := hp.rank_lt_length i.cursor
      have hleft := step.next.turnsLeft_le p
      omega
    · rw [Instance.turnsLeft, if_pos hrunning, if_pos hintent]
      omega
  · rw [Instance.turnsLeft, if_neg hrunning]
    omega

/-- Every turn that takes up no intent left behind leaves fewer turns. -/
theorem Stepped.turnsLeft_lt_of_running (hp : p.IsRunnable) (halike : q.Alike p)
    (hstep : Stepped config q made i step) (hrunning : i.status = .running)
    (hfresh : step.entry.outcome.isRecovery = false) : step.next.turnsLeft p < i.turnsLeft p := by
  by_cases hnext : step.next.status = .running
  · rcases hstep.leads_or_intends hnext with hleads | ⟨hintent, ⟨hcursor, hfree⟩ | hrecovered⟩
    · have hrank := hp.rank_lt_of_leads (halike.leads hleads)
      have hleft := step.next.turnsLeft_le p
      rw [Instance.turnsLeft.eq_def p i, if_pos hrunning]
      split <;> omega
    · rw [Instance.turnsLeft, if_pos hnext, if_pos hintent, Instance.turnsLeft, if_pos hrunning,
        if_neg hfree, hcursor]
      omega
    · rw [hrecovered] at hfresh
      cases hfresh
  · rw [Instance.turnsLeft, if_neg hnext, Instance.turnsLeft, if_pos hrunning]
    split <;> omega

theorem outcome_of_visit {env : Env} (h : visit env i = .ok (.done step)) :
    step.entry.outcome.isRecovery = false := by
  obtain ⟨p, n, -, -, h⟩ := visit_eq_ok h
  cases hstep : n.step with
  | trigger kind filters next =>
    rw [hstep] at h
    obtain rfl := Visit.done.inj h
    simp [AuditOutcome.isRecovery]
  | condition predicate onTrue onFalse =>
    rw [hstep] at h
    obtain ⟨_, hbranch, hdone⟩ := h
    obtain rfl := Visit.done.inj hdone
    obtain ⟨finding, -, hbranch⟩ := of_bind_eq_ok hbranch
    obtain rfl := Except.ok.inj hbranch
    cases finding.matched <;> rfl
  | action kind params next =>
    rw [hstep] at h
    by_cases hintent : i.dispatching = some i.cursor
    · simp [hintent] at h
    · simp only [if_neg hintent] at h
      obtain rfl := Visit.done.inj h
      rfl
  | delay seconds target =>
    rw [hstep] at h
    obtain ⟨_, hsuspend, hdone⟩ := h
    obtain rfl := Visit.done.inj hdone
    unfold Step.suspend at hsuspend
    split at hsuspend
    · cases hsuspend
    · obtain rfl := Except.ok.inj hsuspend
      rfl

theorem outcome_of_conclude {v : Invocation} {result : ActionResult}
    (h : v.conclude config result = .ok step) : step.entry.outcome.isRecovery = false := by
  unfold Invocation.conclude at h
  cases result with
  | success result =>
    obtain rfl := Except.ok.inj h
    simp [AuditOutcome.isRecovery]
  | failure reason isPermanent =>
    simp only at h
    split at h
    · obtain rfl := Except.ok.inj h
      rfl
    · split at h
      · obtain rfl := Except.ok.inj h
        rfl
      · cases h

end

namespace Run

/-- Whether the run takes a turn when it goes on, if its instance is running. -/
def takesTurn : Run → Bool
  | loading _ _ => true
  | recording stored _ => stored.status == .running
  | _ => false

/-- A run loads an instance of a plan, and is given what it has stored as it was stored. Anything
else it may be answered. -/
def Given (p : Plan) : (r : Run) → r.request.Answer → Prop
  | loading _ _, answer => ∀ i, answer = .ok i → i.IsOf p
  | saving _ step, answer => ∀ i, answer = .ok i → ∃ version now, i = step.next.stamped version now
  | _, _ => True

/-- A run of a plan goes on after some answer. -/
def Next (p : Plan) (r r' : Run) : Prop :=
  ∃ env answer, env.registry.KeepsTo p ∧ r.Given p answer ∧ r.resume env answer = .waiting r'

/-- The instance that a run goes by is one of the plan. -/
def IsOn (p : Plan) : Run → Prop
  | saving _ step => step.next.IsOf p
  | recording stored _ => stored.IsOf p
  | invoking v => v.base.IsOf p ∧ v.base.status = .running ∧ ∃ q, q.Alike p ∧ v.IsFor q v.base
  | _ => True

/-- How many turns a run may still take at most. -/
noncomputable def turnsLeft (p : Plan) : Run → Nat
  | loading _ _ => 2 * p.nodes.length
  | saving _ step => step.next.turnsLeft p
  | recording stored _ => stored.turnsLeft p
  | invoking v => v.base.turnsLeft p - 1
  | _ => 0

/-- How many requests a run may still make at most before its next turn. -/
def requestsLeft : Run → Nat
  | invoking _ => 3
  | saving _ _ => 2
  | reloading _ _ | failing _ _ _ => 1
  | _ => 0

section
variable {p : Plan} {env : Env} {i : Instance} {r r' : Run}

theorem turnsLeft_of_fail {e : Error} (hfail : fail env i e = .waiting r) :
    r.IsOn p ∧ r.turnsLeft p = 0 := by
  unfold fail at hfail
  split at hfail
  · cases hfail
  · obtain rfl := Progress.waiting.inj hfail
    exact ⟨trivial, rfl⟩

theorem turnsLeft_of_proceed (hp : p.IsRunnable) (hkeeps : env.registry.KeepsTo p)
    (hi : i.IsOf p) (hproceed : proceed env i = .waiting r) :
    r.IsOn p ∧ r.turnsLeft p < i.turnsLeft p := by
  unfold proceed at hproceed
  split at hproceed
  · rename_i hrunning
    have hleft : 0 < i.turnsLeft p := by
      rw [Instance.turnsLeft, if_pos hrunning]
      split <;> omega
    split at hproceed
    · rename_i step hvisit
      obtain rfl := Progress.waiting.inj hproceed
      obtain ⟨q, hbinds, hstep⟩ :
          ∃ q, env.registry.Binds q i ∧ Stepped env.config q (fun _ => False) i step :=
        stepped_of_visit hvisit
      exact ⟨hstep.isOf hi, hstep.turnsLeft_lt_of_running hp (hkeeps.alike hi hbinds) hrunning
        (outcome_of_visit hvisit)⟩
    · rename_i v hvisit
      obtain rfl := Progress.waiting.inj hproceed
      obtain ⟨q, hbinds, hv⟩ := isFor_of_visit hvisit
      obtain rfl := hv.base
      exact ⟨⟨hi, hrunning, q, hkeeps.alike hi hbinds, hv⟩, Nat.sub_one_lt_of_lt hleft⟩
    · obtain ⟨hon, hnone⟩ := turnsLeft_of_fail (p := p) hproceed
      exact ⟨hon, hnone ▸ hleft⟩
  · cases hproceed

theorem turnsLeft_of_begin (hp : p.IsRunnable) (hkeeps : env.registry.KeepsTo p)
    (hi : i.IsOf p) (hbegin : begin env i = .waiting r) :
    r.IsOn p ∧ r.turnsLeft p < 2 * p.nodes.length := by
  have hrank := hp.rank_lt_length i.cursor
  unfold begin at hbegin
  split at hbegin
  · rename_i step hrecover
    obtain rfl := Progress.waiting.inj hbegin
    obtain ⟨q, hbinds, hstep⟩ :
        ∃ q, env.registry.Binds q i ∧ Stepped env.config q (fun _ => False) i step :=
      stepped_of_recover hrecover
    exact ⟨hstep.isOf hi, hstep.turnsLeft_lt hp (hkeeps.alike hi hbinds)⟩
  · obtain ⟨hon, hless⟩ := turnsLeft_of_proceed hp hkeeps hi hbegin
    have hleft := i.turnsLeft_le p
    exact ⟨hon, by omega⟩
  · obtain ⟨hon, hnone⟩ := turnsLeft_of_fail (p := p) hbegin
    exact ⟨hon, by omega⟩

/-- A turn is one less to take. -/
theorem Next.turnsLeft_add_le (h : Next p r r') (hp : p.IsRunnable) (hr : r.IsOn p) :
    r'.IsOn p ∧ r'.turnsLeft p + (if r.takesTurn then 1 else 0) ≤ r.turnsLeft p := by
  obtain ⟨env, answer, hkeeps, hgiven, hresume⟩ := h
  cases goesOn_of_resume hresume with
  | begun _ _ hbegin =>
    obtain ⟨hon, hless⟩ := turnsLeft_of_begin hp hkeeps (hgiven _ rfl) hbegin
    exact ⟨hon, hless⟩
  | stored =>
    obtain ⟨version, now, rfl⟩ := hgiven _ rfl
    exact ⟨hr, Nat.le_refl _⟩
  | recorded hproceed =>
    obtain ⟨hon, hless⟩ := turnsLeft_of_proceed hp hkeeps hr hproceed
    refine ⟨hon, ?_⟩
    change _ + _ ≤ Instance.turnsLeft p _
    split <;> omega
  | @concluded v reply step hconcluded =>
    obtain ⟨hi, hrunning, q, halike, hv⟩ := hr
    obtain ⟨result, -, hconclude⟩ := of_bind_eq_ok hconcluded
    have hstep : Stepped env.config q (fun _ => True) v.base step :=
      stepped_of_conclude hv trivial hconclude
    have hless := hstep.turnsLeft_lt_of_running hp halike hrunning (outcome_of_conclude hconclude)
    exact ⟨hstep.isOf hi, Nat.le_sub_one_of_lt hless⟩
  | refused | reloaded | failed => exact ⟨trivial, Nat.zero_le _⟩

/-- Between two turns a run makes a few requests only. -/
theorem Next.requestsLeft_lt (h : Next p r r') :
    r'.requestsLeft ≤ 3 ∧ (r.takesTurn = true ∨ r'.requestsLeft < r.requestsLeft) := by
  refine ⟨by cases r' <;> simp [requestsLeft], ?_⟩
  obtain ⟨env, answer, -, -, hresume⟩ := h
  cases goesOn_of_resume hresume with
  | begun => exact .inl rfl
  | recorded hproceed =>
    left
    unfold proceed at hproceed
    split at hproceed
    · rename_i hrunning
      simp [takesTurn, hrunning]
    · cases hproceed
  | stored | refused | concluded | reloaded | failed => exact .inr (by simp [requestsLeft])

theorem turnsLeft_pos (hp : p.IsRunnable) (hr : r.takesTurn = true) : 0 < r.turnsLeft p := by
  cases r with
  | loading id worker =>
    have hlength := hp.rank_lt_length p.triggerId
    simp only [turnsLeft]
    omega
  | recording stored entry =>
    rw [turnsLeft, Instance.turnsLeft, if_pos (by simpa [takesTurn] using hr)]
    split <;> omega
  | saving | invoking | reloading | recordingDropped | failing | recordingFailure => cases hr

/-- Whatever a run is answered, it takes no more turns than it has left. -/
theorem countP_takesTurn_le (hp : p.IsRunnable) {rs : List Run} (hr : r.IsOn p)
    (hchain : (r :: rs).IsChain (Next p)) :
    (r :: rs).countP takesTurn ≤ r.turnsLeft p := by
  induction rs generalizing r with
  | nil =>
    rw [List.countP_singleton]
    split
    · rename_i hturn
      exact turnsLeft_pos hp hturn
    · exact Nat.zero_le _
  | cons r' rs ih =>
    obtain ⟨hnext, hrest⟩ := List.isChain_cons_cons.mp hchain
    obtain ⟨hr', hless⟩ := hnext.turnsLeft_add_le hp hr
    have hturns := ih hr' hrest
    rw [List.countP_cons]
    omega

/-- Whatever a run is answered, it is over after a bounded number of requests. -/
theorem length_le (hp : p.IsRunnable) {rs : List Run} (hr : r.IsOn p)
    (hchain : (r :: rs).IsChain (Next p)) :
    (r :: rs).length ≤ 4 * r.turnsLeft p + r.requestsLeft + 1 := by
  induction rs generalizing r with
  | nil => exact Nat.le_add_left _ _
  | cons r' rs ih =>
    obtain ⟨hnext, hrest⟩ := List.isChain_cons_cons.mp hchain
    obtain ⟨hr', hless⟩ := hnext.turnsLeft_add_le hp hr
    obtain ⟨hfew, hturn | hfewer⟩ := hnext.requestsLeft_lt
    · have hlength := ih hr' hrest
      rw [if_pos hturn] at hless
      simp only [List.length_cons] at hlength ⊢
      omega
    · have hlength := ih hr' hrest
      simp only [List.length_cons] at hlength ⊢
      omega

end
end Run
end WorkflowEngine

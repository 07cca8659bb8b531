import WorkflowEngine.Diagram
import WorkflowEngine.Proofs.System.Condemned
import WorkflowEngine.Proofs.System.Spacing

/-!
# Verdicts on nodes

What is stored of an instance may pass a verdict on the node under its cursor: that the node has
been passed, or that the instance failed there. Nothing is stored any more of a node that has been
passed.
-/
namespace WorkflowEngine

namespace AuditOutcome

/-- Whether a step with an outcome leads past its node. -/
def isPassage : AuditOutcome → Bool
  | triggered | conditionTrue | conditionFalse | delayed | actionSucceeded => true
  | actionDispatched | recovered | actionFailed | failed | cancelled | cancelledPostHoc => false

def isFailure : AuditOutcome → Bool
  | actionFailed | failed => true
  | triggered | conditionTrue | conditionFalse | delayed | actionSucceeded | actionDispatched
  | recovered | cancelled | cancelledPostHoc => false

theorem verdict?_eq_true {o : AuditOutcome} :
    Diagram.verdict? o = some true ↔ o.isPassage = true := by
  cases o <;> simp [Diagram.verdict?, isPassage]

theorem verdict?_eq_false {o : AuditOutcome} :
    Diagram.verdict? o = some false ↔ o.isFailure = true := by
  cases o <;> simp [Diagram.verdict?, isFailure]

theorem isFailure_eq_not {o : AuditOutcome} (hverdict : (Diagram.verdict? o).isSome = true) :
    o.isFailure = !o.isPassage := by
  cases o <;> first | rfl | cases hverdict

end AuditOutcome

/-- Whether an entry passes a verdict on a node of an instance. -/
def AuditEntry.judges (id : InstanceId) (node : String) (entry : AuditEntry) : Bool :=
  entry.instanceId == id && entry.node == some node && (Diagram.verdict? entry.outcome).isSome

theorem AuditEntry.judges_iff {id : InstanceId} {node : String} {entry : AuditEntry} :
    entry.judges id node = true ↔ entry.instanceId = id ∧ entry.node = some node ∧
      (Diagram.verdict? entry.outcome).isSome = true := by
  simp [judges, and_assoc]

/-- The last entry that passes a verdict on a node of an instance. -/
def lastJudging (id : InstanceId) (node : String) (entries : List AuditEntry) : Option AuditEntry :=
  (entries.filter (AuditEntry.judges id node)).getLast?

/-- The instance has passed a node. -/
def Passed (h : List Moment) (id : InstanceId) (node : String) : Prop :=
  ∃ m ∈ h, ∃ step, m.stored? = some step ∧ step.next.id = id ∧ step.entry.node = some node ∧
    step.entry.outcome.isPassage = true

section
variable {id : InstanceId} {node : String} {entries : List AuditEntry} {entry : AuditEntry}

theorem lastJudging_concat : lastJudging id node (entries ++ [entry]) =
    if entry.judges id node then some entry else lastJudging id node entries := by
  unfold lastJudging
  split <;> rename_i hjudges <;> simp [List.filter_append, hjudges]

theorem mem_of_lastJudging (hlast : lastJudging id node entries = some entry) :
    entry ∈ entries ∧ entry.judges id node = true :=
  List.mem_filter.mp (List.mem_of_getLast? hlast)

theorem lastJudging_eq_some {before after : List AuditEntry}
    (hjudges : entry.judges id node = true)
    (hafter : ∀ x ∈ after, x.judges id node = false) :
    lastJudging id node (before ++ entry :: after) = some entry := by
  have hnone : after.filter (AuditEntry.judges id node) = [] :=
    List.filter_eq_nil_iff.mpr fun x hx => by simp [hafter x hx]
  simp [lastJudging, List.filter_append, List.filter_cons_of_pos hjudges, hnone]

theorem Passed.of_concat {h : List Moment} {m : Moment} (hpassed : Passed (h ++ [m]) id node) :
    Passed h id node ∨ Passed [m] id node := by
  obtain ⟨x, hx, hstored⟩ := hpassed
  rcases List.mem_append.mp hx with hx | hx
  · exact .inl ⟨x, hx, hstored⟩
  · exact .inr ⟨x, hx, hstored⟩

end

/-! ## Steps -/

namespace Stepped

variable {config : EngineConfig} {p : Plan} {made : Invocation → Prop} {i : Instance} {step : Step}

/-- A step is recorded at the cursor. -/
theorem entry_node (hi : i.Consistent p) (hstep : Stepped config p made i step) :
    step.entry.node = some i.cursor := by
  cases hstep with
  | @passed _ exit => cases exit <;> rfl
  | @succeeded v _ hv =>
    unfold Step.advance
    cases v.exit <;> exact congrArg some hv.node
  | gaveUp hv | retried hv => exact congrArg some hv.node
  | intended | slept => rfl
  | recovered hintent | abandoned hintent => exact congrArg some (hi.intent _ hintent).1

/-- A step leaves the cursor, or leads on. -/
theorem stays_or_leads (hi : i.Consistent p) (hstep : Stepped config p made i step) :
    step.next.cursor = i.cursor ∨ p.Leads i.cursor step.next.cursor := by
  cases hrecovery : step.entry.outcome.isRecovery with
  | false => exact hstep.cursor_eq_or_leads hrecovery
  | true =>
    refine .inl ?_
    cases hstep with
    | recovered hintent => exact (hi.intent _ hintent).1
    | abandoned => rfl
    | @passed _ exit outcome _ _ _ _ houtcome =>
      rw [Step.advance_entry_outcome] at hrecovery
      rcases houtcome with rfl | rfl | rfl <;> cases hrecovery
    | succeeded =>
      change (Step.advance _ _ _ _ _ _).entry.outcome.isRecovery = true at hrecovery
      rw [Step.advance_entry_outcome] at hrecovery
      cases hrecovery
    | intended | slept | gaveUp | retried => cases hrecovery

/-- A step past its node ends the instance, or leads on. -/
theorem ends_or_leads (hstep : Stepped config p made i step)
    (hpassage : step.entry.outcome.isPassage = true) :
    step.next.isTerminal = true ∨ p.Leads i.cursor step.next.cursor := by
  cases hstep with
  | @passed n exit _ _ _ hnode _ _ hexit =>
    cases exit with
    | none => exact .inl rfl
    | some target => exact .inr ⟨n, hnode, PlanStep.mem_successors hexit⟩
  | @slept n seconds target _ _ _ hnode hdelay =>
    have hmem : target ∈ n.successors := by
      simp [hdelay, PlanNode.successors, PlanStep.successors, PlanStep.exits]
    exact .inr ⟨n, hnode, hmem⟩
  | @succeeded v _ hv =>
    obtain rfl := hv.base
    cases hexit : v.exit with
    | none => exact .inl rfl
    | some target => exact .inr (hv.leads hexit)
  | intended | gaveUp | retried | recovered | abandoned => cases hpassage

/-- A step that fails its instance is recorded as a failure. -/
theorem isFailure_of_failed (hheld : i.IsHeld) (hstep : Stepped config p made i step)
    (hfailed : step.next.status = .failed) :
    step.entry.outcome.isFailure = true ∧ step.next.cursor = i.cursor := by
  have hrunning := hheld.1
  cases hstep with
  | @passed _ exit =>
    cases exit with
    | none => cases hfailed
    | some target => cases hrunning.symm.trans hfailed
  | @succeeded v _ hv =>
    obtain rfl := hv.base
    simp only [Step.advance] at hfailed
    generalize v.exit = exit at hfailed
    cases exit with
    | none => cases hfailed
    | some target => cases hrunning.symm.trans hfailed
  | gaveUp hv =>
    obtain rfl := hv.base
    exact ⟨rfl, rfl⟩
  | abandoned => exact ⟨rfl, rfl⟩
  | slept | retried => cases hfailed
  | intended | recovered => cases hrunning.symm.trans hfailed

end Stepped

theorem Change.stays_or_leads {config : EngineConfig} {h : List Moment} {p : Plan}
    {i next : Instance} {step : Option Step} (halike : ∀ q, BoundTo h q i → q.Alike p)
    (hi : i.Consistent p) (hchange : Change config h i step next) :
    next.cursor = i.cursor ∨ p.Leads i.cursor next.cursor := by
  cases hchange with
  | stepped hbound _ hstep =>
    have hq := halike _ hbound
    exact (hstep.stays_or_leads (hi.of_alike hq.symm)).imp_right hq.leads
  | failed | released | cancelled | claimed => exact .inl rfl

/-- An instance that goes on is beyond every node that it has passed. -/
theorem Life.leads_of_passed {config : EngineConfig} {time : Instant → Instant} {id : InstanceId}
    {h h' : List Moment} {i : Instance} (hlife : Life config time id h i) (hext : h <+: h')
    (hrunnable : ∀ q, Registered h' q → q.IsRunnable) (hnamed : WellNamed h') {p : Plan}
    (hp : BoundTo h' p i) {node : String} (hpassed : Passed h id node)
    (hlive : i.isTerminal = false) : Relation.TransGen p.Leads node i.cursor := by
  induction hlife with
  | born hunborn _ _ _ hstored =>
    obtain ⟨m, hm, step, hstep, hid, -⟩ := hpassed
    exact absurd hid (hunborn.stored_append hstored m hm step hstep)
  | idle _ hstored _ ih =>
    refine ih ((List.prefix_append _ _).trans hext) hp ?_ hlive
    refine hpassed.of_concat.resolve_right ?_
    rintro ⟨m, hm, step, hstep, hid, -⟩
    obtain rfl := List.mem_singleton.mp hm
    exact hstored step hstep hid
  | @changed h m i next step now hlife hid hchange hstored _ ih =>
    have hbound := hchange.boundTo_iff.mp hp
    have hext' := (List.prefix_append h [m]).trans hext
    have hi := (hlife.consistent hext' hrunnable hnamed hbound).of_kept
    have halike (q : Plan) (hq : BoundTo h q i) : q.Alike p := by
      obtain ⟨rest, rfl⟩ := hext'
      exact (hq.append rest).alike hnamed (boundTo_kept.mp hbound)
    rcases hpassed.of_concat with hpassed | ⟨m', hm', step', hstep', -, hnode, hpassage⟩
    · have hcursor : Relation.TransGen p.Leads node i.cursor :=
        ih hext' hbound hpassed hchange.isTerminal_eq_false
      rcases hchange.stays_or_leads halike hi with hstays | hleads
      · rw [← hstays] at hcursor
        exact hcursor
      · exact hcursor.tail hleads
    · obtain rfl := List.mem_singleton.mp hm'
      obtain rfl := hstored.symm.trans hstep'
      cases hchange with
      | stepped hq _ hstep =>
        have hsame := halike _ hq
        have hcursor := hstep.entry_node (hi.of_alike hsame.symm)
        obtain rfl := Option.some.inj (hnode.symm.trans hcursor)
        refine .single (hsame.leads ((hstep.ends_or_leads hpassage).resolve_left fun hended => ?_))
        exact absurd (hlive.symm.trans hended) (by simp)

/-! ## What is settled -/

/-- What is stored of a step is settled. -/
theorem Moment.settled?_of_stored {m : Moment} {step : Step} (hstored : m.stored? = some step) :
    m.settled? = some step.entry := by
  obtain ⟨stage, hrun, hstage⟩ := Option.bind_eq_some_iff.mp hstored
  rw [settled?, hrun, Option.bind_some]
  cases stage with
  | asking => cases hstage
  | answered r answer =>
    cases r with
    | saving base step' =>
      cases answer with
      | error => cases hstage
      | ok stored =>
        obtain rfl := Option.some.inj hstage
        rfl
    | loading | recording | invoking | reloading | recordingDropped | failing
    | recordingFailure => cases hstage

namespace System

variable {config : EngineConfig} {s s₀ s₁ : System} {m : Moment} {id : InstanceId} {i : Instance}
  {node : String} {entry : AuditEntry}

/-- What is settled is settled of an instance that goes on, at its cursor. -/
theorem Along.at_cursor (hm : Along config s s₀ s₁ m) (hnamed : WellNamed s.history)
    (hcolumn : s.engine.store.isTable = true → TableStore.fits s.history.length)
    (hcounts : Counts s.history) (hsettled : m.settled? = some entry) :
    ∃ i, s₀.engine.store.find? entry.instanceId = some i ∧ i.isTerminal = false ∧
      entry.node = some i.cursor := by
  cases hm.settledBy hcounts hcolumn hsettled with
  | @stored base step p _ _ hfound hheld hbound hstep =>
    have hconsistent := hm.reachable.consistent (hm.counts hcounts).1 (hm.wellNamed hnamed) hfound
      (boundTo_kept.mpr hbound)
    have hnode := hstep.entry_node hconsistent.of_kept
    exact ⟨base.kept _, hstep.entry_spec.1 ▸ hfound, hheld.isTerminal, hnode⟩
  | @failed base _ _ _ _ _ _ hfound hheld hcondemns =>
    exact ⟨base.kept _, hcondemns.instanceId ▸ hfound, hheld.isTerminal, hcondemns.node⟩

/-- Nothing is settled of a node any more that has been passed. -/
theorem Reachable.unsettled_of_passed (hs : Reachable config s) (hnamed : WellNamed s.history)
    (hcolumn : s.engine.store.isTable = true → TableStore.fits s.history.length)
    {before after : List Moment} (hsplit : s.history = before ++ m :: after)
    (hpassed : Passed before id node) (hsettled : m.settled? = some entry)
    (hid : entry.instanceId = id) : entry.node ≠ some node := by
  intro hnode
  subst hid
  have hcounts := hs.counts hcolumn
  obtain ⟨s₀, s₁, hm, rfl⟩ := hs.along hsplit
  have hcounts₀ := (hm.counts hcounts).1
  obtain ⟨i, hfound, hlive, hcursor⟩ := hm.at_cursor hnamed hcolumn hcounts hsettled
  obtain rfl := Option.some.inj (hnode.symm.trans hcursor)
  have hlife := hm.reachable.life hcounts₀ hfound
  have hrunnable (q : Plan) (hq : Registered s₀.history q) := hm.reachable.isRunnable hcounts₀ hq
  obtain ⟨p, hp⟩ := hlife.exists_boundTo
  exact (hrunnable p hp.registered).not_transGen_self i.cursor
    (hlife.leads_of_passed List.prefix_rfl hrunnable (hm.wellNamed hnamed) hp hpassed hlive)

/-- What leads past a node is a step. -/
theorem Along.stored_of_passage (hm : Along config s s₀ s₁ m)
    (hcolumn : s.engine.store.isTable = true → TableStore.fits s.history.length)
    (hcounts : Counts s.history) (hsettled : m.settled? = some entry)
    (hpassage : entry.outcome.isPassage = true) :
    ∃ step, m.stored? = some step ∧ step.entry = entry ∧ step.next.id = entry.instanceId := by
  cases hm.settledBy hcounts hcolumn hsettled with
  | @stored _ step _ _ _ _ _ _ hstep hstored =>
    exact ⟨step, hstored, rfl, hstep.next_eq.1.trans hstep.entry_spec.1.symm⟩
  | failed _ _ hcondemns =>
    rw [hcondemns.outcome] at hpassage
    cases hpassage

theorem Reachable.passed_of_settled (hs : Reachable config s)
    (hcolumn : s.engine.store.isTable = true → TableStore.fits s.history.length)
    (hm : m ∈ s.history) (hsettled : m.settled? = some entry)
    (hjudges : entry.judges id node = true) (hpassage : entry.outcome.isPassage = true) :
    Passed s.history id node := by
  obtain ⟨before, after, hsplit⟩ := List.append_of_mem hm
  obtain ⟨s₀, s₁, halong, -⟩ := hs.along hsplit
  obtain ⟨step, hstored, rfl, hid⟩ :=
    halong.stored_of_passage hcolumn (hs.counts hcolumn) hsettled hpassage
  obtain ⟨hinstance, hnode, -⟩ := AuditEntry.judges_iff.mp hjudges
  exact ⟨m, hm, step, hstored, hid.trans hinstance, hnode, hpassage⟩

/-- The last verdict that is stored of a node says whether it has been passed. -/
theorem Reachable.passed_iff (hs : Reachable config s) (hnamed : WellNamed s.history)
    (hcolumn : s.engine.store.isTable = true → TableStore.fits s.history.length) :
    Passed s.history id node ↔
      ∃ entry, lastJudging id node (s.history.filterMap Moment.settled?) = some entry ∧
        entry.outcome.isPassage = true := by
  refine ⟨fun hpassed => ?_, fun ⟨entry, hlast, hpassage⟩ => ?_⟩
  · obtain ⟨m, hm, step, hstored, rfl, hnode, hpassage⟩ := hpassed
    obtain ⟨before, after, hsplit⟩ := List.append_of_mem hm
    have hsettled := Moment.settled?_of_stored hstored
    have hverdict : (Diagram.verdict? step.entry.outcome).isSome = true := by
      rw [AuditOutcome.verdict?_eq_true.mpr hpassage]
      rfl
    obtain ⟨s₀, s₁, halong, -⟩ := hs.along hsplit
    obtain ⟨step', hstored', hentry, hid⟩ :=
      halong.stored_of_passage hcolumn (hs.counts hcolumn) hsettled hpassage
    obtain rfl := Option.some.inj (hstored.symm.trans hstored')
    refine ⟨step.entry, ?_, hpassage⟩
    rw [hsplit, List.filterMap_append, List.filterMap_cons_some hsettled]
    refine lastJudging_eq_some (AuditEntry.judges_iff.mpr ⟨hid.symm, hnode, hverdict⟩) ?_
    intro x hx
    obtain ⟨m', hm', hsettled'⟩ := List.mem_filterMap.mp hx
    obtain ⟨between, rest, rfl⟩ := List.append_of_mem hm'
    refine Bool.eq_false_iff.mpr fun hjudges => ?_
    obtain ⟨hinstance, hnode', -⟩ := AuditEntry.judges_iff.mp hjudges
    have hpassed : Passed (before ++ m :: between) step.next.id node :=
      ⟨m, by simp, step, hstored, rfl, hnode, hpassage⟩
    have hsplit' : s.history = (before ++ m :: between) ++ m' :: rest := by simp [hsplit]
    exact hs.unsettled_of_passed hnamed hcolumn hsplit' hpassed hsettled' hinstance hnode'
  · obtain ⟨hmem, hjudges⟩ := mem_of_lastJudging hlast
    obtain ⟨m, hm, hsettled⟩ := List.mem_filterMap.mp hmem
    exact hs.passed_of_settled hcolumn hm hsettled hjudges hpassage

/-- Whoever fails an instance settles that, at its cursor. -/
theorem Along.settled_of_failed (hm : Along config s s₀ s₁ m) (hcounts : Counts s.history)
    (hcolumn : s.engine.store.isTable = true → TableStore.fits s.history.length)
    (hnamed : WellNamed s.history) (hw : m.written? = some i) (hfailed : i.status = .failed) :
    ∃ entry, m.settled? = some entry ∧ entry.instanceId = i.id ∧ entry.node = some i.cursor ∧
      entry.outcome.isFailure = true := by
  have hreplaces := ((hm.written hcounts).1 i hw).1
  have hborn : (lastStored i.id s₀.history).isSome := by
    generalize lastStored i.id s₀.history = cur at hreplaces
    cases hreplaces with
    | created _ hdraft =>
      have hrunning : i.status = .running := by rw [hdraft]; rfl
      cases hrunning.symm.trans hfailed
    | changed => rfl
  have hunswept : m.isSweep = false := by
    refine Bool.eq_false_iff.mpr fun hsweep => ?_
    cases (hm.released_of_sweep hcounts hsweep hw).1.symm.trans hfailed
  cases hm.writer hcounts hunswept hw hborn (by simp [hfailed]) with
  | claim _ _ _ hsaved =>
    rw [hsaved] at hfailed
    cases hfailed
  | save hrun hsound hcur hsaved =>
    obtain ⟨-, hheld, p, hbound, hstep⟩ := hsound
    have hcounts₀ := (hm.counts hcounts).1
    have hconsistent := hm.reachable.consistent hcounts₀ (hm.wellNamed hnamed) hcur
      (boundTo_kept.mpr hbound)
    subst hsaved
    obtain ⟨hfailure, hcursor⟩ := hstep.isFailure_of_failed hheld hfailed
    refine ⟨_, by rw [Moment.settled?, hrun]; rfl, ?_, ?_, hfailure⟩
    · exact hstep.entry_spec.1.trans hstep.next_eq.1.symm
    · exact (hstep.entry_node hconsistent.of_kept).trans (congrArg some hcursor.symm)
  | @fail _ entry _ hrun =>
    have hsettled : m.settled? = some entry := by rw [Moment.settled?, hrun]; rfl
    cases hm.settledBy hcounts hcolumn hsettled with
    | stored _ _ _ _ hstored =>
      rw [Moment.stored?, hrun] at hstored
      cases hstored
    | failed _ _ hcondemns hwritten =>
      obtain rfl := Option.some.inj (hw.symm.trans hwritten)
      refine ⟨entry, hsettled, hcondemns.instanceId, hcondemns.node, ?_⟩
      rw [hcondemns.outcome]
      rfl

/-- The last verdict on the node at which an instance has failed is that it failed. -/
theorem Reachable.failed_at_cursor (hs : Reachable config s) (hnamed : WellNamed s.history)
    (hcolumn : s.engine.store.isTable = true → TableStore.fits s.history.length)
    (hi : s.engine.store.find? id = some i) (hfailed : i.status = .failed) :
    ∃ entry, lastJudging id i.cursor (s.history.filterMap Moment.settled?) = some entry ∧
      entry.outcome.isFailure = true := by
  have hcounts := hs.counts hcolumn
  obtain ⟨first, m, since, j, hlast, hj, rfl, rfl⟩ := hs.exists_lastWrite hcounts hi
  obtain ⟨s₀, s₁, hm, -⟩ := hs.along hlast.history
  obtain ⟨entry, hsettled, hid, hnode, hfailure⟩ :=
    hm.settled_of_failed hcounts hcolumn hnamed hj hfailed
  refine ⟨entry, ?_, hfailure⟩
  have hverdict : (Diagram.verdict? entry.outcome).isSome = true := by
    rw [AuditOutcome.verdict?_eq_false.mpr hfailure]
    rfl
  rw [hlast.history, List.filterMap_append, List.filterMap_cons_some hsettled]
  refine lastJudging_eq_some (AuditEntry.judges_iff.mpr ⟨hid, hnode, hverdict⟩) fun x hx => ?_
  -- Whatever is settled later of the instance would be a later write of it.
  obtain ⟨m', hm', hsettled'⟩ := List.mem_filterMap.mp hx
  refine Bool.eq_false_iff.mpr fun hjudges => ?_
  have hmem : m' ∈ s.history := by simp [hlast.history, hm']
  obtain ⟨between, rest, hsplit⟩ := List.append_of_mem hmem
  obtain ⟨t₀, t₁, hthere, -⟩ := hs.along hsplit
  obtain ⟨w, hw, hwid, -⟩ := hthere.written_of_settled hcounts hcolumn hsettled'
  exact hlast.quiet m' hm' ⟨w, hw, hwid.trans (AuditEntry.judges_iff.mp hjudges).1⟩

end System
end WorkflowEngine

import WorkflowEngine.Proofs.System.Grants

/-!
# Attempts at actions

An intent to invoke an action is stored at most once more than a failure of the action after which
it is tried again. Each of these failures is counted by the instance, until there are no more
attempts left.
-/
namespace WorkflowEngine

/-- An invocation was made, and later it was stored that it had failed and is to be tried again. -/
def Retried (h : List Moment) (v : Invocation) : Prop :=
  ∃ before m after, h = before ++ m :: after ∧ m.invocation? = some v ∧
    ∃ m' ∈ after, ∃ reason wakeAt, m'.stored? = some (v.retry reason wakeAt)

theorem Retried.append {h : List Moment} {v : Invocation} (hv : Retried h v) (h' : List Moment) :
    Retried (h ++ h') v := by
  obtain ⟨before, m, after, rfl, hm, m', hm', hretry⟩ := hv
  exact ⟨before, m, after ++ h', by simp, hm, m', List.mem_append_left _ hm', hretry⟩

theorem Made.retried {h : List Moment} {m : Moment} {v : Invocation} {reason : String}
    {wakeAt : Instant} (hmade : Made h v) (hm : m.stored? = some (v.retry reason wakeAt)) :
    Retried (h ++ [m]) v := by
  obtain ⟨m', hmem, hm'⟩ := hmade
  obtain ⟨before, after, rfl⟩ := List.append_of_mem hmem
  exact ⟨before, m', after ++ [m], by simp, hm', m, by simp, reason, wakeAt, hm⟩

def Plan.Passed (p : Plan) (node : String) (i : Instance) : Prop :=
  Relation.TransGen p.Leads node i.cursor

/-- What a change means for an action of a plan: nothing, or an intent to invoke it, or a failure
after which it is tried again. -/
inductive Tried (config : EngineConfig) (p : Plan) (made : Invocation → Prop) (node : String)
    (i next : Instance) (step : Option Step) : Prop where
  | elsewhere
      (hstep : ∀ s, step = some s → s.entry.outcome = .actionDispatched →
        s.entry.node ≠ some node)
      (hnext : next.isTerminal = false → ¬ p.Passed node next →
        ¬ p.Passed node i ∧ next.attemptsFor node = i.attemptsFor node ∧
          (next.dispatching ≠ some node → i.dispatching ≠ some node))
  | intended (hcursor : i.cursor = node) (hfree : i.dispatching ≠ some node)
      (hattempts : next.attemptsFor node = i.attemptsFor node)
      (hintent : next.dispatching = some node)
  | retried {v : Invocation} {reason : String} {wakeAt : Instant} (hbase : v.base = i)
      (hnode : v.node = node) (hcursor : i.cursor = node) (hmade : made v)
      (hmore : v.attempt < config.maxAttempts) (hstep : step = some (v.retry reason wakeAt))
      (hattempts : next.attemptsFor node = i.attemptsFor node + 1)

theorem Invocation.attemptsFor_counted (v : Invocation) :
    v.counted.attemptsFor v.node = v.base.attemptsFor v.node + 1 := by
  simp [counted, Instance.attemptsFor, attempt]

theorem Invocation.attemptsFor_counted_of_ne (v : Invocation) {node : String}
    (hne : node ≠ v.node) : v.counted.attemptsFor node = v.base.attemptsFor node := by
  simp [counted, Instance.attemptsFor, Keyed.lookup_put_of_ne _ _ hne]

theorem Invocation.IsFor.leads {p : Plan} {i : Instance} {v : Invocation} {target : String}
    (hv : v.IsFor p i) (hexit : v.exit = some target) : p.Leads i.cursor target := by
  obtain ⟨n, params, hnode, haction⟩ := hv.action
  refine ⟨n, hnode, ?_⟩
  simp [PlanNode.successors, haction, hexit, PlanStep.successors, PlanStep.exits]

theorem Stepped.tried {config : EngineConfig} {p q : Plan} {made : Invocation → Prop}
    {i : Instance} {step : Step} (halike : q.Alike p) (hi : i.Consistent p)
    (hstep : Stepped config q made i step) (node : String) :
    Tried config p made node i step.next (some step) := by
  have hother {v : Invocation} (hv : v.IsFor q i) (hne : node ≠ v.node) :
      i.dispatching ≠ some node := by
    rw [hv.intent, ← hv.node]
    simpa using Ne.symm hne
  cases hstep with
  | @passed n exit outcome _ _ hnode hkind houtcome hexit =>
    refine .elsewhere ?_ fun hlive hpassed => ?_
    · rintro _ ⟨⟩ hentry
      rw [Step.advance_entry_outcome] at hentry
      rcases houtcome with rfl | rfl | rfl <;> cases hentry
    · cases exit with
      | none => cases hlive
      | some target =>
        have hleads := halike.leads ⟨n, hnode, PlanStep.mem_successors hexit⟩
        exact ⟨fun h => hpassed (h.tail hleads), rfl, id⟩
  | @intended n kind now hnode hkind hfree =>
    by_cases hcursor : i.cursor = node
    · subst hcursor
      exact .intended rfl hfree rfl rfl
    · refine .elsewhere ?_ fun _ hpassed => ⟨hpassed, rfl, fun _ hintent => ?_⟩
      · rintro _ ⟨⟩ -
        simpa [Step.intend] using hcursor
      · exact hcursor (hi.intent node hintent).1.symm
  | @slept n seconds target now wakeAt detail hnode hdelay =>
    refine .elsewhere (by rintro _ ⟨⟩ ⟨⟩) fun _ hpassed => ?_
    have hmem : target ∈ n.successors := by
      simp [hdelay, PlanNode.successors, PlanStep.successors, PlanStep.exits]
    have hleads := halike.leads ⟨n, hnode, hmem⟩
    exact ⟨fun h => hpassed (h.tail hleads), rfl, id⟩
  | @succeeded v detail hv hmade =>
    refine .elsewhere ?_ fun hlive hpassed => ?_
    · rintro _ ⟨⟩ hentry
      simp at hentry
    · obtain rfl := hv.base
      cases hexit : v.exit with
      | none =>
        rw [hexit] at hlive
        cases hlive
      | some target =>
        rw [hexit] at hpassed
        have hleads := halike.leads (hv.leads hexit)
        have hne : node ≠ v.node := by
          rintro rfl
          exact hpassed (.single (hv.node ▸ hleads))
        exact ⟨fun h => hpassed (h.tail hleads), v.attemptsFor_counted_of_ne hne,
          fun _ => hother hv hne⟩
  | gaveUp => exact .elsewhere (by rintro _ ⟨⟩ ⟨⟩) fun hlive => by cases hlive
  | @retried v reason wakeAt hv hmade hmore =>
    obtain rfl := hv.base
    by_cases hnode : v.node = node
    · subst hnode
      exact .retried rfl rfl hv.node.symm hmade hmore rfl v.attemptsFor_counted
    · have hne : node ≠ v.node := Ne.symm hnode
      refine .elsewhere (by rintro _ ⟨⟩ ⟨⟩) fun _ hpassed => ?_
      exact ⟨hpassed, v.attemptsFor_counted_of_ne hne, fun _ => hother hv hne⟩
  | @recovered n kind detail now hintent =>
    obtain ⟨hcursor, -⟩ := hi.intent n.id hintent
    refine .elsewhere (by rintro _ ⟨⟩ ⟨⟩) fun _ hpassed => ⟨?_, rfl, id⟩
    rwa [Plan.Passed, ← hcursor]
  | abandoned => exact .elsewhere (by rintro _ ⟨⟩ ⟨⟩) fun hlive => by cases hlive

theorem Change.tried {config : EngineConfig} {h : List Moment} {p : Plan} {i next : Instance}
    {step : Option Step} (halike : ∀ q, BoundTo h q i → q.Alike p) (hi : i.Consistent p)
    (hchange : Change config h i step next) (node : String) :
    Tried config p (Made h) node i next step := by
  cases hchange with
  | stepped hbound _ hstep => exact hstep.tried (halike _ hbound) hi node
  | failed => exact .elsewhere (by simp) fun hlive => by cases hlive
  | released => exact .elsewhere (by simp) fun _ hpassed => ⟨hpassed, rfl, id⟩
  | cancelled => exact .elsewhere (by simp) fun hlive => by cases hlive
  | claimed => exact .elsewhere (by simp) fun _ hpassed => ⟨hpassed, rfl, id⟩

theorem Tried.kept_stamped {config : EngineConfig} {p : Plan} {made : Invocation → Prop}
    {node : String} {i next : Instance} {step : Option Step}
    (htried : Tried config p made node i next step) (version : Version) (now : Instant)
    (time : Instant → Instant) :
    Tried config p made node i ((next.stamped version now).kept time) step := by
  cases htried with
  | elsewhere hstep hnext => exact .elsewhere hstep hnext
  | intended hcursor hfree hattempts hintent => exact .intended hcursor hfree hattempts hintent
  | retried hbase hnode hcursor hmade hmore hstep hattempts =>
    exact .retried hbase hnode hcursor hmade hmore hstep hattempts

/-- The attempts at an action so far, apart from one that may be going on: the invocations that
failed and were followed by another attempt. -/
structure Attempted (config : EngineConfig) (p : Plan) (node : String) (h : List Moment)
    (i : Instance) (failures : List Invocation) : Prop where
  nodup : failures.Nodup
  retried : ∀ v ∈ failures, v.base.id = i.id ∧ v.node = node ∧ Retried h v ∧
    v.base.version.Before i.version
  bounded : failures.length < config.maxAttempts
  intended : timesStored i.id node .actionDispatched h ≤ failures.length + 1
  counted : i.isTerminal = false → ¬ p.Passed node i →
    i.attemptsFor node = failures.length ∧
      (i.dispatching ≠ some node → timesStored i.id node .actionDispatched h ≤ failures.length)

namespace Attempted

variable {config : EngineConfig} {p : Plan} {node : String} {h : List Moment} {m : Moment}
  {i next : Instance} {failures : List Invocation}

theorem of_kept {time : Instant → Instant}
    (ha : Attempted config p node h (i.kept time) failures) :
    Attempted config p node h i failures :=
  ⟨ha.nodup, ha.retried, ha.bounded, ha.intended, ha.counted⟩

theorem elsewhere (ha : Attempted config p node h i failures) (hid : next.id = i.id)
    (hversion : next.version = i.version ∨ i.version.Before next.version)
    (hstored : m.stores i.id node .actionDispatched = false)
    (hnext : next.isTerminal = false → ¬ p.Passed node next →
      i.isTerminal = false ∧ ¬ p.Passed node i ∧ next.attemptsFor node = i.attemptsFor node ∧
        (next.dispatching ≠ some node → i.dispatching ≠ some node)) :
    Attempted config p node (h ++ [m]) next failures := by
  have hintents : timesStored next.id node .actionDispatched (h ++ [m]) =
      timesStored i.id node .actionDispatched h := by
    rw [hid, timesStored_append, hstored]
    rfl
  refine ⟨ha.nodup, fun v hv => ?_, ha.bounded, ?_, fun hlive hpassed => ?_⟩
  · obtain ⟨hvid, hvnode, hretried, hbefore⟩ := ha.retried v hv
    refine ⟨hvid.trans hid.symm, hvnode, hretried.append _, ?_⟩
    rcases hversion with heq | hlt
    · exact heq ▸ hbefore
    · exact hbefore.trans hlt
  · rw [hintents]
    exact ha.intended
  · obtain ⟨hlive, hpassed, hattempts, hfree⟩ := hnext hlive hpassed
    obtain ⟨hcounted, hintended⟩ := ha.counted hlive hpassed
    rw [hattempts, hintents]
    exact ⟨hcounted, fun hnext => hintended (hfree hnext)⟩

theorem changed (ha : Attempted config p node h i failures) (hp : p.IsRunnable)
    (hlive : i.isTerminal = false) (hid : next.id = i.id)
    (hversion : i.version.Before next.version) {step : Option Step} (hstored : m.stored? = step)
    (hstoredId : ∀ s, step = some s → s.next.id = i.id)
    (htried : Tried config p (Made h) node i next step) :
    ∃ failures, Attempted config p node (h ++ [m]) next failures := by
  have hhere (hcursor : i.cursor = node) : ¬ p.Passed node i := by
    rw [Plan.Passed, hcursor]
    exact hp.not_transGen_self node
  cases htried with
  | elsewhere hstep hnext =>
    refine ⟨failures, ha.elsewhere hid (.inr hversion) ?_ fun hlive' hpassed => ?_⟩
    · cases hstores : m.stores i.id node .actionDispatched with
      | false => rfl
      | true =>
        obtain ⟨s, hs, hs'⟩ := (Option.any_eq_true _ _).mp hstores
        rw [Moment.stores_iff hs (hstoredId s (hstored.symm.trans hs))] at hstores
        exact absurd hstores.1 (hstep s (hstored.symm.trans hs) hstores.2)
    · exact ⟨hlive, hnext hlive' hpassed⟩
  | intended hcursor hfree hattempts hintent =>
    obtain ⟨hcounted, hintended⟩ := ha.counted hlive (hhere hcursor)
    have hle : timesStored next.id node .actionDispatched (h ++ [m]) ≤ failures.length + 1 := by
      have := hintended hfree
      rw [hid, timesStored_append]
      split <;> omega
    refine ⟨failures, ha.nodup, fun v hv => ?_, ha.bounded, hle, fun _ _ => ?_⟩
    · obtain ⟨hvid, hvnode, hretried, hbefore⟩ := ha.retried v hv
      exact ⟨hvid.trans hid.symm, hvnode, hretried.append _, hbefore.trans hversion⟩
    · exact ⟨hattempts.trans hcounted, fun hnot => absurd hintent hnot⟩
  | @retried v reason wakeAt hbase hnode hcursor hmade hmore hstep hattempts =>
    obtain rfl := hbase
    obtain rfl := hnode
    obtain ⟨hcounted, -⟩ := ha.counted hlive (hhere hcursor)
    have hretry : m.stored? = some (v.retry reason wakeAt) := hstored.trans hstep
    have hnot : m.stores v.base.id v.node .actionDispatched = false := by
      refine Moment.stores_eq_false fun s hs _ => ?_
      obtain rfl := Option.some.inj (hretry.symm.trans hs)
      simp [Invocation.retry]
    -- Every write counts, so that the failures before belong to earlier versions.
    have hfresh : v ∉ failures := fun hv =>
      Version.not_before_self _ (ha.retried v hv).2.2.2
    have hlength : (failures ++ [v]).length = failures.length + 1 := by simp
    have hle : timesStored next.id v.node .actionDispatched (h ++ [m]) ≤
        (failures ++ [v]).length := by
      rw [hid, timesStored_append, hnot, hlength]
      exact ha.intended
    refine ⟨failures ++ [v], ?_, fun w hw => ?_, ?_, hle.trans (Nat.le_succ _), fun _ _ => ?_⟩
    · refine List.nodup_append.mpr ⟨ha.nodup, by simp, ?_⟩
      simpa using fun w hw (heq : w = v) => hfresh (heq ▸ hw)
    · rcases List.mem_append.mp hw with hw | hw
      · obtain ⟨hwid, hwnode, hretried, hbefore⟩ := ha.retried w hw
        exact ⟨hwid.trans hid.symm, hwnode, hretried.append _, hbefore.trans hversion⟩
      · obtain rfl := List.mem_singleton.mp hw
        exact ⟨hid.symm, rfl, hmade.retried hretry, hversion⟩
    · rw [hlength]
      rw [Invocation.attempt, hcounted] at hmore
      omega
    · rw [hlength, hattempts, hcounted]
      exact ⟨by simp, fun _ => hlength ▸ hle⟩

/-- An instance that has just been created has tried nothing. -/
theorem born {time : Instant → Instant} {q : Plan} {e : Event} {now : Instant}
    (hunborn : Unborn i.id h) (hdraft : i.toDraft = e.draft q now) (hstored : m.stored? = none) :
    Attempted config p node (h ++ [m]) (i.kept time) [] := by
  have hintents := timesStored_eq_zero (hunborn.stored_append hstored) node .actionDispatched
  have hattempts : (i.kept time).attemptsFor node = 0 := by
    have hnil : (i.kept time).attempts = [] := by
      rw [Instance.kept, hdraft]
      rfl
    rw [Instance.attemptsFor, hnil]
    rfl
  refine ⟨.nil, by simp, config.maxAttempts_pos, ?_, fun _ _ => ⟨hattempts, fun _ => ?_⟩⟩
  · exact hintents.le.trans (Nat.zero_le _)
  · exact hintents.le

end Attempted

/-- The attempts at each action of an instance are counted throughout its life. -/
theorem Life.exists_attempted {config : EngineConfig} {time : Instant → Instant}
    {id : InstanceId} {h h' : List Moment} {i : Instance} {p : Plan}
    (hlife : Life config time id h i) (hext : h <+: h') (hcounts : Counts h')
    (hrunnable : ∀ q, Registered h' q → q.IsRunnable) (hnamed : WellNamed h')
    (hp : BoundTo h' p i) (node : String) :
    ∃ failures, Attempted config p node h i failures := by
  induction hlife with
  | born hunborn hbound hdraft _ hstored =>
    subst_vars
    exact ⟨[], .born hunborn hdraft hstored⟩
  | @idle h m i hlife hstored hfound ih =>
    have hid := hlife.id_eq
    subst hid
    obtain ⟨failures, ha⟩ := ih ((List.prefix_append _ _).trans hext) hp
    refine ⟨failures, ha.elsewhere rfl (.inl rfl) ?_ fun hlive hpassed => ?_⟩
    · exact Moment.stores_eq_false fun step hstep hid => absurd hid (hstored step hstep)
    · exact ⟨hlive, hpassed, rfl, id⟩
  | @changed h m i next step now hlife hid hchange hstored hfound ih =>
    have hbound := hchange.boundTo_iff.mp hp
    have hext' := (List.prefix_append h [m]).trans hext
    obtain ⟨failures, ha⟩ := ih hext' hbound
    have hi := (hlife.consistent hext' hrunnable hnamed hbound).of_kept
    obtain ⟨rest, rfl⟩ := hext'
    have halike (q : Plan) (hq : BoundTo h q i) : q.Alike p :=
      (hq.append rest).alike hnamed (boundTo_kept.mp hbound)
    have hnextId := hchange.next_eq.1
    exact ha.of_kept.changed (hrunnable p hp.registered) hchange.isTerminal_eq_false hnextId
      (hlife.before_next hcounts.of_append) hstored
      (fun s hs => (hs ▸ hchange).stored_id.trans hnextId)
      ((hchange.tried halike hi node).kept_stamped _ _ _)

end WorkflowEngine

import WorkflowEngine.Proofs.System.Attempts
import WorkflowEngine.Proofs.System.Undisturbed

/-!
# Budgets of actions

An action is invoked as often as it may be attempted, and once more each time that an intent is
taken up again. No intent of an unsafe action is taken up again, so that it is invoked again only
after a failure of its last invocation was stored.
-/
namespace WorkflowEngine

section
variable {α β : Type} {f : α → Option β}

theorem suffix_eq_of_nodup_filterMap {l l' : List α} {a a' : α} {b : β}
    (hnodup : ((a :: l).filterMap f).Nodup) (ha : f a = some b) (ha' : f a' = some b)
    {before : List α} (h : a :: l = before ++ a' :: l') : before = [] ∧ l = l' := by
  cases before with
  | nil => exact ⟨rfl, (List.cons.inj h).2⟩
  | cons x before =>
    obtain ⟨rfl, rfl⟩ := List.cons.inj h
    rw [List.filterMap_cons_some ha, List.nodup_cons] at hnodup
    exact absurd (List.mem_filterMap.mpr ⟨a', by simp, ha'⟩) hnodup.1

/-- An item stands at one place if its image does. -/
theorem eq_of_nodup_filterMap {before before' after after' : List α} {a a' : α} {b : β}
    (hnodup : ((before ++ a :: after).filterMap f).Nodup) (ha : f a = some b)
    (ha' : f a' = some b) (h : before ++ a :: after = before' ++ a' :: after') :
    before = before' ∧ after = after' := by
  have hnodup' := hnodup
  rw [h] at hnodup'
  rw [List.filterMap_append] at hnodup hnodup'
  rcases List.append_eq_append_iff.mp h with ⟨rest, rfl, hrest⟩ | ⟨rest, rfl, hrest⟩
  · obtain ⟨rfl, rfl⟩ :=
      suffix_eq_of_nodup_filterMap (List.nodup_append.mp hnodup).2.1 ha ha' hrest
    simp
  · obtain ⟨rfl, rfl⟩ :=
      suffix_eq_of_nodup_filterMap (List.nodup_append.mp hnodup').2.1 ha' ha hrest
    simp

end

/-- An intent is taken up again only of an action that may be repeated. -/
theorem Stepped.isIdempotent_of_recovered {config : EngineConfig} {p : Plan}
    {made : Invocation → Prop} {i : Instance} {step : Step} {node : String}
    (hstep : Stepped config p made i step) (hnode : step.entry.node = some node)
    (hrecovered : step.entry.outcome = .recovered) :
    ∃ kind, p.IsAction node kind ∧ kind.isIdempotent = true := by
  cases hstep with
  | passed _ _ houtcome =>
    rw [Step.advance_entry_outcome] at hrecovered
    rcases houtcome with rfl | rfl | rfl <;> cases hrecovered
  | succeeded => simp at hrecovered
  | @recovered n kind _ _ _ hn hkind hidempotent =>
    obtain rfl : n.id = node := Option.some.inj hnode
    exact ⟨kind, ⟨n, hn, hkind⟩, hidempotent⟩
  | intended | slept | gaveUp | retried | abandoned => cases hrecovered

theorem Life.isIdempotent_of_recovered {config : EngineConfig} {time : Instant → Instant}
    {id : InstanceId} {h h' : List Moment} {i : Instance} {p : Plan} {node : String} {m : Moment}
    (hlife : Life config time id h i) (hext : h <+: h') (hnamed : WellNamed h')
    (hp : BoundTo h' p i) (hm : m ∈ h) (hrecovered : m.stores id node .recovered = true) :
    ∃ kind, p.IsAction node kind ∧ kind.isIdempotent = true := by
  obtain ⟨step, hstep, hstores⟩ := (Option.any_eq_true _ _).mp hrecovered
  simp only [Bool.and_eq_true, beq_iff_eq] at hstores
  obtain ⟨⟨hstepId, hnode⟩, houtcome⟩ := hstores
  induction hlife with
  | born hunborn _ _ _ hstored =>
    exact absurd hstepId (hunborn.stored_append hstored m hm step hstep)
  | idle _ hstored _ ih =>
    rcases List.mem_append.mp hm with hm | hm
    · exact ih ((List.prefix_append _ _).trans hext) hp hm
    · obtain rfl := List.mem_singleton.mp hm
      exact absurd hstepId (hstored step hstep)
  | @changed h m' i _ _ _ _ hid hchange hstored _ ih =>
    have hbound := hchange.boundTo_iff.mp hp
    have hext' := (List.prefix_append h [m']).trans hext
    rcases List.mem_append.mp hm with hm | hm
    · exact ih hext' hbound hm
    · obtain rfl := List.mem_singleton.mp hm
      obtain rfl := hstored.symm.trans hstep
      obtain ⟨rest, rfl⟩ := hext'
      cases hchange with
      | @stepped q _ hq _ hstepped =>
        obtain ⟨kind, haction, hidempotent⟩ := hstepped.isIdempotent_of_recovered hnode houtcome
        have halike := (hq.append rest).alike hnamed (boundTo_kept.mp hbound)
        exact ⟨kind, halike.isAction haction, hidempotent⟩

theorem Moment.stored?_of_invocation? {m : Moment} {v : Invocation}
    (hm : m.invocation? = some v) : m.stored? = none := by
  obtain ⟨r, hr, hv⟩ := Option.bind_eq_some_iff.mp hm
  rw [stored?, hr]
  cases r with
  | asking r => cases hv
  | answered r answer => cases r <;> first | rfl | cases hv

/-- The invocations of an action of an instance, in the order in which they were made. -/
def invocations (id : InstanceId) (node : String) (h : List Moment) : List Invocation :=
  h.filterMap fun m => m.invocation?.filter fun v => v.base.id == id && v.node == node

theorem length_invocations (id : InstanceId) (node : String) (h : List Moment) :
    (invocations id node h).length = h.countP (Moment.invokes id node) := by
  rw [invocations, List.length_filterMap_eq_countP]
  exact congrArg (List.countP · h) (funext fun m => Option.isSome_filter)

theorem mem_invocations {id : InstanceId} {node : String} {h : List Moment} {m : Moment}
    {v : Invocation} (hm : m ∈ h) (hv : m.invocation? = some v) (hid : v.base.id = id)
    (hnode : v.node = node) : v ∈ invocations id node h :=
  List.mem_filterMap.mpr ⟨m, hm, by simp [hv, hid, hnode]⟩

theorem countP_grants_le (id : InstanceId) (node : String) (h : List Moment) :
    h.countP (Moment.grants id node) ≤
      timesStored id node .actionDispatched h + timesStored id node .recovered h := by
  induction h with
  | nil => simp [timesStored]
  | cons m h ih =>
    simp only [timesStored, List.countP_cons, Moment.grants] at ih ⊢
    by_cases hintent : m.stores id node .actionDispatched = true
    · simp only [hintent, Bool.true_or, if_true]
      omega
    · simp only [hintent, Bool.false_or, Bool.false_eq_true, if_false]
      omega

/-- If no more invocations were made than failed and were followed by another attempt, then every
invocation has failed and was followed by another attempt. -/
theorem Attempted.exists_retry {config : EngineConfig} {p : Plan} {node : String}
    {before after : List Moment} {m : Moment} {i : Instance} {failures : List Invocation}
    {v : Invocation} (ha : Attempted config p node (before ++ m :: after) i failures)
    (hlength : (invocations i.id node (before ++ m :: after)).length ≤ failures.length)
    (hm : m.invocation? = some v) (hid : v.base.id = i.id) (hnode : v.node = node) :
    ∃ m' ∈ after, ∃ reason wakeAt, m'.stored? = some (v.retry reason wakeAt) := by
  -- The failures are different invocations, and no fewer than all: they are all of them.
  have hsubset : failures ⊆ invocations i.id node (before ++ m :: after) := by
    intro w hw
    obtain ⟨hwid, hwnode, ⟨_, m', _, heq, hm', -⟩, -⟩ := ha.retried w hw
    exact mem_invocations (heq ▸ by simp) hm' hwid hwnode
  have hperm := (List.subperm_of_subset ha.nodup hsubset).perm_of_length_le hlength
  have hv : v ∈ failures := hperm.mem_iff.mpr (mem_invocations (by simp) hm hid hnode)
  obtain ⟨-, -, ⟨before', m', after', heq, hm', hretry⟩, -⟩ := ha.retried v hv
  obtain ⟨-, rfl⟩ := eq_of_nodup_filterMap (hperm.nodup_iff.mp ha.nodup)
    (b := v) (by simp [hm, hid, hnode]) (by simp [hm', hid, hnode]) heq
  exact hretry

/-- What an action costs at most. -/
structure WithinBudget (config : EngineConfig) (h : List Moment) (id : InstanceId) (node : String)
    (kind : ActionKind) : Prop where
  bounded : h.countP (Moment.invokes id node) ≤
    config.maxAttempts + timesStored id node .recovered h
  unrepeated : kind.isIdempotent = false → timesStored id node .recovered h = 0
  settled : kind.isIdempotent = false → ∀ before m between m' after v w,
    h = before ++ m :: between ++ m' :: after →
    m.invocation? = some v → v.base.id = id → v.node = node →
    m'.invocation? = some w → w.base.id = id → w.node = node →
    ∃ m'' ∈ between, ∃ reason wakeAt, m''.stored? = some (v.retry reason wakeAt) ∧
      (v.retry reason wakeAt).next.attemptsFor node = v.base.attemptsFor node + 1

namespace System

variable {config : EngineConfig} {s s' : System} {id : InstanceId} {i : Instance} {node : String}

theorem Reachable.exists_attempted (hs : Reachable config s) (hcounts : Counts s.history)
    (hnamed : WellNamed s.history) (hi : s.engine.store.find? id = some i) (node : String) :
    ∃ p failures, Attempted config p node s.history i failures := by
  have hlife := hs.life hcounts hi
  obtain ⟨p, hp⟩ := hlife.exists_boundTo
  exact ⟨p, hlife.exists_attempted List.prefix_rfl hcounts (fun _ hq => hs.isRunnable hcounts hq)
    hnamed hp node⟩

/-- An action of which no intent was taken up again is invoked only if every invocation before has
failed and was followed by another attempt. -/
theorem Step.exists_retry (hs : Reachable config s) (hstep : Step s s')
    (hcounts : Counts s'.history) (hnamed : WellNamed s'.history) {before after : List Moment}
    {m m' : Moment} {v w : Invocation} (hbefore : s.history = before ++ m :: after)
    (hhistory : s'.history = s.history ++ [m'])
    (hrecovered : timesStored id node .recovered s.history = 0)
    (hv : m.invocation? = some v) (hvid : v.base.id = id) (hvnode : v.node = node)
    (hw : m'.invocation? = some w) (hwid : w.base.id = id) (hwnode : w.node = node) :
    ∃ m'' ∈ after, ∃ reason wakeAt, m''.stored? = some (v.retry reason wakeAt) := by
  -- The new invocation was granted before it was made, so the grants are ahead of the others.
  have hgranted : s.history.countP (Moment.invokes id node) + 1 ≤
      s.history.countP (Moment.grants id node) := by
    have hinvokes : m'.invokes id node = true := by simp [Moment.invokes, hw, hwid, hwnode]
    have hgrants : m'.grants id node = false := by
      simp [Moment.grants, Moment.stores, Moment.stored?_of_invocation? hw]
    have hle := (hs.step hstep).invokes_le id node hcounts hnamed
    simp only [hhistory, List.countP_append, List.countP_singleton, hinvokes, hgrants] at hle
    simp at hle
    omega
  have hintents := hgranted.trans (countP_grants_le id node s.history)
  rw [hrecovered, Nat.add_zero] at hintents
  have hcounts := hcounts.of_history hstep
  have hnamed : WellNamed s.history := (hhistory ▸ hnamed).of_append
  cases hi : s.engine.store.find? id with
  | none =>
    have hunborn := (hs.isSound hcounts).lives.unborn id hi
    rw [timesStored_eq_zero fun m hm => (hunborn m hm).2] at hintents
    omega
  | some i =>
    obtain rfl := Instance.find?_id hi
    obtain ⟨p, failures, ha⟩ := hs.exists_attempted hcounts hnamed hi node
    have hlength : (invocations i.id node s.history).length ≤ failures.length := by
      have := ha.intended
      rw [length_invocations]
      omega
    rw [hbefore] at ha hlength
    exact ha.exists_retry hlength hv hvid hvnode

/-- Every action of a stored instance keeps within its budget. -/
theorem Reachable.withinBudget {kind : ActionKind} {p : Plan} (hs : Reachable config s)
    (hcolumn : s.engine.store.isTable = true → TableStore.fits s.history.length)
    (hnamed : WellNamed s.history) (hi : s.engine.store.find? id = some i)
    (hp : BoundTo s.history p i) (haction : p.IsAction node kind) :
    WithinBudget config s.history id node kind := by
  have hcounts := hs.counts hcolumn
  have hid := Instance.find?_id hi
  have hunrepeated (hrisky : kind.isIdempotent = false) :
      timesStored id node .recovered s.history = 0 := by
    refine List.countP_eq_zero.mpr fun m hm hrecovered => ?_
    obtain ⟨kind', ⟨n', hn', hkind'⟩, hidempotent⟩ :=
      (hs.life hcounts hi).isIdempotent_of_recovered List.prefix_rfl hnamed hp hm hrecovered
    obtain ⟨n, hn, hkind⟩ := haction
    obtain rfl := Option.some.inj (hn.symm.trans hn')
    obtain rfl := Option.some.inj (hkind.symm.trans hkind')
    rw [hrisky] at hidempotent
    cases hidempotent
  constructor
  · obtain ⟨q, failures, ha⟩ := hs.exists_attempted hcounts hnamed hi node
    have hinvoked := hs.invokes_le id node hcounts hnamed
    have hgranted := countP_grants_le id node s.history
    have hintended := ha.intended
    have hbounded := ha.bounded
    rw [hid] at hintended
    omega
  · exact hunrepeated
  · intro hrisky before m between m' after v w hhistory hv hvid hvnode hw hwid hwnode
    obtain ⟨s₀, s₁, hs₀, hstep, hbefore, hafter⟩ := hs.step_of_history hhistory
    have hext : s.history = s₁.history ++ after := by simp [hhistory, hafter]
    have hrecovered : timesStored id node .recovered s₀.history = 0 := by
      have hnone := hunrepeated hrisky
      rw [hhistory, timesStored, List.countP_append] at hnone
      rw [hbefore, timesStored]
      omega
    obtain ⟨m'', hm'', reason, wakeAt, hretry⟩ :=
      hstep.exists_retry hs₀ (hext ▸ hcounts).of_append (hext ▸ hnamed).of_append hbefore
        (hbefore ▸ hafter) hrecovered hv hvid hvnode hw hwid hwnode
    exact ⟨m'', hm'', reason, wakeAt, hretry, hvnode ▸ v.attemptsFor_counted⟩

end System

/-- The message of the sample is an unsafe action that has been tried once. -/
theorem Sample.exists_withinBudget : ∃ s, System.Reachable default s ∧
    (s.engine.store.isTable = true → TableStore.fits s.history.length) ∧ WellNamed s.history ∧
    s.engine.store.find? "i1" = some retrying ∧ BoundTo s.history plan retrying ∧
    plan.IsAction "a" .sendWhatsapp ∧ WithinBudget default s.history "i1" "a" .sendWhatsapp := by
  obtain ⟨s, hs, hkeeps, hmemory, hi, hp⟩ := exists_tried
  have hcolumn : s.engine.store.isTable = true → TableStore.fits s.history.length := by
    simp [hmemory]
  have haction : plan.IsAction "a" .sendWhatsapp := ⟨_, rfl, rfl⟩
  have hnamed := hs.wellNamed hkeeps
  exact ⟨s, hs, hcolumn, hnamed, hi, hp, haction, hs.withinBudget hcolumn hnamed hi hp haction⟩

end WorkflowEngine

import WorkflowEngine.Proofs.Plan.Latest
import WorkflowEngine.Proofs.System.Deduplication

/-!
# Fanning out events

A dispatch goes through the graphs that listened for its event when it began, and looks each of them
up again when its turn comes. A graph that takes the event all the time is given its instance,
unless a graph before it has been removed in the meantime: then the dispatch fails, and the graphs
that follow are given none.
-/
namespace WorkflowEngine

/-- A graph takes an event: it is registered, and its latest plan accepts the event. -/
def Event.IsTakenBy (e : Event) (r : Registry) (graphId : String) : Prop :=
  ∃ p, r.latestPlan graphId = .ok p ∧ e.isAccepted p = .ok true

/-- A graph takes an event at every moment. -/
def Event.IsTakenThroughout (e : Event) (since : List Moment) (graphId : String) : Prop :=
  ∀ m ∈ since, e.IsTakenBy m.engine.registry graphId

/-- A graph has been given an instance of an event, which is stored. -/
def Event.IsGivenTo (e : Event) (given : List Delivery) (m : Moment) (graphId : String) : Prop :=
  ∃ d ∈ given, d.graphId = graphId ∧ ∃ i, m.find? d.id = some i ∧ i.name = (d.id, graphId, e.key)

/-- A call has begun as a dispatch, and what has happened later. -/
structure BeginsDispatch (h : List Moment) (n : Nat) (e : Event) (b : Moment)
    (later : List Moment) : Prop where
  split : ∃ before, h = before ++ b :: later
  call : b.call = some n
  began : ∃ progress, b.incident = .began (.dispatch e) progress

/-- A dispatch gives instances to the graphs that take its event all the time, unless one before
them is removed in the meantime. -/
structure FansOut (h : List Moment) : Prop where
  /-- Each request gives an instance to one more graph of those that listened at the beginning. -/
  served : ∀ past m after n e b later c answer, h = past ++ m :: after →
    BeginsDispatch (past ++ [m]) n e b later → m.call = some n → m.incident = .served c answer →
    (∃ d, m.delivery? = some d) ∧ (Dispatch.listeners b.engine.registry e).Nodup ∧
      ((deliveriesOf n (past ++ [m])).map (·.graphId)).Sublist
        (Dispatch.listeners b.engine.registry e)
  /-- A dispatch that returns is done with all graphs. -/
  returned : ∀ past m after n e b later result, h = past ++ m :: after →
    BeginsDispatch (past ++ [m]) n e b later → m.call = some n → m.result? = some (.ok result) →
    ∃ ids, result = .listed ids ∧ (deliveriesOf n past).map (·.id) = ids ∧
      ∀ graphId, e.IsTakenThroughout (b :: later) graphId →
        e.IsGivenTo (deliveriesOf n past) m graphId
  /-- A dispatch that fails has found a graph removed, and is done only with those before. -/
  failed : ∀ past m after n e b later error, h = past ++ m :: after →
    BeginsDispatch (past ++ [m]) n e b later → m.call = some n → m.result? = some (.error error) →
    ∃ done graphId rest, Dispatch.listeners b.engine.registry e = done ++ graphId :: rest ∧
      error = .graphNotFound graphId ∧ m.engine.registry.has graphId = false ∧
      (∃ x ∈ later, x.incident = .unregistered graphId) ∧
      (∀ other ∈ done, e.IsTakenThroughout (b :: later) other →
        e.IsGivenTo (deliveriesOf n past) m other) ∧
      ∀ d ∈ deliveriesOf n past, d.graphId ∉ graphId :: rest

/-! ## Which graphs take an event -/

theorem TriggerFilters.exists_matchesEvent (f : TriggerFilters) (kind : TriggerKind)
    (context : Record) : ∃ admitted, f.matchesEvent kind (.object context) = .ok admitted := by
  have hadmits (filter : Option String) (name : String) :
      ∃ admitted, admits filter (.object context) name = .ok admitted := by
    unfold admits
    split <;> exact ⟨_, rfl⟩
  have hmessage : ∃ admitted, admitsMessage f.keyword (.object context) = .ok admitted := by
    unfold admitsMessage
    split <;> exact ⟨_, rfl⟩
  have hboth {first second : Shaped Bool} (hfirst : ∃ admitted, first = .ok admitted)
      (hsecond : ∃ admitted, second = .ok admitted) :
      ∃ admitted, both first second = .ok admitted := by
    obtain ⟨first, rfl⟩ := hfirst
    obtain ⟨second, rfl⟩ := hsecond
    cases first <;> exact ⟨_, rfl⟩
  cases kind with
  | messageReceived => exact hboth (hadmits _ _) hmessage
  | leadStageChanged => exact hboth (hadmits _ _) (hadmits _ _)
  | tagAdded | tagRemoved => exact hadmits _ _
  | manual | leadCreated | scheduled | inactivity => exact ⟨_, rfl⟩

namespace Event

variable {e : Event} {env : Env} {r : Registry} {p : Plan} {graphId : String}

theorem exists_isAccepted (e : Event) (p : Plan) : ∃ accepted, e.isAccepted p = .ok accepted := by
  unfold isAccepted
  split
  · split
    · exact TriggerFilters.exists_matchesEvent _ _ _
    · exact ⟨_, rfl⟩
  · exact ⟨_, rfl⟩

theorem of_isAccepted (h : e.isAccepted p = .ok true) :
    p.enabled = true ∧ p.triggerKind? = some e.kind := by
  unfold isAccepted at h
  split at h
  · rename_i htrigger
    split at h
    · rename_i hlistens
      exact ⟨hlistens.1, by simp [Plan.triggerKind?, htrigger, PlanStep.triggerKind?, hlistens.2]⟩
    · cases h
  · cases h

/-- A graph makes a draft of an event, does not take it, or is not registered. -/
theorem draftFor_cases (hr : env.registry.Coherent) (e : Event) (graphId : String) :
    (∃ draft, e.draftFor env graphId = .ok (some draft) ∧ draft.graphId = graphId) ∨
      (e.draftFor env graphId = .ok none ∧ ¬e.IsTakenBy env.registry graphId) ∨
      (e.draftFor env graphId = .error (.graphNotFound graphId) ∧
        env.registry.has graphId = false) := by
  rcases hr.latestPlan_cases graphId with ⟨p, hp⟩ | ⟨hmissing, hhas⟩
  · have hnext : e.draftFor env graphId = (do
        if ← (e.isAccepted p).toOutcome then return some (e.draft p env.now) else return none) := by
      rw [draftFor, hp]
      rfl
    obtain ⟨accepted, haccepted⟩ := e.exists_isAccepted p
    cases accepted with
    | true =>
      have hdraft : e.draftFor env graphId = .ok (some (e.draft p env.now)) := by
        rw [hnext, haccepted]
        rfl
      exact .inl ⟨_, hdraft, (of_draftFor hdraft).1⟩
    | false =>
      refine .inr (.inl ⟨?_, ?_⟩)
      · rw [hnext, haccepted]
        rfl
      · rintro ⟨q, hq, htaken⟩
        obtain rfl := Except.ok.inj (hp.symm.trans hq)
        cases haccepted.symm.trans htaken
  · refine .inr (.inr ⟨?_, hhas⟩)
    rw [draftFor, hmissing]
    rfl

end Event

namespace Dispatch

variable {e : Event} {env : Env} {r : Registry} {graphId : String}

theorem mem_listeners (h : e.IsTakenBy r graphId) : graphId ∈ listeners r e := by
  obtain ⟨p, hp, haccepted⟩ := h
  obtain ⟨version, hlatest, hplan⟩ := Registry.of_latestPlan hp
  obtain ⟨henabled, hkind⟩ := Event.of_isAccepted haccepted
  have hmem : p ∈ r.latestPlans := by
    refine List.mem_filterMap.mpr ⟨(graphId, version), ?_, hplan⟩
    obtain ⟨before, after, hsplit, -⟩ := List.lookup_eq_some_iff.mp hlatest
    rw [hsplit]
    simp
  refine List.mem_map.mpr ⟨p, List.mem_filter.mpr ⟨hmem, ?_⟩, (Registry.of_plan?_eq_some hplan).2.1⟩
  simp [henabled, hkind]

theorem listeners_sublist (r : Registry) (e : Event) :
    (listeners r e).Sublist (r.latest.map (·.1)) :=
  (List.filter_sublist.map _).trans r.map_graphId_latestPlans

/-- A dispatch passes over graphs that do not take the event. Then it asks for an instance of the
next one, or has come to its end, or finds a graph missing. -/
theorem proceed_cases (hr : env.registry.Coherent) (e : Event) (started : List InstanceId)
    (graphIds : List String) :
    ∃ skipped, (∀ graphId ∈ skipped, ¬e.IsTakenBy env.registry graphId) ∧
      ((∃ c, proceed env e started graphIds = .waiting c ∧ c.event = e ∧
          graphIds = skipped ++ c.draft.graphId :: c.rest) ∨
        (proceed env e started graphIds = .ended (.ok started) ∧ graphIds = skipped) ∨
        ∃ graphId rest, proceed env e started graphIds = .ended (.error (.graphNotFound graphId)) ∧
          graphIds = skipped ++ graphId :: rest ∧ env.registry.has graphId = false) := by
  induction graphIds with
  | nil => exact ⟨[], by simp, .inr (.inl ⟨rfl, rfl⟩)⟩
  | cons graphId rest ih =>
    rcases Event.draftFor_cases hr e graphId with
      ⟨draft, hdraft, rfl⟩ | ⟨hdraft, hnot⟩ | ⟨hdraft, hhas⟩
    · exact ⟨[], by simp, .inl ⟨⟨e, draft, rest, started⟩, by rw [proceed, hdraft], rfl, rfl⟩⟩
    · -- The graph is passed over, and the rest of the way is that of the induction hypothesis.
      have hproceed : proceed env e started (graphId :: rest) = proceed env e started rest := by
        rw [proceed, hdraft]
      obtain ⟨skipped, hskipped, hnext⟩ := ih
      refine ⟨graphId :: skipped, by simpa using ⟨hnot, hskipped⟩, ?_⟩
      rw [hproceed]
      rcases hnext with ⟨c, hc, he, hrest⟩ | ⟨hended, hrest⟩ | ⟨missing, later, hended, hrest, hhas⟩
      · exact .inl ⟨c, hc, he, by rw [hrest, List.cons_append]⟩
      · exact .inr (.inl ⟨hended, by rw [hrest]⟩)
      · exact .inr (.inr ⟨missing, later, hended, by rw [hrest, List.cons_append], hhas⟩)
    · exact ⟨[], by simp, .inr (.inr ⟨graphId, rest, by rw [proceed, hdraft], rfl, hhas⟩)⟩

end Dispatch

/-! ## What a dispatch has done -/

/-- Of the graphs that a dispatch is done with, those that take the event are given an instance, and
no graph is given one otherwise. -/
structure HasReached (given : List Delivery) (taken : String → Prop) (done : List String) :
    Prop where
  reached : ∀ graphId ∈ done, taken graphId → graphId ∈ given.map (·.graphId)
  sublist : (given.map (·.graphId)).Sublist done

namespace HasReached

variable {given : List Delivery} {taken taken' : String → Prop} {done : List String}

theorem mono (h : HasReached given taken done)
    (htaken : ∀ graphId, taken' graphId → taken graphId) : HasReached given taken' done :=
  ⟨fun graphId hdone htaken' => h.reached graphId hdone (htaken graphId htaken'), h.sublist⟩

theorem skip (h : HasReached given taken done) {skipped : List String}
    (hskipped : ∀ graphId ∈ skipped, ¬taken graphId) :
    HasReached given taken (done ++ skipped) := by
  refine ⟨fun graphId hmem htaken => ?_, h.sublist.trans (List.sublist_append_left _ _)⟩
  rcases List.mem_append.mp hmem with hdone | hskip
  · exact h.reached graphId hdone htaken
  · exact absurd htaken (hskipped graphId hskip)

theorem served (h : HasReached given taken done) (d : Delivery) :
    HasReached (given ++ [d]) taken (done ++ [d.graphId]) := by
  refine ⟨fun graphId hmem htaken => ?_, ?_⟩
  · rw [List.map_append, List.map_singleton, List.mem_append]
    exact (List.mem_append.mp hmem).imp_left fun hdone => h.reached graphId hdone htaken
  · rw [List.map_append, List.map_singleton]
    exact h.sublist.append (.refl _)

end HasReached

/-- How far a dispatch has come with the graphs that were listening when it began. -/
def Stage.FansOut (listed : List String) (given : List Delivery) (taken : String → Prop)
    (e : Event) : Stage → Prop
  | asking (.dispatch c) => c.event = e ∧ ∃ done, listed = done ++ c.draft.graphId :: c.rest ∧
      HasReached given taken done
  | answered (.dispatch c) answer => c.event = e ∧ (∃ stored, answer = .ok stored) ∧
      ∃ done, listed = done ++ c.draft.graphId :: c.rest ∧
        HasReached given taken (done ++ [c.draft.graphId])
  | _ => False

/-- How a dispatch ends: it is done with all graphs, or finds one of them missing. -/
def Dispatch.Ends (listed : List String) (given : List Delivery) (taken : String → Prop)
    (r : Registry) : Outcome CallResult → Prop
  | .ok result => (∃ ids, result = .listed ids) ∧ HasReached given taken listed
  | .error error => ∃ done graphId rest, listed = done ++ graphId :: rest ∧
      error = .graphNotFound graphId ∧ r.has graphId = false ∧ HasReached given taken done

section
variable {h : List Moment} {m b : Moment} {n : Nat} {e : Event} {later : List Moment}

theorem BeginsDispatch.of_append (hb : BeginsDispatch (h ++ [m]) n e b later)
    (hm : m.call = some n → ∀ o progress, m.incident ≠ .began o progress) :
    ∃ rest, later = rest ++ [m] ∧ BeginsDispatch h n e b rest := by
  obtain ⟨⟨before, hsplit⟩, hcall, progress, hbegan⟩ := hb
  rcases last_or_before hsplit with ⟨-, rfl, -⟩ | ⟨rest, hrest, rfl⟩
  · exact absurd hbegan (hm hcall _ _)
  · exact ⟨rest, rfl, ⟨before, hrest⟩, hcall, progress, hbegan⟩

theorem BeginsDispatch.openedBy (hb : BeginsDispatch h n e b later) :
    OpenedBy h n (.dispatch e) := by
  obtain ⟨⟨before, hsplit⟩, hcall, progress, hbegan⟩ := hb
  exact ⟨b, by simp [hsplit], hcall, progress, hbegan⟩

theorem Event.IsTakenThroughout.of_append {graphId : String}
    (htaken : e.IsTakenThroughout (b :: (later ++ [m])) graphId) :
    e.IsTakenThroughout (b :: later) graphId ∧ e.IsTakenBy m.engine.registry graphId :=
  ⟨fun x hx => htaken x (List.mem_append_left [m] hx), htaken m (by simp)⟩

end

section
variable {listed : List String} {given : List Delivery} {taken taken' : String → Prop} {e : Event}
  {env : Env}

theorem Stage.FansOut.mono {stage : Stage} (hstage : stage.FansOut listed given taken e)
    (htaken : ∀ graphId, taken' graphId → taken graphId) : stage.FansOut listed given taken' e := by
  unfold FansOut at hstage ⊢
  split at hstage
  · obtain ⟨he, done, hlisted, hreached⟩ := hstage
    exact ⟨he, done, hlisted, hreached.mono htaken⟩
  · obtain ⟨he, hok, done, hlisted, hreached⟩ := hstage
    exact ⟨he, hok, done, hlisted, hreached.mono htaken⟩
  · exact hstage.elim

theorem Stage.FansOut.append {stage : Stage} {b m : Moment} {later : List Moment}
    (hstage : stage.FansOut listed given (e.IsTakenThroughout (b :: later)) e) :
    stage.FansOut listed given (e.IsTakenThroughout (b :: (later ++ [m]))) e :=
  hstage.mono fun _ htaken => htaken.of_append.1

theorem Stage.FansOut.sublist {stage : Stage} (hstage : stage.FansOut listed given taken e) :
    (given.map (·.graphId)).Sublist listed := by
  unfold FansOut at hstage
  split at hstage
  · obtain ⟨-, done, rfl, hreached⟩ := hstage
    exact hreached.sublist.trans (List.sublist_append_left _ _)
  · rename_i c _
    obtain ⟨-, -, done, rfl, hreached⟩ := hstage
    exact hreached.sublist.trans (.append_left (.cons_cons _ (List.nil_sublist c.rest)) done)
  · exact hstage.elim

/-- A dispatch that is done with some graphs goes on with the others, or ends. -/
theorem Dispatch.fansOut_of_proceed (hr : env.registry.Coherent) {done rest : List String}
    (hlisted : listed = done ++ rest) (hreached : HasReached given taken done)
    (htaken : ∀ graphId, taken graphId → e.IsTakenBy env.registry graphId)
    (started : List InstanceId) :
    (∀ c, (proceed env e started rest).map Call.dispatch CallResult.listed = .waiting c →
      (Stage.asking c).FansOut listed given taken e) ∧
    ∀ result, (proceed env e started rest).map Call.dispatch CallResult.listed = .ended result →
      Ends listed given taken env.registry result := by
  obtain ⟨skipped, hskipped, hnext⟩ := proceed_cases hr e started rest
  -- A graph that is passed over does not take the event now, so not all the time.
  have hdone := hreached.skip fun graphId hskip htake =>
    hskipped graphId hskip (htaken graphId htake)
  rcases hnext with
    ⟨next, hproceed, he, rfl⟩ | ⟨hproceed, rfl⟩ | ⟨missing, later, hproceed, rfl, hhas⟩
  · rw [hproceed]
    refine ⟨fun c hc => ?_, fun result hresult => by cases hresult⟩
    obtain rfl := Progress.waiting.inj hc
    exact ⟨he, _, by rw [hlisted, List.append_assoc], hdone⟩
  · rw [hproceed]
    refine ⟨fun c hc => (by cases hc), fun result hresult => ?_⟩
    obtain rfl := Progress.ended.inj hresult
    exact ⟨⟨started, rfl⟩, hlisted ▸ hdone⟩
  · rw [hproceed]
    refine ⟨fun c hc => (by cases hc), fun result hresult => ?_⟩
    obtain rfl := Progress.ended.inj hresult
    exact ⟨_, missing, later, by rw [hlisted, List.append_assoc], rfl, hhas, hdone⟩

end

namespace System

variable {config : EngineConfig} {s s₀ s₁ : System} {m b : Moment} {n : Nat} {e : Event}
  {later : List Moment}

theorem Along.begins_eq (hm : Along config s s₀ s₁ m)
    (hb : BeginsDispatch (s₀.history ++ [m]) s₀.begun e b later) : b = m ∧ later = [] := by
  obtain ⟨⟨before, hsplit⟩, hcall, progress, hbegan⟩ := hb
  rcases last_or_before hsplit with ⟨-, rfl, rfl⟩ | ⟨rest, hrest, -⟩
  · exact ⟨rfl, rfl⟩
  · have hcrashed := hm.reachable.crashed_of_unbegun (by rw [hrest]; simp) hcall
    cases hbegan.symm.trans hcrashed

/-- A dispatch goes on with the graphs that listen when it begins, or ends. -/
theorem Along.fansOut_of_began (hm : Along config s s₀ s₁ m) {o : Opening}
    {progress : Progress Call CallResult} (hbegan : m.incident = .began o progress)
    (hb : BeginsDispatch (s₀.history ++ [m]) s₀.begun e b later) :
    (∀ c, o.start s₀.engine.env = .waiting c →
      (Stage.asking c).FansOut (Dispatch.listeners b.engine.registry e)
        (deliveriesOf s₀.begun s₀.history) (e.IsTakenThroughout (b :: later)) e) ∧
    ∀ result, o.start s₀.engine.env = .ended result →
      Dispatch.Ends (Dispatch.listeners b.engine.registry e) (deliveriesOf s₀.begun s₀.history)
        (e.IsTakenThroughout (b :: later)) m.engine.registry result := by
  obtain ⟨rfl, rfl⟩ := hm.begins_eq hb
  obtain ⟨progress, hdispatch⟩ := hb.began
  cases hbegan.symm.trans hdispatch
  obtain ⟨-, -, hsame⟩ := hm.step.of_began hm.history hbegan
  have hregistry : b.engine.registry = s₀.engine.env.registry := by rw [← hm.engine, hsame]; rfl
  have hnothing : HasReached [] (e.IsTakenThroughout [b]) [] := ⟨by simp, .refl _⟩
  rw [hm.reachable.deliveriesOf_begun, hregistry]
  exact Dispatch.fansOut_of_proceed hm.reachable.coherent (List.nil_append _).symm hnothing
    (fun g htaken => hregistry ▸ htaken b (List.mem_singleton_self b)) []

/-- A dispatch that is served gives an instance to the graph that it has come to. -/
theorem Along.fansOut_of_served (hm : Along config s s₀ s₁ m) (hcall : m.call = some n) {c : Call}
    {answer : c.request.Answer} (hserved : m.incident = .served c answer) {listed : List String}
    {taken : String → Prop}
    (hc : (Stage.asking c).FansOut listed (deliveriesOf n s₀.history) taken e) :
    (Stage.answered c answer).FansOut listed (deliveriesOf n (s₀.history ++ [m])) taken e := by
  cases c with
  | dispatch c =>
    obtain ⟨he, done, hlisted, hreached⟩ := hc
    obtain ⟨d, hd, hgraph, -⟩ := hm.exists_delivery hserved rfl
    rw [deliveriesOf_append_self hcall, hd, Option.toList_some]
    refine ⟨he, ?_, done, hlisted, hgraph ▸ hreached.served d⟩
    cases answer with
    | ok stored => exact ⟨stored, rfl⟩
    | error error =>
      rw [Moment.delivery?, hserved] at hd
      cases hd
  | emit | poll | run | sweep | cancel | pass => exact hc.elim

/-- A dispatch that has been served goes on with the other graphs, or ends. -/
theorem Along.fansOut_of_resumed (hm : Along config s s₀ s₁ m) {c : Call}
    {answer : c.request.Answer} {progress : Progress Call CallResult}
    (hresumed : m.incident = .resumed progress) {listed : List String} {given : List Delivery}
    (hc : (Stage.answered c answer).FansOut listed given (e.IsTakenThroughout (b :: (later ++ [m])))
      e) :
    (∀ c', c.resume s₀.engine.env answer = .waiting c' → (Stage.asking c').FansOut listed given
      (e.IsTakenThroughout (b :: (later ++ [m]))) e) ∧
    ∀ result, c.resume s₀.engine.env answer = .ended result →
      Dispatch.Ends listed given (e.IsTakenThroughout (b :: (later ++ [m])))
        m.engine.registry result := by
  obtain ⟨-, -, -, -, -, -, hsame⟩ := hm.step.of_resumed hm.history hresumed
  have hregistry : m.engine.registry = s₀.engine.env.registry := by rw [← hm.engine, hsame]; rfl
  cases c with
  | dispatch c =>
    obtain ⟨rfl, ⟨stored, rfl⟩, done, hlisted, hreached⟩ := hc
    have hlisted : listed = (done ++ [c.draft.graphId]) ++ c.rest := by simp [hlisted]
    rw [hregistry]
    exact Dispatch.fansOut_of_proceed hm.reachable.coherent hlisted hreached
      (fun g htaken => hregistry ▸ htaken.of_append.2) _
  | emit | poll | run | sweep | cancel | pass => exact hc.elim

/-- Every call that has begun as a dispatch goes on with the graphs that were listening then. -/
theorem Reachable.fansOut_stage (hs : Reachable config s) :
    ∀ n stage, s.calls n = some stage → ∀ e b later, BeginsDispatch s.history n e b later →
      stage.FansOut (Dispatch.listeners b.engine.registry e) (deliveriesOf n s.history)
        (e.IsTakenThroughout (b :: later)) e := by
  refine hs.of_stages (P := fun h n stage => ∀ e b later, BeginsDispatch h n e b later →
    stage.FansOut (Dispatch.listeners b.engine.registry e) (deliveriesOf n h)
      (e.IsTakenThroughout (b :: later)) e) ?_ ?_ ?_ ?_
  · intro s₀ s₁ m o c hm hcall hbegan hstart e b later hb
    rw [hm.history] at hb ⊢
    have hnone : m.delivery? = none := by rw [Moment.delivery?, hbegan]
    rw [deliveriesOf_append_self hcall, hnone, Option.toList_none, List.append_nil]
    exact (hm.fansOut_of_began hbegan hb).1 c hstart
  · intro s₀ s₁ m n c answer hm hcall hserved hasks hanswer hc e b later hb
    rw [hm.history] at hb ⊢
    obtain ⟨rest, rfl, hbegins⟩ := hb.of_append (by simp [hserved])
    exact hm.fansOut_of_served hcall hserved (hc e b rest hbegins).append
  · intro s₀ s₁ m n c answer c' hm hcall hresumed hanswered hresume hc e b later hb
    rw [hm.history] at hb ⊢
    obtain ⟨rest, rfl, hbegins⟩ := hb.of_append (by simp [hresumed])
    have hstage := (hc e b rest hbegins).append (m := m)
    have hnone : m.delivery? = none := by rw [Moment.delivery?, hresumed]
    rw [deliveriesOf_append_self hcall, hnone, Option.toList_none, List.append_nil]
    exact (hm.fansOut_of_resumed hresumed hstage).1 c' hresume
  · intro s₀ s₁ m n stage hm hcall _ hstage e b later hb
    rw [hm.history] at hb ⊢
    obtain ⟨rest, rfl, hbegins⟩ := hb.of_append fun hsame => absurd hsame hcall
    rw [deliveriesOf_append_of_ne hcall]
    exact (hstage e b rest hbegins).append

/-- A graph that was registered once and no longer is has been removed since then. -/
theorem Reachable.exists_unregistered (hs : Reachable config s) {before : List Moment}
    (hhistory : s.history = before ++ b :: later) {g : String}
    (hhad : b.engine.registry.has g = true) (hmissing : s.engine.registry.has g = false) :
    ∃ x ∈ later, x.incident = .unregistered g := by
  induction hs generalizing later with
  | fresh => simp [System.fresh] at hhistory
  | @step s s' hs hstep ih =>
    obtain ⟨m, hm, hengine⟩ := hstep.history
    rcases last_or_before (hm.symm.trans hhistory) with ⟨-, rfl, -⟩ | ⟨rest, hrest, rfl⟩
    · rw [hengine, hmissing] at hhad
      cases hhad
    · -- Either the graph was there until now, or it had been removed before.
      cases hhas : s.engine.registry.has g with
      | true =>
        rcases hstep.has_or_unregistered hm hhas with hhas' | hremoved
        · rw [hmissing] at hhas'
          cases hhas'
        · exact ⟨m, by simp, hremoved⟩
      | false =>
        obtain ⟨x, hx, hremoved⟩ := ih hrest hhas
        exact ⟨x, List.mem_append_left _ hx, hremoved⟩

theorem Along.ends_dispatch (hm : Along config s s₀ s₁ m)
    (hb : BeginsDispatch (s₀.history ++ [m]) n e b later) (hcall : m.call = some n)
    {result : Outcome CallResult} (hresult : m.result? = some result) :
    Dispatch.Ends (Dispatch.listeners b.engine.registry e) (deliveriesOf n s₀.history)
      (e.IsTakenThroughout (b :: later)) m.engine.registry result ∧
    ∀ d ∈ deliveriesOf n s₀.history, d.key = e.key := by
  unfold Moment.result? at hresult
  split at hresult
  · rename_i o result' hbegan
    obtain rfl := Option.some.inj hresult
    obtain ⟨hbegun, hstart, -⟩ := hm.step.of_began hm.history hbegan
    obtain rfl := Option.some.inj (hcall.symm.trans hbegun)
    exact ⟨(hm.fansOut_of_began hbegan hb).2 _ hstart.symm,
      by simp [hm.reachable.deliveriesOf_begun]⟩
  · rename_i result' hresumed
    obtain rfl := Option.some.inj hresult
    obtain ⟨n', c, answer, hcall', hanswered, hresume, -⟩ := hm.step.of_resumed hm.history hresumed
    obtain rfl := Option.some.inj (hcall.symm.trans hcall')
    obtain ⟨rest, rfl, hbegins⟩ := hb.of_append (by simp [hresumed])
    have hstage := (hm.reachable.fansOut_stage n _ hanswered e b rest hbegins).append (m := m)
    refine ⟨(hm.fansOut_of_resumed hresumed hstage).2 _ hresume.symm, ?_⟩
    have hdelivers := hm.reachable.delivers n _ hanswered _ hbegins.openedBy
    cases c with
    | dispatch c =>
      obtain ⟨-, ⟨⟨i, isNew⟩, rfl⟩, -⟩ := hstage
      obtain ⟨ho, hgiven⟩ := hdelivers
      cases ho
      exact (hgiven i isNew rfl).2
    | emit | poll | run | sweep | cancel | pass => exact hstage.elim
  · cases hresult

theorem Reachable.nodup_listeners (hs : Reachable config s)
    (hb : BeginsDispatch s.history n e b later) :
    (Dispatch.listeners b.engine.registry e).Nodup := by
  obtain ⟨before, hsplit⟩ := hb.split
  obtain ⟨s₀, s₁, hm, -⟩ := hs.along hsplit
  have hcoherent := (hm.reachable.step hm.step).coherent
  exact (hm.engine ▸ hcoherent.nodup).sublist (Dispatch.listeners_sublist _ e)

theorem Along.isGivenTo (hm : Along config s s₀ s₁ m)
    (hkey : ∀ d ∈ deliveriesOf n s₀.history, d.key = e.key) {g : String}
    (hgiven : g ∈ (deliveriesOf n s₀.history).map (·.graphId)) :
    e.IsGivenTo (deliveriesOf n s₀.history) m g := by
  obtain ⟨d, hd, rfl⟩ := List.mem_map.mp hgiven
  obtain ⟨i, hi, hname⟩ := hm.exists_named (d := d) (by
    rw [deliveries_append]
    exact List.mem_append_left _ (List.filter_sublist.filterMap _ |>.subset hd))
  exact ⟨d, hd, rfl, i, hi, by rw [hname, Delivery.name, hkey d hd]⟩

theorem Reachable.fansOut (hs : Reachable config s) : FansOut s.history where
  served := by
    intro past m after n e b later c answer hhistory hb hcall hserved
    obtain ⟨s₀, s₁, hm, rfl⟩ := hs.along hhistory
    obtain ⟨n', hcall', hasks, -⟩ := hm.step.of_served hm.history hserved
    obtain rfl := Option.some.inj (hcall.symm.trans hcall')
    obtain ⟨rest, rfl, hbegins⟩ := hb.of_append (by simp [hserved])
    have hstage := hm.reachable.fansOut_stage n _ hasks e b rest hbegins
    have hgiven : ∃ d, m.delivery? = some d := by
      cases c with
      | dispatch c =>
        obtain ⟨d, hd, -⟩ := hm.exists_delivery hserved rfl
        exact ⟨d, hd⟩
      | emit | poll | run | sweep | cancel | pass => exact hstage.elim
    exact ⟨hgiven, hm.reachable.nodup_listeners hbegins,
      (hm.fansOut_of_served hcall hserved hstage).sublist⟩
  returned := by
    intro past m after n e b later result hhistory hb hcall hresult
    obtain ⟨s₀, s₁, hm, rfl⟩ := hs.along hhistory
    obtain ⟨⟨⟨ids, rfl⟩, hreached⟩, hkeys⟩ := hm.ends_dispatch hb hcall hresult
    obtain ⟨hids, -⟩ := hm.returns hcall hb.openedBy hresult
    refine ⟨ids, rfl, hids, fun g htaken => ?_⟩
    have hlistened : g ∈ Dispatch.listeners b.engine.registry e :=
      Dispatch.mem_listeners (htaken b List.mem_cons_self)
    exact hm.isGivenTo hkeys (hreached.reached g hlistened htaken)
  failed := by
    intro past m after n e b later error hhistory hb hcall hresult
    obtain ⟨s₀, s₁, hm, rfl⟩ := hs.along hhistory
    obtain ⟨⟨done, g, rest, hlisted, rfl, hmissing, hreached⟩, hkeys⟩ :=
      hm.ends_dispatch hb hcall hresult
    have hs₁ := hm.reachable.step hm.step
    rw [← hm.history] at hb
    obtain ⟨before, hsplit⟩ := hb.split
    have hmem : g ∈ Dispatch.listeners b.engine.registry e := by simp [hlisted]
    have hhad := Registry.has_of_mem ((Dispatch.listeners_sublist _ e).subset hmem)
    have hnodup := hlisted ▸ hs₁.nodup_listeners hb
    refine ⟨done, g, rest, hlisted, rfl, hmissing,
      hs₁.exists_unregistered hsplit hhad (by rw [hm.engine, hmissing]),
      fun other hother htaken => hm.isGivenTo hkeys (hreached.reached other hother htaken),
      fun d hd hlater => ?_⟩
    have hdone : d.graphId ∈ done := hreached.sublist.subset (List.mem_map_of_mem hd)
    exact List.disjoint_of_nodup_append hnodup hdone hlater

end System

namespace Sample

/-- The graph that waits before it sends a message, under another name. -/
def renamed (id : String) : Graph := { graph with id }

def renamedPlan (id : String) : Plan :=
  { plan with graphId := id, version := Plan.versionOf default (renamed id), source := renamed id }

theorem ofGraph_renamed (id : String) :
    Plan.ofGraph default (renamed id) = .ok (renamedPlan id) := by
  have hdefects : (renamed id).defects = [] := defects_graph
  have htrigger : (renamed id).trigger? = some ⟨"t", "", .trigger .manual {}⟩ := by
    change graph.trigger? = _
    decide
  have hnodes : (renamed id).nodes.mapM (Plan.nodeOf? default (renamed id)) = some nodes := by
    change graph.nodes.mapM (Plan.nodeOf? default graph) = some nodes
    decide +kernel
  rw [Plan.ofGraph, hdefects, htrigger]
  simp only [hnodes]
  rfl

/-- A registry of the graph under several names. -/
def renamings (ids : List String) : Registry :=
  ⟨default, ids.map renamedPlan, ids.map fun id => (id, (renamedPlan id).version)⟩

theorem register_renamed :
    (Registry.empty default).register (renamed "a") = .ok (renamedPlan "a", renamings ["a"]) ∧
    (renamings ["a"]).register (renamed "b") = .ok (renamedPlan "b", renamings ["a", "b"]) ∧
    (renamings ["a", "b"]).register (renamed "c") =
      .ok (renamedPlan "c", renamings ["a", "b", "c"]) := by
  have hconfig (ids : List String) : (renamings ids).config = default := rfl
  have hempty : Registry.empty default = renamings [] := rfl
  simp only [hempty, Registry.register, hconfig, ofGraph_renamed]
  exact ⟨rfl, rfl, rfl⟩

theorem latestPlan_renamed : (renamings ["a", "b", "c"]).latestPlan "a" = .ok (renamedPlan "a") ∧
    (renamings ["a", "b", "c"]).latestPlan "c" = .ok (renamedPlan "c") ∧
    (renamings ["a", "c"]).latestPlan "c" = .ok (renamedPlan "c") ∧
    (renamings ["a", "c"]).latestPlan "b" = .error (.graphNotFound "b") := by
  simp [Registry.latestPlan, Registry.plan, Registry.plansOf, Registry.plan?, renamings,
    renamedPlan, List.lookup_cons]

theorem listeners_renamed :
    Dispatch.listeners (renamings ["a", "b", "c"]) event = ["a", "b", "c"] := by
  have hlistens (id : String) :
      ((renamedPlan id).enabled && (renamedPlan id).triggerKind? == some event.kind) = true := rfl
  have hlatest : (renamings ["a", "b", "c"]).latestPlans = ["a", "b", "c"].map renamedPlan := by
    simp [Registry.latestPlans, Registry.plan?, renamings, renamedPlan]
  rw [Dispatch.listeners, hlatest,
    List.filter_eq_self.mpr (List.forall_mem_map.mpr fun id _ => hlistens id)]
  rfl

/-- The engine in which the graph is registered under some names. -/
def renamingEngine (ids : List String) (store : MemoryStore) : Engine :=
  ⟨renamings ids, default, clock 0, .memory store, [], none⟩

def renamedCreated : Instance := { event.draft (renamedPlan "a") (clock 0) with id := "i1" }

def renamedStore : MemoryStore := ⟨[renamedCreated], [], 1⟩

def renamedDispatch : Call :=
  .dispatch ⟨event, event.draft (renamedPlan "a") (clock 0), ["b", "c"], []⟩

/-- What happens while an event is dispatched to three graphs and the second one is removed. -/
def interrupted (n : Nat) : List Moment :=
  [⟨some n, .began (.dispatch event) (.waiting renamedDispatch),
      renamingEngine ["a", "b", "c"] .empty⟩,
    ⟨some n, .served renamedDispatch (.ok (renamedCreated, true)),
      renamingEngine ["a", "b", "c"] renamedStore⟩,
    ⟨none, .unregistered "b", renamingEngine ["a", "c"] renamedStore⟩,
    ⟨some n, .resumed (.ended (.error (.graphNotFound "b"))),
      renamingEngine ["a", "c"] renamedStore⟩]

theorem start_dispatch_renamed :
    (Opening.dispatch event).start (renamingEngine ["a", "b", "c"] .empty).env =
      .waiting renamedDispatch := by
  have hregistry : (renamingEngine ["a", "b", "c"] .empty).env.registry =
      renamings ["a", "b", "c"] := rfl
  have hdraft : event.draftFor (renamingEngine ["a", "b", "c"] .empty).env "a" =
      .ok (some (event.draft (renamedPlan "a") (clock 0))) := by
    rw [Event.draftFor, hregistry, latestPlan_renamed.1]
    rfl
  rw [Opening.start, Call.startDispatch, Dispatch.start, hregistry, listeners_renamed,
    Dispatch.proceed, hdraft]
  rfl

theorem resume_dispatch_renamed :
    renamedDispatch.resume (renamingEngine ["a", "c"] renamedStore).env
      (.ok (renamedCreated, true)) = .ended (.error (.graphNotFound "b")) := by
  have hdraft : event.draftFor (renamingEngine ["a", "c"] renamedStore).env "b" =
      .error (.graphNotFound "b") := by
    have hregistry : (renamingEngine ["a", "c"] renamedStore).env.registry =
        renamings ["a", "c"] := rfl
    rw [Event.draftFor, hregistry, latestPlan_renamed.2.2.2]
    rfl
  have hproceed : Dispatch.proceed (renamingEngine ["a", "c"] renamedStore).env event ["i1"]
      ["b", "c"] = .ended (.error (.graphNotFound "b")) := by
    rw [Dispatch.proceed, hdraft]
  exact congrArg (Progress.map Call.dispatch CallResult.listed) hproceed

theorem exists_interrupted {s : System} (hs : System.Reachable default s)
    (hengine : s.engine = renamingEngine ["a", "b", "c"] .empty) :
    ∃ s', System.Reachable default s' ∧ s'.history = s.history ++ interrupted s.begun := by
  obtain ⟨s₁, hs₁, hasks, hanswers, hh₁⟩ : ∃ s₁, System.Reachable default s₁ ∧
      s₁.calls s.begun = some (.asking renamedDispatch) ∧
      s₁.engine.Answers renamedDispatch.request (.ok (renamedCreated, true))
        (renamingEngine ["a", "b", "c"] renamedStore) ∧
      s₁.history = s.history ++ (interrupted s.begun).take 1 := by
    have hstarted := hs.step (.start s (.dispatch event))
    rw [hengine, start_dispatch_renamed] at hstarted
    exact ⟨_, hstarted, Function.update_self _ _ _, rfl, rfl⟩
  have hserved := hs₁.step (.serve hasks hanswers)
  obtain ⟨s₂, hs₂, hanswered, hregistry, hh₂⟩ : ∃ s₂, System.Reachable default s₂ ∧
      s₂.calls s.begun = some (.answered renamedDispatch (.ok (renamedCreated, true))) ∧
      s₂.engine = renamingEngine ["a", "c"] renamedStore ∧
      s₂.history = s.history ++ (interrupted s.begun).take 3 := by
    refine ⟨_, hserved.step (.unregister _ "b"), Function.update_self _ _ _, rfl, ?_⟩
    simp only [System.turn, System.aside, hh₁, List.append_assoc]
    rfl
  have hresumed := hs₂.step (.resume hanswered)
  rw [hregistry, resume_dispatch_renamed] at hresumed
  refine ⟨_, hresumed, ?_⟩
  simp only [System.turn, hh₂, List.append_assoc]
  rfl

/-- In some run a graph takes an event all the time and is given no instance of it, since another
one is removed while the event is being dispatched. -/
theorem exists_failed_dispatch : ∃ s past m b later, System.Reachable default s ∧
    FansOut s.history ∧ s.history = past ++ [m] ∧ BeginsDispatch s.history 0 event b later ∧
    m.call = some 0 ∧ m.result? = some (.error (.graphNotFound "b")) ∧
    event.IsTakenThroughout (b :: later) "c" ∧ deliveriesOf 0 past = [⟨"a", none, "i1", true⟩] := by
  obtain ⟨s₀, hs₀, hengine, hbegun, hnone⟩ : ∃ s₀, System.Reachable default s₀ ∧
      s₀.engine = renamingEngine ["a", "b", "c"] .empty ∧ s₀.begun = 0 ∧
      deliveriesOf 0 s₀.history = [] := by
    obtain ⟨ha, hb, hc⟩ := register_renamed
    have hfresh : System.Reachable default
        (.fresh ⟨Registry.empty default, default, clock 0, .memory .empty, [], none⟩) :=
      .fresh ⟨rfl, rfl, .inl rfl⟩
    have hregistered := ((hfresh.step (.register ha)).step (.register hb)).step (.register hc)
    exact ⟨_, hregistered, rfl, rfl, rfl⟩
  obtain ⟨s, hs, hhistory⟩ := exists_interrupted hs₀ hengine
  rw [hbegun] at hhistory
  have htaken : event.IsTakenThroughout (interrupted 0) "c" := by
    obtain ⟨-, hlatest, hlatest', -⟩ := latestPlan_renamed
    intro m hm
    simp only [interrupted, List.mem_cons, List.not_mem_nil, or_false] at hm
    rcases hm with rfl | rfl | rfl | rfl
    · exact ⟨_, hlatest, rfl⟩
    · exact ⟨_, hlatest, rfl⟩
    · exact ⟨_, hlatest', rfl⟩
    · exact ⟨_, hlatest', rfl⟩
  refine ⟨s, s₀.history ++ (interrupted 0).take 3,
    ⟨some 0, .resumed (.ended (.error (.graphNotFound "b"))),
      renamingEngine ["a", "c"] renamedStore⟩, _, _, hs, hs.fansOut, ?_,
    ⟨⟨_, hhistory⟩, rfl, _, rfl⟩, rfl, rfl, htaken, ?_⟩
  · rw [hhistory, List.append_assoc]
    rfl
  · have happend (h h' : List Moment) : deliveriesOf 0 (h ++ h') =
        deliveriesOf 0 h ++ deliveriesOf 0 h' := by
      simp only [deliveriesOf, List.filter_append, deliveries_append]
    rw [happend, hnone]
    rfl

end Sample
end WorkflowEngine

import Mathlib
import WorkflowEngine.Proofs.Action.Checked
import WorkflowEngine.Proofs.Graph.Agreement
import WorkflowEngine.Proofs.Plan.Image
import WorkflowEngine.Registry

/-!
# Versions name the content of plans

The text that the version of a plan is made from determines the graph and the default unit of delays
up to the order of fields, and nothing else goes into a plan. Therefore plans of one version are
interchangeable as long as the digests of their texts do not collide, and a registry never keeps a
plan that differs from the one that was just compiled.
-/
namespace WorkflowEngine

open Value

/-! ## Plans that agree -/

/-- Parameters that are the same but for the order of fields. -/
structure ActionParams.Agrees (p q : ActionParams) : Prop where
  declared : List.Forall₂ (fun f f' => f.1 = f'.1 ∧ f.2.agrees f'.2 = true) p.declared q.declared
  extra : (Value.object p.extra).agrees (.object q.extra) = true

inductive PlanStep.Agrees : PlanStep → PlanStep → Prop
  | trigger (kind : TriggerKind) (filters : TriggerFilters) (next : Option String) :
      Agrees (.trigger kind filters next) (.trigger kind filters next)
  | condition {p q : Predicate} (h : p.Agrees q) (onTrue onFalse : String) :
      Agrees (.condition p onTrue onFalse) (.condition q onTrue onFalse)
  | action (kind : ActionKind) {params params' : ActionParams} (h : params.Agrees params')
      (next : Option String) : Agrees (.action kind params next) (.action kind params' next)
  | delay (seconds : Nat) (next : String) : Agrees (.delay seconds next) (.delay seconds next)

structure PlanNode.Agrees (n m : PlanNode) : Prop where
  id : n.id = m.id
  label : n.label = m.label
  step : n.step.Agrees m.step

/-- Plans that are the same in every field, but for the order of fields in authored data. -/
structure Plan.Agrees (p q : Plan) : Prop where
  graphId : p.graphId = q.graphId
  graphVersion : p.graphVersion = q.graphVersion
  version : p.version = q.version
  name : p.name = q.name
  enabled : p.enabled = q.enabled
  triggerId : p.triggerId = q.triggerId
  nodes : List.Forall₂ PlanNode.Agrees p.nodes q.nodes
  order : p.order = q.order
  source : p.source.Agrees q.source

/-! ## Parameters -/

namespace ParamType

theorem eq_of_read_object {type : ParamType} {v : Value} {fields : Record}
    (h : type.read v = .ok (.object fields)) : v = .object fields := by
  have hadmits := admits_of_read h
  cases hadmits with
  | object => cases v <;> cases h; rfl

theorem isKeyed_of_read {type : ParamType} {v w : Value} (hv : v.isKeyed = true)
    (h : type.read v = .ok w) : w.isKeyed = true := by
  have hadmits := admits_of_read h
  cases hadmits with
  | object fields => rwa [← eq_of_read_object h]
  | _ => rfl

/-- Values that agree are read as values that agree. -/
theorem agrees_of_read {type : ParamType} {v v' w w' : Value} (hv : v.isKeyed = true)
    (hagrees : v.agrees v' = true) (h : type.read v = .ok w) (h' : type.read v' = .ok w') :
    w.agrees w' = true := by
  have hsame (heq : v = v') : w.agrees w' = true := by
    subst heq
    obtain rfl := Except.ok.inj (h.symm.trans h')
    exact agrees_refl (isKeyed_of_read hv h)
  cases v with
  | list items => cases type <;> cases h
  | object fields =>
    cases v' with
    | object fields' =>
      cases type with
      | optionalObject =>
        cases h
        cases h'
        exact hagrees
      | _ => cases h
    | _ => simp [agrees] at hagrees
  | _ => exact hsame (by cases v' <;> simp_all [agrees])

end ParamType

theorem ActionParams.valuesOf_cons {spec : ParamSpec} {specs : List ParamSpec} {given : Record}
    {v : Value} (h : spec.read given = .ok v) :
    valuesOf (spec :: specs) given = (spec.name, v) :: valuesOf specs given := by
  simp [valuesOf, h]

namespace ActionParams

variable {given given' : Record} (hg : (Value.object given).isKeyed = true)
  (hg' : (Value.object given').isKeyed = true)
  (hagrees : (Value.object given).agrees (.object given') = true)

include hg hg' hagrees

theorem agrees_of_readSpec {kind : ActionKind} {spec : ParamSpec} (hspec : spec ∈ kind.params)
    {v v' : Value} (h : spec.read given = .ok v) (h' : spec.read given' = .ok v') :
    v.agrees v' = true := by
  have hdefault : ∀ spec ∈ kind.params, ∀ v ∈ spec.default?, v.isKeyed = true := by
    cases kind <;> decide
  have hlookup := (agrees_object_iff_lookup hg hg').mp hagrees spec.name
  unfold ParamSpec.read at h h'
  cases hx : given.lookup spec.name with
  | some x =>
    cases hy : given'.lookup spec.name with
    | some y =>
      rw [hx, hy, Option.rel_some_some] at hlookup
      rw [hx] at h
      rw [hy] at h'
      exact ParamType.agrees_of_read (isKeyed_of_lookup _ hg hx) hlookup h h'
    | none => simp [hx, hy] at hlookup
  | none =>
    cases hy : given'.lookup spec.name with
    | some y => simp [hx, hy] at hlookup
    | none =>
      rw [hx] at h
      rw [hy] at h'
      cases hpreset : spec.default? with
      | none =>
        rw [hpreset] at h
        cases h
      | some preset =>
        rw [hpreset] at h h'
        cases h
        cases h'
        exact agrees_refl (hdefault spec hspec _ hpreset)

theorem extra_agrees (specs : List ParamSpec) :
    (Value.object (extraOf specs given)).agrees (.object (extraOf specs given')) = true := by
  refine (agrees_object_iff_lookup (isKeyed_filter hg _) (isKeyed_filter hg' _)).mpr fun name => ?_
  rw [Keyed.lookup_filter (fun name => !specs.any (·.name == name)),
    Keyed.lookup_filter (fun name => !specs.any (·.name == name))]
  split
  · exact (agrees_object_iff_lookup hg hg').mp hagrees name
  · exact .none

/-- Parameters that agree are checked with results that agree. -/
theorem agrees_of_ofRecord {kind : ActionKind} {p p' : ActionParams}
    (h : ofRecord kind given = .ok p) (h' : ofRecord kind given' = .ok p') : p.Agrees p' := by
  have hread := (exists_ofRecord_iff.mp ⟨p, h⟩).1
  have hread' := (exists_ofRecord_iff.mp ⟨p', h'⟩).1
  obtain rfl := ofRecord_eq_ok h
  obtain rfl := ofRecord_eq_ok h'
  refine ⟨?_, extra_agrees hg hg' hagrees _⟩
  have hsub {specs : List ParamSpec} (hspecs : specs ⊆ kind.params) :
      List.Forall₂ (fun f f' => f.1 = f'.1 ∧ f.2.agrees f'.2 = true) (valuesOf specs given)
        (valuesOf specs given') := by
    induction specs with
    | nil => exact .nil
    | cons spec specs ih =>
      have hspec := hspecs List.mem_cons_self
      obtain ⟨v, hv⟩ := hread spec hspec
      obtain ⟨v', hv'⟩ := hread' spec hspec
      rw [valuesOf_cons hv, valuesOf_cons hv']
      exact .cons ⟨rfl, agrees_of_readSpec hg hg' hagrees hspec hv hv'⟩
        (ih fun _ h => hspecs (List.mem_cons_of_mem _ h))
  exact hsub fun _ h => h

end ActionParams

/-! ## Compilation -/

/-- Bodies whose parameters name nothing twice. -/
def NodeBody.IsKeyed : NodeBody → Prop
  | .action _ params => (Value.object params).isKeyed = true
  | _ => True

theorem Node.isKeyed_body {n : Node} (h : n.toValue.isKeyed = true) : n.body.IsKeyed := by
  have hdata : n.body.toValue.isKeyed = true := isKeyed_of_lookup "data" h rfl
  cases hbody : n.body with
  | action kind params =>
    rw [hbody] at hdata
    exact isKeyed_of_lookup "params" hdata rfl
  | _ => trivial

theorem Graph.isKeyed_of_mem {g : Graph} (hg : g.toValue.isKeyed = true) {n : Node}
    (hn : n ∈ g.nodes) : n.body.IsKeyed :=
  have hnodes := isKeyed_list.mp (isKeyed_of_lookup "nodes" hg rfl)
  Node.isKeyed_body (hnodes _ (List.mem_map_of_mem hn))

theorem PlanStep.Agrees.successors_eq {s t : PlanStep} (h : s.Agrees t) :
    s.successors = t.successors := by
  cases h <;> rfl

namespace Plan

theorem forall₂_of_images {α α' β β' : Type} {R : α → α' → Prop} {S : α → β → Prop}
    {S' : α' → β' → Prop} {T : β → β' → Prop} {items : List α} {items' : List α'} {images : List β}
    {images' : List β'} (h : List.Forall₂ R items items') (himages : List.Forall₂ S items images)
    (himages' : List.Forall₂ S' items' images')
    (hT : ∀ a ∈ items, ∀ a' ∈ items', ∀ b b', R a a' → S a b → S' a' b' → T b b') :
    List.Forall₂ T images images' := by
  induction h generalizing images images' with
  | nil =>
    cases himages
    cases himages'
    exact .nil
  | cons hR _ ih =>
    obtain _ | ⟨hS, hrest⟩ := himages
    obtain _ | ⟨hS', hrest'⟩ := himages'
    refine .cons (hT _ List.mem_cons_self _ List.mem_cons_self _ _ hR hS hS') ?_
    exact ih hrest hrest' fun a ha a' ha' =>
      hT a (List.mem_cons_of_mem _ ha) a' (List.mem_cons_of_mem _ ha')

variable {c c' : EngineConfig} {g g' : Graph} {p p' : Plan}

theorem agrees_of_isStepOf {edges : List Edge} {body body' : NodeBody} {step step' : PlanStep}
    (hunit : c.defaultDelayUnit = c'.defaultDelayUnit) (hbody : body.IsKeyed)
    (hbody' : body'.IsKeyed) (hagrees : body.Agrees body') (h : IsStepOf c edges body step)
    (h' : IsStepOf c' edges body' step') : step.Agrees step' := by
  cases hagrees with
  | trigger kind filters =>
    cases h
    cases h'
    exact .trigger kind filters _
  | condition hpredicate =>
    cases h with
    | condition _ htrue hfalse =>
      cases h' with
      | condition _ htrue' hfalse' =>
        obtain rfl := Option.some.inj (htrue.symm.trans htrue')
        obtain rfl := Option.some.inj (hfalse.symm.trans hfalse')
        exact .condition hpredicate _ _
  | action kind hparams =>
    cases h with
    | action hread =>
      cases h' with
      | action hread' =>
        exact .action kind (ActionParams.agrees_of_ofRecord hbody hbody' hparams hread hread') _
  | delay amount unit =>
    cases h with
    | delay _ _ hnext =>
      cases h' with
      | delay _ _ hnext' =>
        obtain rfl := Option.some.inj (hnext.symm.trans hnext')
        rw [hunit]
        exact .delay _ _

/-- The plan of a graph in all its fields. -/
theorem exists_of_ofGraph (h : ofGraph c g = .ok p) :
    ∃ trigger nodes, g.trigger? = some trigger ∧ g.nodes.mapM (nodeOf? c g) = some nodes ∧
      p = { graphId := g.id, graphVersion := g.version, version := versionOf c g, name := g.name,
            enabled := g.enabled, triggerId := trigger.id, nodes,
            order := orderFrom nodes trigger.id, source := g } := by
  unfold ofGraph at h
  split at h
  · next trigger _ htrigger =>
    split at h
    · next nodes hnodes => exact ⟨trigger, nodes, htrigger, hnodes, (Except.ok.inj h).symm⟩
    · cases h
  · cases h

theorem agrees_of_nodeOf? {n n' : Node} {m m' : PlanNode}
    (hunit : c.defaultDelayUnit = c'.defaultDelayUnit)
    (houtgoing : g.outgoing n.id = g'.outgoing n'.id) (hn : n.body.IsKeyed) (hn' : n'.body.IsKeyed)
    (hagrees : n.Agrees n') (h : nodeOf? c g n = some m) (h' : nodeOf? c' g' n' = some m') :
    m.Agrees m' := by
  obtain ⟨step, hstep, rfl⟩ := Option.map_eq_some_iff.mp h
  obtain ⟨step', hstep', rfl⟩ := Option.map_eq_some_iff.mp h'
  rw [houtgoing] at hstep
  exact ⟨hagrees.id, hagrees.label, agrees_of_isStepOf hunit hn hn' hagrees.body
    (isStepOf_of_stepOf? hstep) (isStepOf_of_stepOf? hstep')⟩

theorem triggerId_eq {ns ns' : List Node} (h : List.Forall₂ Node.Agrees ns ns') :
    (ns.find? Node.isTrigger).map (·.id) = (ns'.find? Node.isTrigger).map (·.id) := by
  induction h with
  | nil => rfl
  | @cons n n' _ _ hnode _ ih =>
    have htrigger : n.isTrigger = n'.isTrigger := by
      have hbody := hnode.body
      rw [Node.isTrigger, Node.isTrigger, Node.kind, Node.kind]
      generalize n.body = body at *
      generalize n'.body = body' at *
      cases hbody <;> rfl
    rw [List.find?_cons, List.find?_cons, htrigger]
    split
    · exact congrArg some hnode.id
    · exact ih

theorem successorsOf_eq {ms ms' : List PlanNode} (h : List.Forall₂ PlanNode.Agrees ms ms') :
    successorsOf ms = successorsOf ms' := by
  funext id
  unfold successorsOf
  congr 1
  induction h with
  | nil => rfl
  | cons hnode _ ih =>
    rw [List.find?_cons, List.find?_cons, hnode.id]
    split
    · exact congrArg some hnode.step.successors_eq
    · exact ih

theorem orderFrom_eq {ms ms' : List PlanNode} (h : List.Forall₂ PlanNode.Agrees ms ms')
    (id : String) : orderFrom ms id = orderFrom ms' id := by
  have hids : ms.map (·.id) = ms'.map (·.id) := by
    induction h with
    | nil => rfl
    | cons hnode _ ih => rw [List.map_cons, List.map_cons, hnode.id, ih]
  rw [orderFrom, orderFrom, hids, successorsOf_eq h]

/-- Nothing but the content of the version goes into a plan. -/
theorem agrees_of_ofGraph (hunit : c.defaultDelayUnit = c'.defaultDelayUnit)
    (hg : g.toValue.isKeyed = true) (hg' : g'.toValue.isKeyed = true)
    (hagrees : g.toValue.agrees g'.toValue = true) (hversion : versionOf c g = versionOf c' g')
    (h : ofGraph c g = .ok p) (h' : ofGraph c' g' = .ok p') : p.Agrees p' := by
  have hgraph := Graph.agrees_of_toValue hagrees
  have houtgoing (id : String) : g.outgoing id = g'.outgoing id := by
    rw [Graph.outgoing_eq (wellFormed_of_ofGraph h).edgeDefects_eq_nil,
      Graph.outgoing_eq (wellFormed_of_ofGraph h').edgeDefects_eq_nil, Graph.leaving,
      Graph.leaving, hgraph.edges]
  obtain ⟨trigger, nodes, htrigger, hnodes, rfl⟩ := exists_of_ofGraph h
  obtain ⟨trigger', nodes', htrigger', hnodes', rfl⟩ := exists_of_ofGraph h'
  have hid : trigger.id = trigger'.id := by
    have hids := triggerId_eq hgraph.nodes
    rw [← Graph.trigger?, ← Graph.trigger?, htrigger, htrigger'] at hids
    exact Option.some.inj hids
  have hmade : List.Forall₂ PlanNode.Agrees nodes nodes' :=
    forall₂_of_images hgraph.nodes (forall₂_of_mapM hnodes) (forall₂_of_mapM hnodes')
      fun n hn n' hn' m m' hnode hm hm' =>
        agrees_of_nodeOf? hunit (hnode.id ▸ houtgoing n.id) (Graph.isKeyed_of_mem hg hn)
          (Graph.isKeyed_of_mem hg' hn') hnode hm hm'
  exact ⟨hgraph.id, hgraph.version, hversion, hgraph.name, hgraph.enabled, hid, hmade,
    hid ▸ orderFrom_eq hmade trigger.id, hgraph⟩

/-! ## Texts and digests -/

/-- The text that the version of a plan is made from. -/
def contentText (config : EngineConfig) (g : Graph) : String := (content config g).json

theorem agrees_content_iff : (content c g).agrees (content c' g') = true ↔
    g.toValue.agrees g'.toValue = true ∧ c.defaultDelayUnit = c'.defaultDelayUnit := by
  constructor
  · intro h
    exact ⟨agrees_of_lookup "graph" h rfl rfl,
      Choice.eq_of_agrees (agrees_of_lookup "default_delay_unit" h rfl rfl)⟩
  · rintro ⟨hgraph, hunit⟩
    refine agrees_object.mpr ⟨rfl, ?_⟩
    simp only [List.forall_mem_cons]
    refine ⟨⟨_, rfl, ?_⟩, ⟨_, rfl, hgraph⟩, fun _ h => absurd h List.not_mem_nil⟩
    rw [hunit]
    exact agrees_refl rfl

theorem isKeyed_content (config : EngineConfig) (hg : g.toValue.isKeyed = true) :
    (content config g).isKeyed = true := by
  refine isKeyed_object.mpr ⟨by simp, ?_⟩
  simp only [List.forall_mem_cons]
  exact ⟨rfl, hg, fun _ h => absurd h List.not_mem_nil⟩

/-- The text determines the graph and the default unit, up to the order of fields. -/
theorem contentText_eq_iff (hg : g.toValue.isKeyed = true) (hg' : g'.toValue.isKeyed = true) :
    contentText c g = contentText c' g' ↔
      g.toValue.agrees g'.toValue = true ∧ c.defaultDelayUnit = c'.defaultDelayUnit := by
  rw [contentText, contentText, json_eq_json_iff,
    ← agrees_iff_sorted (isKeyed_content c hg) (isKeyed_content c' hg'), agrees_content_iff]

end Plan

namespace Digest

/-- As much of a digest as stands in a version. -/
def short (text : String) : List Char := (ofText text).toList.take 16

/-- No two of some texts have the same short digest. -/
def Separates (texts : String → Prop) : Prop :=
  ∀ s t, texts s → texts t → short s = short t → s = t

theorem length_short (text : String) : (short text).length = 16 := by
  simp [short, ofText, hexOf, wordText]

end Digest

namespace Plan

variable {c c' : EngineConfig} {g g' : Graph} {p p' : Plan}

theorem contentText_eq_of_versionOf {texts : String → Prop} (htexts : Digest.Separates texts)
    (h : texts (contentText c g)) (h' : texts (contentText c' g'))
    (hversion : versionOf c g = versionOf c' g') : contentText c g = contentText c' g' := by
  refine htexts _ _ h h' ?_
  have hlists := congrArg String.toList hversion
  simp only [versionOf, String.toList_append, String.toList_ofList] at hlists
  exact (List.append_inj' hlists
    ((Digest.length_short _).trans (Digest.length_short _).symm)).2

theorem versionOf_eq (hagrees : g.Agrees g') (htext : contentText c g = contentText c' g') :
    versionOf c g = versionOf c' g' := by
  unfold contentText at htext
  rw [versionOf, versionOf, hagrees.id, hagrees.version, htext]

theorem agrees_of_contentText (hg : g.toValue.isKeyed = true) (hg' : g'.toValue.isKeyed = true)
    (htext : contentText c g = contentText c' g') (h : ofGraph c g = .ok p)
    (h' : ofGraph c' g' = .ok p') : p.Agrees p' := by
  obtain ⟨hagrees, hunit⟩ := (contentText_eq_iff hg hg').mp htext
  exact agrees_of_ofGraph hunit hg hg' hagrees
    (versionOf_eq (Graph.agrees_of_toValue hagrees) htext) h h'

end Plan

/-! ## Registries -/

namespace Registry

/-- A registry that came about by adding compiled plans and removing graphs. The texts are those
that the versions of its plans were made from. -/
inductive BuiltFrom (texts : String → Prop) : Registry → Prop
  | empty (config : EngineConfig) : BuiltFrom texts (empty config)
  | add {r : Registry} (hr : BuiltFrom texts r) {data : Value} (hdata : data.isKeyed = true)
      {g : Graph} (hg : Graph.ofValue data = .ok g) {config : EngineConfig} {p : Plan}
      (hp : Plan.ofGraph config g = .ok p) (htext : texts (Plan.contentText config g))
      (isLatest : Bool) : BuiltFrom texts (r.add p isLatest)
  | unregister {r : Registry} (hr : BuiltFrom texts r) (graphId : String) :
      BuiltFrom texts (r.unregister graphId)

/-- A plan that was compiled from a graph without repeated names, whose text is among some. -/
def IsCompiled (texts : String → Prop) (p : Plan) : Prop :=
  ∃ config g, g.toValue.isKeyed = true ∧ Plan.ofGraph config g = .ok p ∧
    texts (Plan.contentText config g)

variable {texts : String → Prop} {r : Registry} {p : Plan} {isLatest : Bool}

theorem mem_plans_of_add {q : Plan} (h : q ∈ (r.add p isLatest).plans) : q ∈ r.plans ∨ q = p := by
  unfold add at h
  dsimp only at h
  split at h
  · exact .inl h
  · simpa using h

/-- Every plan of such a registry was compiled. -/
theorem BuiltFrom.isCompiled (h : BuiltFrom texts r) : ∀ p ∈ r.plans, IsCompiled texts p := by
  induction h with
  | empty config => exact fun p hp => absurd hp List.not_mem_nil
  | add _ hdata hg hp htext _ ih =>
    intro q hq
    rcases mem_plans_of_add hq with hq | rfl
    · exact ih q hq
    · exact ⟨_, _, Graph.isKeyed_toValue_of_ofValue hdata hg, hp, htext⟩
  | unregister _ graphId ih => exact fun p hp => ih p (List.mem_of_mem_filter hp)

/-- Under the version of an added plan there is one of the plans that were there, or itself. -/
theorem exists_plan?_add (r : Registry) (p : Plan) (isLatest : Bool) :
    ∃ q, (r.add p isLatest).plan? p.graphId p.version = some q ∧ q.version = p.version ∧
      (q ∈ r.plans ∨ q = p) := by
  have hfound {plans : List Plan} {q : Plan}
      (h : plans.find? (fun q => q.graphId == p.graphId && q.version == p.version) = some q) :
      q.version = p.version := by
    have := List.find?_some h
    simp_all
  unfold plan? add
  dsimp only
  cases hheld : r.plan? p.graphId p.version with
  | some q =>
    refine ⟨q, ?_, hfound hheld, .inl (List.mem_of_find?_eq_some hheld)⟩
    rw [if_pos (by rfl)]
    exact hheld
  | none =>
    refine ⟨p, ?_, rfl, .inr rfl⟩
    unfold plan? at hheld
    simp [List.find?_append, hheld]

theorem IsCompiled.agrees (htexts : Digest.Separates texts) {q : Plan} (hp : IsCompiled texts p)
    (hq : IsCompiled texts q) (hversion : p.version = q.version) : p.Agrees q := by
  obtain ⟨c, g, hg, hp, htext⟩ := hp
  obtain ⟨c', g', hg', hq, htext'⟩ := hq
  refine Plan.agrees_of_contentText hg hg' ?_ hp hq
  refine Plan.contentText_eq_of_versionOf htexts htext htext' ?_
  rw [← (Plan.ofGraph_eq_ok hp).2.2.2.2, ← (Plan.ofGraph_eq_ok hq).2.2.2.2, hversion]

end Registry

/-- Versions are sound names. The text that is digested for a version determines the graph and the
default unit of delays, up to the order of fields, and is determined by them; plans with the same
text are the same in every field; and unless digests collide, this holds of plans with the same
version, so that the plan that a registry holds for a version is the one just compiled. -/
theorem Plan.version_names_content (data data' : Value) (g g' : Graph) (c c' : EngineConfig)
    (hdata : data.isKeyed = true) (hdata' : data'.isKeyed = true)
    (hg : Graph.ofValue data = .ok g) (hg' : Graph.ofValue data' = .ok g') :
    (contentText c g = contentText c' g' ↔
      g.toValue.agrees g'.toValue = true ∧ c.defaultDelayUnit = c'.defaultDelayUnit) ∧
    ∀ p p', ofGraph c g = .ok p → ofGraph c' g' = .ok p' →
      (contentText c g = contentText c' g' → p.Agrees p') ∧
      ∀ texts, Digest.Separates texts → texts (contentText c g) →
        (texts (contentText c' g') → p.version = p'.version → p.Agrees p') ∧
        ∀ r isLatest, Registry.BuiltFrom texts r →
          ∃ q, (r.add p isLatest).plan? p.graphId p.version = some q ∧ q.Agrees p := by
  have hkeyed := Graph.isKeyed_toValue_of_ofValue hdata hg
  have hkeyed' := Graph.isKeyed_toValue_of_ofValue hdata' hg'
  refine ⟨contentText_eq_iff hkeyed hkeyed', fun p p' hp hp' => ⟨fun htext => ?_, ?_⟩⟩
  · exact agrees_of_contentText hkeyed hkeyed' htext hp hp'
  · intro texts htexts htext
    have hcompiled : Registry.IsCompiled texts p := ⟨c, g, hkeyed, hp, htext⟩
    refine ⟨fun htext' hversion => ?_, fun r isLatest hr => ?_⟩
    · exact hcompiled.agrees htexts ⟨c', g', hkeyed', hp', htext'⟩ hversion
    · obtain ⟨q, hq, hversion, hheld | rfl⟩ := r.exists_plan?_add p isLatest
      · exact ⟨q, hq, (hr.isCompiled q hheld).agrees htexts hcompiled hversion⟩
      · exact ⟨q, hq, hcompiled.agrees htexts hcompiled rfl⟩

namespace Sample

/-- A graph that posts to a web service, with the parameters in some order. -/
def posting (params : Record) : Graph where
  id := "g"
  name := "Post"
  version := "1"
  nodes := [⟨"t", "", .trigger .manual {}⟩, ⟨"w", "", .action .webhook params⟩]
  edges := [⟨"t", "w", none⟩]
  enabled := true
  description := ""

def methodLast : Record :=
  [("webhook_url", .text "http://x"), ("note", .int 1), ("method", .text "PUT")]

def methodFirst : Record :=
  [("method", .text "PUT"), ("webhook_url", .text "http://x"), ("note", .int 1)]

def postingNodes : List PlanNode :=
  [⟨"t", "", .trigger .manual {} (some "w")⟩,
    ⟨"w", "", .action .webhook ⟨[("webhook_url", .text "http://x"), ("method", .text "PUT"),
      ("payload", .null)], [("note", .int 1)]⟩ none⟩]

def postingPlan (params : Record) : Plan where
  graphId := "g"
  graphVersion := "1"
  version := Plan.versionOf default (posting params)
  name := "Post"
  enabled := true
  triggerId := "t"
  nodes := postingNodes
  order := Plan.orderFrom postingNodes "t"
  source := posting params

theorem ofGraph_posting : ∀ params ∈ [methodLast, methodFirst],
    Plan.ofGraph default (posting params) = .ok (postingPlan params) := by
  have hdefects : ∀ params ∈ [methodLast, methodFirst], (posting params).defects = [] := by
    simp only [List.forall_mem_cons]
    refine ⟨?_, ?_, fun _ h => absurd h List.not_mem_nil⟩ <;> cbv
  have hnodes : ∀ params ∈ [methodLast, methodFirst],
      (posting params).nodes.mapM (Plan.nodeOf? default (posting params)) = some postingNodes := by
    decide +kernel
  intro params hparams
  have htrigger : (posting params).trigger? = some ⟨"t", "", .trigger .manual {}⟩ := rfl
  rw [Plan.ofGraph, hdefects params hparams, htrigger]
  simp only [hnodes params hparams]
  rfl

theorem ofValue_posting : ∀ params ∈ [methodLast, methodFirst],
    (posting params).toValue.isKeyed = true ∧
      Graph.ofValue (posting params).toValue = .ok (posting params) := by
  decide +kernel

/-- The plan of a graph is kept when the graph comes again with its parameters in another order. -/
theorem agrees_postingPlan :
    Plan.contentText default (posting methodFirst) =
        Plan.contentText default (posting methodLast) ∧
      ∃ q, (((Registry.empty default).add (postingPlan methodFirst) true).add
          (postingPlan methodLast) true).plan? "g" (postingPlan methodLast).version = some q ∧
        q.Agrees (postingPlan methodLast) := by
  obtain ⟨hkeyed, hread⟩ := ofValue_posting methodLast (by simp)
  obtain ⟨hkeyed', hread'⟩ := ofValue_posting methodFirst (by simp)
  have hplan := ofGraph_posting methodLast (by simp)
  have hplan' := ofGraph_posting methodFirst (by simp)
  obtain ⟨htext, -⟩ :=
    Plan.version_names_content _ _ _ _ default default hkeyed' hkeyed hread' hread
  obtain ⟨-, hsame⟩ :=
    Plan.version_names_content _ _ _ _ default default hkeyed hkeyed' hread hread'
  have htext := htext.mpr ⟨by decide +kernel, rfl⟩
  have hseparates : Digest.Separates (· = Plan.contentText default (posting methodLast)) :=
    fun s t hs ht _ => hs.trans ht.symm
  obtain ⟨-, hregistry⟩ := (hsame _ _ hplan hplan').2 _ hseparates rfl
  exact ⟨htext, hregistry _ true (.add (.empty default) hkeyed' hread' hplan' htext true)⟩

end Sample
end WorkflowEngine

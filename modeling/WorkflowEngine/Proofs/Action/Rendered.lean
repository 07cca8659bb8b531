import Mathlib
import WorkflowEngine.Call.Intake
import WorkflowEngine.Proofs.Action.Checked
import WorkflowEngine.Proofs.Template.Substitution

/-!
# Parameters that come out of templates

Parameters are checked before they are rendered, and not again. Rendering keeps the type of every
value, the methods, and addresses that are written out; what it can spoil are names that come out
blank, addresses that begin with a placeholder, and messages that come out empty.
-/
namespace WorkflowEngine

namespace Text

variable {α : Type} {blank : α → Bool}

/-- Trimming stops at a front that begins and ends with characters that are not blank. -/
theorem exists_trim_append {front rest : List α} (hne : front ≠ [])
    (hfirst : blank (front.head hne) = false) (hlast : blank (front.getLast hne) = false) :
    ∃ kept, trim blank (front ++ rest) = front ++ kept := by
  have hleft : (front ++ rest).dropWhile blank = front ++ rest := by
    apply dropWhile_of_head
    intro c hc
    rw [List.head?_append, List.head?_eq_some_head hne] at hc
    cases hc
    exact hfirst
  have hright : front.reverse.dropWhile blank = front.reverse := by
    apply dropWhile_of_head
    intro c hc
    rw [List.head?_reverse, List.getLast?_eq_some_getLast hne] at hc
    cases hc
    exact hlast
  rw [trim, hleft, List.reverse_append, List.dropWhile_append, hright]
  split
  · exact ⟨[], by simp⟩
  · exact ⟨(rest.reverse.dropWhile blank).reverse, by simp⟩

end Text

namespace Template

variable {now : WallClock} {context : Value}

/-- What stands before the first brace is copied. -/
theorem substitute_append {value : List Char → List Char} {plain rest : List Char}
    (h : '\x7b' ∉ plain) :
    substitute value (plain ++ rest) = plain ++ substitute value rest := by
  induction plain with
  | nil => rfl
  | cons c plain ih =>
    rw [List.mem_cons, not_or] at h
    have hnone : placeholder? (c :: (plain ++ rest)) = none := by
      unfold placeholder?
      split
      · next heq =>
        rw [List.cons.injEq] at heq
        exact absurd heq.1.symm h.1
      · rfl
    rw [List.cons_append, substitute_cons hnone, ih h.2, List.cons_append]

theorem render_of_plain {s : String} (h : '\x7b' ∉ s.toList) : render now context s = s := by
  apply String.toList_injective
  rw [toList_render, ← List.append_nil s.toList, substitute_append h]
  simp [substitute, placeholder?]

theorem lookup_renderFields {fields : Record} {name : String} :
    (renderFields now context fields).lookup name =
      (fields.lookup name).map (renderValue now context) := by
  induction fields with
  | nil => rfl
  | cons field rest ih =>
    obtain ⟨key, value⟩ := field
    rw [renderFields, List.lookup_cons, List.lookup_cons, ih]
    cases name == key <;> rfl

end Template

namespace ParamType

/-- How rendering can spoil the value of a parameter. -/
inductive Spoils (render : String → String) : ParamType → Value → Prop
  | blank {template : String} (h : Text.strip (render template) = "") :
      Spoils render .name (.text template)
  | notUrl {template : String} (hopens : ['\x7b', '\x7b'] <+: template.toList)
      (h : isUrl (Text.strip (render template)) = false) : Spoils render .url (.text template)

theorem not_spoils_null {render : String → String} {type : ParamType} :
    ¬ Spoils render type .null := by
  rintro ⟨⟩

theorem exists_read_name_iff {s : String} :
    (∃ w, name.read (.text s) = .ok w) ↔ Text.strip s ≠ "" := by
  simp only [read, readName]
  split <;> simp_all [Except.map]

theorem exists_read_url_iff {s : String} :
    (∃ w, url.read (.text s) = .ok w) ↔ isUrl (Text.strip s) = true := by
  constructor
  · rintro ⟨w, h⟩
    obtain ⟨address, hname, h⟩ := of_bind_eq_ok h
    obtain ⟨rfl, -⟩ := readName_eq_ok hname
    split at h
    · next hs => exact hs
    · cases h
  · intro hs
    have hne : Text.strip s ≠ "" := by
      intro hblank
      rw [hblank] at hs
      exact absurd hs (by decide)
    have hname : readName s = .ok (Text.strip s) := if_neg hne
    generalize Text.strip s = address at hs hname
    refine ⟨.text address, ?_⟩
    simp only [read, hname]
    exact if_pos hs

theorem isUrl_iff {s : String} : isUrl s = true ↔
    "http://".toList <+: s.toList ∨ "https://".toList <+: s.toList ∨
      ['\x7b', '\x7b'] <+: s.toList := by
  simp [isUrl]

theorem isUrl_strip_of_front {front : List Char} {s : String}
    (hfront : front = "http://".toList ∨ front = "https://".toList) (h : front <+: s.toList) :
    isUrl (Text.strip s) = true := by
  obtain ⟨rest, hrest⟩ := h
  have hkept : ∃ kept, Text.trim Text.isLayout (front ++ rest) = front ++ kept := by
    rcases hfront with rfl | rfl
    · exact Text.exists_trim_append (by decide) (by decide) (by decide)
    · exact Text.exists_trim_append (by decide) (by decide) (by decide)
  obtain ⟨kept, hkept⟩ := hkept
  have hprefix : front <+: (Text.strip s).toList := by
    rw [Text.strip, String.toList_ofList, ← hrest, hkept]
    exact List.prefix_append front kept
  rw [isUrl_iff]
  rcases hfront with rfl | rfl
  · exact .inl hprefix
  · exact .inr (.inl hprefix)

/-- An address that is written out stays one. -/
theorem isUrl_strip_render {now : WallClock} {context : Value} {address : String}
    (h : isUrl address = true) (hplain : ¬ ['\x7b', '\x7b'] <+: address.toList) :
    isUrl (Text.strip (Template.render now context address)) = true := by
  have hcopied : ∀ {front : List Char}, '\x7b' ∉ front → front <+: address.toList →
      front <+: (Template.render now context address).toList := by
    intro front hbrace hfront
    obtain ⟨rest, hrest⟩ := hfront
    rw [Template.toList_render, ← hrest, Template.substitute_append hbrace]
    exact List.prefix_append front _
  rcases isUrl_iff.mp h with hhttp | hhttps | hopens
  · exact isUrl_strip_of_front (.inl rfl) (hcopied (by decide) hhttp)
  · exact isUrl_strip_of_front (.inr rfl) (hcopied (by decide) hhttps)
  · exact absurd hopens hplain

/-- A value that has been checked and rendered passes the check again unless rendering spoils
it. -/
theorem exists_read_renderValue_iff {now : WallClock} {context v : Value} {type : ParamType}
    (h : type.Admits v) (hv : v ≠ .null) :
    (∃ w, type.read (Template.renderValue now context v) = .ok w) ↔
      ¬ Spoils (Template.render now context) type v := by
  cases h with
  | text s => exact iff_of_true ⟨_, rfl⟩ nofun
  | noText => exact absurd rfl hv
  | someText s => exact iff_of_true ⟨_, rfl⟩ nofun
  | name hne =>
    rw [Template.renderValue, exists_read_name_iff]
    constructor
    · rintro hkept ⟨hblank⟩
      exact hkept hblank
    · intro hkept hblank
      exact hkept (.blank hblank)
  | noCount => exact absurd rfl hv
  | @count n hn =>
    have hread : optionalCount.read (Template.renderValue now context (.int n)) = .ok (.int n) :=
      if_neg (by omega)
    exact iff_of_true ⟨_, hread⟩ nofun
  | @method s hs =>
    have hplain : '\x7b' ∉ s.toList := by
      revert s
      decide
    have hmethod : ∀ s ∈ methods, method.read (.text s) = .ok (.text s) := by decide +kernel
    rw [Template.renderValue, Template.render_of_plain hplain]
    exact iff_of_true ⟨_, hmethod s hs⟩ nofun
  | @url s hs =>
    rw [Template.renderValue, exists_read_url_iff]
    by_cases hopens : ['\x7b', '\x7b'] <+: s.toList
    · constructor
      · rintro hurl (_ | ⟨-, hnot⟩)
        exact absurd hurl (by simp [hnot])
      · intro hkept
        by_contra hurl
        exact hkept (.notUrl hopens (by simpa using hurl))
    · refine iff_of_true (isUrl_strip_render hs hopens) ?_
      rintro (_ | ⟨hbraces, -⟩)
      exact hopens hbraces
  | noObject => exact absurd rfl hv
  | object fields => exact iff_of_true ⟨_, rfl⟩ nofun

end ParamType

namespace ActionParams

variable {kind : ActionKind} {given : Record} {p : ActionParams} {spec : ParamSpec}
  {now : WallClock} {context : Value}

/-- Every declared parameter holds a value that its type admits. -/
theorem exists_declared (h : ofRecord kind given = .ok p) (hspec : spec ∈ kind.params) :
    ∃ v, p.declared.lookup spec.name = some v ∧ spec.type.Admits v := by
  obtain ⟨v, hread⟩ := (exists_ofRecord_iff.mp ⟨p, h⟩).1 spec hspec
  obtain rfl := ofRecord_eq_ok h
  refine ⟨v, ?_, ParamSpec.admits_of_read hspec hread⟩
  rw [lookup_valuesOf hspec, hread]
  rfl

/-- What is handed on of a declared parameter: its rendered value, unless it is null. -/
theorem lookup_rendered (now : WallClock) (context : Value) (h : ofRecord kind given = .ok p)
    (hspec : spec ∈ kind.params) :
    (Template.renderFields now context p.givenRecord).lookup spec.name =
      ((p.declared.lookup spec.name).filter (· ≠ .null)).map
        (Template.renderValue now context) := by
  rw [Template.lookup_renderFields, lookup_givenRecord h hspec]

theorem read_rendered {v : Value} (h : ofRecord kind given = .ok p) (hspec : spec ∈ kind.params)
    (hv : p.declared.lookup spec.name = some v) :
    spec.read (Template.renderFields now context p.givenRecord) =
      if v = .null then .ok .null else spec.type.read (Template.renderValue now context v) := by
  have hlookup := lookup_rendered now context h hspec
  rw [hv] at hlookup
  by_cases hnull : v = .null
  · subst hnull
    obtain ⟨w, hw, hadmits⟩ := exists_declared h hspec
    obtain rfl : Value.null = w := Option.some.inj (hv.symm.trans hw)
    have hdefault := ActionKind.default?_of_admits_null hspec hadmits
    simp [ParamSpec.read, hlookup, hdefault, Option.filter]
  · simp [ParamSpec.read, hlookup, hnull, Option.filter]

/-- How rendering can spoil checked parameters: in one of them, or in all that a message is made
of. -/
inductive Spoiled (render : String → String) (kind : ActionKind) (p : ActionParams) : Prop
  | parameter {spec : ParamSpec} {v : Value} (hspec : spec ∈ kind.params)
      (hv : p.declared.lookup spec.name = some v) (h : spec.type.Spoils render v)
  | nothingToSend (hkind : kind = .sendWhatsapp)
      (hempty : ∀ name ∈ ["template", "message"], ∀ template,
        p.declared.lookup name = some (.text template) → render template = "")

theorem isGiven_rendered_iff (now : WallClock) (context : Value)
    (h : ofRecord kind given = .ok p) (hspec : spec ∈ kind.params)
    (htype : spec.type = .optionalText) :
    (((valuesOf kind.params (Template.renderFields now context p.givenRecord)).lookup
      spec.name).any Value.isGiven) = true ↔
      ∃ template, p.declared.lookup spec.name = some (.text template) ∧
        Template.render now context template ≠ "" := by
  obtain ⟨v, hv, hadmits⟩ := exists_declared h hspec
  rw [lookup_valuesOf hspec, read_rendered h hspec hv, hv, htype]
  rw [htype] at hadmits
  cases hadmits with
  | noText => simp [Except.toOption]
  | someText s => simp [ParamType.read, Template.renderValue, Except.toOption]

theorem hasContent_rendered_iff (h : ofRecord .sendWhatsapp given = .ok p) :
    hasContent .sendWhatsapp (valuesOf ActionKind.sendWhatsapp.params
        (Template.renderFields now context p.givenRecord)) = true ↔
      ∃ name ∈ ["template", "message"], ∃ template,
        p.declared.lookup name = some (.text template) ∧
          Template.render now context template ≠ "" := by
  have htemplate : ⟨"template", .optionalText, some .null⟩ ∈ ActionKind.sendWhatsapp.params := by
    decide
  have hmessage : ⟨"message", .optionalText, some .null⟩ ∈ ActionKind.sendWhatsapp.params := by
    decide
  simp [hasContent, isGiven_rendered_iff now context h htemplate rfl,
    isGiven_rendered_iff now context h hmessage rfl]

/-- Checked parameters that have been rendered pass the check again unless rendering spoils
them. -/
theorem exists_ofRecord_rendered_iff (h : ofRecord kind given = .ok p) :
    (∃ q, ofRecord kind (Template.renderFields now context p.givenRecord) = .ok q) ↔
      ¬ Spoiled (Template.render now context) kind p := by
  have hread : (∀ spec ∈ kind.params, ∃ w,
      spec.read (Template.renderFields now context p.givenRecord) = .ok w) ↔
      ∀ spec ∈ kind.params, ∀ v, p.declared.lookup spec.name = some v →
        ¬ spec.type.Spoils (Template.render now context) v := by
    refine forall₂_congr fun spec hspec => ?_
    obtain ⟨v, hv, hadmits⟩ := exists_declared h hspec
    rw [read_rendered h hspec hv, hv]
    by_cases hnull : v = .null
    · subst hnull
      simp only [if_pos, Option.some.injEq, forall_eq']
      exact iff_of_true ⟨_, rfl⟩ ParamType.not_spoils_null
    · simp only [if_neg hnull, Option.some.injEq, forall_eq']
      exact ParamType.exists_read_renderValue_iff hadmits hnull
  rw [exists_ofRecord_iff, hread]
  constructor
  · rintro ⟨hsound, hcontent⟩ hspoiled
    cases hspoiled with
    | parameter hspec hv hspoils => exact hsound _ hspec _ hv hspoils
    | nothingToSend hkind hempty =>
      subst hkind
      obtain ⟨name, hname, template, hv, hne⟩ := (hasContent_rendered_iff h).mp hcontent
      exact hne (hempty name hname template hv)
  · intro hkept
    refine ⟨fun spec hspec v hv hspoils => hkept (.parameter hspec hv hspoils), ?_⟩
    by_cases hkind : kind = .sendWhatsapp
    · subst hkind
      rw [hasContent_rendered_iff h]
      by_contra hnone
      refine hkept (.nothingToSend rfl fun name hname template hv => ?_)
      by_contra hne
      exact hnone ⟨name, hname, template, hv, hne⟩
    · simp [hasContent, hkind]

end ActionParams

/-- The parameters of an action in a plan have passed the check. -/
theorem Plan.exists_checked {config : EngineConfig} {g : Graph} {p : Plan} {n : PlanNode}
    {kind : ActionKind} {params : ActionParams} {exit : Option String}
    (hp : Plan.ofGraph config g = .ok p) (hn : n ∈ p.nodes)
    (hstep : n.step = .action kind params exit) :
    ∃ given, ActionParams.ofRecord kind given = .ok params := by
  obtain ⟨-, hnodes, -⟩ := Plan.ofGraph_eq_ok hp
  obtain ⟨m, -, hm⟩ := (Plan.mem_of_mapM_eq_some hnodes).2 n hn
  obtain ⟨step, hof, rfl⟩ := Option.map_eq_some_iff.mp hm
  obtain rfl : step = .action kind params exit := hstep
  cases hbody : m.body with
  | action kind' given =>
    simp only [hbody, stepOf?, Option.bind_eq_bind, Option.bind_eq_some_iff, Option.pure_def,
      Option.some.injEq, PlanStep.action.injEq] at hof
    obtain ⟨checked, hchecked, rfl, rfl, -⟩ := hof
    refine ⟨given, ?_⟩
    cases hread : ActionParams.ofRecord kind' given with
    | error e => simp [hread, Except.toOption] at hchecked
    | ok q =>
      rw [hread] at hchecked
      exact congrArg Except.ok (Option.some.inj hchecked)
  | trigger _ _ => simp [hbody, stepOf?] at hof
  | condition _ =>
    simp [hbody, stepOf?, Option.bind_eq_some_iff] at hof
  | delay _ _ =>
    simp [hbody, stepOf?, Option.bind_eq_some_iff] at hof

theorem visit_of_intent {env : Env} {i : Instance} {p : Plan} {n : PlanNode} {kind : ActionKind}
    {params : ActionParams} {exit : Option String}
    (hplan : env.registry.plan i.graphId (some i.planVersion) = .ok p)
    (hnode : p.node? i.cursor = some n) (hstep : n.step = .action kind params exit)
    (hactive : i.isTerminal = false) (hintent : i.dispatching = some n.id) :
    visit env i = .ok (.invoke (invocation i n.id kind params exit env.now)) := by
  have hfound : env.planNode i i.cursor = .ok n := by
    have hn : p.node i.cursor = .ok n := by rw [Plan.node, hnode]
    rw [Env.planNode, hplan]
    exact hn
  obtain ⟨id, label, step⟩ := n
  cases hstep
  rw [visit, hactive, hfound]
  change (if i.dispatching = some id then _ else _) = _
  rw [if_pos hintent]
  rfl

/-- An action of an accepted graph is invoked with its checked parameters, rendered; they would be
refused by the check that they have passed exactly if rendering has spoiled them. -/
theorem Plan.refuses_invocation_iff {config : EngineConfig} {g : Graph} {p : Plan} {env : Env}
    {i : Instance} {n : PlanNode} {kind : ActionKind} {params : ActionParams}
    {exit : Option String} (hp : Plan.ofGraph config g = .ok p)
    (hplan : env.registry.plan i.graphId (some i.planVersion) = .ok p)
    (hnode : p.node? i.cursor = some n) (hstep : n.step = .action kind params exit)
    (hactive : i.isTerminal = false) (hintent : i.dispatching = some n.id) :
    ∃ v, visit env i = .ok (.invoke v) ∧ v.kind = kind ∧
      (∀ spec ∈ kind.params, v.params.get? spec.name =
        ((params.declared.lookup spec.name).filter (· ≠ .null)).map
          (Template.renderValue env.now.wallClock (.object i.context))) ∧
      ((∃ e, ActionParams.ofValue v.kind v.params = .error e) ↔
        ActionParams.Spoiled (Template.render env.now.wallClock (.object i.context)) kind
          params) := by
  have hn : n ∈ p.nodes := List.mem_of_find?_eq_some hnode
  obtain ⟨given, hgiven⟩ := Plan.exists_checked hp hn hstep
  refine ⟨_, visit_of_intent hplan hnode hstep hactive hintent, rfl, ?_, ?_⟩
  · intro spec hspec
    rw [← ActionParams.lookup_rendered _ _ hgiven hspec]
    rfl
  · rw [← not_iff_not, ← ActionParams.exists_ofRecord_rendered_iff hgiven]
    simp only [invocation, Template.renderValue, ActionParams.ofValue]
    cases ActionParams.ofRecord kind (Template.renderFields env.now.wallClock (.object i.context)
      params.givenRecord) <;> simp

namespace Sample

/-- A graph that calls a web service at the address that the event names. -/
def webhookGraph : Graph where
  id := "g"
  name := "Call"
  version := "1"
  nodes := [⟨"t", "", .trigger .manual {}⟩,
    ⟨"w", "", .action .webhook [("webhook_url", .text "\x7b\x7blead.url\x7d\x7d")]⟩]
  edges := [⟨"t", "w", none⟩]
  enabled := true
  description := ""

def webhookParams : ActionParams where
  declared := [("webhook_url", .text "\x7b\x7blead.url\x7d\x7d"), ("method", .text "POST"),
    ("payload", .null)]
  extra := []

def webhookNodes : List PlanNode :=
  [⟨"t", "", .trigger .manual {} (some "w")⟩, ⟨"w", "", .action .webhook webhookParams none⟩]

def webhookPlan : Plan where
  graphId := "g"
  graphVersion := "1"
  version := Plan.versionOf default webhookGraph
  name := "Call"
  enabled := true
  triggerId := "t"
  nodes := webhookNodes
  order := Plan.orderFrom webhookNodes "t"
  source := webhookGraph

theorem ofGraph_webhookGraph : Plan.ofGraph default webhookGraph = .ok webhookPlan := by
  have hdefects : webhookGraph.defects = [] := by cbv
  have htrigger : webhookGraph.trigger? = some ⟨"t", "", .trigger .manual {}⟩ := by decide
  have hnodes : webhookGraph.nodes.mapM (Plan.nodeOf? default webhookGraph) =
      some webhookNodes := by decide +kernel
  rw [Plan.ofGraph, hdefects, htrigger]
  simp only [hnodes]
  rfl

def misleading : Record := [("lead", .object [("url", .text "ftp://x")])]

def webhookEnv : Env where
  registry := ⟨default, [webhookPlan], [("g", webhookPlan.version)]⟩
  config := default
  now := ⟨0, none⟩

def calling : Instance :=
  { Event.draft ⟨.manual, misleading, none⟩ webhookPlan ⟨0, none⟩ with
    id := "i1", cursor := "w", dispatching := some "w", owner := some "w1" }

theorem render_misleading (now : WallClock) :
    Template.render now (.object misleading) "\x7b\x7blead.url\x7d\x7d" = "ftp://x" := by
  cbv

/-- A service is called at an address that the check refuses. -/
theorem invokes_misleading_webhook :
    ∃ v, visit webhookEnv calling = .ok (.invoke v) ∧ v.kind = .webhook ∧
      v.params.get? "webhook_url" = some (.text "ftp://x") ∧
      ∃ e, ActionParams.ofValue v.kind v.params = .error e := by
  have hplan : webhookEnv.registry.plan calling.graphId (some calling.planVersion) =
      .ok webhookPlan := by
    simp [Registry.plan, Registry.plansOf, Registry.plan?, webhookEnv, calling, Event.draft,
      webhookPlan]
  have hrendered := render_misleading webhookEnv.now.wallClock
  have hspec : ⟨"webhook_url", .url, none⟩ ∈ ActionKind.webhook.params := by decide
  obtain ⟨v, hvisit, hkind, hparams, hrefused⟩ := Plan.refuses_invocation_iff
    ofGraph_webhookGraph hplan rfl rfl rfl rfl
  refine ⟨v, hvisit, hkind, ?_, ?_⟩
  · refine (hparams _ hspec).trans ?_
    exact congrArg (fun address => some (Value.text address)) hrendered
  · refine hrefused.mpr (.parameter hspec rfl (.notUrl (by decide) ?_))
    change ParamType.isUrl (Text.strip (Template.render webhookEnv.now.wallClock
      (.object misleading) "\x7b\x7blead.url\x7d\x7d")) = false
    rw [hrendered]
    decide

end Sample

end WorkflowEngine

import WorkflowEngine.Graph.Authoring
import WorkflowEngine.Proofs.Visit.Stepped

/-!
# The canonical form of graphs

A graph that is read from any dialect of authored data is read again from its canonical form. A
reader takes something else for an empty name; what has been read is named in full, so that no
reader falls back when it meets the canonical form.
-/
namespace WorkflowEngine

theorem Number.Binary64.magnitudeText_ne_nil (x : Binary64) : x.magnitudeText ≠ [] := by
  have hlayout (digits : List Char) (point : Int) (h : digits ≠ []) :
      layout digits point ≠ [] := by
    unfold layout
    split
    · split
      · simp
      · split <;> simp
    · split <;> simp_all
  unfold magnitudeText
  split
  · simp
  · exact hlayout _ _ Nat.toDigits_ne_nil

namespace Value

/-- Only the empty text has an empty written form. -/
theorem display_ne_empty {v : Value} (h : v ≠ .text "") : v.display ≠ "" := by
  cases v with
  | null => simp [display, quoted]
  | bool b => cases b <;> simp [display, quoted]
  | int n =>
    intro hempty
    have hrepr : Int.repr n = "" := hempty
    rw [Int.repr_eq_if] at hrepr
    split at hrepr
    · rw [← String.toList_eq_nil_iff, Nat.toList_repr] at hrepr
      exact Nat.toDigits_ne_nil hrepr
    · simp [String.append_eq_empty_iff] at hrepr
  | float x =>
    simp only [display, quoted, Number.Binary64.text, ne_eq, ← String.toList_eq_nil_iff,
      String.toList_ofList]
    split
    · simp
    · exact x.magnitudeText_ne_nil
  | text s => simpa using h
  | list items => simp [display, quoted, String.append_eq_empty_iff]
  | object fields => simp [display, quoted, String.append_eq_empty_iff]

theorem ne_empty_of_isGiven {v : Value} (h : v.isGiven = true) : v ≠ .text "" := by
  rintro rfl
  cases h

/-- What is read with a preset is empty only if the preset is. -/
theorem display_orElse_ne_empty (v : Value) {preset : String} (h : preset ≠ "") :
    (v.orElse (.text preset)).display ≠ "" := by
  unfold orElse
  split
  · next hgiven => exact display_ne_empty (ne_empty_of_isGiven hgiven)
  · exact h

@[simp] theorem orElse_list_nil (items : List Value) :
    (list items).orElse (.list []) = .list items := by
  cases items <;> rfl

theorem orElse_text {s : String} (h : s ≠ "") (b : Value) : (text s).orElse b = .text s :=
  orElse_of_isGiven (isGiven_text.mpr h)

@[simp] theorem text_orElse_empty (s : String) : (text s).orElse (.text "") = .text s := by
  by_cases h : s = ""
  · rw [h]; rfl
  · exact orElse_text h _

theorem firstField_of_given {fields : Record} {name : String} {v : Value} (rest : List String)
    (h : fields.lookup name = some v) (hgiven : v.isGiven = true) :
    firstField (.object fields) (name :: rest) = .ok v := by
  have hfield : field (.object fields) name = .ok v := by rw [field_object, h]; rfl
  cases rest with
  | nil => exact hfield
  | cons other rest =>
    simp only [firstField, hfield]
    exact if_pos hgiven

end Value

theorem Shaped.of_forNode_eq_ok {α : Type} {x : Shaped α} {a : α} (h : x.forNode = .ok a) :
    x = .ok a := by
  cases x with
  | error e => cases h
  | ok b => exact congrArg Except.ok (Except.ok.inj h)

namespace TriggerFilters

/-- No filter is set to the empty text. -/
structure IsTidy (f : TriggerFilters) : Prop where
  sessionId : f.sessionId ≠ some ""
  keyword : f.keyword ≠ some ""
  fromStageId : f.fromStageId ≠ some ""
  toStageId : f.toStageId ≠ some ""
  tagId : f.tagId ≠ some ""
  scheduleTime : f.scheduleTime ≠ some ""

theorem readText_ne_empty {data : Value} {name : String} {filter : Option String}
    (h : readText data name = .ok filter) : filter ≠ some "" := by
  obtain ⟨v, -, h⟩ := of_bind_eq_ok h
  obtain rfl := Except.ok.inj h
  split
  · simp
  · next hset =>
    have hne : v ≠ .text "" := fun hv => hset (by simp [isUnset, hv])
    simpa using Value.display_ne_empty hne

theorem isTidy_of_ofValue {data : Value} {f : TriggerFilters} (h : ofValue data = .ok f) :
    f.IsTidy := by
  obtain ⟨sessionId, h₁, h⟩ := of_bind_eq_ok h
  obtain ⟨keyword, h₂, h⟩ := of_bind_eq_ok h
  obtain ⟨fromStageId, h₃, h⟩ := of_bind_eq_ok h
  obtain ⟨toStageId, h₄, h⟩ := of_bind_eq_ok h
  obtain ⟨tagId, h₅, h⟩ := of_bind_eq_ok h
  obtain ⟨scheduleTime, h₆, h⟩ := of_bind_eq_ok h
  obtain ⟨inactivityDays, -, h⟩ := of_bind_eq_ok h
  obtain rfl := Except.ok.inj h
  exact ⟨readText_ne_empty h₁, readText_ne_empty h₂, readText_ne_empty h₃, readText_ne_empty h₄,
    readText_ne_empty h₅, readText_ne_empty h₆⟩

@[simp] theorem lookup_textField (name other : String) (filter : Option String) :
    (textField name filter).lookup other = if other = name then filter.map .text else none := by
  cases filter with
  | none => simp [textField]
  | some s =>
    by_cases h : other = name
    · simp [textField, h]
    · simp [textField, List.lookup_cons, beq_eq_false_iff_ne.mpr h, h]

theorem readText_of_lookup {fields : Record} {name : String} {filter : Option String}
    (h : fields.lookup name = filter.map .text) (hne : filter ≠ some "") :
    readText (.object fields) name = .ok filter := by
  cases filter with
  | none =>
    simp only [readText, Value.field_object, h]
    rfl
  | some s =>
    have hs : s ≠ "" := fun hs => hne (congrArg some hs)
    simp [readText, Value.field_object, h, isUnset, hs]

theorem readInteger_of_lookup {fields : Record} {name : String} {filter : Option Int}
    (h : fields.lookup name = filter.map .int) :
    readInteger (.object fields) name = .ok filter := by
  simp only [readInteger, Value.field_object, h]
  cases filter <;> rfl

/-- Each filter that is set is found under its name, and nothing else is. -/
theorem lookup_toRecord (f : TriggerFilters) (name : String) :
    f.toRecord.lookup name =
      if name = "session_id" then f.sessionId.map .text
      else if name = "keyword" then f.keyword.map .text
      else if name = "from_stage_id" then f.fromStageId.map .text
      else if name = "to_stage_id" then f.toStageId.map .text
      else if name = "tag_id" then f.tagId.map .text
      else if name = "schedule_time" then f.scheduleTime.map .text
      else if name = "inactivity_days" then f.inactivityDays.map .int
      else none := by
  have hdays : (toRecord { inactivityDays := f.inactivityDays }).lookup name =
      if name = "inactivity_days" then f.inactivityDays.map .int else none := by
    cases f.inactivityDays with
    | none => simp [toRecord, textField]
    | some days =>
      by_cases h : name = "inactivity_days"
      · simp [toRecord, textField, h]
      · simp [toRecord, textField, List.lookup_cons, beq_eq_false_iff_ne.mpr h, h]
  have happend : f.toRecord = textField "session_id" f.sessionId ++ textField "keyword" f.keyword ++
      textField "from_stage_id" f.fromStageId ++ textField "to_stage_id" f.toStageId ++
      textField "tag_id" f.tagId ++ textField "schedule_time" f.scheduleTime ++
      toRecord { inactivityDays := f.inactivityDays } := by
    simp [toRecord, textField]
  simp only [happend, List.lookup_append, lookup_textField, hdays]
  split_ifs <;> simp_all

/-- Filters are read from a record that has them among other fields. -/
theorem ofValue_of_lookup {f : TriggerFilters} (hf : f.IsTidy) {fields : Record}
    (h : ∀ name ∈ ["session_id", "keyword", "from_stage_id", "to_stage_id", "tag_id",
      "schedule_time", "inactivity_days"], fields.lookup name = f.toRecord.lookup name) :
    ofValue (.object fields) = .ok f := by
  simp [lookup_toRecord] at h
  obtain ⟨h₁, h₂, h₃, h₄, h₅, h₆, h₇⟩ := h
  simp only [ofValue, readText_of_lookup h₁ hf.sessionId, readText_of_lookup h₂ hf.keyword,
    readText_of_lookup h₃ hf.fromStageId, readText_of_lookup h₄ hf.toStageId,
    readText_of_lookup h₅ hf.tagId, readText_of_lookup h₆ hf.scheduleTime,
    readInteger_of_lookup h₇]
  rfl

end TriggerFilters

namespace Predicate

/-- A field and a tag are named. -/
def IsTidy : Predicate → Prop
  | .field path _ _ => path ≠ ""
  | .tag wanted => wanted ≠ ""
  | .always _ => True

theorem isTidy_of_ofField {path operator operand : Value} {p : Predicate}
    (h : ofField path operator operand = .ok p) : p.IsTidy := by
  unfold ofField at h
  split at h
  · split at h
    · cases h
    · next hne =>
      split at h
      · cases h
        exact hne
      · cases h
  · cases h

theorem isTidy_of_ofTag {tag : Value} {p : Predicate} (h : ofTag tag = .ok p) : p.IsTidy := by
  unfold ofTag at h
  split at h
  · next hgiven =>
    cases h
    exact Value.display_ne_empty (Value.ne_empty_of_isGiven hgiven)
  · cases h

theorem isTidy_of_ofEditor {path data : Value} {p : Predicate} (h : ofEditor path data = .ok p) :
    p.IsTidy := by
  obtain ⟨operator, -, h⟩ := of_bind_eq_ok h
  obtain ⟨operand, -, h⟩ := of_bind_eq_ok h
  split at h
  · exact isTidy_of_ofTag h
  · exact isTidy_of_ofField h

theorem isTidy_of_ofTyped {type data : Value} {p : Predicate} (h : ofTyped type data = .ok p) :
    p.IsTidy := by
  unfold ofTyped at h
  split at h
  · obtain ⟨path, -, h⟩ := of_bind_eq_ok h
    obtain ⟨operator, -, h⟩ := of_bind_eq_ok h
    obtain ⟨operand, -, h⟩ := of_bind_eq_ok h
    exact isTidy_of_ofField h
  · obtain ⟨tag, -, h⟩ := of_bind_eq_ok h
    exact isTidy_of_ofTag h
  · cases h
    trivial
  · cases h
    trivial
  · split at h
    · next hpath =>
      cases h
      rintro rfl
      unfold presenceField? at hpath
      split at hpath <;> simp at hpath
    · cases h
  · obtain ⟨key, -, h⟩ := of_bind_eq_ok h
    cases h

theorem isTidy_of_ofValue {data : Value} {p : Predicate} (h : ofValue data = .ok p) :
    p.IsTidy := by
  obtain ⟨inner, -, h⟩ := of_bind_eq_ok h
  obtain ⟨type, -, h⟩ := of_bind_eq_ok h
  split at h
  · exact isTidy_of_ofEditor h
  · exact isTidy_of_ofTyped h

/-- Data with an object for a predicate is read as that object. -/
theorem ofValue_nested {fields : Record} {type : String}
    (htype : fields.lookup "type" = some (.text type)) (hne : type ≠ "") :
    ofValue (.object [("predicate", .object fields)]) = ofTyped (.text type) (.object fields) := by
  have hfirst : (Value.object fields).firstField ["type", "condition_type"] = .ok (.text type) :=
    Value.firstField_of_given _ htype (Value.isGiven_text.mpr hne)
  simp only [ofValue, Value.member?, List.lookup_cons, beq_self_eq_true, Shaped.forCondition]
  change (((Value.object fields).firstField ["type", "condition_type"]).forCondition >>= _) = _
  rw [hfirst]
  rfl

/-- A predicate is read from its canonical form. -/
theorem ofValue_toValue_of_isTidy {p : Predicate} (hp : p.IsTidy) :
    ofValue (.object [("predicate", p.toValue)]) = .ok p := by
  cases p with
  | field path operator operand =>
    have hne : operator.name ≠ "" := by cases operator <;> decide
    have hread : Choice.ofValue Operator (.text operator.name) = .ok operator :=
      Choice.ofValue_toValue operator
    have hpath : path ≠ "" := hp
    rw [toValue, ofValue_nested rfl (by decide)]
    change ofField (.text path) ((Value.text operator.name).orElse defaultOperator) operand = _
    rw [Value.orElse_text hne]
    simp [ofField, hpath, hread]
  | tag wanted =>
    have hgiven : (Value.text wanted).isGiven = true := Value.isGiven_text.mpr hp
    rw [toValue, ofValue_nested rfl (by decide)]
    change ((Value.object [("type", .text "has_tag"), ("tag", .text wanted)]).firstField
      ["tag", "value"]).forCondition >>= ofTag = _
    rw [Value.firstField_of_given _ rfl hgiven]
    exact if_pos hgiven
  | always outcome => cases outcome <;> rfl

end Predicate

namespace NodeBody

def IsTidy : NodeBody → Prop
  | .trigger _ filters => filters.IsTidy
  | .condition predicate => predicate.IsTidy
  | .action _ _ | .delay _ _ => True

theorem readAction_eq_ok {raw data : Value} {body : NodeBody} (h : readAction raw data = .ok body) :
    ∃ kind params, actionParams data = .ok params ∧ body = .action kind params := by
  have hnamed {named : Value} (h : (do
      let kind ← Choice.ofValue ActionKind named
      return .action kind (← actionParams data) : Shaped NodeBody) = .ok body) :
      ∃ kind params, actionParams data = .ok params ∧ body = .action kind params := by
    obtain ⟨kind, -, h⟩ := of_bind_eq_ok h
    obtain ⟨params, hparams, h⟩ := of_bind_eq_ok h
    exact ⟨kind, params, hparams, (Except.ok.inj h).symm⟩
  obtain ⟨own, -, h⟩ := of_bind_eq_ok h
  obtain ⟨given, -, h⟩ := of_bind_eq_ok h
  dsimp only at h
  split at h
  · obtain ⟨named, -, h⟩ := of_bind_eq_ok h
    exact hnamed h
  · obtain ⟨named, -, h⟩ := of_bind_eq_ok h
    exact hnamed h

theorem readDelay_eq_ok {data : Value} {body : NodeBody} (h : readDelay data = .ok body) :
    ∃ amount unit, body = .delay amount unit := by
  obtain ⟨-, -, h⟩ := of_bind_eq_ok h
  obtain ⟨fields, -, h⟩ := of_bind_eq_ok h
  split at h
  · obtain ⟨amount, -, h⟩ := of_bind_eq_ok h
    obtain ⟨unit, -, h⟩ := of_bind_eq_ok h
    exact ⟨amount, unit, (Except.ok.inj h).symm⟩
  · obtain ⟨amount, -, h⟩ := of_bind_eq_ok h
    obtain ⟨unit, -, h⟩ := of_bind_eq_ok h
    exact ⟨amount, unit, (Except.ok.inj h).symm⟩
  · obtain ⟨minutes, -, h⟩ := of_bind_eq_ok h
    obtain ⟨hours, -, h⟩ := of_bind_eq_ok h
    obtain ⟨days, -, h⟩ := of_bind_eq_ok h
    exact ⟨_, _, (Except.ok.inj h).symm⟩

theorem readTrigger_eq_ok {data : Value} {body : NodeBody} (h : readTrigger data = .ok body) :
    ∃ kind filters, TriggerFilters.ofValue data = .ok filters ∧ body = .trigger kind filters := by
  obtain ⟨given, -, h⟩ := of_bind_eq_ok h
  obtain ⟨kind, -, h⟩ := of_bind_eq_ok h
  obtain ⟨filters, hfilters, h⟩ := of_bind_eq_ok h
  exact ⟨kind, filters, hfilters, (Except.ok.inj h).symm⟩

theorem isTidy_of_ofTyped {type raw data : Value} {body : NodeBody}
    (h : ofTyped type raw data = .ok body) : body.IsTidy := by
  unfold ofTyped at h
  split at h
  · obtain ⟨kind, filters, hfilters, rfl⟩ := readTrigger_eq_ok (Shaped.of_forNode_eq_ok h)
    exact TriggerFilters.isTidy_of_ofValue hfilters
  · split at h
    · next hpredicate =>
      cases h
      exact Predicate.isTidy_of_ofValue hpredicate
    · cases h
  · obtain ⟨kind, params, -, rfl⟩ := readAction_eq_ok (Shaped.of_forNode_eq_ok h)
    trivial
  · obtain ⟨amount, unit, rfl⟩ := readDelay_eq_ok (Shaped.of_forNode_eq_ok h)
    trivial
  · cases h

/-- The data of a node is an object without a label. -/
theorem exists_toValue_eq (body : NodeBody) :
    ∃ fields, body.toValue = .object fields ∧ fields ≠ [] ∧ fields.lookup "label" = none := by
  cases body with
  | trigger kind filters =>
    exact ⟨_, rfl, by simp, by simp [List.lookup_cons, TriggerFilters.lookup_toRecord]⟩
  | condition predicate => exact ⟨_, rfl, by simp, rfl⟩
  | action kind params => exact ⟨_, rfl, by simp, rfl⟩
  | delay amount unit => cases unit <;> exact ⟨_, rfl, by simp, rfl⟩

theorem readTrigger_toValue (kind : TriggerKind) {filters : TriggerFilters} (h : filters.IsTidy) :
    readTrigger (toValue (.trigger kind filters)) = .ok (.trigger kind filters) := by
  have hgiven : (Choice.toValue kind).isGiven = true := by cases kind <;> decide
  have hkind : triggerKind (Choice.toValue kind) = .ok kind := by cases kind <;> rfl
  have hfilters : TriggerFilters.ofValue (toValue (.trigger kind filters)) = .ok filters := by
    refine TriggerFilters.ofValue_of_lookup h fun name hname => ?_
    have hne : name ≠ "trigger_type" := by
      rintro rfl
      simp at hname
    rw [List.lookup_cons, beq_eq_false_iff_ne.mpr hne]
  simp only [readTrigger, hfilters]
  rw [toValue, Value.firstField_of_given _ rfl hgiven]
  change (triggerKind ((Choice.toValue kind).orElse _) >>= _) = _
  rw [Value.orElse_of_isGiven hgiven, hkind]
  rfl

theorem readAction_toValue (fields params : Record) (kind : ActionKind) :
    readAction (.object fields) (toValue (.action kind params)) = .ok (.action kind params) := by
  have hgiven : (Choice.toValue kind).isGiven = true := by cases kind <;> decide
  have hkind : Choice.ofValue ActionKind (Choice.toValue kind) = .ok kind :=
    Choice.ofValue_toValue kind
  have hnamed (other : Value) : (Choice.toValue kind).orElse other = Choice.toValue kind :=
    Value.orElse_of_isGiven hgiven
  rw [readAction, toValue, Value.firstField_of_given _ rfl hgiven]
  simp only [Value.field_object, bind, Except.bind, hnamed, hgiven, if_true, pure, Except.pure,
    hkind]
  rfl

theorem readDelay_toValue (amount : Int) (unit : Option DelayUnit) :
    readDelay (toValue (.delay amount unit)) = .ok (.delay amount unit) := by
  have hamount : ((Value.int amount).orElse (.int 0)).toInteger = .ok amount := by
    unfold Value.orElse
    split
    · rfl
    · next h =>
      obtain rfl : amount = 0 := by simpa [Value.isGiven] using h
      rfl
  cases unit with
  | none =>
    change (((Value.int amount).orElse (.int 0)).toInteger >>= _) = _
    rw [hamount]
    rfl
  | some unit =>
    change (((Value.int amount).orElse (.int 0)).toInteger >>= _) = _
    rw [hamount]
    cases unit <;> rfl

/-- What a node does is read from its canonical form. -/
theorem ofTyped_toValue {body : NodeBody} (h : body.IsTidy) (fields : Record) :
    ofTyped (Choice.toValue body.kind) (.object fields) body.toValue = .ok body := by
  cases body with
  | trigger kind filters =>
    change (readTrigger (toValue (.trigger kind filters))).forNode = _
    rw [readTrigger_toValue kind h]
    rfl
  | condition predicate =>
    have hread : Predicate.ofValue (toValue (.condition predicate)) = .ok predicate :=
      Predicate.ofValue_toValue_of_isTidy h
    simp only [ofTyped, kind, Choice.toValue, Choice.name, NodeKind.name, hread]
  | action kind params =>
    change (readAction (.object fields) (toValue (.action kind params))).forNode = _
    rw [readAction_toValue]
    rfl
  | delay amount unit =>
    change (readDelay (toValue (.delay amount unit))).forNode = _
    rw [readDelay_toValue]
    rfl

end NodeBody

namespace Node

structure IsTidy (n : Node) : Prop where
  id : n.id ≠ ""
  body : n.body.IsTidy

theorem isTidy_of_ofValue {id : String} {raw : Value} {n : Node} (hid : id ≠ "")
    (h : ofValue id raw = .ok n) : n.IsTidy := by
  obtain ⟨type, -, h⟩ := of_bind_eq_ok h
  obtain ⟨given, -, h⟩ := of_bind_eq_ok h
  obtain ⟨label, -, h⟩ := of_bind_eq_ok h
  obtain ⟨body, hbody, h⟩ := of_bind_eq_ok h
  obtain rfl := Except.ok.inj h
  exact ⟨hid, NodeBody.isTidy_of_ofTyped hbody⟩

/-- A node that was read has an identifier. -/
theorem read_eq_ok {position : Nat} {raw : Value} {n : Node}
    (h : read position raw = .ok (.ok n)) : ∃ id, id ≠ "" ∧ ofValue id raw = .ok n := by
  obtain ⟨id, -, h⟩ := of_bind_eq_ok h
  split at h
  · cases h
  · next hid =>
    refine ⟨id, hid, ?_⟩
    split at h
    · next hnode =>
      cases h
      exact hnode
    · split at h <;> cases h

theorem readLabel_toValue (n : Node) {fields : Record} (h : fields.lookup "label" = none) :
    readLabel n.toValue (.object fields) = .ok n.label := by
  have hown : n.toValue.field "label" = .ok (.text n.label) := rfl
  simp only [readLabel, hown, Value.field_object, h, bind, Except.bind]
  split
  · rfl
  · next hgiven =>
    have hlabel : n.label = "" := by simpa using hgiven
    rw [hlabel]
    rfl

/-- A node is read from its canonical form. -/
theorem read_toValue {n : Node} (h : n.IsTidy) (position : Nat) :
    read position n.toValue = .ok (.ok n) := by
  obtain ⟨fields, hfields, hne, hlabel⟩ := n.body.exists_toValue_eq
  have hgiven : (Value.object fields).isGiven = true := by simpa [Value.isGiven] using hne
  have htype : n.toValue.firstField ["type", "node_type"] = .ok (Choice.toValue n.kind) :=
    Value.firstField_of_given _ rfl (by cases n.kind <;> decide)
  have hdata : n.toValue.firstField ["data", "config"] = .ok (.object fields) :=
    Value.firstField_of_given _ (by simp [List.lookup_cons, hfields]) hgiven
  have hbody : NodeBody.ofTyped (Choice.toValue n.kind) n.toValue (.object fields) = .ok n.body :=
    hfields ▸ NodeBody.ofTyped_toValue h.body _
  have hnode : ofValue n.id n.toValue = .ok n := by
    simp only [ofValue, htype, hdata, Shaped.forNode, bind, Except.bind,
      Value.orElse_of_isGiven hgiven, readLabel_toValue n hlabel, hbody]
    rfl
  have hid : readId n.toValue = .ok n.id := by
    change Except.ok ((Value.text n.id).orElse (.text "")).display = _
    rw [Value.text_orElse_empty]
    rfl
  simp only [read, hid, hnode, bind, Except.bind, if_neg h.id]
  rfl

end Node

namespace Edge

structure IsTidy (e : Edge) : Prop where
  source : e.source ≠ ""
  target : e.target ≠ ""

theorem isTidy_of_read {raw : Value} {e : Edge} (h : read raw = .ok (.ok e)) : e.IsTidy := by
  obtain ⟨source, -, h⟩ := of_bind_eq_ok h
  obtain ⟨target, -, h⟩ := of_bind_eq_ok h
  split at h
  · cases h
  · next hends =>
    obtain ⟨hsource, htarget⟩ := not_or.mp hends
    obtain ⟨label, -, h⟩ := of_bind_eq_ok h
    split at h
    · cases h
      exact ⟨hsource, htarget⟩
    · split at h
      · cases h
        exact ⟨hsource, htarget⟩
      · obtain ⟨_, -, h⟩ := of_bind_eq_ok h
        obtain ⟨_, -, h⟩ := of_bind_eq_ok h
        cases h

/-- An edge is read from its canonical form. -/
theorem read_toValue {e : Edge} (h : e.IsTidy) : read e.toValue = .ok (.ok e) := by
  obtain ⟨source, target, branch⟩ := e
  have hgiven {s : String} (hs : s ≠ "") : (Value.text s).isGiven = true :=
    Value.isGiven_text.mpr hs
  have hends : ¬ (source = "" ∨ target = "") := not_or.mpr ⟨h.source, h.target⟩
  have hsource : readEnd (toValue ⟨source, target, branch⟩) ["source", "source_node_id"] =
      .ok source := by
    rw [readEnd, toValue, Value.firstField_of_given _ rfl (hgiven h.source)]
    simp [bind, Except.bind, pure, Except.pure]
  have htarget : readEnd (toValue ⟨source, target, branch⟩) ["target", "target_node_id"] =
      .ok target := by
    rw [readEnd, toValue, Value.firstField_of_given _ rfl (hgiven h.target)]
    simp [bind, Except.bind, pure, Except.pure]
  simp only [read, hsource, htarget, bind, Except.bind, if_neg hends]
  cases branch with
  | none => rfl
  | some branch =>
    have hbranch : branchOf? (Choice.toValue branch) = some branch := by
      cases branch <;> decide +kernel
    have hlabel : isDefaultLabel (Choice.toValue branch) = false := by cases branch <;> decide
    have hfirst : (toValue ⟨source, target, some branch⟩).firstField
        ["branch", "condition_branch", "sourceHandle", "source_handle"] =
          .ok (Choice.toValue branch) :=
      Value.firstField_of_given _ rfl (by cases branch <;> decide)
    simp only [hfirst, hlabel, hbranch]
    rfl

end Edge

namespace Graph

/-- Everything that a graph must name is named. -/
structure IsTidy (g : Graph) : Prop where
  id : g.id ≠ ""
  name : g.name ≠ ""
  version : g.version ≠ ""
  nodes : ∀ n ∈ g.nodes, n.IsTidy
  edges : ∀ e ∈ g.edges, e.IsTidy

section Reading

variable {α : Type} {read : Nat → Value → Shaped (Except Defect α)}

/-- Every reading is that of one of the items. -/
theorem exists_of_mem_readEach {position : Nat} {items : List Value}
    {readings : List (Except Defect α)} (h : readEach read position items = .ok readings)
    {r : Except Defect α} (hr : r ∈ readings) :
    ∃ position, ∃ raw ∈ items, read position raw = .ok r := by
  induction items generalizing position readings with
  | nil =>
    cases h
    cases hr
  | cons raw rest ih =>
    obtain ⟨first, hfirst, h⟩ := of_bind_eq_ok h
    obtain ⟨others, hothers, h⟩ := of_bind_eq_ok h
    cases h
    rcases List.mem_cons.mp hr with rfl | hr
    · exact ⟨position, raw, List.mem_cons_self, hfirst⟩
    · obtain ⟨position, raw, hraw, hread⟩ := ih hothers hr
      exact ⟨position, raw, List.mem_cons_of_mem _ hraw, hread⟩

theorem readEach_map {f : α → Value} (items : List α)
    (h : ∀ position, ∀ a ∈ items, read position (f a) = .ok (.ok a)) (position : Nat) :
    readEach read position (items.map f) = .ok (items.map .ok) := by
  induction items generalizing position with
  | nil => rfl
  | cons a rest ih =>
    have hrest := ih (fun position b hb => h position b (List.mem_cons_of_mem _ hb)) (position + 1)
    simp only [List.map_cons, readEach, h position a List.mem_cons_self, hrest, bind, Except.bind]
    rfl

theorem mem_sound_iff {readings : List (Except Defect α)} {a : α} :
    a ∈ sound readings ↔ .ok a ∈ readings := by
  simp only [sound, List.mem_filterMap]
  constructor
  · rintro ⟨r, hr, ha⟩
    cases r with
    | error d => cases ha
    | ok b =>
      obtain rfl := Option.some.inj ha
      exact hr
  · exact fun h => ⟨_, h, rfl⟩

@[simp] theorem sound_map_ok (items : List α) : sound (items.map .ok) = items := by
  rw [sound, List.filterMap_map]
  exact List.filterMap_some

@[simp] theorem faulty_map_ok (items : List α) : faulty (items.map .ok) = [] := by
  simp [faulty]

/-- What is read from a list of items was read from one of them. -/
theorem exists_of_mem_sound {data : Value} {name : String} {readings : List (Except Defect α)}
    (h : readList data name read = .ok readings) {a : α} (ha : a ∈ sound readings) :
    ∃ given items, data.field name = .ok given ∧ (given.orElse (.list [])).items = .ok items ∧
      ∃ position, ∃ raw ∈ items, read position raw = .ok (.ok a) := by
  obtain ⟨given, hgiven, h⟩ := of_bind_eq_ok h
  obtain ⟨items, hitems, h⟩ := of_bind_eq_ok h
  exact ⟨given, items, hgiven, hitems, exists_of_mem_readEach h (mem_sound_iff.mp ha)⟩

theorem readList_of_lookup {fields : Record} {name : String} {f : α → Value} {items : List α}
    (hlookup : fields.lookup name = some (.list (items.map f)))
    (h : ∀ position, ∀ a ∈ items, read position (f a) = .ok (.ok a)) :
    readList (.object fields) name read = .ok (items.map .ok) := by
  simp only [readList, Value.field_object, hlookup, Option.getD_some, bind, Except.bind,
    Value.orElse_list_nil, Value.items]
  exact readEach_map items h 0

end Reading

/-- The parts that a graph was read from. -/
theorem read_eq_ok {data : Value} {g : Graph} (h : read data = .ok (.ok g)) :
    g.id ≠ "" ∧
      (∃ nodes, readList data "nodes" Node.read = .ok nodes ∧ g.nodes = sound nodes) ∧
      (∃ edges, readList data "edges" (fun _ => Edge.read) = .ok edges ∧ g.edges = sound edges) ∧
      readText data "name" g.id = .ok g.name ∧ readText data "version" "1" = .ok g.version := by
  obtain ⟨id, -, h⟩ := of_bind_eq_ok h
  obtain ⟨nodes, hnodes, h⟩ := of_bind_eq_ok h
  obtain ⟨edges, hedges, h⟩ := of_bind_eq_ok h
  obtain ⟨enabled, -, h⟩ := of_bind_eq_ok h
  dsimp only at h
  split at h
  · next hdefects =>
    obtain ⟨name, hname, h⟩ := of_bind_eq_ok h
    obtain ⟨version, hversion, h⟩ := of_bind_eq_ok h
    obtain ⟨description, -, h⟩ := of_bind_eq_ok h
    cases h
    refine ⟨fun hid => ?_, ⟨nodes, hnodes, rfl⟩, ⟨edges, hedges, rfl⟩, hname, hversion⟩
    dsimp only at hid
    simp [hid] at hdefects
  · cases h

theorem read_of_ofValue {data : Value} {g : Graph} (h : ofValue data = .ok g) :
    read data = .ok (.ok g) := by
  obtain ⟨r, hr, h⟩ := of_bind_eq_ok h
  rw [Shaped.of_toOutcome_eq_ok hr]
  cases r with
  | error e => cases h
  | ok g' => exact congrArg (Except.ok ∘ Except.ok) (Except.ok.inj h)

theorem readText_ne_empty {data : Value} {name preset s : String} (hpreset : preset ≠ "")
    (h : readText data name preset = .ok s) : s ≠ "" := by
  obtain ⟨v, -, h⟩ := of_bind_eq_ok h
  obtain rfl := Except.ok.inj h
  exact v.display_orElse_ne_empty hpreset

theorem isTidy_of_ofValue {data : Value} {g : Graph} (h : ofValue data = .ok g) : g.IsTidy := by
  obtain ⟨hid, ⟨nodes, hnodes, hn⟩, ⟨edges, hedges, he⟩, hname, hversion⟩ :=
    read_eq_ok (read_of_ofValue h)
  refine ⟨hid, readText_ne_empty hid hname, readText_ne_empty (by decide) hversion, ?_, ?_⟩
  · intro n hmem
    obtain ⟨_, _, -, -, position, raw, -, hread⟩ := exists_of_mem_sound hnodes (hn ▸ hmem)
    obtain ⟨id, hid, hnode⟩ := Node.read_eq_ok hread
    exact Node.isTidy_of_ofValue hid hnode
  · intro e hmem
    obtain ⟨_, _, -, -, position, raw, -, hread⟩ := exists_of_mem_sound hedges (he ▸ hmem)
    exact Edge.isTidy_of_read hread

theorem readText_of_lookup {fields : Record} {name preset s : String}
    (h : fields.lookup name = some (.text s)) (hs : s = "" → preset = "") :
    readText (.object fields) name preset = .ok s := by
  have hread : ((Value.text s).orElse (.text preset)).display = s := by
    by_cases hne : s = ""
    · rw [hne, hs hne]
      rfl
    · rw [Value.orElse_text hne, Value.display_text]
  simp only [readText, Value.field_object, h, Option.getD_some, bind, Except.bind, hread]
  rfl

/-- A graph that names everything is read from its canonical form. -/
theorem ofValue_of_isTidy {g : Graph} (h : g.IsTidy) : ofValue g.toValue = .ok g := by
  have hid : g.toValue.firstField ["id", "graph_id"] = .ok (.text g.id) :=
    Value.firstField_of_given _ rfl (Value.isGiven_text.mpr h.id)
  have hnodes : readList g.toValue "nodes" Node.read = .ok (g.nodes.map .ok) :=
    readList_of_lookup rfl fun position n hn => Node.read_toValue (h.nodes n hn) position
  have hedges : readList g.toValue "edges" (fun _ => Edge.read) = .ok (g.edges.map .ok) :=
    readList_of_lookup rfl fun _ e he => Edge.read_toValue (h.edges e he)
  have henabled : readEnabled g.toValue = .ok (.ok g.enabled) := rfl
  have hname : readText g.toValue "name" g.id = .ok g.name :=
    readText_of_lookup rfl fun hempty => absurd hempty h.name
  have hversion : readText g.toValue "version" "1" = .ok g.version :=
    readText_of_lookup rfl fun hempty => absurd hempty h.version
  have hdescription : readText g.toValue "description" "" = .ok g.description :=
    readText_of_lookup rfl fun _ => rfl
  have hread : read g.toValue = .ok (.ok g) := by
    simp only [read, hid, hnodes, hedges, henabled, hname, hversion, hdescription, bind,
      Except.bind, Value.text_orElse_empty, Value.display_text, if_neg h.id, faulty_map_ok,
      sound_map_ok]
    rfl
  rw [ofValue, hread]
  rfl

/-- The canonical form of authored data that describes a graph. -/
def canonical (data : Value) : Outcome Value := (ofValue data).map toValue

/-- Every graph that is read is read again from its canonical form, which is its own canonical
form. -/
theorem ofValue_toValue_of_ofValue (data : Value) (g : Graph) (h : ofValue data = .ok g) :
    ofValue g.toValue = .ok g ∧ canonical data = .ok g.toValue ∧
      canonical g.toValue = .ok g.toValue := by
  have hagain : ofValue g.toValue = .ok g := ofValue_of_isTidy (isTidy_of_ofValue h)
  exact ⟨hagain, by rw [canonical, h]; rfl, by rw [canonical, hagain]; rfl⟩

end Graph

namespace Sample

/-- A graph in the dialect of an older editor, with numbers for names and separate units of time. -/
def older : Value :=
  .object [("graph_id", .int 7), ("version", .float (Number.Binary64.zero true)),
    ("is_active", .null), ("nodes", .list [
      .object [("id", .text "t"), ("node_type", .text "trigger"),
        ("config", .object [("kind", .text "stage_change"), ("to_stage_id", .int 0),
          ("inactivity_days", .text " 3 "), ("keyword", .text "")])],
      .object [("id", .text "c"), ("type", .text "condition"),
        ("data", .object [("condition_field", .text "has_tag"), ("condition_value", .bool true)])],
      .object [("id", .int 1), ("type", .text "action"),
        ("data", .object [("actionType", .text "add_tag"), ("label", .text "Tag"),
          ("tag_id", .text "vip")])],
      .object [("id", .text "d"), ("type", .text "delay"),
        ("data", .object [("delay_hours", .int 1), ("minutes", .text "30")])]]),
    ("edges", .list [
      .object [("source", .text "t"), ("target", .text "c"), ("branch", .text "default")],
      .object [("source_node_id", .text "c"), ("target", .int 1), ("sourceHandle", .bool true)],
      .object [("source", .text "c"), ("target", .text "d"), ("source_handle", .text "FALSE")]])]

def olderGraph : Graph where
  id := "7"
  name := "7"
  version := "1"
  nodes := [
    ⟨"t", "", .trigger .leadStageChanged { toStageId := some "0", inactivityDays := some 3 }⟩,
    ⟨"c", "", .condition (.tag "True")⟩,
    ⟨"1", "Tag", .action .addTag [("tag_id", .text "vip")]⟩,
    ⟨"d", "", .delay 90 (some .minutes)⟩]
  edges := [⟨"t", "c", none⟩, ⟨"c", "1", some .onTrue⟩, ⟨"c", "d", some .onFalse⟩]
  enabled := true
  description := ""

theorem ofValue_older : Graph.ofValue older = .ok olderGraph := by decide +kernel

theorem canonical_older : Graph.ofValue older = .ok olderGraph ∧
    Graph.ofValue olderGraph.toValue = .ok olderGraph ∧
      Graph.canonical older = .ok olderGraph.toValue ∧
        Graph.canonical olderGraph.toValue = .ok olderGraph.toValue :=
  ⟨ofValue_older, Graph.ofValue_toValue_of_ofValue older olderGraph ofValue_older⟩

end Sample
end WorkflowEngine

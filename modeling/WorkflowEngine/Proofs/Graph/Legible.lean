import WorkflowEngine.Proofs.Graph.Canonical
import WorkflowEngine.Proofs.Visit.Stumped

/-!
# Legible data

Most faults of authored data are defects of the graph, which are collected and reported together.
The reading ends without a report if an object is expected and something else is found: for a node,
for an edge, or for the data of a node wherever a field of it is looked for. So it is the shape of
the data down to the nodes' data that decides whether a graph can be read at all.
-/
namespace WorkflowEngine

/-- A computation fails with an error of a kind, if it fails. -/
def FailsOnly {ε α : Type} (P : ε → Prop) (x : Except ε α) : Prop := ∀ e, x = .error e → P e

namespace FailsOnly

variable {ε α β : Type} {P : ε → Prop}

theorem ok (a : α) : FailsOnly P (.ok a : Except ε α) := nofun

theorem error {e : ε} (h : P e) : FailsOnly P (.error e : Except ε α) := by
  rintro _ ⟨⟩
  exact h

theorem bind {x : Except ε α} {f : α → Except ε β} (hx : FailsOnly P x)
    (hf : ∀ a, FailsOnly P (f a)) : FailsOnly P (x >>= f) := by
  intro e h
  rcases of_bind_eq_error h with h | ⟨a, -, h⟩
  · exact hx e h
  · exact hf a e h

end FailsOnly

/-- A reading fails only in ways that are reported with a node. -/
abbrev Shaped.IsReportable {α : Type} (x : Shaped α) : Prop :=
  FailsOnly (fun e => e.isReportable = true) x

namespace Value

/-- The first given one of several fields; the last one if none is given. -/
def first (fields : Record) : List String → Value
  | [] => .null
  | [name] => (fields.lookup name).getD .null
  | name :: rest => ((fields.lookup name).getD .null).orElse (first fields rest)

theorem firstField_object (fields : Record) (names : List String) :
    firstField (.object fields) names = .ok (first fields names) := by
  induction names with
  | nil => rfl
  | cons name rest ih =>
    cases rest with
    | nil => rfl
    | cons other rest =>
      have hstep : firstField (.object fields) (name :: other :: rest) =
          if ((fields.lookup name).getD .null).isGiven then .ok ((fields.lookup name).getD .null)
          else firstField (.object fields) (other :: rest) := rfl
      have hfirst : first fields (name :: other :: rest) =
          ((fields.lookup name).getD .null).orElse (first fields (other :: rest)) := rfl
      rw [hstep, ih, hfirst, orElse]
      split <;> rfl

variable {v : Value} {name : String}

theorem exists_of_isObject (h : v.isObject = true) : ∃ fields, v = .object fields := by
  cases v <;> first | exact ⟨_, rfl⟩ | cases h

theorem field_of_not_isObject (h : v.isObject = false) :
    v.field name = .error (.lacks v.kindName "get") := by
  cases v <;> first | rfl | cases h

theorem firstField_of_not_isObject (h : v.isObject = false) (names : List String) :
    v.firstField (name :: names) = .error (.lacks v.kindName "get") := by
  cases names with
  | nil => exact field_of_not_isObject h
  | cons other names =>
    have hstep : v.firstField (name :: other :: names) = (v.field name >>= fun value =>
      if value.isGiven then .ok value else v.firstField (other :: names)) := rfl
    rw [hstep, field_of_not_isObject h]
    rfl

theorem fields_of_not_isObject (h : v.isObject = false) (operation : String) :
    v.fields operation = .error (.lacks v.kindName operation) := by
  cases v <;> first | rfl | cases h

theorem toInteger_isReportable (v : Value) : v.toInteger.IsReportable := by
  intro e h
  cases v with
  | text s =>
    simp only [toInteger] at h
    split at h <;> cases h <;> rfl
  | null | list | object => cases h; rfl
  | bool | int | float => cases h

theorem display_orElse_eq_empty_iff :
    (v.orElse (.text "")).display = "" ↔ v.isGiven = false := by
  cases hgiven : v.isGiven with
  | true =>
    rw [orElse_of_isGiven hgiven]
    exact iff_of_false (display_ne_empty (ne_empty_of_isGiven hgiven)) (by simp)
  | false =>
    rw [orElse_of_not_isGiven hgiven]
    exact iff_of_true rfl rfl

end Value

theorem Choice.ofValue_isReportable (α : Type) [Choice α] (v : Value) :
    (Choice.ofValue α v).IsReportable := by
  intro e h
  unfold ofValue at h
  split at h
  · split at h <;> cases h
    rfl
  · cases h
    rfl

section Readers

variable {fields : Record}

theorem field_isReportable (name : String) : ((Value.object fields).field name).IsReportable :=
  .ok _

theorem firstField_isReportable (names : List String) :
    ((Value.object fields).firstField names).IsReportable := by
  rw [Value.firstField_object]
  exact .ok _

theorem required_isReportable (name : String) :
    ((Value.object fields).required name).IsReportable := by
  unfold Value.required
  dsimp only
  split
  · exact .ok _
  · exact .error rfl

namespace TriggerFilters

theorem readText_isReportable (name : String) : (readText (.object fields) name).IsReportable :=
  .bind (field_isReportable name) fun _ => .ok _

theorem readInteger_isReportable (name : String) :
    (readInteger (.object fields) name).IsReportable := by
  refine .bind (field_isReportable name) fun v => ?_
  split
  · exact .ok _
  · exact .bind v.toInteger_isReportable fun _ => .ok _

theorem ofValue_isReportable : (ofValue (.object fields)).IsReportable :=
  .bind (readText_isReportable _) fun _ => .bind (readText_isReportable _) fun _ =>
    .bind (readText_isReportable _) fun _ => .bind (readText_isReportable _) fun _ =>
      .bind (readText_isReportable _) fun _ => .bind (readText_isReportable _) fun _ =>
        .bind (readInteger_isReportable _) fun _ => .ok _

end TriggerFilters

theorem Value.key_isReportable (v : Value) : v.key.IsReportable := by
  intro e h
  cases v <;> cases h <;> rfl

namespace NodeBody

theorem triggerKind_isReportable (v : Value) : (triggerKind v).IsReportable := by
  refine .bind v.key_isReportable fun _ => ?_
  split
  · exact .ok _
  · exact Choice.ofValue_isReportable TriggerKind v

theorem readTrigger_isReportable : (readTrigger (.object fields)).IsReportable :=
  .bind (firstField_isReportable _) fun _ => .bind (triggerKind_isReportable _) fun _ =>
    .bind TriggerFilters.ofValue_isReportable fun _ => .ok _

theorem actionParams_isReportable : (actionParams (.object fields)).IsReportable := by
  refine .bind (field_isReportable _) fun v => ?_
  split
  · exact .ok _
  · exact .bind (.ok fields) fun _ => .ok _

theorem readAction_isReportable {raw : Record} :
    (readAction (.object raw) (.object fields)).IsReportable := by
  refine .bind (firstField_isReportable _) fun own => .bind (field_isReportable _) fun given => ?_
  have hnamed (named : Value) : Shaped.IsReportable (do
      let kind ← Choice.ofValue ActionKind named
      return NodeBody.action kind (← actionParams (.object fields))) :=
    .bind (Choice.ofValue_isReportable ActionKind named) fun _ =>
      .bind actionParams_isReportable fun _ => .ok _
  dsimp only
  split
  · exact .bind (.ok _) hnamed
  · exact .bind (required_isReportable _) hnamed

theorem readUnit_isReportable : (readUnit (.object fields)).IsReportable := by
  refine .bind (firstField_isReportable _) fun unit => ?_
  split
  · exact .bind (Choice.ofValue_isReportable DelayUnit unit) fun _ => .ok _
  · exact .ok _

theorem readCount_isReportable (names : List String) :
    (readCount (.object fields) names).IsReportable :=
  .bind (firstField_isReportable names) fun _ => Value.toInteger_isReportable _

theorem readDelay_isReportable : (readDelay (.object fields)).IsReportable := by
  refine .bind (.ok ()) fun _ => .bind (.ok fields) fun _ => ?_
  split
  · exact .bind (Value.toInteger_isReportable _) fun _ => .bind readUnit_isReportable fun _ => .ok _
  · exact .bind (Value.toInteger_isReportable _) fun _ => .bind readUnit_isReportable fun _ => .ok _
  · exact .bind (readCount_isReportable _) fun _ => .bind (readCount_isReportable _) fun _ =>
      .bind (readCount_isReportable _) fun _ => .ok _

end NodeBody

end Readers

/-- A fault is reported with its node. -/
abbrev NodeFault.IsReportable (fault : NodeFault) : Prop := fault.fatal? = none

theorem Shaped.forNode_isReportable {α : Type} {x : Shaped α} (h : x.IsReportable) :
    FailsOnly NodeFault.IsReportable x.forNode := by
  cases x with
  | ok a => exact .ok a
  | error e =>
    have hreportable : e.isReportable = true := h e rfl
    exact .error (by simp [NodeFault.IsReportable, NodeFault.fatal?, hreportable])

namespace Predicate

/-- An error of a condition is reported with its node. -/
abbrev Reported (e : ConditionError) : Prop := (NodeFault.condition e).IsReportable

theorem forCondition_isReportable {α : Type} {x : Shaped α} (h : x.IsReportable) :
    FailsOnly Reported x.forCondition := by
  cases x with
  | ok a => exact .ok a
  | error e =>
    have hreportable : e.isReportable = true := h e rfl
    exact .error (by simp [Reported, NodeFault.IsReportable, NodeFault.fatal?, hreportable])

variable {fields : Record}

theorem ofField_isReportable (path operator operand : Value) :
    FailsOnly Reported (ofField path operator operand) := by
  unfold ofField
  split
  · split
    · exact .error rfl
    · split
      · exact .ok _
      · exact .error rfl
  · exact .error rfl

theorem ofTag_isReportable (tag : Value) : FailsOnly Reported (ofTag tag) := by
  unfold ofTag
  split
  · exact .ok _
  · exact .error rfl

theorem ofTyped_isReportable (type : Value) :
    FailsOnly Reported (ofTyped type (.object fields)) := by
  have hfield (name : String) : FailsOnly Reported
      ((Value.object fields).field name).forCondition :=
    forCondition_isReportable (field_isReportable name)
  unfold ofTyped
  split
  · exact .bind (hfield _) fun _ => .bind (hfield _) fun _ => .bind (hfield _) fun _ =>
      ofField_isReportable _ _ _
  · exact .bind (forCondition_isReportable (firstField_isReportable _)) fun _ =>
      ofTag_isReportable _
  · exact .ok _
  · exact .ok _
  · split
    · exact .ok _
    · exact .error rfl
  · exact .bind (forCondition_isReportable type.key_isReportable) fun _ => .error rfl

theorem ofEditor_isReportable (path : Value) :
    FailsOnly Reported (ofEditor path (.object fields)) := by
  have hfield (name : String) : FailsOnly Reported
      ((Value.object fields).field name).forCondition :=
    forCondition_isReportable (field_isReportable name)
  refine .bind (hfield _) fun _ => .bind (hfield _) fun _ => ?_
  split
  · exact ofTag_isReportable _
  · exact ofField_isReportable _ _ _

theorem ofValue_isReportable : FailsOnly Reported (ofValue (.object fields)) := by
  refine .bind (.ok _) fun inner => ?_
  -- the fields are those of the data, or those of the predicate in it
  dsimp only
  split <;> refine .bind (forCondition_isReportable (firstField_isReportable _)) fun type => ?_
  all_goals
    split
    · exact ofEditor_isReportable _
    · exact ofTyped_isReportable _

end Predicate

namespace NodeBody

/-- If the data of a node is an object, whatever is wrong with it is reported. -/
theorem ofTyped_isReportable (type : Value) (raw fields : Record) :
    FailsOnly NodeFault.IsReportable (ofTyped type (.object raw) (.object fields)) := by
  unfold ofTyped
  split
  · exact Shaped.forNode_isReportable readTrigger_isReportable
  · have h : FailsOnly Predicate.Reported (Predicate.ofValue (.object fields)) :=
      Predicate.ofValue_isReportable
    split
    · exact .ok _
    · next e herror => exact .error (h e herror)
  · exact Shaped.forNode_isReportable readAction_isReportable
  · exact Shaped.forNode_isReportable readDelay_isReportable
  · exact .error rfl

theorem ofTyped_condition_of_error {raw data : Value} {e : ConditionError}
    (h : Predicate.ofValue data = .error e) :
    ofTyped (Choice.toValue NodeKind.condition) raw data = .error (.condition e) := by
  have htype : Choice.toValue NodeKind.condition = .text "condition" := rfl
  rw [htype, ofTyped, h]

end NodeBody

namespace Node

/-- The data of an authored node: an object without fields if none is given. -/
def dataOf (raw : Record) : Value := (Value.first raw ["data", "config"]).orElse (.object [])

def typeOf (raw : Record) : Value := Value.first raw ["type", "node_type"]

/-- Something that can have no members, or has the name of a predicate for one. -/
def RefusesPredicate (data : Value) : Prop :=
  (∀ items, data = .list items → .text "predicate" ∈ items) ∧
    ∀ s, data = .text s → Text.occurs "predicate" s = true

/-- An authored node is read, or its defect is reported. If its data is no object, no field of the
data may be looked for: it has a label of its own, and a type that has no use for the data. -/
inductive IsLegible : Value → Prop
  | nameless {raw : Record} (hid : (Value.first raw ["id"]).isGiven = false) :
      IsLegible (.object raw)
  | structured {raw : Record} (hdata : (dataOf raw).isObject = true) : IsLegible (.object raw)
  | untyped {raw : Record} (hlabel : (Value.first raw ["label"]).isGiven = true)
      (htype : ∀ kind : NodeKind, typeOf raw ≠ Choice.toValue kind) : IsLegible (.object raw)
  | condition {raw : Record} (hlabel : (Value.first raw ["label"]).isGiven = true)
      (htype : typeOf raw = Choice.toValue NodeKind.condition)
      (hdata : RefusesPredicate (dataOf raw)) : IsLegible (.object raw)
  | delay {raw : Record} (hlabel : (Value.first raw ["label"]).isGiven = true)
      (htype : typeOf raw = Choice.toValue NodeKind.delay)
      (hdata : ∀ items s, dataOf raw ≠ .list items ∧ dataOf raw ≠ .text s) :
      IsLegible (.object raw)

variable {raw : Record} {id : String} {position : Nat}

theorem ofValue_object : ofValue id (.object raw) = (do
    let label ← (readLabel (.object raw) (dataOf raw)).forNode
    return ⟨id, label, ← NodeBody.ofTyped (typeOf raw) (.object raw) (dataOf raw)⟩) := by
  rw [ofValue, Value.firstField_object, Value.firstField_object]
  rfl

theorem readLabel_of_isGiven (data : Value) (h : (Value.first raw ["label"]).isGiven = true) :
    readLabel (.object raw) data = .ok (Value.first raw ["label"]).display := by
  have hlabel : readLabel (.object raw) data = if (Value.first raw ["label"]).isGiven then
    .ok (Value.first raw ["label"]).display
    else (do return ((← data.field "label").orElse (.text "")).display) := rfl
  rw [hlabel, if_pos h]

theorem readLabel_isReportable (fields : Record) :
    (readLabel (.object raw) (.object fields)).IsReportable := by
  refine .bind (field_isReportable _) fun own => ?_
  split
  · exact .ok _
  · exact .bind (field_isReportable _) fun _ => .ok _

section Unstructured

variable {data : Value}

theorem ofTyped_isReportable_of_unknown {type : Value}
    (htype : ∀ kind : NodeKind, type ≠ Choice.toValue kind) :
    FailsOnly NodeFault.IsReportable (NodeBody.ofTyped type (.object raw) data) := by
  unfold NodeBody.ofTyped
  split
  · exact absurd rfl (htype .trigger)
  · exact absurd rfl (htype .condition)
  · exact absurd rfl (htype .action)
  · exact absurd rfl (htype .delay)
  · exact .error rfl

theorem ofTyped_isReportable_of_refuses (hdata : RefusesPredicate data) :
    FailsOnly NodeFault.IsReportable
      (NodeBody.ofTyped (Choice.toValue NodeKind.condition) (.object raw) data) := by
  have hrefused {e : ShapeError} (h : data.member? "predicate" = .error e)
      (he : e.isReportable = true) : FailsOnly NodeFault.IsReportable
        (NodeBody.ofTyped (Choice.toValue NodeKind.condition) (.object raw) data) := by
    have hvalue : Predicate.ofValue data = .error (.shape e) := by
      rw [Predicate.ofValue, h]
      rfl
    rw [NodeBody.ofTyped_condition_of_error hvalue]
    exact .error (by simp [NodeFault.IsReportable, NodeFault.fatal?, he])
  cases data with
  | object fields => exact NodeBody.ofTyped_isReportable _ _ fields
  | list items => exact hrefused (if_pos (by simpa using hdata.1 items rfl)) rfl
  | text s => exact hrefused (if_pos (hdata.2 s rfl)) rfl
  | null | bool | int | float => exact hrefused rfl rfl

theorem ofTyped_isReportable_of_scalar
    (hdata : ∀ items s, data ≠ .list items ∧ data ≠ .text s) :
    FailsOnly NodeFault.IsReportable
      (NodeBody.ofTyped (Choice.toValue NodeKind.delay) (.object raw) data) := by
  cases data with
  | object fields => exact NodeBody.ofTyped_isReportable _ _ fields
  | list items => exact absurd rfl (hdata items "").1
  | text s => exact absurd rfl (hdata [] s).2
  | null | bool | int | float => exact .error rfl

theorem member?_of_not_refuses (hobject : data.isObject = false) (h : ¬ RefusesPredicate data) :
    data.member? "predicate" = .ok none := by
  cases data with
  | object fields => cases hobject
  | list items => exact if_neg fun hmem => h ⟨by simpa using hmem, nofun⟩
  | text s => exact if_neg fun hoccurs => h ⟨nofun, by simpa using hoccurs⟩
  | null | bool | int | float => exact absurd ⟨nofun, nofun⟩ h

theorem checkHolds_of_not_scalar (h : ¬ ∀ items s, data ≠ .list items ∧ data ≠ .text s) :
    data.checkHolds = .ok () := by
  cases data with
  | object | list | text => rfl
  | null | bool | int | float => exact absurd (fun _ _ => ⟨nofun, nofun⟩) h

end Unstructured

/-- What is wrong with a legible node is reported. -/
theorem ofValue_isReportable (hid : (Value.first raw ["id"]).isGiven = true)
    (h : IsLegible (.object raw)) : FailsOnly NodeFault.IsReportable (ofValue id (.object raw)) := by
  rw [ofValue_object]
  have hlabelled (hlabel : (Value.first raw ["label"]).isGiven = true)
      (hbody : FailsOnly NodeFault.IsReportable
        (NodeBody.ofTyped (typeOf raw) (.object raw) (dataOf raw))) :
      FailsOnly NodeFault.IsReportable (do
        let label ← (readLabel (.object raw) (dataOf raw)).forNode
        return Node.mk id label (← NodeBody.ofTyped (typeOf raw) (.object raw) (dataOf raw))) := by
    rw [readLabel_of_isGiven _ hlabel]
    exact .bind (.ok _) fun _ => .bind hbody fun _ => .ok _
  cases h with
  | nameless hnone => simp [hid] at hnone
  | structured hdata =>
    obtain ⟨fields, hfields⟩ := Value.exists_of_isObject hdata
    rw [hfields]
    exact .bind (Shaped.forNode_isReportable (readLabel_isReportable fields)) fun _ =>
      .bind (NodeBody.ofTyped_isReportable _ _ _) fun _ => .ok _
  | untyped hlabel htype => exact hlabelled hlabel (ofTyped_isReportable_of_unknown htype)
  | condition hlabel htype hdata =>
    rw [htype] at hlabelled ⊢
    exact hlabelled hlabel (ofTyped_isReportable_of_refuses hdata)
  | delay hlabel htype hdata =>
    rw [htype] at hlabelled ⊢
    exact hlabelled hlabel (ofTyped_isReportable_of_scalar hdata)

/-- Data that is no object is looked into for a field, unless the node is legible all the same. -/
theorem ofTyped_of_not_isLegible {kind : NodeKind} (h : ¬ IsLegible (.object raw))
    (hdata : (dataOf raw).isObject = false) (hlabel : (Value.first raw ["label"]).isGiven = true)
    (hkind : typeOf raw = Choice.toValue kind) :
    ∃ fault, NodeBody.ofTyped (Choice.toValue kind) (.object raw) (dataOf raw) = .error fault ∧
      fault.fatal? = some (.lacks (dataOf raw).kindName "get") := by
  have hfirst (name : String) (names : List String) :
      (dataOf raw).firstField (name :: names) = .error (.lacks (dataOf raw).kindName "get") :=
    Value.firstField_of_not_isObject hdata names
  cases kind with
  | trigger =>
    refine ⟨.shape (.lacks (dataOf raw).kindName "get"), ?_, rfl⟩
    change (NodeBody.readTrigger (dataOf raw)).forNode = _
    rw [NodeBody.readTrigger, hfirst]
    rfl
  | condition =>
    have hmember := member?_of_not_refuses hdata fun hrefuses =>
      h (.condition hlabel hkind hrefuses)
    have hvalue : Predicate.ofValue (dataOf raw) =
        .error (.shape (.lacks (dataOf raw).kindName "get")) := by
      rw [Predicate.ofValue, hmember]
      change (((dataOf raw).firstField ["type", "condition_type"]).forCondition >>= _) = _
      rw [hfirst]
      rfl
    exact ⟨_, NodeBody.ofTyped_condition_of_error hvalue, rfl⟩
  | action =>
    refine ⟨.shape (.lacks (dataOf raw).kindName "get"), ?_, rfl⟩
    change (NodeBody.readAction (.object raw) (dataOf raw)).forNode = _
    rw [NodeBody.readAction, hfirst]
    rfl
  | delay =>
    have hholds := checkHolds_of_not_scalar fun hscalar => h (.delay hlabel hkind hscalar)
    refine ⟨.shape (.lacks (dataOf raw).kindName "get"), ?_, rfl⟩
    change (NodeBody.readDelay (dataOf raw)).forNode = _
    rw [NodeBody.readDelay, hholds, Value.fields_of_not_isObject hdata]
    rfl

/-- An illegible node ends the reading. -/
theorem ofValue_of_not_isLegible (id : String) (h : ¬ IsLegible (.object raw)) :
    ∃ fault, ofValue id (.object raw) = .error fault ∧
      fault.fatal? = some (.lacks (dataOf raw).kindName "get") := by
  have hdata : (dataOf raw).isObject = false := Bool.eq_false_iff.mpr fun hdata =>
    h (.structured hdata)
  rw [ofValue_object]
  cases hlabel : (Value.first raw ["label"]).isGiven with
  | false =>
    refine ⟨.shape (.lacks (dataOf raw).kindName "get"), ?_, rfl⟩
    have hread : readLabel (.object raw) (dataOf raw) = if (Value.first raw ["label"]).isGiven then
      .ok (Value.first raw ["label"]).display
      else (do return ((← (dataOf raw).field "label").orElse (.text "")).display) := rfl
    rw [hread, hlabel, Value.field_of_not_isObject hdata]
    rfl
  | true =>
    obtain ⟨kind, hkind⟩ : ∃ kind : NodeKind, typeOf raw = Choice.toValue kind := by
      by_contra hnone
      exact h (.untyped hlabel (not_exists.mp hnone))
    obtain ⟨fault, hbody, hfatal⟩ := ofTyped_of_not_isLegible h hdata hlabel hkind
    refine ⟨fault, ?_, hfatal⟩
    rw [readLabel_of_isGiven _ hlabel, hkind, hbody]
    rfl

/-- The identifier of an authored node, empty if it has none. -/
def idOf (raw : Record) : String := ((Value.first raw ["id"]).orElse (.text "")).display

theorem read_of_not_isGiven (hid : (Value.first raw ["id"]).isGiven = false) :
    read position (.object raw) = .ok (.error (.missingNodeId position)) := by
  have hread : readId (.object raw) = .ok "" :=
    congrArg Except.ok (Value.display_orElse_eq_empty_iff.mpr hid)
  rw [read, hread]
  rfl

theorem read_of_isGiven (hid : (Value.first raw ["id"]).isGiven = true) :
    read position (.object raw) = match ofValue (idOf raw) (.object raw) with
      | .ok node => .ok (.ok node)
      | .error fault =>
        match fault.fatal? with
        | some e => .error e
        | none => .ok (.error (.invalidNode (idOf raw) fault)) := by
  have hne : idOf raw ≠ "" := fun hempty => by
    simp [Value.display_orElse_eq_empty_iff.mp hempty] at hid
  have hread : readId (.object raw) = .ok (idOf raw) := rfl
  rw [read, hread]
  change (if idOf raw = "" then _ else _) = _
  rw [if_neg hne]
  rfl

theorem read_of_isLegible {value : Value} (h : IsLegible value) :
    ∃ reading, read position value = .ok reading := by
  obtain ⟨raw, rfl⟩ : ∃ raw, value = .object raw := by cases h <;> exact ⟨_, rfl⟩
  cases hid : (Value.first raw ["id"]).isGiven with
  | false => exact ⟨_, read_of_not_isGiven hid⟩
  | true =>
    rw [read_of_isGiven hid]
    cases hnode : ofValue (idOf raw) (.object raw) with
    | ok node => exact ⟨_, rfl⟩
    | error fault =>
      have hreported : fault.fatal? = none := ofValue_isReportable hid h fault hnode
      exact ⟨.error (.invalidNode (idOf raw) fault), by simp only [hreported]⟩

theorem read_of_not_isLegible {value : Value} (h : ¬ IsLegible value) :
    ∃ kind, read position value = .error (.lacks kind "get") := by
  cases value with
  | object raw =>
    have hid : (Value.first raw ["id"]).isGiven = true :=
      Bool.eq_true_of_not_eq_false fun hnone => h (.nameless hnone)
    obtain ⟨fault, hnode, hfatal⟩ := ofValue_of_not_isLegible (idOf raw) h
    exact ⟨(dataOf raw).kindName, by simp only [read_of_isGiven hid, hnode, hfatal]⟩
  | null | bool | int | float | text | list => exact ⟨_, rfl⟩

end Node

namespace Edge

theorem read_object (raw : Record) : ∃ reading, read (.object raw) = .ok reading := by
  have hend (names : List String) : ∃ text, readEnd (.object raw) names = .ok text := by
    rw [readEnd, Value.firstField_object]
    exact ⟨_, rfl⟩
  obtain ⟨source, hsource⟩ := hend ["source", "source_node_id"]
  obtain ⟨target, htarget⟩ := hend ["target", "target_node_id"]
  rw [read, hsource, htarget, Value.firstField_object]
  simp only [Value.field_object, bind, Except.bind, pure, Except.pure]
  split
  · exact ⟨_, rfl⟩
  · split
    · exact ⟨_, rfl⟩
    · split <;> exact ⟨_, rfl⟩

theorem read_of_not_isObject {value : Value} (h : value.isObject = false) :
    read value = .error (.lacks value.kindName "get") := by
  rw [read, readEnd, Value.firstField_of_not_isObject h]
  rfl

end Edge

namespace Graph

/-- The reading of a graph ends with this error. -/
inductive EndsReading : ShapeError → Prop
  | lacks (kind : String) : EndsReading (.lacks kind "get")
  | notIterable (kind : String) : EndsReading (.notIterable kind)

/-- What is given under a name, if anything, is a list of items of a form. -/
def Lists (d : Record) (name : String) (P : Value → Prop) : Prop :=
  (Value.first d [name]).isGiven = true →
    ∃ items, Value.first d [name] = .list items ∧ ∀ v ∈ items, P v

/-- A graph is read, or its defects are reported: its nodes and edges are lists, the nodes are
legible, and the edges are objects. -/
structure IsLegible (d : Record) : Prop where
  nodes : Lists d "nodes" Node.IsLegible
  edges : Lists d "edges" (·.isObject = true)

section Items

variable {α : Type} {read : Nat → Value → Shaped (Except Defect α)} {P : Value → Prop}
  {items : List Value} {d : Record} {name : String}
  (hread : ∀ position v, P v → ∃ reading, read position v = .ok reading)
  (hends : ∀ position v, ¬ P v → ∃ kind, read position v = .error (.lacks kind "get"))

include hread

theorem readEach_of_forall (position : Nat) (h : ∀ v ∈ items, P v) :
    ∃ readings, readEach read position items = .ok readings := by
  induction items generalizing position with
  | nil => exact ⟨[], rfl⟩
  | cons v rest ih =>
    obtain ⟨first, hfirst⟩ := hread position v (h v List.mem_cons_self)
    obtain ⟨others, hothers⟩ := ih (position + 1) fun w hw => h w (List.mem_cons_of_mem _ hw)
    refine ⟨first :: others, ?_⟩
    rw [readEach, hfirst]
    change (readEach read (position + 1) rest >>= _) = _
    rw [hothers]
    rfl

theorem readList_of_lists (h : Lists d name P) :
    ∃ readings, readList (.object d) name read = .ok readings := by
  have hlist : readList (.object d) name read =
      ((Value.first d [name]).orElse (.list [])).items >>= readEach read 0 := rfl
  cases hgiven : (Value.first d [name]).isGiven with
  | false =>
    rw [hlist, Value.orElse_of_not_isGiven hgiven]
    exact ⟨[], rfl⟩
  | true =>
    obtain ⟨items, hitems, hall⟩ := h hgiven
    rw [hlist, Value.orElse_of_isGiven hgiven, hitems]
    exact readEach_of_forall hread 0 hall

include hends

theorem readEach_of_exists (position : Nat) (h : ∃ v ∈ items, ¬ P v) :
    ∃ kind, readEach read position items = .error (.lacks kind "get") := by
  induction items generalizing position with
  | nil => simp at h
  | cons v rest ih =>
    by_cases hv : P v
    · obtain ⟨first, hfirst⟩ := hread position v hv
      obtain ⟨kind, hkind⟩ := ih (position + 1) (by simpa [hv] using h)
      refine ⟨kind, ?_⟩
      rw [readEach, hfirst]
      change (readEach read (position + 1) rest >>= _) = _
      rw [hkind]
      rfl
    · obtain ⟨kind, hkind⟩ := hends position v hv
      refine ⟨kind, ?_⟩
      rw [readEach, hkind]
      rfl

/-- The keys of an object and the characters of a text are no items of the form. -/
theorem readList_of_not_lists (htext : ∀ s, ¬ P (.text s)) (h : ¬ Lists d name P) :
    ∃ e, readList (.object d) name read = .error e ∧ EndsReading e := by
  have hlist : readList (.object d) name read =
      ((Value.first d [name]).orElse (.list [])).items >>= readEach read 0 := rfl
  rw [Lists, Classical.not_imp] at h
  obtain ⟨hgiven, hnone⟩ := h
  rw [hlist, Value.orElse_of_isGiven hgiven]
  have hends' {items : List Value} (hitems : (Value.first d [name]).items = .ok items)
      (hsome : ∃ v ∈ items, ¬ P v) :
      ∃ e, (Value.first d [name]).items >>= readEach read 0 = .error e ∧ EndsReading e := by
    obtain ⟨kind, hkind⟩ := readEach_of_exists hread hends 0 hsome
    exact ⟨_, by rw [hitems]; exact hkind, .lacks kind⟩
  cases hvalue : Value.first d [name] with
  | list items =>
    rw [hvalue] at hends' hnone
    refine hends' rfl ?_
    by_contra hall
    exact hnone ⟨items, rfl, by simpa using hall⟩
  | object fields =>
    rw [hvalue] at hends' hgiven
    obtain ⟨field, rest, rfl⟩ : ∃ field rest, fields = field :: rest :=
      List.exists_cons_of_ne_nil (by simpa [Value.isGiven] using hgiven)
    exact hends' rfl ⟨.text field.1, by simp, htext _⟩
  | text s =>
    rw [hvalue] at hends' hgiven
    obtain ⟨c, rest, hs⟩ : ∃ c rest, s.toList = c :: rest :=
      List.exists_cons_of_ne_nil (by simpa using hgiven)
    exact hends' rfl ⟨.text (String.singleton c), by simp [hs], htext _⟩
  | null | bool | int | float => exact ⟨_, rfl, .notIterable _⟩

end Items

variable {d : Record}

theorem readNodes_of_lists (h : Lists d "nodes" Node.IsLegible) :
    ∃ readings, readList (.object d) "nodes" Node.read = .ok readings :=
  readList_of_lists (fun _ _ => Node.read_of_isLegible) h

theorem readEdges_of_lists (h : Lists d "edges" (·.isObject = true)) :
    ∃ readings, readList (.object d) "edges" (fun _ => Edge.read) = .ok readings := by
  refine readList_of_lists (fun _ v hv => ?_) h
  obtain ⟨raw, rfl⟩ := Value.exists_of_isObject hv
  exact Edge.read_object raw

theorem readNodes_of_not_lists (h : ¬ Lists d "nodes" Node.IsLegible) :
    ∃ e, readList (.object d) "nodes" Node.read = .error e ∧ EndsReading e :=
  readList_of_not_lists (fun _ _ => Node.read_of_isLegible) (fun _ _ => Node.read_of_not_isLegible)
    (fun _ => nofun) h

theorem readEdges_of_not_lists (h : ¬ Lists d "edges" (·.isObject = true)) :
    ∃ e, readList (.object d) "edges" (fun _ => Edge.read) = .error e ∧ EndsReading e := by
  refine readList_of_not_lists (fun _ v hv => ?_) (fun _ v hv => ?_) (fun _ => nofun) h
  · obtain ⟨raw, rfl⟩ := Value.exists_of_isObject hv
    exact Edge.read_object raw
  · exact ⟨_, Edge.read_of_not_isObject (by simpa using hv)⟩

theorem readEnabled_object (d : Record) :
    ∃ reading, readEnabled (.object d) = .ok reading := by
  have hfields : (Value.object d).fields "get" = .ok d := rfl
  rw [readEnabled, hfields]
  dsimp only [bind, Except.bind]
  split <;> exact ⟨_, rfl⟩

/-- A reading that does not end gives the graph, or at least one defect. -/
theorem read_of_isLegible (h : IsLegible d) :
    (∃ g, read (.object d) = .ok (.ok g)) ∨
      ∃ id defects, defects ≠ [] ∧ read (.object d) = .ok (.error (id, defects)) := by
  obtain ⟨nodes, hnodes⟩ := readNodes_of_lists h.nodes
  obtain ⟨edges, hedges⟩ := readEdges_of_lists h.edges
  obtain ⟨enabled, henabled⟩ := readEnabled_object d
  rw [read, Value.firstField_object, hnodes, hedges, henabled]
  simp only [bind, Except.bind, pure, Except.pure]
  generalize hdefects : _ ++ faulty nodes ++ faulty edges ++ faulty [enabled] = defects
  cases enabled with
  | ok enabled =>
    cases defects with
    | nil => exact .inl ⟨_, rfl⟩
    | cons first others => exact .inr ⟨_, _, List.cons_ne_nil first others, rfl⟩
  | error defect => exact .inr ⟨_, _, by simp [← hdefects, faulty], rfl⟩

theorem read_of_not_isLegible (h : ¬ IsLegible d) :
    ∃ e, read (.object d) = .error e ∧ EndsReading e := by
  rw [read, Value.firstField_object]
  by_cases hnodes : Lists d "nodes" Node.IsLegible
  · have hedges : ¬ Lists d "edges" (·.isObject = true) := fun hedges => h ⟨hnodes, hedges⟩
    obtain ⟨nodes, hnodes⟩ := readNodes_of_lists hnodes
    obtain ⟨e, he, hends⟩ := readEdges_of_not_lists hedges
    rw [hnodes, he]
    exact ⟨e, rfl, hends⟩
  · obtain ⟨e, he, hends⟩ := readNodes_of_not_lists hnodes
    rw [he]
    exact ⟨e, rfl, hends⟩

end Graph

end WorkflowEngine

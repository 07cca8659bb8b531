import WorkflowEngine.Proofs.Graph.Canonical
import WorkflowEngine.Proofs.Value.Agreement

/-!
# Graphs with the same canonical form

The canonical form of a graph that was read from data without repeated names has no repeated names
either. Where the canonical forms of two graphs agree, the graphs have the same parts, but for the
order of fields in the operands of conditions and in the parameters of actions.
-/
namespace WorkflowEngine

namespace Value

theorem isKeyed_of_lookup (name : String) {fields : Record} {v : Value}
    (h : (Value.object fields).isKeyed = true) (hv : fields.lookup name = some v) :
    v.isKeyed = true :=
  (isKeyed_object.mp h).2 _ (Keyed.mem_of_lookup hv)

theorem isKeyed_orElse {v w : Value} (hv : v.isKeyed = true) (hw : w.isKeyed = true) :
    (v.orElse w).isKeyed = true := by
  unfold orElse
  split
  · exact hv
  · exact hw

theorem isKeyed_of_field {v w : Value} {name : String} (hv : v.isKeyed = true)
    (h : v.field name = .ok w) : w.isKeyed = true := by
  cases v with
  | object fields =>
    cases h
    cases hlookup : fields.lookup name with
    | none => rfl
    | some w => exact isKeyed_of_lookup name hv hlookup
  | _ => cases h

theorem isKeyed_of_firstField {v w : Value} {names : List String} (hv : v.isKeyed = true)
    (h : v.firstField names = .ok w) : w.isKeyed = true := by
  induction names with
  | nil =>
    cases h
    rfl
  | cons name rest ih =>
    cases rest with
    | nil => exact isKeyed_of_field hv h
    | cons next rest =>
      obtain ⟨own, hown, h⟩ := of_bind_eq_ok h
      split at h
      · cases h
        exact isKeyed_of_field hv hown
      · exact ih h

theorem isKeyed_of_items {v : Value} {items : List Value} (hv : v.isKeyed = true)
    (h : v.items = .ok items) : ∀ w ∈ items, w.isKeyed = true := by
  cases v with
  | list own =>
    cases h
    exact isKeyed_list.mp hv
  | object fields =>
    cases h
    intro w hw
    obtain ⟨f, -, rfl⟩ := List.mem_map.mp hw
    rfl
  | text s =>
    cases h
    intro w hw
    obtain ⟨c, -, rfl⟩ := List.mem_map.mp hw
    rfl
  | _ => cases h

theorem isKeyed_filter {fields : Record} (h : (Value.object fields).isKeyed = true)
    (p : String × Value → Bool) : (Value.object (fields.filter p)).isKeyed = true := by
  rw [isKeyed_object] at h ⊢
  exact ⟨h.1.sublist (List.filter_sublist.map _), fun f hf => h.2 f (List.mem_of_mem_filter hf)⟩

theorem exists_object_of_member? {v w : Value} {name : String}
    (h : v.member? name = .ok (some w)) :
    ∃ fields, v = .object fields ∧ fields.lookup name = some w := by
  unfold member? at h
  split at h
  · exact ⟨_, rfl, Except.ok.inj h⟩
  · split at h <;> cases h
  · split at h <;> cases h
  · cases h

end Value

open Value

namespace Predicate

theorem isKeyed_ofField {path operator operand : Value} {p : Predicate}
    (hoperand : operand.isKeyed = true) (h : ofField path operator operand = .ok p) :
    p.toValue.isKeyed = true := by
  unfold ofField at h
  split at h
  · split at h
    · cases h
    · split at h
      · cases h
        simp [toValue, isKeyed, fieldsAreKeyed, hoperand]
      · cases h
  · cases h

theorem isKeyed_ofTag {tag : Value} {p : Predicate} (h : ofTag tag = .ok p) :
    p.toValue.isKeyed = true := by
  unfold ofTag at h
  split at h
  · cases h
    simp [toValue, isKeyed, fieldsAreKeyed]
  · cases h

theorem of_forCondition_eq_ok {α : Type} {x : Shaped α} {a : α} (h : x.forCondition = .ok a) :
    x = .ok a := by
  cases x <;> cases h
  rfl

theorem isKeyed_ofEditor {path data : Value} {p : Predicate} (hdata : data.isKeyed = true)
    (h : ofEditor path data = .ok p) : p.toValue.isKeyed = true := by
  obtain ⟨operator, -, h⟩ := of_bind_eq_ok h
  obtain ⟨operand, hoperand, h⟩ := of_bind_eq_ok h
  split at h
  · exact isKeyed_ofTag h
  · exact isKeyed_ofField (isKeyed_of_field hdata (of_forCondition_eq_ok hoperand)) h

theorem isKeyed_ofTyped {type data : Value} {p : Predicate} (hdata : data.isKeyed = true)
    (h : ofTyped type data = .ok p) : p.toValue.isKeyed = true := by
  unfold ofTyped at h
  split at h
  · obtain ⟨path, -, h⟩ := of_bind_eq_ok h
    obtain ⟨operator, -, h⟩ := of_bind_eq_ok h
    obtain ⟨operand, hoperand, h⟩ := of_bind_eq_ok h
    exact isKeyed_ofField (isKeyed_of_field hdata (of_forCondition_eq_ok hoperand)) h
  · obtain ⟨tag, -, h⟩ := of_bind_eq_ok h
    exact isKeyed_ofTag h
  · cases h
    rfl
  · cases h
    rfl
  · split at h
    · cases h
      simp [toValue, isKeyed, fieldsAreKeyed]
    · cases h
  · obtain ⟨key, -, h⟩ := of_bind_eq_ok h
    cases h

theorem isKeyed_inner {data : Value} (hdata : data.isKeyed = true) {inner : Option Value}
    (hinner : (data.member? "predicate").forCondition = .ok inner) : (match inner with
      | some (.object fields) => Value.object fields
      | _ => data).isKeyed = true := by
  split
  · next fields =>
    obtain ⟨own, rfl, hlookup⟩ := exists_object_of_member? (of_forCondition_eq_ok hinner)
    exact isKeyed_of_lookup _ hdata hlookup
  · exact hdata

theorem isKeyed_ofValue {data : Value} {p : Predicate} (hdata : data.isKeyed = true)
    (h : ofValue data = .ok p) : p.toValue.isKeyed = true := by
  obtain ⟨inner, hinner, h⟩ := of_bind_eq_ok h
  obtain ⟨type, -, h⟩ := of_bind_eq_ok h
  have hown := isKeyed_inner hdata hinner
  split at h
  · exact isKeyed_ofEditor hown h
  · exact isKeyed_ofTyped hown h

end Predicate

namespace TriggerFilters

/-- The names under which filters stand. -/
def names : List String :=
  ["session_id", "keyword", "from_stage_id", "to_stage_id", "tag_id", "schedule_time",
    "inactivity_days"]

theorem names_toRecord (f : TriggerFilters) : (f.toRecord.map (·.1)).Sublist names := by
  have htext (name : String) (filter : Option String) :
      ((textField name filter).map (·.1)).Sublist [name] := by
    cases filter <;> simp [textField]
  simp only [toRecord, List.map_append]
  refine ((((((htext _ _).append (htext _ _)).append (htext _ _)).append (htext _ _)).append
    (htext _ _)).append (htext _ _)).append ?_
  cases f.inactivityDays <;> simp

theorem isKeyed_of_mem_toRecord {f : TriggerFilters} {field : String × Value}
    (h : field ∈ f.toRecord) : field.2.isKeyed = true := by
  have htext {name : String} {filter : Option String} (h : field ∈ textField name filter) :
      field.2.isKeyed = true := by
    cases filter with
    | none => cases h
    | some s =>
      obtain rfl := List.mem_singleton.mp h
      rfl
  simp only [toRecord, List.mem_append] at h
  rcases h with ((((((h | h) | h) | h) | h) | h) | h)
  iterate 6 exact htext h
  cases hdays : f.inactivityDays with
  | none => simp [hdays] at h
  | some days =>
    simp only [hdays, List.mem_singleton] at h
    subst h
    rfl

theorem isKeyed_toValue (kind : TriggerKind) (f : TriggerFilters) :
    (NodeBody.trigger kind f).toValue.isKeyed = true := by
  refine isKeyed_object.mpr ⟨?_, List.forall_mem_cons.mpr ⟨rfl, fun _ => isKeyed_of_mem_toRecord⟩⟩
  have hnames : ("trigger_type" :: names).Nodup := by decide
  exact hnames.sublist (f.names_toRecord.cons_cons _)

end TriggerFilters

namespace NodeBody

theorem isKeyed_actionParams {data : Value} {params : Record} (hdata : data.isKeyed = true)
    (h : actionParams data = .ok params) : (Value.object params).isKeyed = true := by
  obtain ⟨given, hgiven, h⟩ := of_bind_eq_ok h
  split at h
  · cases h
    exact isKeyed_of_field hdata hgiven
  · obtain ⟨fields, hfields, h⟩ := of_bind_eq_ok h
    cases h
    cases data with
    | object own =>
      cases hfields
      exact isKeyed_filter hdata _
    | _ => cases hfields

theorem isKeyed_ofTyped {type raw data : Value} {body : NodeBody} (hdata : data.isKeyed = true)
    (h : ofTyped type raw data = .ok body) : body.toValue.isKeyed = true := by
  unfold ofTyped at h
  split at h
  · obtain ⟨kind, filters, -, rfl⟩ := readTrigger_eq_ok (Shaped.of_forNode_eq_ok h)
    exact filters.isKeyed_toValue kind
  · split at h
    · next hpredicate =>
      cases h
      simp [toValue, isKeyed, fieldsAreKeyed, Predicate.isKeyed_ofValue hdata hpredicate]
    · cases h
  · obtain ⟨kind, params, hparams, rfl⟩ := readAction_eq_ok (Shaped.of_forNode_eq_ok h)
    refine isKeyed_object.mpr ⟨by simp, ?_⟩
    simp only [List.forall_mem_cons, isKeyed_actionParams hdata hparams]
    simp [Choice.toValue, isKeyed]
  · obtain ⟨amount, unit, rfl⟩ := readDelay_eq_ok (Shaped.of_forNode_eq_ok h)
    cases unit <;> simp [toValue, isKeyed, fieldsAreKeyed, Choice.toValue]
  · cases h

end NodeBody

namespace Node

theorem isKeyed_ofValue {id : String} {raw : Value} {n : Node} (hraw : raw.isKeyed = true)
    (h : ofValue id raw = .ok n) : n.toValue.isKeyed = true := by
  obtain ⟨type, -, h⟩ := of_bind_eq_ok h
  obtain ⟨given, hgiven, h⟩ := of_bind_eq_ok h
  obtain ⟨label, -, h⟩ := of_bind_eq_ok h
  obtain ⟨body, hbody, h⟩ := of_bind_eq_ok h
  obtain rfl := Except.ok.inj h
  have hdata := isKeyed_orElse (isKeyed_of_firstField hraw (Shaped.of_forNode_eq_ok hgiven))
    (w := .object []) (by decide)
  refine isKeyed_object.mpr ⟨by simp, ?_⟩
  simp only [List.forall_mem_cons, NodeBody.isKeyed_ofTyped hdata hbody]
  simp [Choice.toValue, isKeyed]

end Node

theorem Edge.isKeyed_toValue (e : Edge) : e.toValue.isKeyed = true := by
  cases hbranch : e.branch <;> simp [Edge.toValue, hbranch, isKeyed, fieldsAreKeyed, Choice.toValue]

namespace Graph

theorem isKeyed_of_mem_sound {α : Type} {read : Nat → Value → Shaped (Except Defect α)}
    {data : Value} {name : String} {readings : List (Except Defect α)} (hdata : data.isKeyed = true)
    (h : readList data name read = .ok readings) {a : α} (ha : a ∈ sound readings) :
    ∃ position raw, raw.isKeyed = true ∧ read position raw = .ok (.ok a) := by
  obtain ⟨given, items, hgiven, hitems, position, raw, hraw, hread⟩ := exists_of_mem_sound h ha
  have hgiven := isKeyed_orElse (isKeyed_of_field hdata hgiven) (w := .list []) (by decide)
  exact ⟨position, raw, isKeyed_of_items hgiven hitems raw hraw, hread⟩

/-- What is written for a graph that was read has no repeated names if the data had none. -/
theorem isKeyed_toValue_of_ofValue {data : Value} {g : Graph} (hdata : data.isKeyed = true)
    (h : ofValue data = .ok g) : g.toValue.isKeyed = true := by
  obtain ⟨-, ⟨nodes, hnodes, hn⟩, -⟩ := read_eq_ok (read_of_ofValue h)
  have hnodes : (Value.list (g.nodes.map Node.toValue)).isKeyed = true := by
    refine isKeyed_list.mpr fun v hv => ?_
    obtain ⟨n, hmem, rfl⟩ := List.mem_map.mp hv
    obtain ⟨position, raw, hraw, hread⟩ := isKeyed_of_mem_sound hdata hnodes (hn ▸ hmem)
    obtain ⟨id, -, hnode⟩ := Node.read_eq_ok hread
    exact Node.isKeyed_ofValue hraw hnode
  have hedges : (Value.list (g.edges.map Edge.toValue)).isKeyed = true := by
    refine isKeyed_list.mpr fun v hv => ?_
    obtain ⟨e, -, rfl⟩ := List.mem_map.mp hv
    exact e.isKeyed_toValue
  refine isKeyed_object.mpr ⟨by simp, ?_⟩
  simp only [List.forall_mem_cons, hnodes, hedges]
  simp [isKeyed]

end Graph

/-! ## Graphs that agree -/

theorem Choice.eq_of_agrees {α : Type} [Choice α] {a b : α}
    (h : (toValue a).agrees (toValue b) = true) : a = b := by
  rw [toValue, toValue, agrees, beq_iff_eq] at h
  exact name_injective a b h

inductive Predicate.Agrees : Predicate → Predicate → Prop
  | field {path : String} {operator : Operator} {operand operand' : Value}
      (h : operand.agrees operand' = true) :
      Agrees (.field path operator operand) (.field path operator operand')
  | tag (wanted : String) : Agrees (.tag wanted) (.tag wanted)
  | always (outcome : Bool) : Agrees (.always outcome) (.always outcome)

/-- Node bodies that are the same but for the order of fields. -/
inductive NodeBody.Agrees : NodeBody → NodeBody → Prop
  | trigger (kind : TriggerKind) (filters : TriggerFilters) :
      Agrees (.trigger kind filters) (.trigger kind filters)
  | condition {p q : Predicate} (h : p.Agrees q) : Agrees (.condition p) (.condition q)
  | action (kind : ActionKind) {params params' : Record}
      (h : (Value.object params).agrees (.object params') = true) :
      Agrees (.action kind params) (.action kind params')
  | delay (amount : Int) (unit : Option DelayUnit) :
      Agrees (.delay amount unit) (.delay amount unit)

structure Node.Agrees (n m : Node) : Prop where
  id : n.id = m.id
  label : n.label = m.label
  body : n.body.Agrees m.body

structure Graph.Agrees (g h : Graph) : Prop where
  id : g.id = h.id
  name : g.name = h.name
  version : g.version = h.version
  nodes : List.Forall₂ Node.Agrees g.nodes h.nodes
  edges : g.edges = h.edges
  enabled : g.enabled = h.enabled
  description : g.description = h.description

theorem Predicate.agrees_of_toValue {p q : Predicate} (h : p.toValue.agrees q.toValue = true) :
    p.Agrees q := by
  cases p with
  | field path operator operand =>
    cases q with
    | field path' operator' operand' =>
      obtain ⟨rfl, hoperator, hoperand⟩ : path = path' ∧ operator.name = operator'.name ∧
          operand.agrees operand' = true := by
        simpa [toValue, agrees, agreeFields, List.lookup_cons] using h
      obtain rfl : operator = operator' := Choice.name_injective _ _ hoperator
      exact .field hoperand
    | tag => simp [toValue, agrees] at h
    | always outcome => cases outcome <;> simp [toValue, agrees] at h
  | tag wanted =>
    cases q with
    | tag wanted' =>
      obtain rfl : wanted = wanted' := by
        simpa [toValue, agrees, agreeFields, List.lookup_cons] using h
      exact .tag wanted
    | field => simp [toValue, agrees] at h
    | always outcome => cases outcome <;> simp [toValue, agrees] at h
  | always outcome =>
    cases q with
    | always outcome' =>
      cases outcome <;> cases outcome'
      · exact .always false
      · simp [toValue, agrees, agreeFields] at h
      · simp [toValue, agrees, agreeFields] at h
      · exact .always true
    | field => cases outcome <;> simp [toValue, agrees] at h
    | tag => cases outcome <;> simp [toValue, agrees] at h

namespace TriggerFilters

theorem eq_of_agrees {kind kind' : TriggerKind} {f f' : TriggerFilters}
    (h : (NodeBody.trigger kind f).toValue.agrees (NodeBody.trigger kind' f').toValue = true) :
    kind = kind' ∧ f = f' := by
  have hlookup :=
    (agrees_object_iff_lookup (isKeyed_toValue kind f) (isKeyed_toValue kind' f')).mp h
  have hfilter : ∀ name ∈ names, Option.Rel (fun x y => x.agrees y = true)
      (f.toRecord.lookup name) (f'.toRecord.lookup name) := by
    intro name hname
    have hne : name ≠ "trigger_type" := by rintro rfl; revert hname; decide
    simpa only [List.lookup_cons, beq_eq_false_iff_ne.mpr hne] using hlookup name
  have htext {filter filter' : Option String}
      (h : Option.Rel (fun x y => x.agrees y = true) (filter.map Value.text)
        (filter'.map Value.text)) : filter = filter' := by
    cases filter <;> cases filter' <;> simp_all [agrees]
  have hdays {filter filter' : Option Int}
      (h : Option.Rel (fun x y => x.agrees y = true) (filter.map Value.int)
        (filter'.map Value.int)) : filter = filter' := by
    cases filter <;> cases filter' <;> simp_all [agrees]
  have hkind := hlookup "trigger_type"
  simp only [List.lookup_cons, beq_self_eq_true, Option.rel_some_some] at hkind
  refine ⟨Choice.eq_of_agrees hkind, ?_⟩
  simp [names, lookup_toRecord] at hfilter
  obtain ⟨h₁, h₂, h₃, h₄, h₅, h₆, h₇⟩ := hfilter
  cases f
  cases f'
  rw [mk.injEq]
  exact ⟨htext h₁, htext h₂, htext h₃, htext h₄, htext h₅, htext h₆, hdays h₇⟩

end TriggerFilters

theorem NodeBody.agrees_of_toValue {b b' : NodeBody} (hkind : b.kind = b'.kind)
    (h : b.toValue.agrees b'.toValue = true) : b.Agrees b' := by
  cases b with
  | trigger kind filters =>
    cases b' with
    | trigger kind' filters' =>
      obtain ⟨rfl, rfl⟩ := TriggerFilters.eq_of_agrees h
      exact .trigger kind filters
    | _ => cases hkind
  | condition predicate =>
    cases b' with
    | condition predicate' =>
      exact .condition (Predicate.agrees_of_toValue (agrees_of_lookup "predicate" h rfl rfl))
    | _ => cases hkind
  | action kind params =>
    cases b' with
    | action kind' params' =>
      obtain rfl := Choice.eq_of_agrees (agrees_of_lookup "action_type" h rfl rfl)
      exact .action kind (agrees_of_lookup "params" h rfl rfl)
    | _ => cases hkind
  | delay amount unit =>
    cases b' with
    | delay amount' unit' =>
      have hamount : (Value.int amount).agrees (.int amount') = true :=
        agrees_of_lookup "amount" h rfl rfl
      obtain rfl : amount = amount' := by simpa [agrees] using hamount
      cases unit with
      | none =>
        cases unit' with
        | none => exact .delay amount none
        | some unit' => simp [toValue, agrees] at h
      | some unit =>
        cases unit' with
        | none => simp [toValue, agrees] at h
        | some unit' =>
          obtain rfl := Choice.eq_of_agrees (agrees_of_lookup "unit" h rfl rfl)
          exact .delay amount (some unit)
    | _ => cases hkind

theorem Node.agrees_of_toValue {n m : Node} (h : n.toValue.agrees m.toValue = true) :
    n.Agrees m where
  id := agrees_text.mp (agrees_of_lookup "id" h rfl rfl)
  label := agrees_text.mp (agrees_of_lookup "label" h rfl rfl)
  body := NodeBody.agrees_of_toValue (Choice.eq_of_agrees (agrees_of_lookup "type" h rfl rfl))
    (agrees_of_lookup "data" h rfl rfl)

theorem Edge.eq_of_agrees {e e' : Edge} (h : e.toValue.agrees e'.toValue = true) : e = e' := by
  obtain ⟨source, target, branch⟩ := e
  obtain ⟨source', target', branch'⟩ := e'
  obtain rfl : source = source' := agrees_text.mp (agrees_of_lookup "source" h rfl rfl)
  obtain rfl : target = target' := agrees_text.mp (agrees_of_lookup "target" h rfl rfl)
  cases branch with
  | none =>
    cases branch' with
    | none => rfl
    | some branch' => simp [toValue, agrees] at h
  | some branch =>
    cases branch' with
    | none => simp [toValue, agrees] at h
    | some branch' =>
      obtain rfl := Choice.eq_of_agrees (agrees_of_lookup "branch" h rfl rfl)
      rfl

/-- Graphs whose canonical forms agree have the same parts, but for the order of fields. -/
theorem Graph.agrees_of_toValue {g h : Graph} (hagrees : g.toValue.agrees h.toValue = true) :
    g.Agrees h where
  id := agrees_text.mp (agrees_of_lookup "id" hagrees rfl rfl)
  name := agrees_text.mp (agrees_of_lookup "name" hagrees rfl rfl)
  version := agrees_text.mp (agrees_of_lookup "version" hagrees rfl rfl)
  description := agrees_text.mp (agrees_of_lookup "description" hagrees rfl rfl)
  enabled := by
    have henabled : (Value.bool g.enabled).agrees (.bool h.enabled) = true :=
      agrees_of_lookup "enabled" hagrees rfl rfl
    simpa [agrees] using henabled
  nodes := by
    have hnodes := agrees_list.mp (agrees_of_lookup "nodes" hagrees rfl rfl)
    rw [List.forall₂_map_left_iff, List.forall₂_map_right_iff] at hnodes
    exact hnodes.imp fun _ _ => Node.agrees_of_toValue
  edges := by
    have hedges := agrees_list.mp (agrees_of_lookup "edges" hagrees rfl rfl)
    rw [List.forall₂_map_left_iff, List.forall₂_map_right_iff] at hedges
    have heq := hedges.imp fun _ _ => Edge.eq_of_agrees
    rwa [List.forall₂_eq_eq_eq] at heq

end WorkflowEngine

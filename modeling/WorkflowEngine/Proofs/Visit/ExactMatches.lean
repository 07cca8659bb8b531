import WorkflowEngine.Proofs.Graph.Legible
import WorkflowEngine.Proofs.Visit.Branches

/-!
# Exact matches

Filters and tags are kept as text, and what an event has is compared with that text as it stands.
An event with the very value that was authored therefore matches exactly if a text was authored:
numbers and truth values never match themselves.
-/
namespace WorkflowEngine

/-- Only a text is its own written form. -/
theorem Value.isText_display_iff {v : Value} : v.isText v.display = true ↔ ∃ s, v = .text s := by
  cases v with
  | text s => simp [isText]
  | null | bool | int | float | list | object => simp [isText]

namespace TriggerFilters

/-- The filters that a kind of trigger compares, each with the field of an event. -/
def compared : TriggerKind → List (String × String)
  | .messageReceived => [("session_id", "session_id")]
  | .leadStageChanged => [("from_stage_id", "old_stage_id"), ("to_stage_id", "new_stage_id")]
  | .tagAdded | .tagRemoved => [("tag_id", "tag_id")]
  | .manual | .leadCreated | .scheduled | .inactivity => []

/-- What was authored for a filter, if it is set. -/
def authored? (data : Record) (name : String) : Option Value :=
  (data.lookup name).filter fun v => !isUnset v

/-- An event has what was authored for the filters that a kind of trigger compares. -/
def Carries (kind : TriggerKind) (data event : Record) : Prop :=
  ∀ pair ∈ compared kind, ∀ v, authored? data pair.1 = some v → event.lookup pair.2 = some v

variable {kind : TriggerKind} {data event : Record} {f : TriggerFilters}

theorem authored?_cases (data : Record) (name : String) :
    (isUnset ((data.lookup name).getD .null) = true ∧ authored? data name = none) ∨
      ∃ v, data.lookup name = some v ∧ isUnset v = false ∧ authored? data name = some v := by
  unfold authored?
  cases data.lookup name with
  | none => exact .inl ⟨rfl, rfl⟩
  | some v => cases hv : isUnset v <;> simp [hv]

theorem readText_object (data : Record) (name : String) :
    readText (.object data) name = .ok ((authored? data name).map Value.display) := by
  change Except.ok (if isUnset ((data.lookup name).getD .null) then none
    else some ((data.lookup name).getD .null).display) = _
  obtain ⟨hunset, hnone⟩ | ⟨v, hv, hset, hsome⟩ := authored?_cases data name
  · rw [if_pos hunset, hnone, Option.map_none]
  · rw [hv, hsome, Option.getD_some, if_neg (by simp [hset]), Option.map_some]

theorem active_authored? (data : Record) (name : String) :
    active ((authored? data name).map Value.display) =
      (authored? data name).map Value.display := by
  have hne : (authored? data name).map Value.display ≠ some "" :=
    readText_ne_empty (readText_object data name)
  unfold active
  split
  · next hempty => exact absurd hempty hne
  · rfl

/-- A filter lets a field with the authored value pass exactly if that is a text. -/
theorem admits_authored? {name key : String}
    (hsame : ∀ v, authored? data name = some v → event.lookup key = some v) :
    ∃ b, admits ((authored? data name).map Value.display) (.object event) key = .ok b ∧
      (b = true ↔ ∀ v, authored? data name = some v → ∃ s, v = .text s) := by
  unfold admits
  rw [active_authored?]
  cases hv : authored? data name with
  | none => exact ⟨true, rfl, by simp⟩
  | some v =>
    refine ⟨v.isText v.display, ?_, ?_⟩
    · simp [Value.field_object, hsame v hv, bind, Except.bind, pure, Except.pure]
    · simp [Value.isText_display_iff]

/-- The filters that are read from authored data, with some number of days. -/
def asRead (data : Record) (days : Option Int) : TriggerFilters where
  sessionId := (authored? data "session_id").map Value.display
  keyword := (authored? data "keyword").map Value.display
  fromStageId := (authored? data "from_stage_id").map Value.display
  toStageId := (authored? data "to_stage_id").map Value.display
  tagId := (authored? data "tag_id").map Value.display
  scheduleTime := (authored? data "schedule_time").map Value.display
  inactivityDays := days

theorem ofValue_object (data : Record) : ofValue (.object data) =
    (readInteger (.object data) "inactivity_days").map (asRead data) := by
  simp only [ofValue, readText_object]
  cases readInteger (.object data) "inactivity_days" <;> rfl

theorem exists_of_ofValue (h : ofValue (.object data) = .ok f) : ∃ days, f = asRead data days := by
  rw [ofValue_object] at h
  cases hdays : readInteger (.object data) "inactivity_days" with
  | ok days =>
    rw [hdays] at h
    exact ⟨days, (Except.ok.inj h).symm⟩
  | error e =>
    rw [hdays] at h
    cases h

/-- Only a number of days can be refused. -/
theorem exists_ofValue_iff : (∃ f, ofValue (.object data) = .ok f) ↔
    ∀ v, authored? data "inactivity_days" = some v → ∃ n, v.toInteger = .ok n := by
  rw [ofValue_object]
  have hread : readInteger (.object data) "inactivity_days" =
      if isUnset ((data.lookup "inactivity_days").getD .null) then .ok none
      else ((data.lookup "inactivity_days").getD .null).toInteger.map some := by
    change (if isUnset ((data.lookup "inactivity_days").getD .null) then Except.ok none
      else _ >>= _) = _
    split
    · rfl
    · cases ((data.lookup "inactivity_days").getD .null).toInteger <;> rfl
  rw [hread]
  obtain ⟨hunset, hnone⟩ | ⟨v, hv, hset, hsome⟩ := authored?_cases data "inactivity_days"
  · rw [if_pos hunset, hnone]
    exact ⟨fun _ _ h => absurd h (by simp), fun _ => ⟨_, rfl⟩⟩
  · rw [hv, hsome, Option.getD_some, if_neg (by simp [hset])]
    cases hn : v.toInteger with
    | ok n => exact ⟨fun _ w hw => ⟨n, Option.some.inj hw ▸ hn⟩, fun _ => ⟨_, rfl⟩⟩
    | error e =>
      constructor
      · rintro ⟨f, hf⟩
        cases hf
      · intro h
        obtain ⟨n, hok⟩ := h v rfl
        rw [hn] at hok
        cases hok

theorem both_ok (a b : Bool) : both (.ok a) (.ok b) = .ok (a && b) := by
  cases a <;> rfl

/-- An event with what was authored passes exactly if all of that is text. -/
theorem matchesEvent_of_carries (hkeyword : authored? data "keyword" = none)
    (hcarries : Carries kind data event) (hf : ofValue (.object data) = .ok f) :
    ∃ b, f.matchesEvent kind (.object event) = .ok b ∧
      (b = true ↔ ∀ pair ∈ compared kind, ∀ v, authored? data pair.1 = some v →
        ∃ s, v = .text s) := by
  obtain ⟨days, rfl⟩ := exists_of_ofValue hf
  cases kind with
  | messageReceived =>
    obtain ⟨b, hb, htext⟩ := admits_authored? (hcarries _ List.mem_cons_self)
    have hmessage : admitsMessage (asRead data days).keyword (.object event) = .ok true := by
      rw [asRead, hkeyword]
      rfl
    refine ⟨b, ?_, by simpa [compared] using htext⟩
    refine (congrArg₂ both hb hmessage).trans ?_
    rw [both_ok, Bool.and_true]
  | leadStageChanged =>
    obtain ⟨a, ha, hfrom⟩ := admits_authored? (hcarries _ List.mem_cons_self)
    obtain ⟨b, hb, hto⟩ :=
      admits_authored? (hcarries _ (List.mem_cons_of_mem _ List.mem_cons_self))
    refine ⟨a && b, ?_, ?_⟩
    · exact (congrArg₂ both ha hb).trans (both_ok a b)
    · rw [Bool.and_eq_true, hfrom, hto]
      simp [compared]
  | tagAdded | tagRemoved =>
    obtain ⟨b, hb, htext⟩ := admits_authored? (hcarries _ List.mem_cons_self)
    exact ⟨b, hb, by simpa [compared] using htext⟩
  | manual | leadCreated | scheduled | inactivity => exact ⟨true, rfl, by simp [compared]⟩

end TriggerFilters

namespace Predicate

/-- The data of a condition asks for a tag, in the form of the graph editor or with a type. -/
inductive NamesTag (v : Value) (data : Record) : Prop
  | editor (htype : Value.first data ["type", "condition_type"] = .null)
      (hfield : data.lookup "condition_field" = some (.text "has_tag"))
      (hvalue : data.lookup "condition_value" = some v) : NamesTag v data
  | typed (htype : Value.first data ["type", "condition_type"] = .text "has_tag")
      (hvalue : Value.first data ["tag", "value"] = v) : NamesTag v data

/-- Authored data asks for a tag, directly or within a predicate. -/
def AsksForTag (v : Value) (data : Record) : Prop :=
  match data.lookup "predicate" with
  | some (.object inner) => NamesTag v inner
  | _ => NamesTag v data

variable {v : Value} {data : Record}

/-- What names a tag is told by its type and read as that tag. -/
theorem NamesTag.read (h : NamesTag v data) :
    (Value.first data ["type", "condition_type"] = .null ∧
      data.lookup "condition_field" = some (.text "has_tag") ∧
      ofEditor (.text "has_tag") (.object data) = ofTag v) ∨
    (Value.first data ["type", "condition_type"] = .text "has_tag" ∧
      ofTyped (.text "has_tag") (.object data) = ofTag v) := by
  cases h with
  | editor htype hfield hvalue =>
    refine .inl ⟨htype, hfield, ?_⟩
    simp only [ofEditor, Value.field_object, hvalue, Option.getD_some, if_true,
      Shaped.forCondition, bind, Except.bind]
  | typed htype hvalue =>
    refine .inr ⟨htype, ?_⟩
    simp only [Shaped.forCondition, bind, Except.bind, ofTyped, Value.firstField_object, hvalue]

/-- Whatever asks for a tag is read alike. -/
theorem ofValue_of_asksForTag (h : AsksForTag v data) : ofValue (.object data) = ofTag v := by
  have hmember : (Value.object data).member? "predicate" = .ok (data.lookup "predicate") := rfl
  have hget (fields : Record) : (Value.object fields).get? "condition_field" =
      fields.lookup "condition_field" := rfl
  rw [ofValue, hmember]
  simp only [Shaped.forCondition, bind, Except.bind]
  -- The data that counts is that of the predicate if there is one, and otherwise all.
  unfold AsksForTag at h
  generalize data.lookup "predicate" = inner at h ⊢
  rcases inner with _ | (_ | _ | _ | _ | _ | _ | inner)
  all_goals
    obtain ⟨htype, hfield, hread⟩ | ⟨htype, hread⟩ := NamesTag.read h
    · simp only [Value.firstField_object, hget, htype, hfield, hread]
    · simp only [Value.firstField_object, htype, hread]

theorem resolve?_tags (context : Record) :
    Path.resolve? (.object context) "tags" = context.lookup "tags" := by
  have hsegments : Path.segments "tags" = ["tags"] := by decide
  simp [Path.resolve?, hsegments, Path.follow?, Path.step?]

theorem evaluateTag_of_lookup {context : Record} {tags : List Value}
    (h : context.lookup "tags" = some (.list tags)) (wanted : String) :
    evaluateTag wanted (.object context) =
      .answered (tags.any (isTagged wanted)) [("tag", .text wanted)] := by
  rw [evaluateTag, resolve?_tags, h]

theorem isTagged_display_iff (hv : ¬ v.IsContainer) :
    isTagged v.display v = true ↔ ∃ s, v = .text s := by
  have hplain : isTagged v.display v = v.isText v.display := by
    cases v with
    | object fields => exact absurd (.object fields) hv
    | null | bool | int | float | text | list => rfl
  rw [hplain, Value.isText_display_iff]

/-- A condition on a tag matches wherever the tag stands exactly if the tag is text. -/
theorem matches_tagged_iff (hv : ¬ v.IsContainer) :
    (∀ (context : Record) tags, context.lookup "tags" = some (.list tags) → v ∈ tags →
      ∃ found, (Predicate.tag v.display).evaluate (.object context) = .ok found ∧
        found.matched = true) ↔ ∃ s, v = .text s := by
  constructor
  · intro h
    obtain ⟨found, hfound, hmatched⟩ := h [("tags", .list [v])] [v] rfl (List.mem_singleton_self v)
    obtain rfl := Except.ok.inj hfound
    rw [evaluateTag_of_lookup rfl] at hmatched
    exact (isTagged_display_iff hv).mp (by simpa [Finding.answered] using hmatched)
  · intro htext context tags hlookup hmem
    refine ⟨_, rfl, ?_⟩
    rw [evaluateTag_of_lookup hlookup]
    exact List.any_eq_true.mpr ⟨v, hmem, (isTagged_display_iff hv).mpr htext⟩

end Predicate

/-- Authoring keeps the exact matches of texts, and loses those of all other values. Filters are
read unless a number of days is none; an event with what was authored then passes exactly if all of
that is text. A condition on a tag is read unless the tag counts as not given, as zero and false do,
and it matches everything that has the tag exactly if the tag is text. -/
theorem keeps_exact_matches {kind : TriggerKind} {data event : Record}
    (hkeyword : TriggerFilters.authored? data "keyword" = none)
    (hcarries : TriggerFilters.Carries kind data event) {v : Value} (hv : ¬ v.IsContainer)
    {condition : Record} (hasks : Predicate.AsksForTag v condition) :
    ((∃ f, TriggerFilters.ofValue (.object data) = .ok f) ↔
      ∀ days, TriggerFilters.authored? data "inactivity_days" = some days →
        ∃ n, days.toInteger = .ok n) ∧
    (∀ f, TriggerFilters.ofValue (.object data) = .ok f →
      ∃ b, f.matchesEvent kind (.object event) = .ok b ∧
        (b = true ↔ ∀ pair ∈ TriggerFilters.compared kind, ∀ w,
          TriggerFilters.authored? data pair.1 = some w → ∃ s, w = .text s)) ∧
    (v.isGiven = false → Predicate.ofValue (.object condition) = .error .tagMissing) ∧
    (v.isGiven = true → ∃ p, Predicate.ofValue (.object condition) = .ok p ∧
      ((∀ (context : Record) tags, context.lookup "tags" = some (.list tags) → v ∈ tags →
        ∃ found, p.evaluate (.object context) = .ok found ∧ found.matched = true) ↔
        ∃ s, v = .text s)) := by
  have hread := Predicate.ofValue_of_asksForTag hasks
  refine ⟨TriggerFilters.exists_ofValue_iff,
    fun f => TriggerFilters.matchesEvent_of_carries hkeyword hcarries, fun hmissing => ?_,
    fun hgiven => ⟨.tag v.display, ?_, Predicate.matches_tagged_iff hv⟩⟩
  · rw [hread, Predicate.ofTag, if_neg (by simp [hmissing])]
  · rw [hread, Predicate.ofTag, if_pos hgiven]

/-- A session that is authored as a number does not let itself pass, and a tag that is authored as a
number is not found somewhere where it stands. -/
theorem Sample.loses_numbers :
    (∃ f, TriggerFilters.ofValue (.object [("session_id", .int 5)]) = .ok f ∧
      f.matchesEvent .messageReceived (.object [("session_id", .int 5)]) = .ok false) ∧
    ∃ p, Predicate.ofValue (.object [("type", .text "has_tag"), ("tag", .int 5)]) = .ok p ∧
      ¬ ∀ (context : Record) tags, context.lookup "tags" = some (.list tags) → .int 5 ∈ tags →
        ∃ found, p.evaluate (.object context) = .ok found ∧ found.matched = true := by
  have hcarries : TriggerFilters.Carries .messageReceived [("session_id", .int 5)]
      [("session_id", .int 5)] := by
    rintro pair hpair v hv
    obtain rfl := List.mem_singleton.mp hpair
    exact hv
  have hcontainer : ¬ (Value.int 5).IsContainer := by rintro ⟨⟩
  have htext : ¬ ∃ s, Value.int 5 = .text s := by rintro ⟨s, ⟨⟩⟩
  have hasks : Predicate.AsksForTag (.int 5) [("type", .text "has_tag"), ("tag", .int 5)] :=
    .typed rfl rfl
  obtain ⟨hread, hmatches, -, htag⟩ := keeps_exact_matches (by rfl) hcarries hcontainer hasks
  obtain ⟨f, hf⟩ := hread.mpr fun days hdays => by cases hdays
  obtain ⟨b, hb, hpasses⟩ := hmatches f hf
  obtain ⟨p, hp, hfinds⟩ := htag rfl
  have hfails : b = false := by
    refine Bool.eq_false_iff.mpr fun htrue => htext ?_
    exact hpasses.mp htrue _ List.mem_cons_self (.int 5) rfl
  exact ⟨⟨f, hf, hfails ▸ hb⟩, p, hp, fun h => htext (hfinds.mp h)⟩

end WorkflowEngine

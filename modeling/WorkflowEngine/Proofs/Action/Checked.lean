import WorkflowEngine.Proofs.Visit.Stepped

/-!
# What checked parameters hold

A parameter that has been read holds a value that its type admits, given or by default. Parameters
are accepted when each declared one can be read and there is something to send; each is then found
under the name that it is declared with.
-/
namespace WorkflowEngine

/-- What a parameter of a type holds once it has been read. -/
inductive ParamType.Admits : ParamType → Value → Prop
  | text (s : String) : Admits .text (.text s)
  | noText : Admits .optionalText .null
  | someText (s : String) : Admits .optionalText (.text s)
  | name {s : String} (hne : s ≠ "") : Admits .name (.text s)
  | noCount : Admits .optionalCount .null
  | count {n : Int} (hn : 0 ≤ n) : Admits .optionalCount (.int n)
  | method {s : String} (hs : s ∈ methods) : Admits .method (.text s)
  | url {s : String} (hs : isUrl s = true) : Admits .url (.text s)
  | noObject : Admits .optionalObject .null
  | object (fields : Record) : Admits .optionalObject (.object fields)

namespace ParamType

theorem readName_eq_ok {s name : String} (h : readName s = .ok name) :
    name = Text.strip s ∧ name ≠ "" := by
  unfold readName at h
  dsimp only at h
  split at h
  · cases h
  · next hne =>
    cases h
    exact ⟨rfl, hne⟩

theorem admits_of_readInteger {v : Value} {w : Value} (h : (do
      let n ← readInteger v
      if n < 0 then throw .negativeInteger
      return .int n : Except ParamDefect Value) = .ok w) : optionalCount.Admits w := by
  obtain ⟨n, -, h⟩ := of_bind_eq_ok h
  by_cases hn : n < 0
  · simp only [if_pos hn] at h
    cases h
  · simp only [if_neg hn] at h
    cases h
    exact .count (by omega)

theorem admits_of_read {type : ParamType} {v w : Value} (h : type.read v = .ok w) :
    type.Admits w := by
  cases type with
  | text =>
    cases v <;> cases h
    exact .text _
  | optionalText =>
    cases v <;> cases h
    · exact .noText
    · exact .someText _
  | name =>
    cases v with
    | text s =>
      simp only [read] at h
      cases hname : readName s with
      | error _ => simp [hname, Except.map] at h
      | ok name =>
        simp only [hname, Except.map, Except.ok.injEq] at h
        subst h
        exact .name (readName_eq_ok hname).2
    | _ => cases h
  | optionalCount =>
    cases v with
    | null =>
      cases h
      exact .noCount
    | _ => exact admits_of_readInteger h
  | method =>
    cases v with
    | text s =>
      simp only [read, readMethod] at h
      split at h
      · next hs =>
        cases h
        exact .method (by simpa using hs)
      · cases h
    | _ => cases h
  | url =>
    cases v with
    | text s =>
      obtain ⟨address, -, h⟩ := of_bind_eq_ok h
      split at h
      · next hs =>
        cases h
        exact .url hs
      · cases h
    | _ => cases h
  | optionalObject =>
    cases v <;> cases h
    · exact .noObject
    · exact .object _

end ParamType

namespace ActionKind

variable {kind : ActionKind} {spec : ParamSpec}

theorem nodup_params (kind : ActionKind) : (kind.params.map (·.name)).Nodup := by
  cases kind <;> decide

/-- Every default passes the check of its own parameter. -/
theorem read_default {v : Value} (hspec : spec ∈ kind.params) (hdefault : spec.default? = some v) :
    spec.type.read v = .ok v := by
  have hall : ∀ spec ∈ kind.params, ∀ v ∈ spec.default?, spec.type.read v = .ok v := by
    cases kind <;> decide +kernel
  exact hall spec hspec v hdefault

theorem default?_of_admits_null (hspec : spec ∈ kind.params) (hnull : spec.type.Admits .null) :
    spec.default? = some .null := by
  have hall : ∀ spec ∈ kind.params, spec.type.read .null = .ok .null →
      spec.default? = some .null := by
    cases kind <;> decide +kernel
  apply hall spec hspec
  generalize spec.type = type at hnull
  cases hnull <;> rfl

end ActionKind

theorem ParamSpec.admits_of_read {kind : ActionKind} {spec : ParamSpec} {given : Record} {v : Value}
    (hspec : spec ∈ kind.params) (h : spec.read given = .ok v) : spec.type.Admits v := by
  unfold read at h
  split at h
  · exact ParamType.admits_of_read h
  · next hdefault =>
    cases h
    exact ParamType.admits_of_read (ActionKind.read_default hspec hdefault)
  · cases h

namespace Keyed

variable {α β : Type} {key : α → String} {f : α → Option β}

theorem lookup_filterMap_of_not_mem {items : List α} {name : String} (h : name ∉ items.map key) :
    (items.filterMap fun a => (f a).map (key a, ·)).lookup name = none := by
  apply List.lookup_eq_none_iff.mpr
  intro entry hentry
  obtain ⟨a, ha, hfound⟩ := List.mem_filterMap.mp hentry
  obtain ⟨b, -, rfl⟩ := Option.map_eq_some_iff.mp hfound
  have hne : name ≠ key a := fun he => h (he ▸ List.mem_map_of_mem ha)
  simpa using hne

theorem lookup_filterMap {items : List α} {a : α} (hkeys : (items.map key).Nodup) (ha : a ∈ items) :
    (items.filterMap fun a => (f a).map (key a, ·)).lookup (key a) = f a := by
  induction items with
  | nil => cases ha
  | cons b rest ih =>
    rw [List.map_cons, List.nodup_cons] at hkeys
    rcases List.mem_cons.mp ha with rfl | hrest
    · cases hf : f a with
      | none => simpa [hf] using lookup_filterMap_of_not_mem hkeys.1
      | some _ => simp [hf]
    · have hne : (key a == key b) = false :=
        beq_eq_false_iff_ne.mpr fun h => hkeys.1 (h ▸ List.mem_map_of_mem hrest)
      cases hb : f b <;> simp [hb, List.lookup_cons, hne, ih hkeys.2 hrest]

end Keyed

namespace ActionParams

variable {kind : ActionKind} {given : Record} {spec : ParamSpec}

theorem defectsOf_eq_nil_iff {specs : List ParamSpec} :
    defectsOf specs given = [] ↔ ∀ spec ∈ specs, ∃ v, spec.read given = .ok v := by
  unfold defectsOf
  rw [List.filterMap_eq_nil_iff]
  refine forall₂_congr fun spec _ => ?_
  cases spec.read given <;> simp

theorem exists_ofRecord_iff :
    (∃ p, ofRecord kind given = .ok p) ↔
      (∀ spec ∈ kind.params, ∃ v, spec.read given = .ok v) ∧
        hasContent kind (valuesOf kind.params given) = true := by
  rw [← defectsOf_eq_nil_iff]
  unfold ofRecord
  by_cases hdefects : defectsOf kind.params given = []
  · by_cases hcontent : hasContent kind (valuesOf kind.params given) = true
    · simp [hdefects, hcontent]
    · simp [hdefects, hcontent]
  · simp [hdefects]

theorem ofRecord_eq_ok {p : ActionParams} (h : ofRecord kind given = .ok p) :
    p = ⟨valuesOf kind.params given, extraOf kind.params given⟩ := by
  unfold ofRecord at h
  dsimp only at h
  split at h
  · cases h
  · split at h
    · exact (Except.ok.inj h).symm
    · cases h

theorem valuesOf_eq {specs : List ParamSpec} :
    valuesOf specs given =
      specs.filterMap fun spec => (spec.read given).toOption.map (spec.name, ·) := by
  unfold valuesOf
  congr
  funext spec
  cases spec.read given <;> rfl

theorem lookup_valuesOf (hspec : spec ∈ kind.params) :
    (valuesOf kind.params given).lookup spec.name = (spec.read given).toOption := by
  rw [valuesOf_eq]
  exact Keyed.lookup_filterMap kind.nodup_params hspec

/-- A declared parameter is handed on unless it is null. -/
theorem lookup_givenRecord {p : ActionParams} (h : ofRecord kind given = .ok p)
    (hspec : spec ∈ kind.params) :
    p.givenRecord.lookup spec.name = (p.declared.lookup spec.name).filter (· ≠ .null) := by
  obtain rfl := ofRecord_eq_ok h
  have hextra : ((extraOf kind.params given).filter (·.2 ≠ .null)).lookup spec.name = none := by
    apply List.lookup_eq_none_iff.mpr
    intro field hfield
    have hundeclared := (List.mem_filter.mp (List.mem_filter.mp hfield).1).2
    simp only [Bool.not_eq_true', List.any_eq_false] at hundeclared
    simpa using hundeclared spec hspec
  have hdeclared : (valuesOf kind.params given).filter (·.2 ≠ .null) =
      kind.params.filterMap fun spec =>
        ((spec.read given).toOption.filter (· ≠ .null)).map (spec.name, ·) := by
    rw [valuesOf_eq, List.filter_filterMap]
    congr
    funext spec
    cases spec.read given with
    | error _ => rfl
    | ok v => by_cases hv : v = .null <;> simp [Except.toOption, Option.filter, hv]
  rw [givenRecord, toRecord, List.filter_append, List.lookup_append, hextra, Option.or_none,
    hdeclared, lookup_valuesOf hspec]
  exact Keyed.lookup_filterMap kind.nodup_params hspec

end ActionParams
end WorkflowEngine

import Mathlib.Data.List.DropRight
import WorkflowEngine.Proofs.Action.Checked

/-!
# Checked parameters pass their check again

What a check makes of parameters is in the form that the check looks for: names are stripped,
methods are in upper case, counts are integers, and what was not given has its default. So checked
parameters are accepted as they are, with everything undeclared beside them.
-/
namespace WorkflowEngine

namespace Text

variable {α : Type} (blank : α → Bool) (cs : List α)

theorem trim_eq_rdropWhile : trim blank cs = (cs.dropWhile blank).rdropWhile blank := rfl

/-- The end is trimmed after the front, and a part of a list that is left begins where the list
begins. -/
theorem dropWhile_trim : (trim blank cs).dropWhile blank = trim blank cs := by
  rw [List.dropWhile_eq_self_iff]
  intro hpos hblank
  have hpart : trim blank cs <+: cs.dropWhile blank := List.rdropWhile_prefix blank _
  have hstart := List.dropWhile_get_zero_not blank cs (hpos.trans_le hpart.length_le)
  rw [hpart.getElem hpos] at hblank
  exact hstart hblank

theorem trim_trim : trim blank (trim blank cs) = trim blank cs := by
  rw [trim_eq_rdropWhile blank (trim blank cs), dropWhile_trim, trim_eq_rdropWhile,
    List.rdropWhile_idempotent]

theorem strip_strip (s : String) : strip (strip s) = strip s := by
  simp only [strip, String.toList_ofList, trim_trim]

end Text

namespace ParamType

theorem readName_readName {s name : String} (h : readName s = .ok name) :
    readName name = .ok name := by
  obtain ⟨rfl, hne⟩ := readName_eq_ok h
  simp only [readName, Text.strip_strip, if_neg hne]

/-- What has been read as a parameter reads as itself. -/
theorem read_read {type : ParamType} {v w : Value} (h : type.read v = .ok w) :
    type.read w = .ok w := by
  have hadmits := admits_of_read h
  cases type with
  | text | optionalText | optionalObject => cases hadmits <;> rfl
  | optionalCount =>
    cases hadmits with
    | noCount => rfl
    | count hn => exact if_neg (by omega)
  | method =>
    cases hadmits with
    | method hs =>
      have hall : ∀ s ∈ methods, method.read (.text s) = .ok (.text s) := by decide +kernel
      exact hall _ hs
  | name =>
    cases v with
    | text s =>
      simp only [read] at h
      cases hname : readName s with
      | error _ => simp [hname, Except.map] at h
      | ok name =>
        obtain rfl : Value.text name = w := by simpa [hname, Except.map] using h
        simp only [read, readName_readName hname, Except.map]
    | _ => cases h
  | url =>
    cases v with
    | text s =>
      obtain ⟨address, hname, h⟩ := of_bind_eq_ok h
      split at h
      · next hs =>
        cases h
        simp only [read, readName_readName hname]
        exact if_pos hs
      · cases h
    | _ => cases h

end ParamType

theorem ParamSpec.read_read {kind : ActionKind} {spec : ParamSpec} {given : Record} {v : Value}
    (hspec : spec ∈ kind.params) (h : spec.read given = .ok v) : spec.type.read v = .ok v := by
  unfold read at h
  split at h
  · exact ParamType.read_read h
  · next hdefault =>
    cases h
    exact ActionKind.read_default hspec hdefault
  · cases h

namespace ActionParams

variable {kind : ActionKind} {given : Record} {p : ActionParams} {spec : ParamSpec}

theorem exists_read_of_ofRecord (h : ofRecord kind given = .ok p) (hspec : spec ∈ kind.params) :
    ∃ v, spec.read given = .ok v :=
  (exists_ofRecord_iff.mp ⟨p, h⟩).1 spec hspec

/-- Every declared parameter is read off the checked ones as it was read at first. -/
theorem read_toRecord (h : ofRecord kind given = .ok p) (hspec : spec ∈ kind.params) :
    spec.read p.toRecord = spec.read given := by
  obtain ⟨v, hv⟩ := exists_read_of_ofRecord h hspec
  have hfound : p.toRecord.lookup spec.name = some v := by
    obtain rfl := ofRecord_eq_ok h
    rw [toRecord, List.lookup_append, lookup_valuesOf hspec, hv]
    rfl
  rw [hv, ParamSpec.read, hfound]
  exact ParamSpec.read_read hspec hv

theorem valuesOf_toRecord (h : ofRecord kind given = .ok p) :
    valuesOf kind.params p.toRecord = valuesOf kind.params given := by
  rw [valuesOf_eq, valuesOf_eq]
  exact List.filterMap_congr fun spec hspec => by rw [read_toRecord h hspec]

theorem extraOf_valuesOf (specs : List ParamSpec) (given : Record) :
    extraOf specs (valuesOf specs given) = [] := by
  rw [extraOf, List.filter_eq_nil_iff]
  intro field hfield
  rw [valuesOf_eq] at hfield
  obtain ⟨spec, hspec, hread⟩ := List.mem_filterMap.mp hfield
  obtain ⟨v, -, rfl⟩ := Option.map_eq_some_iff.mp hread
  simpa using ⟨spec, hspec, rfl⟩

theorem extraOf_toRecord (h : ofRecord kind given = .ok p) :
    extraOf kind.params p.toRecord = p.extra := by
  obtain rfl := ofRecord_eq_ok h
  calc extraOf kind.params (valuesOf kind.params given ++ extraOf kind.params given)
      = extraOf kind.params (valuesOf kind.params given) ++
          extraOf kind.params (extraOf kind.params given) := List.filter_append ..
    _ = extraOf kind.params given := by
      rw [extraOf_valuesOf, List.nil_append]
      simp only [extraOf, List.filter_filter, Bool.and_self]

theorem ofRecord_toRecord (h : ofRecord kind given = .ok p) : ofRecord kind p.toRecord = .ok p := by
  obtain ⟨q, hq⟩ : ∃ q, ofRecord kind p.toRecord = .ok q := by
    refine exists_ofRecord_iff.mpr ⟨fun spec hspec => ?_, ?_⟩
    · rw [read_toRecord h hspec]
      exact exists_read_of_ofRecord h hspec
    · rw [valuesOf_toRecord h]
      exact (exists_ofRecord_iff.mp ⟨p, h⟩).2
  have hsame : q = p := by
    rw [ofRecord_eq_ok hq, valuesOf_toRecord h, extraOf_toRecord h]
    obtain rfl := ofRecord_eq_ok h
    rfl
  rw [hq, hsame]

/-- The check of parameters accepts what it has made of some before, and leaves all of it as it is:
the declared parameters, given or by default, and everything undeclared. -/
theorem passes_again {v : Value} (h : ofValue kind v = .ok p) :
    ofValue kind (.object p.toRecord) = .ok p := by
  cases v with
  | object given => exact ofRecord_toRecord h
  | _ => cases h

end ActionParams

namespace Sample

/-- An address within blanks, a method with a letter that is an S only in upper case, and a field
that is not declared. -/
def untidyCall : Record :=
  [("colour", .null), ("method", .text "po\u017ft"), ("webhook_url", .text " https://x ")]

def tidyCall : ActionParams where
  declared := [("webhook_url", .text "https://x"), ("method", .text "POST"), ("payload", .null)]
  extra := [("colour", .null)]

theorem tidyCall_passes_again :
    ActionParams.ofValue .webhook (.object untidyCall) = .ok tidyCall ∧
      ActionParams.ofValue .webhook (.object tidyCall.toRecord) = .ok tidyCall := by
  have hread : ActionParams.ofValue .webhook (.object untidyCall) = .ok tidyCall := by
    decide +kernel
  exact ⟨hread, ActionParams.passes_again hread⟩

end Sample

end WorkflowEngine

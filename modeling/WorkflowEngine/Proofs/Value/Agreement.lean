import Mathlib.Data.List.Perm.Subperm
import Mathlib.Data.List.Forall2
import WorkflowEngine.Proofs.Value.ReadBack

/-!
# Values that are the same data

Two values agree if they are the same but for the order of the fields in their objects; integers,
doubles and truth values are told apart. Where each name stands once in every object, values agree
just if they have one canonical text.
-/
namespace WorkflowEngine

namespace Keyed

variable {α : Type} {entries others : List (String × α)} {name : String} {a : α}

theorem mem_of_lookup (h : entries.lookup name = some a) : (name, a) ∈ entries := by
  obtain ⟨pre, post, rfl, -⟩ := List.lookup_eq_some_iff.mp h
  exact List.mem_append_right pre List.mem_cons_self

theorem lookup_of_mem (hkeys : (entries.map (·.1)).Nodup) (h : (name, a) ∈ entries) :
    entries.lookup name = some a := by
  obtain ⟨pre, post, rfl⟩ := List.append_of_mem h
  rw [List.map_append, List.nodup_append] at hkeys
  refine List.lookup_eq_some_iff.mpr ⟨pre, post, rfl, fun entry hentry => ?_⟩
  simpa using (hkeys.2.2 entry.1 (List.mem_map_of_mem hentry) name (by simp)).symm

theorem lookup_eq_none_iff : entries.lookup name = none ↔ name ∉ entries.map (·.1) := by
  rw [List.lookup_eq_none_iff, List.mem_map, not_exists]
  refine forall_congr' fun entry => ?_
  rw [bne_iff_ne, not_and, ne_comm]

theorem lookup_map {β : Type} (g : α → β) (entries : List (String × α)) (name : String) :
    (entries.map fun entry => (entry.1, g entry.2)).lookup name = (entries.lookup name).map g := by
  induction entries with
  | nil => rfl
  | cons entry rest ih =>
    rw [List.map_cons, List.lookup_cons, List.lookup_cons, ih]
    split <;> rfl

theorem lookup_filter (p : String → Bool) (entries : List (String × α)) (name : String) :
    (entries.filter fun entry => p entry.1).lookup name =
      if p name then entries.lookup name else none := by
  induction entries with
  | nil => simp
  | cons entry rest ih =>
    obtain ⟨key, a⟩ := entry
    rw [List.filter_cons, List.lookup_cons]
    by_cases hname : name = key
    · subst hname
      by_cases hkey : p name <;> simp [hkey, ih]
    · have hne : (name == key) = false := beq_eq_false_iff_ne.mpr hname
      by_cases hkey : p key <;> simp [hkey, hne, List.lookup_cons, ih]

theorem perm_iff (hkeys : (entries.map (·.1)).Nodup) (hothers : (others.map (·.1)).Nodup) :
    entries.Perm others ↔ ∀ name, entries.lookup name = others.lookup name := by
  constructor
  · intro h name
    refine Option.ext fun a => ?_
    constructor <;> intro ha
    · exact lookup_of_mem hothers (h.mem_iff.mp (mem_of_lookup ha))
    · exact lookup_of_mem hkeys (h.mem_iff.mpr (mem_of_lookup ha))
  · intro h
    rw [List.perm_ext_iff_of_nodup hkeys.of_map hothers.of_map]
    rintro ⟨name, a⟩
    constructor <;> intro ha
    · exact mem_of_lookup ((h name).symm.trans (lookup_of_mem hkeys ha))
    · exact mem_of_lookup ((h name).trans (lookup_of_mem hothers ha))

end Keyed

namespace Value

/-- Distinct names are in the same order in any arrangement, once they are sorted. -/
theorem Json.sortByName_eq_iff {α : Type} {entries others : List (String × α)}
    (hkeys : (entries.map (·.1)).Nodup) :
    sortByName entries = sortByName others ↔ entries.Perm others := by
  constructor
  · intro h
    exact (List.mergeSort_perm entries _).symm.trans
      ((List.Perm.of_eq h).trans (List.mergeSort_perm others _))
  · intro h
    have hperm : (sortByName entries).Perm (sortByName others) :=
      (List.mergeSort_perm entries _).trans (h.trans (List.mergeSort_perm others _).symm)
    refine hperm.eq_of_pairwise (fun a b ha hb hab hba => ?_) (pairwise_sortByName entries)
      (pairwise_sortByName others)
    have ha : a ∈ entries := List.mem_mergeSort.mp ha
    have hb : b ∈ entries := h.mem_iff.mpr (List.mem_mergeSort.mp hb)
    exact List.inj_on_of_nodup_map hkeys ha hb (String.le_antisymm hab hba)

mutual

/-- Whether two values are the same data: the order of an object's fields does not matter, but the
kind of numbers does. -/
def agrees : Value → Value → Bool
  | .null, .null => true
  | .bool a, .bool b => a == b
  | .int m, .int n => m == n
  | .float x, .float y => x == y
  | .text s, .text t => s == t
  | .list xs, .list ys => agreeItems xs ys
  | .object xs, .object ys => xs.length == ys.length && agreeFields xs ys
  | _, _ => false

def agreeItems : List Value → List Value → Bool
  | [], [] => true
  | x :: xs, y :: ys => agrees x y && agreeItems xs ys
  | _, _ => false

/-- Whether each field agrees with the one of its name among the others. -/
def agreeFields : List (String × Value) → List (String × Value) → Bool
  | [], _ => true
  | (name, x) :: xs, ys =>
    (match ys.lookup name with
      | some y => agrees x y
      | none => false) && agreeFields xs ys

end

mutual

/-- Whether each name stands once in every object of a value. -/
def isKeyed : Value → Bool
  | .list items => areKeyed items
  | .object fields => decide (fields.map (·.1)).Nodup && fieldsAreKeyed fields
  | _ => true

def areKeyed : List Value → Bool
  | [] => true
  | v :: rest => isKeyed v && areKeyed rest

def fieldsAreKeyed : List (String × Value) → Bool
  | [] => true
  | (_, v) :: rest => isKeyed v && fieldsAreKeyed rest

end

theorem isKeyed_list {items : List Value} :
    (Value.list items).isKeyed = true ↔ ∀ v ∈ items, v.isKeyed = true := by
  rw [isKeyed]
  induction items with
  | nil => simp [areKeyed]
  | cons v rest ih => simp [areKeyed, ih]

theorem isKeyed_object {fields : Record} : (Value.object fields).isKeyed = true ↔
    (fields.map (·.1)).Nodup ∧ ∀ f ∈ fields, f.2.isKeyed = true := by
  rw [isKeyed, Bool.and_eq_true, decide_eq_true_eq]
  have hfields : ∀ fields, fieldsAreKeyed fields = true ↔ ∀ f ∈ fields, f.2.isKeyed = true := by
    intro fields
    induction fields with
    | nil => simp [fieldsAreKeyed]
    | cons f rest ih => rw [fieldsAreKeyed, Bool.and_eq_true, ih, List.forall_mem_cons]
  rw [hfields]

theorem agrees_list {xs ys : List Value} : (Value.list xs).agrees (.list ys) = true ↔
    List.Forall₂ (fun x y => x.agrees y = true) xs ys := by
  rw [agrees]
  induction xs generalizing ys with
  | nil => cases ys <;> simp [agreeItems]
  | cons x xs ih => cases ys <;> simp [agreeItems, ih]

theorem agreeFields_iff {xs ys : Record} : agreeFields xs ys = true ↔
    ∀ f ∈ xs, ∃ y, ys.lookup f.1 = some y ∧ f.2.agrees y = true := by
  induction xs with
  | nil => simp [agreeFields]
  | cons f xs ih =>
    rw [agreeFields, Bool.and_eq_true, ih, List.forall_mem_cons]
    refine and_congr_left fun _ => ?_
    cases ys.lookup f.1 <;> simp

theorem agrees_object {xs ys : Record} : (Value.object xs).agrees (.object ys) = true ↔
    xs.length = ys.length ∧ ∀ f ∈ xs, ∃ y, ys.lookup f.1 = some y ∧ f.2.agrees y = true := by
  rw [agrees, Bool.and_eq_true, beq_iff_eq, agreeFields_iff]

theorem agrees_of_lookup (name : String) {xs ys : Record} {x y : Value}
    (h : (Value.object xs).agrees (.object ys) = true) (hx : xs.lookup name = some x)
    (hy : ys.lookup name = some y) : x.agrees y = true := by
  obtain ⟨y', hy', hagrees⟩ := (agrees_object.mp h).2 _ (Keyed.mem_of_lookup hx)
  obtain rfl := Option.some.inj (hy.symm.trans hy')
  exact hagrees

@[simp] theorem agrees_text {s t : String} : (text s).agrees (.text t) = true ↔ s = t := by
  simp [agrees]

/-- Sorted fields are the same just if each name has the same sorted value. -/
theorem perm_sorted_iff {xs ys : Record} (hxs : (xs.map (·.1)).Nodup)
    (hys : (ys.map (·.1)).Nodup) :
    (xs.map fun f => (f.1, f.2.sorted)).Perm (ys.map fun f => (f.1, f.2.sorted)) ↔
      ∀ name, (xs.lookup name).map sorted = (ys.lookup name).map sorted := by
  rw [Keyed.perm_iff (by rwa [List.map_map]) (by rwa [List.map_map])]
  simp only [Keyed.lookup_map]

theorem sorted_object_eq_iff {xs ys : Record} (hxs : (xs.map (·.1)).Nodup)
    (hys : (ys.map (·.1)).Nodup) :
    (Value.object xs).sorted = (Value.object ys).sorted ↔
      ∀ name, (xs.lookup name).map sorted = (ys.lookup name).map sorted := by
  rw [sorted_object, sorted_object, object.injEq, Json.sortByName_eq_iff (by rwa [List.map_map]),
    perm_sorted_iff hxs hys]

theorem agrees_object_iff {xs ys : Record} (hxs : (xs.map (·.1)).Nodup)
    (hys : (ys.map (·.1)).Nodup)
    (h : ∀ f ∈ xs, ∀ y, ys.lookup f.1 = some y → (f.2.agrees y = true ↔ f.2.sorted = y.sorted)) :
    (Value.object xs).agrees (.object ys) = true ↔
      ∀ name, (xs.lookup name).map sorted = (ys.lookup name).map sorted := by
  rw [agrees_object]
  constructor
  · rintro ⟨hlength, hfields⟩ name
    have hsubset : xs.map (·.1) ⊆ ys.map (·.1) := by
      intro name hname
      obtain ⟨f, hf, rfl⟩ := List.mem_map.mp hname
      obtain ⟨y, hy, -⟩ := hfields f hf
      exact List.mem_map.mpr ⟨_, Keyed.mem_of_lookup hy, rfl⟩
    have hnames : (xs.map (·.1)).Perm (ys.map (·.1)) :=
      (hxs.subperm hsubset).perm_of_length_le (by simp [hlength])
    cases hx : xs.lookup name with
    | some x =>
      obtain ⟨y, hy, hagrees⟩ := hfields _ (Keyed.mem_of_lookup hx)
      rw [hy, Option.map_some, Option.map_some,
        (h _ (Keyed.mem_of_lookup hx) y hy).mp hagrees]
    | none =>
      have hnot : name ∉ ys.map (·.1) := hnames.mem_iff.not.mp (Keyed.lookup_eq_none_iff.mp hx)
      rw [Keyed.lookup_eq_none_iff.mpr hnot]
  · intro hlookup
    refine ⟨by simpa using ((perm_sorted_iff hxs hys).mpr hlookup).length_eq, fun f hf => ?_⟩
    have hsame := hlookup f.1
    rw [Keyed.lookup_of_mem hxs hf, Option.map_some] at hsame
    obtain ⟨y, hy, hsorted⟩ := Option.map_eq_some_iff.mp hsame.symm
    exact ⟨y, hy, (h f hf y hy).mpr hsorted.symm⟩

/-- Values without repeated names agree just if they are the same with their fields sorted. -/
theorem agrees_iff_sorted {v w : Value} (hv : v.isKeyed = true) (hw : w.isKeyed = true) :
    v.agrees w = true ↔ v.sorted = w.sorted := by
  induction v using induction_parts generalizing w with
  | list xs hxs =>
    cases w with
    | list ys =>
      rw [isKeyed_list] at hv hw
      rw [agrees_list, sorted_list, sorted_list, list.injEq]
      induction xs generalizing ys with
      | nil => cases ys <;> simp
      | cons x xs ih =>
        cases ys with
        | nil => simp
        | cons y ys =>
          rw [List.forall_mem_cons] at hxs hv hw
          rw [List.forall₂_cons, List.map_cons, List.map_cons, List.cons.injEq,
            hxs.1 hv.1 hw.1, ih hxs.2 hv.2 _ hw.2]
    | _ => simp [agrees, sorted]
  | object xs hxs =>
    cases w with
    | object ys =>
      rw [isKeyed_object] at hv hw
      rw [sorted_object_eq_iff hv.1 hw.1]
      refine agrees_object_iff hv.1 hw.1 fun f hf y hy => ?_
      exact hxs f hf (hv.2 f hf) (hw.2 _ (Keyed.mem_of_lookup hy))
    | _ => simp [agrees, sorted]
  | _ => cases w <;> simp [agrees, sorted]

theorem agrees_refl {v : Value} (hv : v.isKeyed = true) : v.agrees v = true :=
  (agrees_iff_sorted hv hv).mpr rfl

/-- Objects agree just if each name has values that agree in both of them. -/
theorem agrees_object_iff_lookup {xs ys : Record} (hxs : (Value.object xs).isKeyed = true)
    (hys : (Value.object ys).isKeyed = true) : (Value.object xs).agrees (.object ys) = true ↔
      ∀ name, Option.Rel (fun x y => x.agrees y = true) (xs.lookup name) (ys.lookup name) := by
  rw [agrees_iff_sorted hxs hys]
  rw [isKeyed_object] at hxs hys
  rw [sorted_object_eq_iff hxs.1 hys.1]
  refine forall_congr' fun name => ?_
  cases hx : xs.lookup name with
  | none => cases ys.lookup name <;> simp
  | some x =>
    cases hy : ys.lookup name with
    | none => simp
    | some y =>
      have hx := hxs.2 _ (Keyed.mem_of_lookup hx)
      have hy := hys.2 _ (Keyed.mem_of_lookup hy)
      simp [agrees_iff_sorted hx hy]

end Value
end WorkflowEngine

/-!
# Keyed lists

Lists of pairs in which each key stands once, in the order in which the keys were first put there.
-/
namespace WorkflowEngine.Keyed

variable {κ α : Type} [BEq κ]

/-- Gives a key a value: in its place, or at the end if the key is new. -/
def put (key : κ) (value : α) : List (κ × α) → List (κ × α)
  | [] => [(key, value)]
  | entry :: rest =>
    if key == entry.1 then (key, value) :: rest else entry :: put key value rest

/-- The entries with other keys. -/
def remove (key : κ) (entries : List (κ × α)) : List (κ × α) :=
  entries.filter fun entry => !(key == entry.1)

variable [LawfulBEq κ]

@[simp] theorem lookup_put (key : κ) (value : α) (entries : List (κ × α)) :
    (put key value entries).lookup key = some value := by
  induction entries with
  | nil => simp [put]
  | cons entry rest ih =>
    obtain ⟨k, v⟩ := entry
    by_cases h : key == k <;> simp [put, h, List.lookup_cons, ih]

theorem lookup_put_of_ne {key other : κ} (value : α) (entries : List (κ × α)) (h : other ≠ key) :
    (put key value entries).lookup other = entries.lookup other := by
  induction entries with
  | nil => simp [put, h]
  | cons entry rest ih =>
    obtain ⟨k, v⟩ := entry
    by_cases hk : key = k
    · subst hk
      have hb : (other == key) = false := by simpa using h
      simp [put, List.lookup_cons, hb]
    · simp [put, hk, List.lookup_cons, ih]

omit [LawfulBEq κ] in
@[simp] theorem lookup_remove (key : κ) (entries : List (κ × α)) :
    (remove key entries).lookup key = none := by
  induction entries with
  | nil => rfl
  | cons entry rest ih =>
    obtain ⟨k, v⟩ := entry
    unfold remove at ih ⊢
    by_cases h : key == k <;> simp [h, List.lookup_cons, ih]

theorem lookup_remove_of_ne {key other : κ} (entries : List (κ × α)) (h : other ≠ key) :
    (remove key entries).lookup other = entries.lookup other := by
  induction entries with
  | nil => rfl
  | cons entry rest ih =>
    obtain ⟨k, v⟩ := entry
    unfold remove at ih ⊢
    by_cases hk : key = k
    · subst hk
      have hb : (other == key) = false := by simpa using h
      simp [List.lookup_cons, hb, ih]
    · simp [hk, List.lookup_cons, ih]

omit [BEq κ] [LawfulBEq κ] in
/-- A search that can have only one result finds what is there. -/
theorem find?_eq_some_iff {P : α → Bool} {items : List α}
    (hunique : ∀ a ∈ items, ∀ b ∈ items, P a = true → P b = true → a = b) {a : α} :
    items.find? P = some a ↔ a ∈ items ∧ P a = true := by
  refine ⟨fun h => ⟨List.mem_of_find?_eq_some h, List.find?_some h⟩, ?_⟩
  rintro ⟨ha, hP⟩
  obtain ⟨b, hb⟩ := Option.isSome_iff_exists.mp (List.find?_isSome.mpr ⟨a, ha, hP⟩)
  rw [hb, hunique b (List.mem_of_find?_eq_some hb) a ha (List.find?_some hb) hP]

end WorkflowEngine.Keyed

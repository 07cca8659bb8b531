import WorkflowEngine.Proofs.Store.Mirror

/-!
# Keys of events

A store finds by the key of an event the instance that a graph made of it. Writes change neither the
names of instances nor what is found by a key, and a new instance gets a key that led nowhere.
-/
namespace WorkflowEngine

namespace Instance

/-- The identifier of an instance, its graph, and the key of its event. -/
def name (i : Instance) : InstanceId × String × Option String := (i.id, i.graphId, i.dedupeKey)

theorem map_replace {α : Type} {f : Instance → α} {next : Instance} {items : List Instance}
    (hsame : ∀ i ∈ items, i.id = next.id → f next = f i) :
    (replace next items).map f = items.map f := by
  rw [replace, List.map_map]
  refine List.map_congr_left fun i hi => ?_
  by_cases hid : i.id = next.id
  · simp [hid, hsame i hi hid]
  · simp [hid]

end Instance

namespace Store

def names (s : Store) : List (InstanceId × String × Option String) := s.instances.map (·.name)

/-- The instance that a store finds by the key of an event. -/
def key? : Store → String → String → Option InstanceId
  | memory s, graphId, key => s.keys.lookup (graphId, key)
  | table s, graphId, key =>
    ((s.rows.map (·.name)).find? fun name => name.2 == (graphId, some key)).map (·.1)

/-- The instance that was made of a draft's event before. -/
def existing? : Store → Draft → Option Instance
  | memory s => s.existing?
  | table s => s.existing?

/-- A store that finds every instance by its key, and no other. -/
structure Keyed (s : Store) : Prop where
  nodup : (s.instances.map (·.id)).Nodup
  numbered : ∀ name ∈ s.names, ∃ n ≤ s.created, name.1 = Instance.idOf n
  keys : ∀ graphId key id, s.key? graphId key = some id ↔ (id, graphId, some key) ∈ s.names

/-- A store in which instances have been written, but none has been made. -/
structure Renews (s s' : Store) : Prop where
  created : s'.created = s.created
  names : s'.names = s.names
  keys : s'.key? = s.key?

/-- A store in which an instance has been made under a new number. -/
structure Adds (s : Store) (name : InstanceId × String × Option String) (s' : Store) : Prop where
  id : name.1 = Instance.idOf (s.created + 1)
  created : s'.created = s.created + 1
  names : s'.names = s.names ++ [name]
  keys : ∀ graphId key, s'.key? graphId key =
    (s.key? graphId key).or (if name.2 = (graphId, some key) then some name.1 else none)

section
variable {s s' : Store} {name : InstanceId × String × Option String} {i : Instance}

theorem map_fst_names (s : Store) : s.names.map (·.1) = s.instances.map (·.id) := by
  rw [names, List.map_map]
  rfl

theorem name_mem_names {id : InstanceId} (hi : s.find? id = some i) :
    i.name ∈ s.names ∧ i.id = id :=
  ⟨List.mem_map_of_mem (Instance.mem_of_find? hi), Instance.find?_id hi⟩

theorem Renews.refl (s : Store) : s.Renews s := ⟨rfl, rfl, rfl⟩

theorem Renews.keyed (hs : s.Keyed) (h : s.Renews s') : s'.Keyed where
  nodup := by
    rw [← map_fst_names, h.names, map_fst_names]
    exact hs.nodup
  numbered := by
    rw [h.names, h.created]
    exact hs.numbered
  keys := by
    rw [h.names, h.keys]
    exact hs.keys

theorem Keyed.exists_find? (hs : s.Keyed) (hname : name ∈ s.names) :
    ∃ i, s.find? name.1 = some i ∧ i.name = name := by
  obtain ⟨i, hi, rfl⟩ := List.mem_map.mp hname
  exact ⟨i, Instance.find?_of_mem hs.nodup hi, rfl⟩

theorem Keyed.eq_of_fst (hs : s.Keyed) {name' : InstanceId × String × Option String}
    (hname : name ∈ s.names) (hname' : name' ∈ s.names) (hid : name.1 = name'.1) :
    name = name' := by
  have hnodup := hs.nodup
  rw [← map_fst_names] at hnodup
  exact List.inj_on_of_nodup_map hnodup hname hname' hid

theorem Keyed.eq_of_key (hs : s.Keyed) {graphId graphId' : String} {key key' : Option String}
    {id id' : InstanceId} (h : (id, graphId, key) ∈ s.names) (h' : (id', graphId', key') ∈ s.names)
    (hgraph : graphId = graphId') (hsame : key = key') (hkey : key ≠ none) : id = id' := by
  subst hgraph hsame
  obtain ⟨k, rfl⟩ := Option.ne_none_iff_exists'.mp hkey
  exact Option.some.inj (((hs.keys _ _ _).mpr h).symm.trans ((hs.keys _ _ _).mpr h'))

theorem Adds.not_mem (hs : s.Keyed) (h : s.Adds name s') : name.1 ∉ s.names.map (·.1) := by
  intro hmem
  obtain ⟨name', hname', hid⟩ := List.mem_map.mp hmem
  obtain ⟨n, hn, hnumber⟩ := hs.numbered name' hname'
  have := Instance.idOf_injective (hnumber.symm.trans (hid.trans h.id))
  omega

theorem Adds.keyed (hs : s.Keyed) (h : s.Adds name s')
    (hnew : ∀ graphId key, name.2 = (graphId, some key) → s.key? graphId key = none) :
    s'.Keyed where
  nodup := by
    have hnodup := hs.nodup
    rw [← map_fst_names] at hnodup
    rw [← map_fst_names, h.names, List.map_append, List.map_singleton]
    exact List.nodup_append.mpr ⟨hnodup, by simp, by
      rintro a ha b hb rfl
      exact h.not_mem hs (List.mem_singleton.mp hb ▸ ha)⟩
  numbered := by
    intro name' hname'
    rw [h.names] at hname'
    rcases List.mem_append.mp hname' with hname' | hname'
    · obtain ⟨n, hn, hid⟩ := hs.numbered name' hname'
      exact ⟨n, by have := h.created; omega, hid⟩
    · obtain rfl := List.mem_singleton.mp hname'
      exact ⟨s.created + 1, h.created.ge, h.id⟩
  keys := by
    intro graphId key id
    rw [h.names, h.keys, List.mem_append, List.mem_singleton, ← hs.keys]
    by_cases hmade : name.2 = (graphId, some key)
    · rw [hnew graphId key hmade, if_pos hmade, ← hmade, Option.none_or, Option.some.injEq]
      simp [Prod.ext_iff, eq_comm]
    · rw [if_neg hmade, Option.or_none]
      simp [Prod.ext_iff, eq_comm, hmade]

theorem existing?_eq (hnodup : (s.instances.map (·.id)).Nodup) (draft : Draft) :
    s.existing? draft =
      draft.dedupeKey.bind fun key => (s.key? draft.graphId key).bind s.find? := by
  cases s with
  | memory s => rfl
  | table s =>
    change (do
      let key ← draft.dedupeKey
      s.rows.find? fun row : Instance =>
        row.graphId == draft.graphId && row.dedupeKey == some key) = _
    cases draft.dedupeKey with
    | none => rfl
    | some key =>
      simp only [Option.bind_eq_bind, Option.bind_some, key?, List.find?_map]
      have hsame : ((fun name : InstanceId × String × Option String =>
          name.2 == (draft.graphId, some key)) ∘ fun row : Instance => row.name) =
          fun row => row.graphId == draft.graphId && row.dedupeKey == some key := rfl
      rw [hsame]
      cases hrow : s.rows.find? _ with
      | none => rfl
      | some row => exact (Instance.find?_of_mem hnodup (List.mem_of_find?_eq_some hrow)).symm

theorem Keyed.of_existing? (hs : s.Keyed) {draft : Draft} (hi : s.existing? draft = some i) :
    ∃ key, draft.dedupeKey = some key ∧ s.key? draft.graphId key = some i.id := by
  rw [existing?_eq hs.nodup, Option.bind_eq_some_iff] at hi
  obtain ⟨key, hkey, hfound⟩ := hi
  obtain ⟨id, hid, hi⟩ := Option.bind_eq_some_iff.mp hfound
  rw [Instance.find?_id hi]
  exact ⟨key, hkey, hid⟩

theorem Keyed.of_existing?_eq_none (hs : s.Keyed) {draft : Draft}
    (hnone : s.existing? draft = none) {key : String} (hkey : draft.dedupeKey = some key) :
    s.key? draft.graphId key = none := by
  rw [existing?_eq hs.nodup, hkey, Option.bind_some] at hnone
  cases hid : s.key? draft.graphId key with
  | none => rfl
  | some id =>
    obtain ⟨i, hi, -⟩ := hs.exists_find? ((hs.keys _ _ _).mp hid)
    rw [hid, Option.bind_some, hi] at hnone
    cases hnone

theorem key?_append (s : TableStore) (row : Instance) (created : Nat) (graphId key : String) :
    (table ⟨s.rows ++ [row], created⟩).key? graphId key = ((table s).key? graphId key).or
      (if row.name.2 = (graphId, some key) then some row.name.1 else none) := by
  simp only [key?, List.map_append, List.map_singleton, List.find?_append, Option.map_or,
    List.find?_singleton, beq_iff_eq]
  congr 1
  split <;> rfl

/-- A delivery finds the instance that was made of the event, or makes one. -/
theorem of_create {draft : Draft} {isNew : Bool} (h : s.create draft = .ok ((i, isNew), s')) :
    (isNew = false ∧ s' = s ∧ s.existing? draft = some i) ∨
      (isNew = true ∧ s.existing? draft = none ∧
        s.Adds (i.id, draft.graphId, draft.dedupeKey) s') := by
  cases s with
  | memory s =>
    simp only [create, MemoryStore.create] at h
    split at h
    · rename_i found hfound
      obtain ⟨hi, rfl⟩ := Prod.mk.inj (Except.ok.inj h)
      obtain ⟨rfl, rfl⟩ := Prod.mk.inj hi
      exact .inl ⟨rfl, rfl, hfound⟩
    · rename_i hnone
      obtain ⟨hi, rfl⟩ := Prod.mk.inj (Except.ok.inj h)
      obtain ⟨rfl, rfl⟩ := Prod.mk.inj hi
      refine .inr ⟨rfl, hnone, rfl, rfl, ?_, fun graphId key => ?_⟩
      · simp only [names, instances, List.map_append]
        rfl
      · refine (s.lookup_keysWith draft _ graphId key).trans ?_
        simp [key?]
  | table s =>
    simp only [create, TableStore.create, TableStore.whenFit] at h
    split at h
    · rename_i found hfound
      obtain ⟨hi, rfl⟩ := Prod.mk.inj (Except.ok.inj h)
      obtain ⟨rfl, rfl⟩ := Prod.mk.inj hi
      exact .inl ⟨rfl, rfl, hfound⟩
    · rename_i hnone
      split at h
      · obtain ⟨hi, rfl⟩ := Prod.mk.inj (Except.ok.inj h)
        obtain ⟨rfl, rfl⟩ := Prod.mk.inj hi
        refine .inr ⟨rfl, hnone, rfl, rfl, ?_, key?_append s _ _⟩
        simp only [names, instances, List.map_append]
        rfl
      · cases h

/-- No store refuses an instance that has not been written. -/
theorem exists_create (s : Store) {draft : Draft} (hversion : draft.version = .count 0) :
    ∃ result s', s.create draft = .ok (result, s') := by
  cases s with
  | memory s => exact ⟨_, _, rfl⟩
  | table s =>
    simp only [create, TableStore.create, hversion]
    split <;> exact ⟨_, _, rfl⟩

/-- A write of an instance under its own name. -/
theorem renews_replace {cur : Instance} (next : Instance)
    (hnodup : (s.instances.map (·.id)).Nodup) (hcur : s.find? next.id = some cur)
    (hname : next.name = cur.name) (hcreated : s'.created = s.created)
    (hinstances : s'.instances = Instance.replace next s.instances)
    (hkeys : s'.names = s.names → s'.key? = s.key?) : s.Renews s' := by
  have hnames : s'.names = s.names := by
    rw [names, hinstances]
    refine Instance.map_replace fun i hi hid => ?_
    have hfound : s.find? i.id = some i := Instance.find?_of_mem hnodup hi
    rw [hid, hcur] at hfound
    rw [hname, Option.some.inj hfound]
  exact ⟨hcreated, hnames, hkeys hnames⟩

theorem key?_eq_of_names {t t' : TableStore} (h : (table t').names = (table t).names) :
    (table t').key? = (table t).key? := by
  funext graphId key
  simp only [names, instances] at h
  simp only [key?, h]

/-- A write keeps the names of a table, and in memory those that it was given. -/
theorem renews_save {now : Instant} {next stored : Instance} {expected : Version}
    (hnodup : (s.instances.map (·.id)).Nodup)
    (hname : ∀ t cur, s = .memory t → s.find? next.id = some cur → cur.version = expected →
      next.name = cur.name)
    (h : s.save now next expected = .ok (stored, s')) : s.Renews s' := by
  cases s with
  | memory s =>
    simp only [save, MemoryStore.save] at h
    split at h
    · cases h
    · rename_i cur hcur
      split at h
      · rename_i hversion
        obtain ⟨rfl, rfl⟩ := Prod.mk.inj (Except.ok.inj h)
        have hnext : next.name = cur.name := hname s cur rfl hcur hversion
        exact renews_replace (next.stamped expected.next now) hnodup hcur hnext rfl rfl fun _ => rfl
      · cases h
  | table s =>
    simp only [save, TableStore.save, TableStore.whenFit] at h
    split at h
    · split at h
      · cases h
      · rename_i row hrow
        split at h
        · obtain ⟨rfl, rfl⟩ := Prod.mk.inj (Except.ok.inj h)
          have hrow : s.rows.find? (·.id == row.id) = some row :=
            (Instance.find?_id hrow).symm ▸ hrow
          exact renews_replace (TableStore.written row next expected.next now) hnodup hrow rfl rfl
            rfl key?_eq_of_names
        · cases h
    · cases h

theorem renews_claim {now : Instant} {id : InstanceId} {source target : Status}
    {owner : Option String} {answer : Option Instance} (hnodup : (s.instances.map (·.id)).Nodup)
    (h : s.claim now id source target owner = (answer, s')) : s.Renews s' := by
  cases s with
  | memory s =>
    simp only [claim, MemoryStore.claim] at h
    split at h
    · obtain ⟨-, rfl⟩ := Prod.mk.inj h
      exact .refl _
    · rename_i cur hcur
      split at h
      · obtain ⟨-, rfl⟩ := Prod.mk.inj h
        have hcur : s.instances.find? (·.id == cur.id) = some cur :=
          (Instance.find?_id hcur).symm ▸ hcur
        exact renews_replace ((cur.claimed target owner).stamped _ _) hnodup hcur rfl rfl rfl
          fun _ => rfl
      · obtain ⟨-, rfl⟩ := Prod.mk.inj h
        exact .refl _
  | table s =>
    simp only [claim, TableStore.claim] at h
    split at h
    · obtain ⟨-, rfl⟩ := Prod.mk.inj h
      exact .refl _
    · rename_i row hrow
      split at h
      · obtain ⟨-, rfl⟩ := Prod.mk.inj h
        have hrow : s.rows.find? (·.id == row.id) = some row :=
          (Instance.find?_id hrow).symm ▸ hrow
        exact renews_replace ((row.claimed target owner).stamped _ _) hnodup hrow rfl rfl rfl
          key?_eq_of_names
      · obtain ⟨-, rfl⟩ := Prod.mk.inj h
        exact .refl _

end
end Store
end WorkflowEngine

import Mathlib.Data.Prod.Lex
import WorkflowEngine.Proofs.Store.Effect
import WorkflowEngine.Proofs.Store.Pages

/-!
# The two stores side by side

A table mirrors a store in memory if its rows are the instances there, with times in UTC and in any
order. Then searches and sorted listings find the same in both. Answers may differ in the order of
instances that tie in a listing and in the number that comes with an empty page.
-/
namespace WorkflowEngine

/-! ## Times -/

namespace Instant

/-- A time as it compares with others: one without an offset equals no time with an offset. -/
def moment (t : Instant) : Instant := { t with offset := t.offset.map fun _ => 0 }

def IsAware (t : Instant) : Prop := t.offset.isSome = true

theorem le_iff {s t : Instant} : s ≤ t ↔ s.micros ≤ t.micros := Iff.rfl

theorem lt_iff {s t : Instant} : s < t ↔ s.micros < t.micros := Iff.rfl

theorem moment_eq_inUtc {t : Instant} (h : t.IsAware) : t.moment = t.inUtc := by
  obtain ⟨offset, hoffset⟩ := Option.isSome_iff_exists.mp h
  simp [moment, inUtc, hoffset]

end Instant

/-- Times with an offset, and none at which an instance without a time would be due as well. -/
structure Draft.IsTimed (d : Draft) : Prop where
  createdAt : d.createdAt.IsAware
  updatedAt : d.updatedAt.IsAware
  completedAt : ∀ t ∈ d.completedAt, t.IsAware
  resumeAt : ∀ t ∈ d.resumeAt, t.IsAware ∧ Instant.first < t.micros

namespace Instance

/-- The same as a caller can tell. -/
def SameAs (i j : Instance) : Prop := i.kept Instant.moment = j.kept Instant.moment

theorem kept_moment {i : Instance} (h : i.toDraft.IsTimed) :
    i.kept Instant.moment = i.kept Instant.inUtc := by
  have hmap (t? : Option Instant) (haware : ∀ t ∈ t?, t.IsAware) :
      t?.map Instant.moment = t?.map Instant.inUtc :=
    Option.map_congr fun t ht => Instant.moment_eq_inUtc (haware t ht)
  rw [kept, hmap _ h.completedAt, hmap _ fun t ht => (h.resumeAt t ht).1,
    Instant.moment_eq_inUtc h.createdAt, Instant.moment_eq_inUtc h.updatedAt]
  rfl

theorem sameAs_kept_inUtc {i : Instance} (h : i.toDraft.IsTimed) :
    i.SameAs (i.kept Instant.inUtc) := by
  rw [SameAs, kept_moment h]
  cases hresume : i.resumeAt <;> cases hcompleted : i.completedAt <;>
    simp [kept, hresume, hcompleted, Instant.moment, Instant.inUtc]

/-! ## The keys of listings -/

/-- The time since which an instance is due, and its age. -/
def dueKey (i : Instance) : ℤ ×ₗ ℤ :=
  toLex ((MemoryStore.dueSince i).micros, i.createdAt.micros)

def staleKey (i : Instance) : ℤ := i.updatedAt.micros

def newestKey (i : Instance) : ℤ := -i.createdAt.micros

theorem dueKey_kept (i : Instance) : (i.kept Instant.inUtc).dueKey = i.dueKey := by
  cases hresume : i.resumeAt <;> simp [dueKey, MemoryStore.dueSince, kept, hresume, Instant.inUtc]

theorem dueKey_le_iff {i j : Instance} : i.dueKey ≤ j.dueKey ↔
    (MemoryStore.dueSince i).micros < (MemoryStore.dueSince j).micros ∨
      (MemoryStore.dueSince i).micros = (MemoryStore.dueSince j).micros ∧
        i.createdAt.micros ≤ j.createdAt.micros := Prod.Lex.toLex_le_toLex

/-- An instance without a time comes first in the table by itself, and in memory because no time is
as early as the one that it has been due since. -/
theorem dueBefore_eq {i j : Instance} (hi : i.toDraft.IsTimed) (hj : j.toDraft.IsTimed) :
    dueBefore i j = decide (i.dueKey ≤ j.dueKey) := by
  rw [Bool.eq_iff_iff, decide_eq_true_iff, dueKey_le_iff]
  unfold dueBefore MemoryStore.dueSince
  cases hresume : i.resumeAt with
  | none =>
    cases hresume' : j.resumeAt with
    | none => simp [Instant.le_iff]
    | some t =>
      have hafter := (hj.resumeAt t hresume').2
      simp only [Option.getD_none, Option.getD_some]
      exact iff_of_true trivial (.inl hafter)
  | some s =>
    have hafter := (hi.resumeAt s hresume).2
    cases hresume' : j.resumeAt with
    | none =>
      simp only [Option.getD_none, Option.getD_some]
      exact iff_of_false Bool.false_ne_true (by omega)
    | some t =>
      simp only [Bool.or_eq_true, Bool.and_eq_true, decide_eq_true_eq, Instant.le_iff,
        Instant.lt_iff, Option.getD_some]
      omega

/-- Memory sorts by the same keys. -/
theorem sortDue_le_eq (i j : Instance) :
    (decide (MemoryStore.dueSince i < MemoryStore.dueSince j) ||
      (decide (MemoryStore.dueSince i ≤ MemoryStore.dueSince j) &&
        decide (i.createdAt ≤ j.createdAt))) = decide (i.dueKey ≤ j.dueKey) := by
  rw [Bool.eq_iff_iff, decide_eq_true_iff, dueKey_le_iff]
  simp only [Bool.or_eq_true, Bool.and_eq_true, decide_eq_true_eq, Instant.le_iff, Instant.lt_iff]
  omega

theorem sortNewest_le_eq (i j : Instance) :
    decide (j.createdAt ≤ i.createdAt) = decide (i.newestKey ≤ j.newestKey) := by
  rw [decide_eq_decide, Instant.le_iff, newestKey, newestKey]
  omega

end Instance

/-! ## Requests and answers -/

namespace TableStore

/-- Whether a column keeps a version as it is. -/
def Holds (v : Version) : Prop := (numbers v).all fits = true

theorem counted_eq_self {v : Version} (h : Holds v) : counted v = v := by
  cases v with
  | count n =>
    have hfits : fits n = true := by simpa [Holds, numbers] using h
    simp [counted, hfits]
  | uncounted => rfl

theorem whenFit_eq {α : Type} {numbers : List Int} (h : numbers.all fits = true)
    (answer : Outcome α) : whenFit numbers answer = answer := if_pos h

end TableStore

namespace MemoryStore

variable (s : MemoryStore)

def dueAt (now : Instant) : List Instance := sortDue (s.instances.filter (Instance.isDue now))

def staleSince (before : Instant) : List Instance :=
  Instance.sortStale (s.instances.filter (Instance.isStale before))

def listed (graphId : String) (status : Option Status) : List Instance :=
  Instance.sortNewest (s.instances.filter (Instance.isListed graphId status))

/-- The keys after an instance has been made of a draft. -/
def keysWith (draft : Draft) (id : InstanceId) : List ((String × String) × InstanceId) :=
  match draft.dedupeKey with
  | some key => s.keys ++ [((draft.graphId, key), id)]
  | none => s.keys

theorem lookup_keysWith (draft : Draft) (id : InstanceId) (graphId key : String) :
    (s.keysWith draft id).lookup (graphId, key) = (s.keys.lookup (graphId, key)).or
      (if draft.graphId = graphId ∧ draft.dedupeKey = some key then some id else none) := by
  unfold keysWith
  cases hkey : draft.dedupeKey with
  | none => simp
  | some made =>
    rw [List.lookup_append, List.lookup_cons, List.lookup_nil]
    congr 1
    by_cases hsame : draft.graphId = graphId ∧ made = key
    · obtain ⟨rfl, rfl⟩ := hsame
      rw [beq_self_eq_true, if_pos ⟨rfl, rfl⟩]
    · have hne : ((graphId, key) == (draft.graphId, made)) = false := by
        refine beq_eq_false_iff_ne.mpr fun heq => hsame ?_
        exact ⟨(Prod.mk.inj heq).1.symm, (Prod.mk.inj heq).2.symm⟩
      rw [hne, if_neg (by simpa using hsame)]

end MemoryStore

/-- Pages with the same keys, and with the same instances unless the limits cut a tie. -/
structure SamePage {κ : Type} (key : Instance → κ) (cutsTie : Prop) (page page' : List Instance) :
    Prop where
  keys : page'.map key = page.map key
  instances : ¬cutsTie →
    (page'.map (·.kept Instant.moment)).Perm (page.map (·.kept Instant.moment))

namespace StoreRequest

/-- A request that both stores can carry out: its times have an offset, its numbers fit into
columns, limits and offsets are not negative, and a write leaves what it does not change. -/
def Suits (s : MemoryStore) : StoreRequest → Prop
  | .create draft => draft.IsTimed ∧ TableStore.Holds draft.version
  | .load _ => True
  | .save next expected =>
    next.toDraft.IsTimed ∧ TableStore.Holds expected ∧ TableStore.Holds expected.next ∧
      ∀ i, Instance.find? s.instances next.id = some i →
        (next.kept Instant.inUtc).identity = (i.kept Instant.inUtc).identity
  | .claim id _ _ _ =>
    ∀ i, Instance.find? s.instances id = some i → TableStore.Holds i.version.next
  | .listDue now limit => now.IsAware ∧ 0 ≤ limit ∧ TableStore.fits limit = true
  | .listStale before limit => before.IsAware ∧ 0 ≤ limit ∧ TableStore.fits limit = true
  | .listForGraph _ _ limit offset =>
    0 ≤ limit ∧ 0 ≤ offset ∧ TableStore.fits limit = true ∧ TableStore.fits offset = true

/-- How the answers of the two stores to a request compare. The number that comes with a page of the
table is zero if the page is empty. -/
def Agree (s : MemoryStore) : (r : StoreRequest) → Outcome r.Answer → Outcome r.Answer → Prop
  | .create _, a, b =>
    a.map (fun x => (x.1.kept Instant.moment, x.2)) =
      b.map (fun x => (x.1.kept Instant.moment, x.2))
  | .load _, a, b => a.map (·.kept Instant.moment) = b.map (·.kept Instant.moment)
  | .save _ _, a, b => a.map (·.kept Instant.moment) = b.map (·.kept Instant.moment)
  | .claim _ _ _ _, a, b =>
    a.map (Option.map (·.kept Instant.moment)) = b.map (Option.map (·.kept Instant.moment))
  | .listDue now limit, a, b => ∃ page page', a = .ok page ∧ b = .ok page' ∧
    SamePage Instance.dueKey
      (Span.CutsTie 0 limit.toNat ((s.dueAt now).map Instance.dueKey)) page page'
  | .listStale before limit, a, b => ∃ page page', a = .ok page ∧ b = .ok page' ∧
    SamePage Instance.staleKey
      (Span.CutsTie 0 limit.toNat ((s.staleSince before).map Instance.staleKey)) page page'
  | .listForGraph graphId status limit offset, a, b => ∃ page page' total,
    a = .ok (page, total) ∧ b = .ok (page', if page' = [] then 0 else total) ∧
      SamePage Instance.newestKey (Span.CutsTie offset.toNat limit.toNat
        ((s.listed graphId status).map Instance.newestKey)) page page'

end StoreRequest

/-! ## What the stores have in common -/

/-- The rows of the table are what is in memory, in some order and with times in UTC, and the keys
in memory lead to the instances that have them. -/
structure Mirrors (m : MemoryStore) (t : TableStore) : Prop where
  wellFormed : (Store.memory m).WellFormed
  created : t.created = m.created
  rows : t.rows.Perm (m.instances.map (·.kept Instant.inUtc))
  keys : ∀ graphId key id, m.keys.lookup (graphId, key) = some id ↔
    ∃ i ∈ m.instances, i.id = id ∧ i.graphId = graphId ∧ i.dedupeKey = some key
  timed : ∀ i ∈ m.instances, i.toDraft.IsTimed
  holds : ∀ i ∈ m.instances, TableStore.Holds i.version

namespace Instance

theorem find?_perm {items items' : List Instance} (hperm : items.Perm items')
    (hnodup : (items.map (·.id)).Nodup) (id : InstanceId) : find? items id = find? items' id := by
  have hnodup' := (hperm.map (·.id)).nodup_iff.mp hnodup
  ext i
  rw [find?_eq_some_iff hnodup, find?_eq_some_iff hnodup', hperm.mem_iff]

theorem find?_map_kept (time : Instant → Instant) (items : List Instance) (id : InstanceId) :
    find? (items.map (·.kept time)) id = (find? items id).map (·.kept time) := by
  rw [find?, List.find?_map]
  rfl

theorem replace_map_kept (time : Instant → Instant) (next : Instance) (items : List Instance) :
    replace (next.kept time) (items.map (·.kept time)) =
      (replace next items).map (·.kept time) := by
  rw [replace, replace, List.map_map, List.map_map]
  refine List.map_congr_left fun i _ => ?_
  have hid (j : Instance) : (j.kept time).id = j.id := rfl
  simp only [Function.comp, hid, apply_ite (kept time)]

theorem mem_replace {next i : Instance} {items : List Instance} (h : i ∈ replace next items) :
    i = next ∨ i ∈ items := by
  obtain ⟨j, hj, rfl⟩ := List.mem_map.mp h
  split
  · exact .inl rfl
  · exact .inr hj

/-- An instance that takes the place of another is found where that was. -/
theorem exists_mem_replace {P : Instance → Prop} {next cur : Instance} {items : List Instance}
    (hnodup : (items.map (·.id)).Nodup) (hcur : find? items next.id = some cur)
    (hP : P next ↔ P cur) : (∃ i ∈ replace next items, P i) ↔ ∃ i ∈ items, P i := by
  constructor
  · rintro ⟨i, hi, hPi⟩
    rcases mem_replace hi with rfl | hi
    · exact ⟨cur, mem_of_find? hcur, hP.mp hPi⟩
    · exact ⟨i, hi, hPi⟩
  · rintro ⟨i, hi, hPi⟩
    by_cases hid : i.id = next.id
    · have hfound := find?_of_mem hnodup hi
      rw [hid, hcur] at hfound
      refine ⟨next, List.mem_map.mpr ⟨i, hi, if_pos hid⟩, hP.mpr ?_⟩
      rwa [Option.some.inj hfound]
    · exact ⟨i, List.mem_map.mpr ⟨i, hi, if_neg hid⟩, hPi⟩

end Instance

namespace Mirrors

theorem empty : Mirrors .empty .empty where
  wellFormed := ⟨List.nodup_nil, fun _ h => absurd h List.not_mem_nil,
    fun _ h => absurd h List.not_mem_nil⟩
  created := rfl
  rows := .nil
  keys := by simp [MemoryStore.empty]
  timed := fun _ h => absurd h List.not_mem_nil
  holds := fun _ h => absurd h List.not_mem_nil

variable {m : MemoryStore} {t : TableStore} {now : Instant}

theorem reorder (h : Mirrors m t) {rows : List Instance} (hrows : rows.Perm t.rows) :
    Mirrors m { t with rows } :=
  { h with rows := hrows.trans h.rows }

theorem nodup (h : Mirrors m t) : (m.instances.map (·.id)).Nodup := h.wellFormed.nodup

theorem find?_rows (h : Mirrors m t) (id : InstanceId) :
    Instance.find? t.rows id = (Instance.find? m.instances id).map (·.kept Instant.inUtc) := by
  rw [← Instance.find?_map_kept]
  refine Instance.find?_perm h.rows ((h.rows.map (·.id)).nodup_iff.mpr ?_) id
  rw [List.map_map]
  exact h.nodup

theorem sameAs_row (h : Mirrors m t) {id : InstanceId} {i : Instance}
    (hi : Instance.find? m.instances id = some i) : i.SameAs (i.kept Instant.inUtc) :=
  Instance.sameAs_kept_inUtc (h.timed i (Instance.mem_of_find? hi))

/-- One instance takes the place of another that had the same key. -/
theorem replace (h : Mirrors m t) {cur next : Instance}
    (hcur : Instance.find? m.instances next.id = some cur) (hgraph : next.graphId = cur.graphId)
    (hkey : next.dedupeKey = cur.dedupeKey) (htimed : next.toDraft.IsTimed)
    (hholds : TableStore.Holds next.version) :
    Mirrors { m with instances := Instance.replace next m.instances }
      { t with rows := Instance.replace (next.kept Instant.inUtc) t.rows } where
  wellFormed := by
    let m' : MemoryStore := { m with instances := Instance.replace next m.instances }
    have hinstances : m'.instances =
        Instance.replace (next.kept (Store.memory m).time) m.instances := by
      rw [Store.kept_memory]
    have hputs : (Store.memory m).Puts next (.memory m') :=
      Store.puts_replace h.wellFormed hcur rfl rfl hinstances
    exact hputs.wellFormed
  created := h.created
  rows := by
    rw [← Instance.replace_map_kept]
    exact h.rows.map _
  keys := by
    intro graphId key id
    rw [h.keys, Instance.exists_mem_replace h.nodup hcur]
    rw [hgraph, hkey, Instance.find?_id hcur]
  timed := by
    intro i hi
    rcases Instance.mem_replace hi with rfl | hi
    · exact htimed
    · exact h.timed i hi
  holds := by
    intro i hi
    rcases Instance.mem_replace hi with rfl | hi
    · exact hholds
    · exact h.holds i hi

/-- The key in memory leads to the same instance as the search of the table. -/
theorem existing?_eq (h : Mirrors m t) (draft : Draft) :
    t.existing? draft = (m.existing? draft).map (·.kept Instant.inUtc) := by
  unfold TableStore.existing? MemoryStore.existing?
  cases hkey : draft.dedupeKey with
  | none => rfl
  | some key =>
    have hrow {row : Instance} (hrow : row ∈ t.rows)
        (hsame : row.graphId = draft.graphId ∧ row.dedupeKey = some key) :
        ∃ i ∈ m.instances, i.kept Instant.inUtc = row ∧
          m.keys.lookup (draft.graphId, key) = some i.id := by
      obtain ⟨i, hi, rfl⟩ := List.mem_map.mp (h.rows.mem_iff.mp hrow)
      exact ⟨i, hi, rfl, (h.keys _ _ _).mpr ⟨i, hi, rfl, hsame⟩⟩
    simp only [Option.bind_eq_bind, Option.bind_some]
    cases hlookup : m.keys.lookup (draft.graphId, key) with
    | none =>
      refine List.find?_eq_none.mpr fun row hmem hsame => ?_
      obtain ⟨i, -, -, hfound⟩ := hrow hmem (by simpa using hsame)
      cases hlookup.symm.trans hfound
    | some id =>
      obtain ⟨i, hi, rfl, hgraph, hdedupe⟩ := (h.keys _ _ _).mp hlookup
      rw [Option.bind_some, Instance.find?_of_mem h.nodup hi]
      refine (Keyed.find?_eq_some_iff ?_).mpr ⟨h.rows.mem_iff.mpr (List.mem_map_of_mem hi), ?_⟩
      · intro row hmem row' hmem' hsame hsame'
        obtain ⟨j, hj, rfl, hid⟩ := hrow hmem (by simpa using hsame)
        obtain ⟨k, hk, rfl, hid'⟩ := hrow hmem' (by simpa using hsame')
        rw [List.inj_on_of_nodup_map h.nodup hj hk (Option.some.inj (hid.symm.trans hid'))]
      · simp [Instance.kept, hgraph, hdedupe]

theorem lookup_keys_of_existing? (h : Mirrors m t) {draft : Draft}
    (hnew : m.existing? draft = none) {key : String} (hkey : draft.dedupeKey = some key) :
    m.keys.lookup (draft.graphId, key) = none := by
  cases hlookup : m.keys.lookup (draft.graphId, key) with
  | none => rfl
  | some id =>
    obtain ⟨i, hi, rfl, -⟩ := (h.keys _ _ _).mp hlookup
    simp [MemoryStore.existing?, hkey, hlookup, Instance.find?_of_mem h.nodup hi] at hnew

/-- A new instance comes with a new key. -/
theorem append (h : Mirrors m t) {draft : Draft} (hnew : m.existing? draft = none)
    (htimed : draft.IsTimed) (hholds : TableStore.Holds draft.version) {i : Instance}
    (hi : i = { draft with id := Instance.idOf (m.created + 1) }) :
    Mirrors ⟨m.instances ++ [i], m.keysWith draft i.id, m.created + 1⟩
      ⟨t.rows ++ [i.kept Instant.inUtc], t.created + 1⟩ where
  wellFormed := by
    let m' : MemoryStore := ⟨m.instances ++ [i], m.keysWith draft i.id, m.created + 1⟩
    have hid : i.id = Instance.idOf (m.created + 1) := by rw [hi]
    have hinstances : m'.instances = m.instances ++ [i.kept (Store.memory m).time] := by
      rw [Store.kept_memory]
    obtain ⟨-, hputs⟩ := @Store.puts_append (.memory m) (.memory m') i h.wellFormed rfl hid rfl
      hinstances
    exact hputs.wellFormed
  created := by rw [h.created]
  rows := by
    rw [List.map_append]
    exact h.rows.append_right _
  keys := by
    intro graphId key id
    have hgraph : i.graphId = draft.graphId := by rw [hi]
    have hdedupe : i.dedupeKey = draft.dedupeKey := by rw [hi]
    simp only [List.mem_append, List.mem_singleton, or_and_right, exists_or, exists_eq_left,
      ← h.keys, m.lookup_keysWith, hgraph, hdedupe]
    by_cases hmade : draft.graphId = graphId ∧ draft.dedupeKey = some key
    · have hnone : m.keys.lookup (graphId, key) = none :=
        hmade.1 ▸ h.lookup_keys_of_existing? hnew hmade.2
      simp [hnone, hmade]
    · simp [hmade]
  timed := by
    intro j hj
    rcases List.mem_append.mp hj with hj | hj
    · exact h.timed j hj
    · rw [List.mem_singleton.mp hj, hi]
      exact htimed
  holds := by
    intro j hj
    rcases List.mem_append.mp hj with hj | hj
    · exact h.holds j hj
    · rw [List.mem_singleton.mp hj, hi]
      exact hholds

end Mirrors

end WorkflowEngine

import Mathlib.Data.List.Nodup
import WorkflowEngine.Keyed
import WorkflowEngine.Store

/-!
# What requests do to a store

A store keeps one instance for each identifier, with its times by a clock of its own. A request that
changes the store puts one instance there, in its place or as a new one, and changes no other.
-/
namespace WorkflowEngine

namespace Instance

/-- The instance with its times as they are shown by the clock of a store. -/
def kept (time : Instant → Instant) (i : Instance) : Instance :=
  { i with
    resumeAt := i.resumeAt.map time
    createdAt := time i.createdAt
    updatedAt := time i.updatedAt
    completedAt := i.completedAt.map time }

/-- The instance as the next write that is made at a time. -/
def stamped (i : Instance) (version : Version) (now : Instant) : Instance :=
  { i with version, updatedAt := now }

/-- What an instance was created with. -/
def origin (i : Instance) : String × String × Record × Option String × Instant :=
  (i.graphId, i.planVersion, i.context, i.dedupeKey, i.createdAt)

/-- What no write changes, apart from the identifier. -/
def identity (i : Instance) : String × String × Option String × Instant :=
  (i.graphId, i.planVersion, i.dedupeKey, i.createdAt)

theorem identity_eq_of_origin {i j : Instance} (h : i.origin = j.origin) :
    i.identity = j.identity := by
  simp only [origin, Prod.mk.injEq] at h
  obtain ⟨hgraph, hplan, -, hkey, hcreated⟩ := h
  simp only [identity, hgraph, hplan, hkey, hcreated]

theorem times_of_kept {time : Instant → Instant} {i : Instance} (h : i.kept time = i) :
    i.resumeAt.map time = i.resumeAt ∧ time i.createdAt = i.createdAt ∧
      i.completedAt.map time = i.completedAt :=
  ⟨congrArg (·.resumeAt) h, congrArg (·.createdAt) h, congrArg (·.completedAt) h⟩

theorem kept_stamped {time : Instant → Instant} {i : Instance} (h : i.kept time = i)
    (version : Version) (now : Instant) :
    (i.stamped version now).kept time = i.stamped version (time now) := by
  obtain ⟨hresume, hcreated, hcompleted⟩ := times_of_kept h
  simp only [stamped, kept, hresume, hcreated, hcompleted]

def claimed (i : Instance) (status : Status) (owner : Option String) : Instance :=
  { i with status, owner }

theorem kept_claimed {time : Instant → Instant} {i : Instance} (h : i.kept time = i)
    (status : Status) (owner : Option String) :
    (i.claimed status owner).kept time = i.claimed status owner := by
  obtain ⟨hresume, hcreated, hcompleted⟩ := times_of_kept h
  have hupdated : time i.updatedAt = i.updatedAt := congrArg (·.updatedAt) h
  simp only [claimed, kept, hresume, hcreated, hcompleted, hupdated]

theorem written_eq {row next : Instance} (hid : row.id = next.id)
    (hidentity : (next.kept Instant.inUtc).identity = row.identity) (version : Version)
    (now : Instant) :
    TableStore.written row next version now = (next.stamped version now).kept Instant.inUtc := by
  simp only [identity, kept, Prod.mk.injEq] at hidentity
  obtain ⟨hgraph, hplan, hkey, hcreated⟩ := hidentity
  simp only [TableStore.written, stamped, kept, hgraph, hplan, hkey, hcreated, hid]

theorem find?_replace (next : Instance) (items : List Instance) (id : InstanceId) :
    find? (replace next items) id =
      if id = next.id then (find? items id).map fun _ => next else find? items id := by
  induction items with
  | nil => simp [find?, replace]
  | cons i items ih =>
    simp only [find?, replace, List.map_cons] at ih ⊢
    by_cases hi : i.id = next.id
    · by_cases hid : id = next.id
      · simp [hi, hid]
      · have hne : (next.id == id) = false := by simpa using Ne.symm hid
        simp only [hi, if_true, List.find?_cons, hne, ih, hid, if_false]
    · by_cases hid : i.id = id
      · have hne : id ≠ next.id := fun h => hi (hid.trans h)
        simp [hid, hne]
      · have hne : (i.id == id) = false := by simpa using hid
        simp only [hi, if_false, List.find?_cons, hne, ih]

theorem map_id_replace (next : Instance) (items : List Instance) :
    (replace next items).map (·.id) = items.map (·.id) := by
  rw [replace, List.map_map]
  refine List.map_congr_left fun i _ => ?_
  by_cases h : i.id = next.id <;> simp [h]

theorem find?_id {items : List Instance} {id : InstanceId} {i : Instance}
    (h : find? items id = some i) : i.id = id := by
  simpa using List.find?_some h

theorem mem_of_find? {items : List Instance} {id : InstanceId} {i : Instance}
    (h : find? items id = some i) : i ∈ items := List.mem_of_find?_eq_some h

theorem find?_eq_some_iff {items : List Instance} (hnodup : (items.map (·.id)).Nodup)
    {id : InstanceId} {i : Instance} : find? items id = some i ↔ i ∈ items ∧ i.id = id := by
  rw [find?, Keyed.find?_eq_some_iff]
  · simp
  · intro i hi j hj hsame hsame'
    simp only [beq_iff_eq] at hsame hsame'
    exact List.inj_on_of_nodup_map hnodup hi hj (hsame.trans hsame'.symm)

theorem find?_of_mem {items : List Instance} {i : Instance}
    (hnodup : (items.map (·.id)).Nodup) (h : i ∈ items) : find? items i.id = some i :=
  (find?_eq_some_iff hnodup).mpr ⟨h, rfl⟩

theorem idOf_injective {m n : Nat} (h : idOf m = idOf n) : m = n := by
  have hrepr : m.repr = n.repr := by simpa [idOf] using h
  have hdigits : Nat.toDigits 10 m = Nat.toDigits 10 n := by
    rw [← Nat.toList_repr, ← Nat.toList_repr, hrepr]
  rw [← @Nat.ofDigitChars_ten_toDigits m, hdigits, Nat.ofDigitChars_ten_toDigits]

end Instance

namespace Store

/-- The clock by which a store shows times. -/
def time : Store → Instant → Instant
  | memory _ => id
  | table _ => Instant.inUtc

def created : Store → Nat
  | memory s => s.created
  | table s => s.created

def find? (s : Store) (id : InstanceId) : Option Instance := Instance.find? s.instances id

/-- A store in which every instance was numbered when it was created. -/
structure WellFormed (s : Store) : Prop where
  nodup : (s.instances.map (·.id)).Nodup
  numbered : ∀ i ∈ s.instances, ∃ n ≤ s.created, i.id = Instance.idOf n
  kept : ∀ i ∈ s.instances, i.kept s.time = i

/-- A store after an instance was put there, in its place or as a new one. -/
structure Puts (s : Store) (i : Instance) (s' : Store) : Prop where
  time : s'.time = s.time
  wellFormed : s'.WellFormed
  here : s'.find? i.id = some (i.kept s.time)
  elsewhere : ∀ id, id ≠ i.id → s'.find? id = s.find? id

theorem find?_of_mem {s : Store} {i : Instance} (hs : s.WellFormed) (h : i ∈ s.instances) :
    s.find? i.id = some i := Instance.find?_of_mem hs.nodup h

theorem kept_of_find? {s : Store} {id : InstanceId} {i : Instance} (hs : s.WellFormed)
    (h : s.find? id = some i) : i.kept s.time = i := hs.kept i (Instance.mem_of_find? h)

theorem time_time (s : Store) (t : Instant) : s.time (s.time t) = s.time t := by
  cases s <;> rfl

theorem kept_kept (s : Store) (i : Instance) : (i.kept s.time).kept s.time = i.kept s.time := by
  cases h : i.resumeAt <;> cases h' : i.completedAt <;> simp [Instance.kept, time_time, h, h']

theorem kept_memory (s : MemoryStore) (i : Instance) : i.kept (memory s).time = i := by
  simp [Instance.kept, time]

/-- A new instance under the next number. -/
theorem puts_append {s s' : Store} {i : Instance} (hs : s.WellFormed) (htime : s'.time = s.time)
    (hid : i.id = Instance.idOf (s.created + 1)) (hcreated : s'.created = s.created + 1)
    (hinstances : s'.instances = s.instances ++ [i.kept s.time]) :
    s.find? i.id = none ∧ s.Puts i s' := by
  have hnew : i.id ∉ s.instances.map (·.id) := by
    intro hmem
    obtain ⟨j, hj, hji⟩ := List.mem_map.mp hmem
    obtain ⟨n, hn, hjn⟩ := hs.numbered j hj
    have := Instance.idOf_injective (hjn.symm.trans (hji.trans hid))
    omega
  have hnone : Instance.find? s.instances i.id = none := by
    refine List.find?_eq_none.mpr fun j hj hji => hnew ?_
    exact List.mem_map.mpr ⟨j, hj, by simpa using hji⟩
  refine ⟨hnone, htime, ⟨?_, ?_, ?_⟩, ?_, ?_⟩
  · rw [hinstances, List.map_append, List.map_singleton]
    exact List.nodup_append.mpr ⟨hs.nodup, by simp, by
      rintro a ha b hb rfl
      exact hnew (List.mem_singleton.mp hb ▸ ha)⟩
  · intro j hj
    rw [hinstances] at hj
    rcases List.mem_append.mp hj with hj | hj
    · obtain ⟨n, hn, hjn⟩ := hs.numbered j hj
      exact ⟨n, by omega, hjn⟩
    · obtain rfl := List.mem_singleton.mp hj
      exact ⟨s.created + 1, by omega, hid⟩
  · intro j hj
    rw [hinstances] at hj
    rw [htime]
    rcases List.mem_append.mp hj with hj | hj
    · exact hs.kept j hj
    · obtain rfl := List.mem_singleton.mp hj
      exact kept_kept s i
  · rw [find?, hinstances, Instance.find?, List.find?_append, ← Instance.find?, hnone]
    simp [Instance.kept]
  · intro id hne
    have : (i.id == id) = false := by simpa using Ne.symm hne
    simp [find?, hinstances, Instance.find?, List.find?_append, Instance.kept, this]

theorem puts_replace {s s' : Store} {cur i : Instance} (hs : s.WellFormed)
    (hcur : s.find? i.id = some cur) (htime : s'.time = s.time)
    (hcreated : s'.created = s.created)
    (hinstances : s'.instances = Instance.replace (i.kept s.time) s.instances) :
    s.Puts i s' := by
  have hmem {j : Instance} (hj : j ∈ s'.instances) :
      j = i.kept s.time ∨ j ∈ s.instances := by
    rw [hinstances, Instance.replace] at hj
    obtain ⟨k, hk, rfl⟩ := List.mem_map.mp hj
    split
    · exact .inl rfl
    · exact .inr hk
  refine ⟨htime, ⟨?_, ?_, ?_⟩, ?_, ?_⟩
  · rw [hinstances, Instance.map_id_replace]
    exact hs.nodup
  · intro j hj
    rw [hcreated]
    rcases hmem hj with rfl | hj
    · obtain ⟨n, hn, hid⟩ := hs.numbered cur (Instance.mem_of_find? hcur)
      exact ⟨n, hn, (Instance.find?_id hcur).symm.trans hid⟩
    · exact hs.numbered j hj
  · intro j hj
    rw [htime]
    rcases hmem hj with rfl | hj
    · exact kept_kept s i
    · exact hs.kept j hj
  · have hkept : i.id = (i.kept s.time).id := rfl
    rw [find?, hinstances, Instance.find?_replace, if_pos hkept]
    rw [find?] at hcur
    rw [hcur, Option.map_some]
  · intro id hne
    have hkept : ¬ id = (i.kept s.time).id := hne
    rw [find?, hinstances, Instance.find?_replace, if_neg hkept, find?]

theorem load_eq (s : Store) (id : InstanceId) :
    s.load id = match s.find? id with
      | some i => .ok i
      | none => .error (.instanceNotFound id) := by
  cases s <;> rfl

theorem find?_of_load {s : Store} {id : InstanceId} {i : Instance} (h : s.load id = .ok i) :
    s.find? id = some i := by
  rw [load_eq] at h
  split at h
  · rename_i hfound
    exact Except.ok.inj h ▸ hfound
  · cases h

theorem mem_of_mem_upTo {α : Type} {stop : Int} {items : List α} {a : α}
    (h : a ∈ Span.upTo stop items) : a ∈ items :=
  List.mem_of_mem_take (List.mem_of_mem_drop h)

theorem mem_of_mem_limited {α : Type} {limit : Int} {items : List α} {a : α}
    (h : a ∈ Span.limited limit items) : a ∈ items := by
  unfold Span.limited at h
  split at h
  · exact h
  · exact List.mem_of_mem_take h

theorem of_whenFit {α : Type} {numbers : List Int} {answer : Outcome α} {a : α}
    (h : TableStore.whenFit numbers answer = .ok a) : answer = .ok a := by
  unfold TableStore.whenFit at h
  split at h
  · exact h
  · cases h

theorem counted_eq (v : Version) :
    TableStore.counted v = v ∨ TableStore.counted v = .uncounted := by
  cases v with
  | count n =>
    by_cases hn : TableStore.fits n
    · exact .inl (by simp [TableStore.counted, hn])
    · exact .inr (by simp [TableStore.counted, hn])
  | uncounted => exact .inr rfl

theorem of_listDue {s : Store} {now : Instant} {limit : Int} {due : List Instance}
    (h : s.listDue now limit = .ok due) {i : Instance} (hi : i ∈ due) :
    i ∈ s.instances ∧ i.isDue now = true := by
  cases s with
  | memory s =>
    simp only [listDue, MemoryStore.listDue] at h
    split at h
    · obtain rfl := Except.ok.inj h
      exact List.mem_filter.mp (List.mem_mergeSort.mp (mem_of_mem_upTo hi))
    · cases h
  | table s =>
    obtain rfl := Except.ok.inj (of_whenFit h)
    exact List.mem_filter.mp (List.mem_mergeSort.mp (mem_of_mem_limited hi))

theorem of_listStale {s : Store} {before : Instant} {limit : Int} {stale : List Instance}
    (h : s.listStale before limit = .ok stale) {i : Instance} (hi : i ∈ stale) :
    i ∈ s.instances ∧ i.isStale before = true := by
  cases s with
  | memory s =>
    obtain rfl := Except.ok.inj h
    exact List.mem_filter.mp (List.mem_mergeSort.mp (mem_of_mem_upTo hi))
  | table s =>
    obtain rfl := Except.ok.inj (of_whenFit h)
    exact List.mem_filter.mp (List.mem_mergeSort.mp (mem_of_mem_limited hi))

/-- A limit that no listing of a store reaches. -/
def HasRoom (s : Store) (limit : Int) : Prop :=
  s.instances.length ≤ limit ∧ TableStore.fits limit = true

theorem upTo_eq_self {α : Type} {limit : Int} {items : List α} (h : items.length ≤ limit) :
    Span.upTo limit items = items := by
  obtain ⟨n, rfl⟩ := Int.eq_ofNat_of_zero_le (show 0 ≤ limit by omega)
  have hzero := Span.between_nonneg 0 n items
  rw [Span.upTo, show (0 : Int) = ((0 : Nat) : Int) from rfl, hzero, List.drop_zero,
    List.take_of_length_le (by omega)]

theorem limited_eq_self {α : Type} {limit : Int} {items : List α} (h : items.length ≤ limit) :
    Span.limited limit items = items := by
  rw [Span.limited, if_neg (by omega), List.take_of_length_le (by omega)]

/-- Every due instance is listed if there is room, in memory only if the times of all of them can be
compared. -/
theorem mem_listDue {s : Store} {now : Instant} {limit : Int} {i : Instance}
    (hi : i ∈ s.instances) (hdue : i.isDue now = true) (hroom : s.HasRoom limit)
    (hcomparable : ∀ t, s = memory t →
      Instance.areComparable (s.instances.filter (Instance.isDue now)) = true) :
    ∃ due, s.listDue now limit = .ok due ∧ i ∈ due := by
  have hsorted {sorted : List Instance}
      (hperm : sorted.Perm (s.instances.filter (Instance.isDue now))) :
      (sorted.length : Int) ≤ limit ∧ i ∈ sorted := by
    have := List.length_filter_le (Instance.isDue now) s.instances
    have := hroom.1
    have := hperm.length_eq
    exact ⟨by omega, hperm.mem_iff.mpr (List.mem_filter.mpr ⟨hi, hdue⟩)⟩
  cases s with
  | memory s =>
    obtain ⟨hlength, hmem⟩ := hsorted (List.mergeSort_perm _ _)
    exact ⟨_, (if_pos (hcomparable s rfl)).trans (congrArg Except.ok (upTo_eq_self hlength)), hmem⟩
  | table s =>
    obtain ⟨hlength, hmem⟩ := hsorted (List.mergeSort_perm _ _)
    have hfits : [limit].all TableStore.fits = true := by simp [hroom.2]
    exact ⟨_, (if_pos hfits).trans (congrArg Except.ok (limited_eq_self hlength)), hmem⟩

theorem mem_listStale {s : Store} {before : Instant} {limit : Int} {i : Instance}
    (hi : i ∈ s.instances) (hstale : i.isStale before = true) (hroom : s.HasRoom limit) :
    ∃ stale, s.listStale before limit = .ok stale ∧ i ∈ stale := by
  have hlength : ((Instance.sortStale (s.instances.filter (Instance.isStale before))).length : Int)
      ≤ limit := by
    rw [Instance.sortStale, List.length_mergeSort]
    have := List.length_filter_le (Instance.isStale before) s.instances
    have := hroom.1
    omega
  have hmem : i ∈ Instance.sortStale (s.instances.filter (Instance.isStale before)) :=
    List.mem_mergeSort.mpr (List.mem_filter.mpr ⟨hi, hstale⟩)
  cases s with
  | memory s => exact ⟨_, congrArg Except.ok (upTo_eq_self hlength), hmem⟩
  | table s =>
    have hall := limited_eq_self hlength
    have hfits : [limit].all TableStore.fits = true := by simp [hroom.2]
    exact ⟨_, (if_pos hfits).trans (congrArg Except.ok hall), hmem⟩

/-- A creation puts a new instance into the store, unless there is one for the event. -/
theorem create_cases {s s' : Store} {draft : Draft} {i : Instance} {isNew : Bool}
    (hs : s.WellFormed) (h : s.create draft = .ok ((i, isNew), s')) :
    isNew = false ∧ s' = s ∨
      i.toDraft = draft ∧ isNew = true ∧ s.find? i.id = none ∧ s.Puts i s' := by
  cases s with
  | memory s =>
    simp only [create, MemoryStore.create] at h
    split at h
    · obtain ⟨hi, rfl⟩ := Prod.mk.inj (Except.ok.inj h)
      exact .inl ⟨(Prod.mk.inj hi).2.symm, rfl⟩
    · obtain ⟨hi, rfl⟩ := Prod.mk.inj (Except.ok.inj h)
      obtain ⟨rfl, rfl⟩ := Prod.mk.inj hi
      refine .inr ⟨rfl, rfl, puts_append hs rfl rfl rfl ?_⟩
      rw [kept_memory]
      rfl
  | table s =>
    simp only [create, TableStore.create, TableStore.whenFit] at h
    split at h
    · obtain ⟨hi, rfl⟩ := Prod.mk.inj (Except.ok.inj h)
      exact .inl ⟨(Prod.mk.inj hi).2.symm, rfl⟩
    · split at h
      · obtain ⟨hi, rfl⟩ := Prod.mk.inj (Except.ok.inj h)
        obtain ⟨rfl, rfl⟩ := Prod.mk.inj hi
        exact .inr ⟨rfl, rfl, puts_append hs rfl rfl rfl rfl⟩
      · cases h

/-- A write of an instance that keeps what it was created with puts it in its place. It is made only
if the version of the stored instance is the expected one. -/
theorem save_cases {s s' : Store} {now : Instant} {next stored : Instance} {expected : Version}
    (hs : s.WellFormed) (h : s.save now next expected = .ok (stored, s')) :
    ∃ cur, s.find? next.id = some cur ∧ cur.version = expected ∧
      stored = next.stamped expected.next now ∧
      ((next.kept s.time).origin = cur.origin → s.Puts stored s') := by
  cases s with
  | memory s =>
    simp only [save, MemoryStore.save] at h
    split at h
    · cases h
    · rename_i cur hcur
      split at h
      · rename_i hversion
        obtain ⟨rfl, rfl⟩ := Prod.mk.inj (Except.ok.inj h)
        refine ⟨cur, hcur, hversion, rfl, fun _ => puts_replace hs hcur rfl rfl ?_⟩
        rw [kept_memory]
        rfl
      · cases h
  | table s =>
    simp only [save, TableStore.save, TableStore.whenFit] at h
    split at h
    · split at h
      · cases h
      · rename_i cur hcur
        split at h
        · rename_i hversion
          obtain ⟨rfl, rfl⟩ := Prod.mk.inj (Except.ok.inj h)
          refine ⟨cur, hcur, hversion, rfl, fun horigin => puts_replace hs hcur rfl rfl ?_⟩
          have hwritten := Instance.written_eq (Instance.find?_id hcur)
            (Instance.identity_eq_of_origin horigin) expected.next now
          exact congrArg (Instance.replace · s.rows) hwritten
        · cases h
    · cases h

/-- A write is refused if the instance is not stored, or has another version, or if a number does
not fit into a column. -/
theorem save_error_cases {s : Store} {now : Instant} {next : Instance} {expected : Version}
    {e : Error} (h : s.save now next expected = .error e) :
    s.find? next.id = none ∨
      (∃ cur, s.find? next.id = some cur ∧ cur.version ≠ expected ∧
        e = .storeConflict next.id expected cur.version) ∨
      (∃ t, s = .table t) ∧ (TableStore.numbers expected ++
        TableStore.numbers expected.next).all TableStore.fits ≠ true := by
  cases s with
  | memory s =>
    simp only [save, MemoryStore.save] at h
    split at h
    · rename_i hnone
      exact .inl hnone
    · rename_i cur hcur
      split at h
      · cases h
      · rename_i hversion
        exact .inr (.inl ⟨cur, hcur, hversion, (Except.error.inj h).symm⟩)
  | table s =>
    simp only [save, TableStore.save, TableStore.whenFit] at h
    split at h
    · split at h
      · rename_i hnone
        exact .inl hnone
      · rename_i cur hcur
        split at h
        · cases h
        · rename_i hversion
          exact .inr (.inl ⟨cur, hcur, hversion, (Except.error.inj h).symm⟩)
    · rename_i hfit
      exact .inr (.inr ⟨⟨s, rfl⟩, hfit⟩)

theorem store_of_save_eq_error {s s' : Store} {now : Instant} {next : Instance}
    {expected : Version} {e : Error}
    (h : s.perform now (.save next expected) = (.error e, s')) : s' = s := by
  simp only [perform] at h
  split at h
  · cases (Prod.mk.inj h).1
  · exact (Prod.mk.inj h).2.symm

/-- A claim gives an instance to a worker, if it has the given status and nobody holds it. -/
theorem claim_cases {s s' : Store} {now : Instant} {id : InstanceId} {source target : Status}
    {owner : Option String} {answer : Option Instance} (hs : s.WellFormed)
    (h : s.claim now id source target owner = (answer, s')) :
    answer = none ∧ s' = s ∨ ∃ cur version,
      s.find? id = some cur ∧ cur.status = source ∧ cur.owner = none ∧
      (version = cur.version.next ∨
        version = TableStore.counted cur.version.next ∧ ∃ t, s = .table t) ∧
      answer = some ((cur.claimed target owner).stamped version (s.time now)) ∧
      s.Puts ((cur.claimed target owner).stamped version (s.time now)) s' := by
  have key {cur : Instance} {version : Version} {s' : Store} (hcur : s.find? id = some cur)
      (htime : s'.time = s.time) (hcreated : s'.created = s.created)
      (hinstances : s'.instances =
        Instance.replace ((cur.claimed target owner).stamped version (s.time now)) s.instances) :
      s.Puts ((cur.claimed target owner).stamped version (s.time now)) s' := by
    have hfound : s.find? cur.id = some cur := (Instance.find?_id hcur).symm ▸ hcur
    refine puts_replace hs hfound htime hcreated ?_
    rw [hinstances, Instance.kept_stamped (Instance.kept_claimed (kept_of_find? hs hcur) _ _),
      time_time]
  cases s with
  | memory s =>
    simp only [claim, MemoryStore.claim] at h
    split at h
    · obtain ⟨rfl, rfl⟩ := Prod.mk.inj h
      exact .inl ⟨rfl, rfl⟩
    · rename_i cur hcur
      split at h
      · rename_i hfree
        obtain ⟨rfl, rfl⟩ := Prod.mk.inj h
        exact .inr ⟨cur, cur.version.next, hcur, hfree.1, hfree.2, .inl rfl, rfl,
          key hcur rfl rfl rfl⟩
      · obtain ⟨rfl, rfl⟩ := Prod.mk.inj h
        exact .inl ⟨rfl, rfl⟩
  | table s =>
    simp only [claim, TableStore.claim] at h
    split at h
    · obtain ⟨rfl, rfl⟩ := Prod.mk.inj h
      exact .inl ⟨rfl, rfl⟩
    · rename_i cur hcur
      split at h
      · rename_i hfree
        obtain ⟨rfl, rfl⟩ := Prod.mk.inj h
        exact .inr ⟨cur, TableStore.counted cur.version.next, hcur, hfree.1, hfree.2,
          .inr ⟨rfl, s, rfl⟩, rfl, key hcur rfl rfl rfl⟩
      · obtain ⟨rfl, rfl⟩ := Prod.mk.inj h
        exact .inl ⟨rfl, rfl⟩

/-- A claim of what nobody holds is granted. -/
theorem claim_of_free {s : Store} {now : Instant} {id : InstanceId} {source target : Status}
    {owner : Option String} {cur : Instance} (hcur : s.find? id = some cur)
    (hstatus : cur.status = source) (hfree : cur.owner = none) :
    (s.claim now id source target owner).1.isSome := by
  cases s with
  | memory s =>
    have hcur : Instance.find? s.instances id = some cur := hcur
    simp [claim, MemoryStore.claim, hcur, hstatus, hfree]
  | table s =>
    have hcur : Instance.find? s.rows id = some cur := hcur
    simp [claim, TableStore.claim, hcur, hstatus, hfree]

end Store
end WorkflowEngine

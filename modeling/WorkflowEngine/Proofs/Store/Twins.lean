import WorkflowEngine.Proofs.Store.Mirror

/-!
# Runs of the two stores side by side

Each of the seven requests leaves the stores with the same instances and is answered alike. By
induction this holds after every sequence of requests that both stores can carry out.
-/
namespace WorkflowEngine

/-! ## One request -/

/-- A request is answered alike by both stores, and they go on side by side. -/
inductive StepsAlike (m : MemoryStore) (t : TableStore) (now : Instant) (r : StoreRequest) : Prop
  | intro {a b : Outcome r.Answer} {m' : MemoryStore} {t' : TableStore}
      (memory : (Store.memory m).perform now r = (a, .memory m'))
      (table : (Store.table t).perform now r = (b, .table t')) (agree : r.Agree m a b)
      (mirrors : Mirrors m' t')

namespace Mirrors

variable {m : MemoryStore} {t : TableStore}

theorem create (h : Mirrors m t) (now : Instant) (draft : Draft)
    (hsuits : (StoreRequest.create draft).Suits m) : StepsAlike m t now (.create draft) := by
  obtain ⟨htimed, hholds⟩ := hsuits
  have hexisting := h.existing?_eq draft
  cases hfound : m.existing? draft with
  | some i =>
    rw [hfound, Option.map_some] at hexisting
    have hmemory : (Store.memory m).perform now (.create draft) = (.ok (i, false), .memory m) := by
      simp only [Store.perform, Store.create, MemoryStore.create, hfound]
      rfl
    have htable : (Store.table t).perform now (.create draft) =
        (.ok (i.kept Instant.inUtc, false), .table t) := by
      simp only [Store.perform, Store.create, TableStore.create, hexisting]
      rfl
    have hi : i ∈ m.instances := by
      simp only [MemoryStore.existing?, Option.bind_eq_bind, Option.bind_eq_some_iff] at hfound
      obtain ⟨_, -, _, -, hfound⟩ := hfound
      exact Instance.mem_of_find? hfound
    have hsame := Instance.sameAs_kept_inUtc (h.timed i hi)
    exact .intro hmemory htable (congrArg (fun i => Except.ok (i, false)) hsame) h
  | none =>
    rw [hfound, Option.map_none] at hexisting
    let i : Instance := { draft with id := Instance.idOf (m.created + 1) }
    have hmemory : (Store.memory m).perform now (.create draft) =
        (.ok (i, true), .memory ⟨m.instances ++ [i], m.keysWith draft i.id, m.created + 1⟩) := by
      simp only [Store.perform, Store.create, MemoryStore.create, hfound]
      rfl
    have htable : (Store.table t).perform now (.create draft) =
        (.ok (i, true), .table ⟨t.rows ++ [i.kept Instant.inUtc], t.created + 1⟩) := by
      simp only [Store.perform, Store.create, TableStore.create, hexisting,
        TableStore.whenFit_eq hholds, h.created]
      rfl
    exact .intro hmemory htable rfl (h.append hfound htimed hholds rfl)

theorem load (h : Mirrors m t) (now : Instant) (id : InstanceId) :
    StepsAlike m t now (.load id) := by
  have hrow := h.find?_rows id
  refine .intro rfl rfl ?_ h
  change (m.load id).map _ = (t.load id).map _
  unfold MemoryStore.load TableStore.load
  cases hfound : Instance.find? m.instances id with
  | none =>
    rw [hfound, Option.map_none] at hrow
    rw [hrow]
  | some i =>
    rw [hfound, Option.map_some] at hrow
    rw [hrow]
    exact congrArg Except.ok (h.sameAs_row hfound)

theorem save (h : Mirrors m t) (now : Instant) (hnow : now.IsAware) (next : Instance)
    (expected : Version) (hsuits : (StoreRequest.save next expected).Suits m) :
    StepsAlike m t now (.save next expected) := by
  obtain ⟨htimed, hexpected, hholds, hidentity⟩ := hsuits
  have hfits : (TableStore.numbers expected ++ TableStore.numbers expected.next).all
      TableStore.fits = true := by
    rw [List.all_append, hexpected, hholds]
    rfl
  have hrow := h.find?_rows next.id
  cases hfound : Instance.find? m.instances next.id with
  | none =>
    rw [hfound, Option.map_none] at hrow
    have hmemory : (Store.memory m).perform now (.save next expected) =
        (.error (.instanceNotFound next.id), .memory m) := by
      simp only [Store.perform, Store.save, MemoryStore.save, hfound]
      rfl
    have htable : (Store.table t).perform now (.save next expected) =
        (.error (.instanceNotFound next.id), .table t) := by
      simp only [Store.perform, Store.save, TableStore.save, TableStore.whenFit_eq hfits, hrow]
      rfl
    exact .intro hmemory htable rfl h
  | some cur =>
    rw [hfound, Option.map_some] at hrow
    by_cases hversion : cur.version = expected
    · let stored := next.stamped expected.next now
      have hid : cur.id = next.id := Instance.find?_id hfound
      have hwritten := @Instance.written_eq (cur.kept Instant.inUtc) next hid (hidentity cur hfound)
        expected.next now
      have hmemory : (Store.memory m).perform now (.save next expected) =
          (.ok stored, .memory { m with instances := Instance.replace stored m.instances }) := by
        simp only [Store.perform, Store.save, MemoryStore.save, hfound, if_pos hversion]
        rfl
      have htable : (Store.table t).perform now (.save next expected) = (.ok stored,
          .table { t with rows := Instance.replace (stored.kept Instant.inUtc) t.rows }) := by
        have hversion : (cur.kept Instant.inUtc).version = expected := hversion
        simp only [Store.perform, Store.save, TableStore.save, TableStore.whenFit_eq hfits, hrow,
          if_pos hversion, hwritten]
        rfl
      obtain ⟨hgraph, -, hkey, -⟩ : next.graphId = cur.graphId ∧
          next.planVersion = cur.planVersion ∧ next.dedupeKey = cur.dedupeKey ∧
            next.createdAt.inUtc = cur.createdAt.inUtc := by
        simpa [Instance.identity, Instance.kept] using hidentity cur hfound
      have hstored : stored.toDraft.IsTimed :=
        ⟨htimed.createdAt, hnow, htimed.completedAt, htimed.resumeAt⟩
      exact .intro hmemory htable rfl (h.replace hfound hgraph hkey hstored hholds)
    · have hmemory : (Store.memory m).perform now (.save next expected) =
          (.error (.storeConflict next.id expected cur.version), .memory m) := by
        simp only [Store.perform, Store.save, MemoryStore.save, hfound, if_neg hversion]
        rfl
      have htable : (Store.table t).perform now (.save next expected) =
          (.error (.storeConflict next.id expected cur.version), .table t) := by
        have hversion : ¬(cur.kept Instant.inUtc).version = expected := hversion
        simp only [Store.perform, Store.save, TableStore.save, TableStore.whenFit_eq hfits, hrow,
          if_neg hversion]
        rfl
      exact .intro hmemory htable rfl h

theorem claim (h : Mirrors m t) (now : Instant) (hnow : now.IsAware) (id : InstanceId)
    (source target : Status) (owner : Option String)
    (hsuits : (StoreRequest.claim id source target owner).Suits m) :
    StepsAlike m t now (.claim id source target owner) := by
  have hrow := h.find?_rows id
  cases hfound : Instance.find? m.instances id with
  | none =>
    rw [hfound, Option.map_none] at hrow
    have hmemory : (Store.memory m).perform now (.claim id source target owner) =
        (.ok none, .memory m) := by
      simp only [Store.perform, Store.claim, MemoryStore.claim, hfound]
      rfl
    have htable : (Store.table t).perform now (.claim id source target owner) =
        (.ok none, .table t) := by
      simp only [Store.perform, Store.claim, TableStore.claim, hrow]
      rfl
    exact .intro hmemory htable rfl h
  | some cur =>
    rw [hfound, Option.map_some] at hrow
    by_cases hfree : cur.status = source ∧ cur.owner = none
    · let claimed := (cur.claimed target owner).stamped cur.version.next now
      have hcounted := TableStore.counted_eq_self (hsuits cur hfound)
      have hmemory : (Store.memory m).perform now (.claim id source target owner) =
          (.ok (some claimed),
            .memory { m with instances := Instance.replace claimed m.instances }) := by
        simp only [Store.perform, Store.claim, MemoryStore.claim, hfound, if_pos hfree]
        rfl
      have htable : (Store.table t).perform now (.claim id source target owner) =
          (.ok (some (claimed.kept Instant.inUtc)),
            .table { t with rows := Instance.replace (claimed.kept Instant.inUtc) t.rows }) := by
        have hfree : (cur.kept Instant.inUtc).status = source ∧
            (cur.kept Instant.inUtc).owner = none := hfree
        have hcounted : TableStore.counted (cur.kept Instant.inUtc).version.next =
            cur.version.next := hcounted
        simp only [Store.perform, Store.claim, TableStore.claim, hrow, if_pos hfree, hcounted]
        rfl
      have hcur := h.timed cur (Instance.mem_of_find? hfound)
      have hclaimed : claimed.toDraft.IsTimed :=
        ⟨hcur.createdAt, hnow, hcur.completedAt, hcur.resumeAt⟩
      have hcurrent : Instance.find? m.instances claimed.id = some cur := by
        change Instance.find? m.instances cur.id = some cur
        rwa [Instance.find?_id hfound]
      exact .intro hmemory htable
        (congrArg (fun i => Except.ok (some i)) (Instance.sameAs_kept_inUtc hclaimed))
        (h.replace hcurrent rfl rfl hclaimed (hsuits cur hfound))
    · have hmemory : (Store.memory m).perform now (.claim id source target owner) =
          (.ok none, .memory m) := by
        simp only [Store.perform, Store.claim, MemoryStore.claim, hfound, if_neg hfree]
        rfl
      have htable : (Store.table t).perform now (.claim id source target owner) =
          (.ok none, .table t) := by
        have hfree : ¬((cur.kept Instant.inUtc).status = source ∧
            (cur.kept Instant.inUtc).owner = none) := hfree
        simp only [Store.perform, Store.claim, TableStore.claim, hrow, if_neg hfree]
        rfl
      exact .intro hmemory htable rfl h

theorem timed_row (h : Mirrors m t) {row : Instance} (hrow : row ∈ t.rows) :
    row.toDraft.IsTimed := by
  obtain ⟨i, hi, rfl⟩ := List.mem_map.mp (h.rows.mem_iff.mp hrow)
  have hi := h.timed i hi
  refine ⟨rfl, rfl, fun u hu => ?_, fun u hu => ?_⟩
  · obtain ⟨v, -, rfl⟩ := Option.map_eq_some_iff.mp hu
    rfl
  · obtain ⟨v, hv, rfl⟩ := Option.map_eq_some_iff.mp hu
    exact ⟨rfl, (hi.resumeAt v hv).2⟩

theorem filter_rows (h : Mirrors m t) {P : Instance → Bool}
    (hP : ∀ i, P (i.kept Instant.inUtc) = P i) :
    (t.rows.filter P).Perm ((m.instances.filter P).map (·.kept Instant.inUtc)) := by
  have hkept : (m.instances.map (·.kept Instant.inUtc)).filter P =
      (m.instances.filter P).map (·.kept Instant.inUtc) := by
    rw [List.filter_map]
    exact congrArg _ (List.filter_congr fun i _ => hP i)
  exact hkept ▸ h.rows.filter P

/-- Listings that are sorted by one key have the same pages. -/
theorem samePage (h : Mirrors m t) {κ : Type} [LinearOrder κ] {key : Instance → κ}
    (hkey : ∀ i, key (i.kept Instant.inUtc) = key i) {P : Instance → Bool}
    (hP : ∀ i, P (i.kept Instant.inUtc) = P i) {le le' : Instance → Instance → Bool}
    (hle : ∀ i j, le i j = decide (key i ≤ key j))
    (hle' : ∀ i ∈ t.rows, ∀ j ∈ t.rows, le' i j = decide (key i ≤ key j)) (start count : Nat) :
    SamePage key (Span.CutsTie start count (((m.instances.filter P).mergeSort le).map key))
      (Span.page start count ((m.instances.filter P).mergeSort le))
      (Span.page start count ((t.rows.filter P).mergeSort le')) := by
  have hfilter := h.filter_rows hP
  have hkeys : ((t.rows.filter P).mergeSort le').map key =
      ((m.instances.filter P).mergeSort le).map key := by
    refine Span.map_mergeSort_eq ?_ (fun i _ j _ => hle i j) fun i hi j hj =>
      hle' i (List.mem_of_mem_filter hi) j (List.mem_of_mem_filter hj)
    refine (hfilter.map key).trans (List.Perm.of_eq ?_)
    rw [List.map_map]
    exact List.map_congr_left fun i _ => hkey i
  refine ⟨by rw [Span.map_page, Span.map_page, hkeys], fun hcut => ?_⟩
  have hsorted : ((t.rows.filter P).mergeSort le').Perm
      (((m.instances.filter P).mergeSort le).map (·.kept Instant.inUtc)) :=
    (List.mergeSort_perm _ _).trans (hfilter.trans ((List.mergeSort_perm _ _).symm.map _))
  refine ((Span.perm_page hkey hsorted hkeys hcut).map _).trans (List.Perm.of_eq ?_)
  rw [List.map_map]
  refine List.map_congr_left fun i hi => ?_
  have hmem := List.mem_mergeSort.mp (List.mem_of_mem_drop (List.mem_of_mem_take hi))
  exact (Instance.sameAs_kept_inUtc (h.timed i (List.mem_of_mem_filter hmem))).symm

theorem areComparable (h : Mirrors m t) (P : Instance → Bool) :
    Instance.areComparable (m.instances.filter P) = true := by
  rw [Instance.areComparable, Bool.or_eq_true]
  refine .inr (List.all_eq_true.mpr fun i hi => ?_)
  have hi := h.timed i (List.mem_of_mem_filter hi)
  cases hresume : i.resumeAt with
  | none => rfl
  | some time => exact (hi.resumeAt time hresume).1

theorem isDue_kept (time : Instant) (i : Instance) :
    (i.kept Instant.inUtc).isDue time = i.isDue time := by
  cases hresume : i.resumeAt <;>
    simp [Instance.isDue, Instance.isTerminal, Instance.kept, hresume, Instant.le_iff,
      Instant.inUtc]

theorem listDue (h : Mirrors m t) (now time : Instant) (limit : Int)
    (hsuits : (StoreRequest.listDue time limit).Suits m) :
    StepsAlike m t now (.listDue time limit) := by
  obtain ⟨-, hlimit, hfits⟩ := hsuits
  obtain ⟨count, rfl⟩ := Int.eq_ofNat_of_zero_le hlimit
  have hpage := h.samePage Instance.dueKey_kept (isDue_kept time) Instance.sortDue_le_eq
    (fun i hi j hj => Instance.dueBefore_eq (h.timed_row hi) (h.timed_row hj)) 0 count
  refine StepsAlike.intro rfl rfl ⟨_, _, ?_, ?_, hpage⟩ h
  · exact (if_pos (h.areComparable _)).trans (congrArg Except.ok (Span.upTo_eq_page _ _))
  · refine (TableStore.whenFit_eq (by simpa using hfits) _).trans (congrArg Except.ok ?_)
    exact Span.limited_eq_page 0 count _

theorem listStale (h : Mirrors m t) (now before : Instant) (limit : Int)
    (hsuits : (StoreRequest.listStale before limit).Suits m) :
    StepsAlike m t now (.listStale before limit) := by
  obtain ⟨-, hlimit, hfits⟩ := hsuits
  obtain ⟨count, rfl⟩ := Int.eq_ofNat_of_zero_le hlimit
  have hpage := h.samePage (P := Instance.isStale before)
    (fun i => show (i.kept Instant.inUtc).staleKey = i.staleKey from rfl) (fun _ => rfl)
    (fun _ _ => rfl) (fun _ _ _ _ => rfl) 0 count
  refine StepsAlike.intro rfl rfl ⟨_, _, ?_, ?_, hpage⟩ h
  · exact congrArg Except.ok (Span.upTo_eq_page _ _)
  · refine (TableStore.whenFit_eq (by simpa using hfits) _).trans (congrArg Except.ok ?_)
    exact Span.limited_eq_page 0 count _

theorem listForGraph (h : Mirrors m t) (now : Instant) (graphId : String)
    (status : Option Status) (limit offset : Int)
    (hsuits : (StoreRequest.listForGraph graphId status limit offset).Suits m) :
    StepsAlike m t now (.listForGraph graphId status limit offset) := by
  obtain ⟨hlimit, hoffset, hfits, hfits'⟩ := hsuits
  obtain ⟨count, rfl⟩ := Int.eq_ofNat_of_zero_le hlimit
  obtain ⟨start, rfl⟩ := Int.eq_ofNat_of_zero_le hoffset
  have hpage := h.samePage (P := Instance.isListed graphId status)
    (fun i => show (i.kept Instant.inUtc).newestKey = i.newestKey from rfl) (fun _ => rfl)
    Instance.sortNewest_le_eq (fun i _ j _ => Instance.sortNewest_le_eq i j) start count
  have htotal : (t.rows.filter (Instance.isListed graphId status)).length =
      (m.instances.filter (Instance.isListed graphId status)).length :=
    (h.filter_rows fun _ => rfl).length_eq.trans (List.length_map _)
  refine StepsAlike.intro rfl rfl ⟨_, _,
    (m.instances.filter (Instance.isListed graphId status)).length, ?_, ?_, hpage⟩ h
  · exact congrArg (fun page => Except.ok (page, _)) (Span.between_eq_page start count _)
  · refine (TableStore.whenFit_eq (by simpa using ⟨hfits, hfits'⟩) _).trans (congrArg Except.ok ?_)
    rw [Int.toNat_natCast, Span.limited_eq_page, htotal]
    simp only [List.isEmpty_iff]
    rfl

/-- Whatever is asked for, both stores answer alike and go on side by side. -/
theorem step (h : Mirrors m t) {now : Instant} (hnow : now.IsAware) :
    ∀ r : StoreRequest, r.Suits m → StepsAlike m t now r
  | .create draft, hsuits => h.create now draft hsuits
  | .load id, _ => h.load now id
  | .save next expected, hsuits => h.save now hnow next expected hsuits
  | .claim id source target owner, hsuits => h.claim now hnow id source target owner hsuits
  | .listDue time limit, hsuits => h.listDue now time limit hsuits
  | .listStale before limit, hsuits => h.listStale now before limit hsuits
  | .listForGraph graphId status limit offset, hsuits =>
    h.listForGraph now graphId status limit offset hsuits

end Mirrors

/-! ## Runs -/

/-- Stores that have been asked for the same at the same times since they were empty. The rows of a
table have no order: they may be found in another one by each request. -/
inductive Twins : MemoryStore → TableStore → Prop
  | empty : Twins .empty .empty
  | perform {m : MemoryStore} {t : TableStore} (h : Twins m t) {now : Instant} (hnow : now.IsAware)
      {r : StoreRequest} (hsuits : r.Suits m) {m' : MemoryStore} {t' : TableStore}
      (hmemory : ((Store.memory m).perform now r).2 = .memory m')
      (htable : ((Store.table t).perform now r).2 = .table t') : Twins m' t'
  | reorder {m : MemoryStore} {t : TableStore} (h : Twins m t) {rows : List Instance}
      (hrows : rows.Perm t.rows) : Twins m { t with rows }

namespace Twins

variable {m : MemoryStore} {t : TableStore}

theorem mirrors (h : Twins m t) : Mirrors m t := by
  induction h with
  | empty => exact .empty
  | reorder _ hrows ih => exact ih.reorder hrows
  | perform _ hnow hsuits hmemory htable ih =>
    obtain ⟨hm, ht, -, hmirrors⟩ := ih.step hnow _ hsuits
    rw [hm] at hmemory
    rw [ht] at htable
    obtain rfl := Store.memory.inj hmemory
    obtain rfl := Store.table.inj htable
    exact hmirrors

/-- After every sequence of requests the next one has the same answer in memory and from a table, or
the same error: instances with the same fields and equal times, and listings with the same sort keys
in the same places, which hold the same instances unless the limits cut a tie. Only the number that
comes with a page of the instances of a graph differs, and only if the page is empty. -/
theorem answers_agree (h : Twins m t) {now : Instant} (hnow : now.IsAware) {r : StoreRequest}
    (hsuits : r.Suits m) :
    r.Agree m ((Store.memory m).perform now r).1 ((Store.table t).perform now r).1 := by
  obtain ⟨hm, ht, hagree, -⟩ := h.mirrors.step hnow r hsuits
  rw [hm, ht]
  exact hagree

end Twins

namespace Sample

def midnight : Instant := ⟨0, some 0⟩

def fresh : Draft where
  graphId := "g"
  planVersion := "g@1"
  cursor := "t"
  context := []
  status := .running
  resumeAt := none
  attempts := []
  dispatching := none
  owner := none
  version := .count 0
  dedupeKey := none
  error := none
  createdAt := midnight
  updatedAt := midnight
  completedAt := none

theorem twins_fresh :
    Twins (MemoryStore.empty.create fresh).2 ⟨[{ fresh with id := Instance.idOf 1 }], 1⟩ := by
  have haware : midnight.IsAware := rfl
  have hsuits : (StoreRequest.create fresh).Suits .empty :=
    ⟨⟨haware, haware, by simp [fresh], by simp [fresh]⟩, rfl⟩
  exact .perform .empty haware hsuits rfl rfl

/-- A page beyond the only instance of a graph: memory counts the instance, the table does not. -/
theorem totals_fresh : ∃ m t, Twins m t ∧
    ((Store.memory m).perform midnight (.listForGraph "g" none 10 1)).1 = .ok ([], 1) ∧
    ((Store.table t).perform midnight (.listForGraph "g" none 10 1)).1 = .ok ([], 0) := by
  have hsuits : (StoreRequest.listForGraph "g" none 10 1).Suits
      (MemoryStore.empty.create fresh).2 := ⟨by decide, by decide, rfl, rfl⟩
  have haware : midnight.IsAware := rfl
  obtain ⟨page, page', total, hmemory, htable, hsame⟩ := twins_fresh.answers_agree haware hsuits
  have hcounted : ((Store.memory (MemoryStore.empty.create fresh).2).perform midnight
      (.listForGraph "g" none 10 1)).1 = .ok ([], 1) := by
    decide +kernel
  obtain ⟨rfl, rfl⟩ := Prod.mk.inj (Except.ok.inj (hmemory.symm.trans hcounted))
  obtain rfl : page' = [] := List.map_eq_nil_iff.mp hsame.keys
  exact ⟨_, _, twins_fresh, hcounted, htable⟩

end Sample
end WorkflowEngine

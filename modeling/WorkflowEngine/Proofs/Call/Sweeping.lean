import WorkflowEngine.Proofs.Call.Polling
import WorkflowEngine.Proofs.System.Sweeps

/-!
# Sweeps of a store

A sweep that nothing disturbs takes from their workers those of the instances it has listed that are
abandoned. It lists so many instances that have been silent for the longest time, and among them may
be some whose action is in flight. These take up room, so that it releases as many abandoned
instances as it may only if no such instance is among those listed, or no abandoned one is left out.
-/
namespace WorkflowEngine

theorem Instance.isAbandoned_iff {i : Instance} {now before inFlightBefore : Instant}
    {grace timeout : Int} (hbefore : before.micros = now.micros - grace)
    (hinFlight : inFlightBefore.micros = now.micros - max grace timeout) :
    i.IsAbandoned now grace timeout ↔
      i.isStale before = true ∧ Sweep.isInFlight inFlightBefore i = false := by
  refine ⟨fun h => ⟨?_, ?_⟩, fun ⟨hstale, hidle⟩ =>
    isAbandoned_of_isStale hbefore hinFlight hstale hidle⟩
  · have hsilent : i.updatedAt < before := Instant.lt_iff.mpr (hbefore ▸ h.silent)
    simp [isStale, h.running, Option.isSome_iff_ne_none, h.owned, hsilent]
  · unfold Sweep.isInFlight
    by_cases hintent : i.dispatching = none
    · simp [hintent]
    · have hlate : ¬ inFlightBefore ≤ i.updatedAt := by
        have := h.dispatched hintent
        rw [Instant.le_iff]
        omega
      simp [hlate]

instance (i : Instance) (now : Instant) (grace timeout : Int) :
    Decidable (i.IsAbandoned now grace timeout) :=
  decidable_of_iff (i.status = .running ∧ i.owner ≠ none ∧
    i.updatedAt.micros < now.micros - grace ∧
    (i.dispatching ≠ none → i.updatedAt.micros < now.micros - max grace timeout))
    ⟨fun ⟨hrunning, howned, hsilent, hdispatched⟩ => ⟨hrunning, howned, hsilent, hdispatched⟩,
      fun h => ⟨h.running, h.owned, h.silent, h.dispatched⟩⟩

namespace Store

variable {s : Store} {before : Instant} {batch : Nat}

/-- The instances that have been silent since before a time, from the most silent on. -/
def silentSince (s : Store) (before : Instant) : List Instance :=
  Instance.sortStale (s.instances.filter (Instance.isStale before))

theorem perm_silentSince (s : Store) (before : Instant) :
    (s.silentSince before).Perm (s.instances.filter (Instance.isStale before)) :=
  List.mergeSort_perm _ _

theorem mem_silentSince {i : Instance} :
    i ∈ s.silentSince before ↔ i ∈ s.instances ∧ i.isStale before = true :=
  (s.perm_silentSince before).mem_iff.trans List.mem_filter

theorem pairwise_silentSince (s : Store) (before : Instant) :
    (s.silentSince before).Pairwise fun i j => i.updatedAt ≤ j.updatedAt := by
  refine (List.pairwise_mergeSort (fun i j k hij hjk => ?_) (fun i j => ?_) _).imp of_decide_eq_true
  · simp only [decide_eq_true_eq, Instant.le_iff] at hij hjk ⊢
    exact hij.trans hjk
  · simp only [Bool.or_eq_true, decide_eq_true_eq, Instant.le_iff]
    exact le_total _ _

/-- A listing is a page of the most silent instances, if its length fits into a column. -/
theorem listStale_eq (hfits : s.isTable = true → TableStore.fits batch = true) :
    s.listStale before batch = .ok ((s.silentSince before).take batch) := by
  cases s with
  | memory s => exact congrArg Except.ok (Span.upTo_eq_page _ _)
  | table s =>
    have hlimit : [(batch : Int)].all TableStore.fits = true := by simp [hfits rfl]
    exact (TableStore.whenFit_eq hlimit _).trans
      (congrArg Except.ok (Span.limited_eq_page 0 batch _))

/-- A write of an instance from what was listed succeeds, if versions fit into a column. -/
theorem save_of_listed {i : Instance} (now : Instant) (next : Instance) (hs : s.WellFormed)
    (hfound : s.find? i.id = some i) (hid : next.id = i.id)
    (horigin : (next.kept s.time).origin = i.origin)
    (hholds : s.isTable = true → TableStore.Holds i.version ∧ TableStore.Holds i.version.next) :
    ∃ stored s', s.save now next i.version = .ok (stored, s') ∧
      s.Puts (next.stamped i.version.next now) s' := by
  rw [← hid] at hfound
  cases hsave : s.save now next i.version with
  | error e =>
    exfalso
    rcases save_error_cases hsave with hnone | ⟨cur, hcur, hversion, -⟩ | ⟨⟨t, rfl⟩, hunfit⟩
    · simp [hfound] at hnone
    · exact hversion (Option.some.inj (hcur.symm.trans hfound) ▸ rfl)
    · refine hunfit ?_
      rw [List.all_append, (hholds rfl).1, (hholds rfl).2]
      rfl
  | ok result =>
    obtain ⟨stored, s'⟩ := result
    obtain ⟨cur, hcur, -, rfl, hputs⟩ := save_cases hs hsave
    obtain rfl := Option.some.inj (hfound.symm.trans hcur)
    exact ⟨_, _, rfl, hputs horigin⟩

end Store

namespace Sweep

variable {e e' : Engine} {before inFlightBefore : Instant} {batch : Nat}
  {result : Outcome CallResult}

theorem kept_released {time : Instant → Instant} {i : Instance} (hkept : i.kept time = i) :
    i.released.kept time = i.released := by
  obtain ⟨-, hcreated, hcompleted⟩ := Instance.times_of_kept hkept
  have hupdated : time i.updatedAt = i.updatedAt := congrArg (·.updatedAt) hkept
  simp only [Instance.released, Instance.kept, hcreated, hcompleted, hupdated, Option.map_none]

/-- A sweep releases the abandoned instances that it has listed, one after the other. -/
theorem tours (isTable : Bool) (inFlightBefore : Instant) :
    Tours isTable (fun i => isTable = true →
        TableStore.Holds i.version ∧ TableStore.Holds i.version.next) Instance.released
      fun items done => (proceed inFlightBefore items done).map .sweep .listed where
  id_eq _ := rfl
  kept_eq _ _ hkept := kept_released hkept
  ended _ := rfl
  asks i rest done := by
    refine ⟨.sweep (.releasing inFlightBefore i rest done), rfl,
      fun e hwellFormed htable hfound hholds => ⟨⟨_, _, rfl⟩, fun answer e' hanswer => ?_⟩⟩
    have hkept : (i.released.kept e.store.time).origin = i.origin := by
      rw [kept_released (Store.kept_of_find? hwellFormed hfound)]
      rfl
    obtain ⟨stored, s', hsave, hputs⟩ :=
      Store.save_of_listed e.now i.released hwellFormed hfound rfl hkept (htable ▸ hholds)
    have hperform := Engine.perform_of_answers hanswer
    have hkind := Store.isTable_perform e.store e.now (.save i.released i.version)
    rw [hperform] at hkind
    simp only [Store.perform, hsave] at hperform
    obtain ⟨rfl, rfl⟩ := Prod.mk.inj hperform
    exact ⟨rfl, hkind.trans htable, _, hputs⟩

/-- The instances that are listed are stored once, and can be written if versions fit. -/
theorem of_listed {s : Store} (hs : s.WellFormed)
    (hholds : s.isTable = true →
      ∀ i ∈ s.instances, TableStore.Holds i.version ∧ TableStore.Holds i.version.next)
    {items : List Instance} (hitems : items.Sublist (s.silentSince before)) :
    (items.map (·.id)).Nodup ∧ ∀ i ∈ items, s.find? i.id = some i ∧ (s.isTable = true →
      TableStore.Holds i.version ∧ TableStore.Holds i.version.next) := by
  have hstale : ((s.silentSince before).map (·.id)).Nodup := by
    refine ((s.perm_silentSince before).map _).nodup_iff.mpr (hs.nodup.sublist ?_)
    exact List.filter_sublist.map _
  refine ⟨hstale.sublist (hitems.map _), fun i hi => ?_⟩
  have hmem := (Store.mem_silentSince.mp (hitems.subset hi)).1
  exact ⟨Store.find?_of_mem hs hmem, fun htable => hholds htable i hmem⟩

/-- What a sweep releases of what it lists. -/
def released (s : Store) (before inFlightBefore : Instant) (batch : Nat) : List Instance :=
  ((s.silentSince before).take batch).filter fun i => !isInFlight inFlightBefore i

/-- A sweep goes on with what it has listed that is not in flight. -/
theorem answers_listing (hfits : e.store.isTable = true → TableStore.fits batch = true)
    {answer : (listing before inFlightBefore batch).request.Answer}
    (hanswer : e.Answers (listing before inFlightBefore batch).request answer e') :
    e' = e ∧ (Call.sweep (listing before inFlightBefore batch)).resume e'.env answer =
      (proceed inFlightBefore (released e.store before inFlightBefore batch) []).map
        .sweep .listed := by
  obtain ⟨hlist, hsame⟩ := Prod.mk.inj hanswer
  have hlisted : answer = .ok ((e.store.silentSince before).take batch) :=
    hlist.trans (Store.listStale_eq hfits)
  refine ⟨hsame, ?_⟩
  subst hlisted
  rfl

/-- A table can keep the length of a listing, and every version with the one after it. -/
def Fits (s : Store) (batch : Nat) : Prop :=
  s.isTable = true → TableStore.fits batch = true ∧
    ∀ i ∈ s.instances, TableStore.Holds i.version ∧ TableStore.Holds i.version.next

theorem released_sublist (s : Store) (before inFlightBefore : Instant) (batch : Nat) :
    (released s before inFlightBefore batch).Sublist (s.silentSince before) :=
  List.filter_sublist.trans (List.take_sublist _ _)

/-- A sweep comes to its end. -/
theorem exists_undisturbed (hwellFormed : e.store.WellFormed) (hfits : Fits e.store batch) :
    ∃ result e', Undisturbed e (.sweep (listing before inFlightBefore batch)) result e' := by
  have hlisted := of_listed hwellFormed (fun htable => (hfits htable).2)
    (released_sublist e.store before inFlightBefore batch)
  have hanswer : e.Answers (listing before inFlightBefore batch).request _ e := Prod.ext rfl rfl
  exact (tours e.store.isTable inFlightBefore).exists_undisturbed
    (c := .sweep (listing before inFlightBefore batch)) hwellFormed rfl hlisted.1 hlisted.2 hanswer
    (answers_listing (fun htable => (hfits htable).1) hanswer).2

/-- A sweep that nothing disturbs releases what it has listed and is not in flight. -/
theorem of_undisturbed (hwellFormed : e.store.WellFormed) (hfits : Fits e.store batch)
    (h : Undisturbed e (.sweep (listing before inFlightBefore batch)) result e') :
    result = .ok (.listed ((released e.store before inFlightBefore batch).map (·.id))) ∧
      e.store.Rewritten Instance.released (released e.store before inFlightBefore batch)
        e'.store := by
  have hlisted := of_listed hwellFormed (fun htable => (hfits htable).2)
    (released_sublist e.store before inFlightBefore batch)
  exact (tours e.store.isTable inFlightBefore).of_undisturbed
    (c := .sweep (listing before inFlightBefore batch)) hwellFormed rfl hlisted.1 hlisted.2
    (fun now _ _ => answers_listing (e := { e with now }) fun htable => (hfits htable).1) h

/-- What a sweep has done in the end, given the instances that it was to release. -/
structure Freed (e : Engine) (freed : List Instance) (result : Outcome CallResult) (e' : Engine) :
    Prop where
  returned : result = .ok (.listed (freed.map (·.id)))
  released : ∀ i ∈ freed, ∃ time, e'.store.find? i.id = some { i with
    status := .running
    resumeAt := none
    owner := none
    version := i.version.next
    updatedAt := time }
  elsewhere : ∀ id, id ∉ freed.map (·.id) → e'.store.find? id = e.store.find? id

/-- A sweep that nothing disturbs releases the abandoned ones among so many of the instances that
have been silent for the longest time. -/
structure Frees (e : Engine) (c : Sweep) (now : Instant) (grace timeout : Int) (batch : Nat)
    (silent : List Instance) : Prop where
  perm : silent.Perm
    (e.store.instances.filter (Instance.isStale { now with micros := now.micros - grace }))
  ordered : silent.Pairwise fun i j => i.updatedAt ≤ j.updatedAt
  ends : ∃ result e', Undisturbed e (.sweep c) result e'
  freed : ∀ result e', Undisturbed e (.sweep c) result e' →
    Freed e ((silent.take batch).filter fun i => i.IsAbandoned now grace timeout) result e'
  /-- They are as many as they may be, unless an instance whose action is in flight is listed and an
  abandoned one is left out. -/
  most_iff : ((silent.take batch).filter fun i => i.IsAbandoned now grace timeout).length =
      min batch (e.store.instances.countP fun i => i.IsAbandoned now grace timeout) ↔
    (∀ i ∈ silent.take batch, i.IsAbandoned now grace timeout) ∨
      ∀ i ∈ silent.drop batch, ¬i.IsAbandoned now grace timeout

section
variable {now : Instant} {grace timeout : Int}

/-- What a sweep releases of what it lists is what is abandoned. -/
theorem released_eq (hbefore : before.micros = now.micros - grace)
    (hinFlight : inFlightBefore.micros = now.micros - max grace timeout) (s : Store) (batch : Nat) :
    released s before inFlightBefore batch =
      ((s.silentSince before).take batch).filter fun i => i.IsAbandoned now grace timeout := by
  refine List.filter_congr fun i hi => ?_
  have hsilent := (Store.mem_silentSince.mp (List.mem_of_mem_take hi)).2
  rw [Bool.eq_iff_iff, decide_eq_true_iff, Instance.isAbandoned_iff hbefore hinFlight]
  simp [hsilent]

/-- Every abandoned instance is among the silent ones. -/
theorem countP_silentSince (hbefore : before.micros = now.micros - grace)
    (hinFlight : inFlightBefore.micros = now.micros - max grace timeout) (s : Store) :
    ((s.silentSince before).countP fun i => i.IsAbandoned now grace timeout) =
      s.instances.countP fun i => i.IsAbandoned now grace timeout := by
  rw [(s.perm_silentSince before).countP_eq, List.countP_filter]
  refine List.countP_congr fun i _ => ?_
  rw [Bool.and_eq_true, decide_eq_true_iff]
  exact and_iff_left_of_imp fun h => ((Instance.isAbandoned_iff hbefore hinFlight).mp h).1

end

/-- A sweep releases as many abandoned instances as it may, but for the room that instances take up
whose actions are in flight. -/
theorem frees_listed {e : Engine} {c : Sweep} {time : Option Instant} {grace : Option Int}
    (hwellFormed : e.store.WellFormed) (hfits : Fits e.store e.config.pollBatchSize)
    (hstart : start e.env time grace = .ok c) :
    ∃ silent, Frees e c (time.getD e.now) (grace.getD (e.config.staleClaim * 1000000))
      (e.config.invokerTimeout * 1000000) e.config.pollBatchSize silent := by
  obtain ⟨before, inFlightBefore, rfl, hbefore, hinFlight⟩ := of_start_eq_ok hstart
  refine ⟨e.store.silentSince before, ?_, e.store.pairwise_silentSince before,
    exists_undisturbed hwellFormed hfits, fun result e' h => ?_, ?_⟩
  · have hstale : Instance.isStale before = Instance.isStale { time.getD e.now with
        micros := (time.getD e.now).micros - grace.getD (e.config.staleClaim * 1000000) } := by
      funext i
      simp only [Instance.isStale, Instant.lt_iff, hbefore]
      rfl
    rw [← hstale]
    exact e.store.perm_silentSince before
  · obtain ⟨hresult, hrewritten⟩ := of_undisturbed hwellFormed hfits h
    have hreleased := released_eq hbefore hinFlight e.store e.config.pollBatchSize
    exact hreleased ▸ ⟨hresult, hrewritten.here, hrewritten.elsewhere⟩
  · have hcount := countP_silentSince hbefore hinFlight e.store
    rw [← List.countP_eq_length_filter]
    exact hcount ▸ Span.countP_take_eq_min_iff.trans (by simp only [decide_eq_true_iff])

end Sweep

namespace Sample

/-- An instance that a worker has held without a write since a time. -/
def silent (number : Nat) (time : Instant) (dispatching : Option String) : Instance :=
  { fresh with
    id := Instance.idOf number
    owner := some "w"
    dispatching
    updatedAt := time }

/-- An instance whose action is in flight has been silent for longer than an abandoned one. -/
def holders : List Instance := [silent 1 (after 0) (some "a"), silent 2 (after 1) none]

def crowded : Engine :=
  { engine 0 ⟨holders, [], 2⟩ with
    config := { (default : EngineConfig) with
      pollBatchSize := 1
      pollBatchSize_pos := Nat.le_refl 1 }
    now := after 10 }

theorem eq_holders {items : List Instance}
    (hperm : items.Perm (crowded.store.instances.filter (Instance.isStale (after 5))))
    (hordered : items.Pairwise fun i j => i.updatedAt ≤ j.updatedAt) : items = holders := by
  have hstale : crowded.store.instances.filter (Instance.isStale (after 5)) = holders := by
    decide +kernel
  rw [hstale] at hperm
  have hantisymm : ∀ i ∈ holders, ∀ j ∈ holders,
      i.updatedAt ≤ j.updatedAt → j.updatedAt ≤ i.updatedAt → i = j := by decide +kernel
  refine hperm.eq_of_pairwise (fun i j hi hj => ?_) hordered (by decide +kernel)
  exact hantisymm i (hperm.subset hi) j hj

/-- A sweep with room for one instance releases none, although one is abandoned. -/
theorem hides_abandoned : crowded.store.WellFormed ∧
    Sweep.Fits crowded.store crowded.config.pollBatchSize ∧
    Sweep.start crowded.env none none = .ok (.listing (after 5) (after (-5)) 1) ∧
    Sweep.Frees crowded (.listing (after 5) (after (-5)) 1) (after 10) (300 * 1000000)
      (900 * 1000000) 1 holders ∧
    (holders.take 1).filter
      (fun i => i.IsAbandoned (after 10) (300 * 1000000) (900 * 1000000)) = [] ∧
    crowded.store.instances.countP
      (fun i => i.IsAbandoned (after 10) (300 * 1000000) (900 * 1000000)) = 1 := by
  have hwellFormed : crowded.store.WellFormed :=
    wellFormed_of_numbered (s := ⟨holders, [], 2⟩) rfl
  have hfits : Sweep.Fits crowded.store crowded.config.pollBatchSize := fun htable => by
    cases htable
  have hstart : Sweep.start crowded.env none none = .ok (.listing (after 5) (after (-5)) 1) := by
    decide +kernel
  obtain ⟨items, hfrees⟩ := Sweep.frees_listed hwellFormed hfits hstart
  obtain rfl := eq_holders hfrees.perm hfrees.ordered
  exact ⟨hwellFormed, hfits, hstart, hfrees, by decide +kernel, by decide +kernel⟩

end Sample
end WorkflowEngine

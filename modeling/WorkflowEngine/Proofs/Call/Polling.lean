import WorkflowEngine.Proofs.Call.Tours
import WorkflowEngine.Proofs.Store.Twins
import WorkflowEngine.Proofs.System.Listing

/-!
# Polls of a store in memory

A poll that nothing disturbs claims the first of the due instances, as many as it may, and changes
nothing else. They are the ones that have been due for longest, then the oldest ones, then those
that were stored first. The times of all due instances have to be comparable with one another.
-/
namespace WorkflowEngine

namespace MemoryStore

variable {s : MemoryStore} {now : Instant}

/-- The order in which a poll claims instances: by the time since which they are due, then by age,
then as they are stored. -/
def Precedes (s : MemoryStore) (i j : Instance) : Prop :=
  dueSince i < dueSince j ∨ (dueSince i).micros = (dueSince j).micros ∧
    (i.createdAt < j.createdAt ∨
      i.createdAt.micros = j.createdAt.micros ∧ [i, j].Sublist s.instances)

instance (s : MemoryStore) (i j : Instance) : Decidable (s.Precedes i j) :=
  inferInstanceAs (Decidable (_ ∨ _ ∧ (_ ∨ _ ∧ _)))

theorem pairwise_dueAt (hnodup : s.instances.Nodup) (now : Instant) :
    (s.dueAt now).Pairwise s.Precedes := by
  have hsorted := Span.pairwise_mergeSort Instance.sortDue_le_eq
    (hnodup.filter (Instance.isDue now))
  refine hsorted.imp fun {i j} hkeys => ?_
  rcases hkeys with hlt | ⟨heq, hpair⟩
  · rcases Prod.Lex.toLex_lt_toLex.mp hlt with hdue | ⟨hdue, hage⟩
    · exact .inl hdue
    · exact .inr ⟨hdue, .inl hage⟩
  · obtain ⟨hdue, hage⟩ := Prod.mk.inj (toLex_inj.mp heq)
    exact .inr ⟨hdue, .inr ⟨hage, hpair.trans List.filter_sublist⟩⟩

theorem perm_dueAt (s : MemoryStore) (now : Instant) :
    (s.dueAt now).Perm (s.instances.filter (Instance.isDue now)) := List.mergeSort_perm _ _

theorem mem_dueAt {i : Instance} :
    i ∈ s.dueAt now ↔ i ∈ s.instances ∧ i.isDue now = true :=
  (s.perm_dueAt now).mem_iff.trans List.mem_filter

/-- An instance without a time comes before all that have become due since the first moment of the
calendar. -/
theorem resumeAt_eq_none_of_precedes {i j : Instance} (h : s.Precedes i j)
    (hi : ∀ t ∈ i.resumeAt, Instant.first < t.micros) (hj : j.resumeAt = none) :
    i.resumeAt = none := by
  cases hresume : i.resumeAt with
  | none => rfl
  | some t =>
    have hlate := hi t hresume
    have hsince : (dueSince i).micros = t.micros := by rw [dueSince, hresume, Option.getD_some]
    have hsince' : (dueSince j).micros = Instant.first := by rw [dueSince, hj, Option.getD_none]
    have horder : (dueSince i).micros ≤ (dueSince j).micros := by
      rcases h with hlt | ⟨heq, -⟩
      · exact Int.le_of_lt hlt
      · exact heq.le
    omega

end MemoryStore

/-- In memory, a claim of an instance that nobody holds puts it there in the hands of the owner. -/
theorem Store.puts_of_claim {s s' : Store} {now : Instant} {i : Instance} {target : Status}
    {owner : Option String} {answer : Option Instance} (hs : s.WellFormed)
    (hmemory : s.isTable = false) (hfound : s.find? i.id = some i) (hfree : i.owner = none)
    (h : s.claim now i.id i.status target owner = (answer, s')) :
    answer.isSome = true ∧
      ∃ time, s.Puts ((i.claimed target owner).stamped i.version.next time) s' := by
  have hsome : (s.claim now i.id i.status target owner).1.isSome := claim_of_free hfound rfl hfree
  rw [h] at hsome
  rcases claim_cases hs h with ⟨rfl, -⟩ | ⟨cur, version, hcur, -, -, hversion, -, hputs⟩
  · cases hsome
  · obtain rfl := Option.some.inj (hfound.symm.trans hcur)
    rcases hversion with rfl | ⟨-, t, rfl⟩
    · exact ⟨hsome, _, hputs⟩
    · cases hmemory

theorem Instance.areComparable_of_subset {items items' : List Instance} (hsubset : items' ⊆ items)
    (h : areComparable items = true) : areComparable items' = true := by
  simp only [areComparable, Bool.or_eq_true, List.all_eq_true] at h ⊢
  exact h.imp (fun hall i hi => hall i (hsubset hi)) fun hall i hi => hall i (hsubset hi)

namespace Poll

variable {e e' : Engine} {s : MemoryStore} {worker : String} {now : Instant} {limit : Int}
  {result : Outcome CallResult}

/-- A poll of a store in memory claims what it has listed, one after the other. -/
theorem tours (worker : String) :
    Tours false (fun i => i.owner = none) (fun i => i.claimed .running (some worker))
      fun items done => (proceed worker items done).map .poll .listed where
  id_eq _ := rfl
  kept_eq _ _ hkept := Instance.kept_claimed hkept _ _
  ended _ := rfl
  asks i rest done := by
    refine ⟨.poll (.claiming worker i rest done), rfl, fun e hwellFormed hmemory hfound hfree => ?_⟩
    refine ⟨⟨_, _, rfl⟩, fun answer e' hanswer => ?_⟩
    have hperform := Engine.perform_of_answers hanswer
    have htable := Store.isTable_perform e.store e.now
      (.claim i.id i.status .running (some worker))
    rw [hperform] at htable
    rcases hclaim : e.store.claim e.now i.id i.status .running (some worker) with ⟨claimed, s'⟩
    obtain ⟨hsome, hputs⟩ := Store.puts_of_claim hwellFormed hmemory hfound hfree hclaim
    obtain ⟨j, rfl⟩ := Option.isSome_iff_exists.mp hsome
    simp only [Store.perform, hclaim] at hperform
    obtain ⟨rfl, rfl⟩ := Prod.mk.inj hperform
    exact ⟨rfl, htable.trans hmemory, hputs⟩

/-- What a poll lists in memory. -/
def listed (s : MemoryStore) (now : Instant) (limit : Int) : List Instance :=
  Span.upTo limit (s.dueAt now)

theorem listed_sublist (s : MemoryStore) (now : Instant) (limit : Int) :
    (listed s now limit).Sublist (s.dueAt now) :=
  (List.drop_sublist _ _).trans (List.take_sublist _ _)

/-- The instances that a poll lists are stored once, and nobody holds them. -/
theorem of_listed (hnodup : (s.instances.map (·.id)).Nodup) (now : Instant) (limit : Int) :
    ((listed s now limit).map (·.id)).Nodup ∧
      ∀ i ∈ listed s now limit, Instance.find? s.instances i.id = some i ∧ i.owner = none := by
  have hsublist := listed_sublist s now limit
  have hdue : ((s.dueAt now).map (·.id)).Nodup := by
    refine ((s.perm_dueAt now).map _).nodup_iff.mpr (hnodup.sublist ?_)
    exact List.filter_sublist.map _
  refine ⟨hdue.sublist (hsublist.map _), fun i hi => ?_⟩
  obtain ⟨hmem, hisDue⟩ := MemoryStore.mem_dueAt.mp (hsublist.subset hi)
  refine ⟨Instance.find?_of_mem hnodup hmem, ?_⟩
  simp only [Instance.isDue, Bool.and_eq_true, Option.isNone_iff_eq_none] at hisDue
  exact hisDue.1.2

/-- A poll of a store in memory goes on with all that it has listed, if times can be compared. -/
theorem answers_listing (hstore : e.store = .memory s)
    (hcomparable : Instance.areComparable (s.instances.filter (Instance.isDue now)) = true)
    {answer : (listing worker now limit).request.Answer}
    (hanswer : e.Answers (listing worker now limit).request answer e') :
    e' = e ∧ (Call.poll (listing worker now limit)).resume e'.env answer =
      (proceed worker (listed s now limit) []).map .poll .listed := by
  obtain ⟨hlist, hsame⟩ := Prod.mk.inj hanswer
  have hlisted : answer = .ok (listed s now limit) := by
    rw [hlist]
    simp only [hstore, Store.listDue, MemoryStore.listDue, hcomparable]
    rfl
  have hall : (listed s now limit).filter (fun i => i.resumeAt.all (· ≤ now)) =
      listed s now limit := by
    refine List.filter_eq_self.mpr fun i hi => ?_
    have hdue := (MemoryStore.mem_dueAt.mp ((listed_sublist s now limit).subset hi)).2
    simp only [Instance.isDue, Bool.and_eq_true] at hdue
    exact hdue.2
  refine ⟨hsame, ?_⟩
  subst hlisted
  simp only [Call.resume, resume, hall]

/-- A poll of a store in memory comes to its end, if times can be compared. -/
theorem exists_undisturbed (hstore : e.store = .memory s) (hwellFormed : e.store.WellFormed)
    (hcomparable : Instance.areComparable (s.instances.filter (Instance.isDue now)) = true) :
    ∃ result e', Undisturbed e (.poll (listing worker now limit)) result e' := by
  have hlisted := of_listed (hstore ▸ hwellFormed).nodup now limit
  have hanswer : e.Answers (listing worker now limit).request _ e := Prod.ext rfl rfl
  exact (tours worker).exists_undisturbed (c := .poll (listing worker now limit)) hwellFormed
    (by rw [hstore]; rfl) hlisted.1 (by rw [hstore]; exact hlisted.2) hanswer
    (answers_listing hstore hcomparable hanswer).2

/-- A poll of a store in memory that nothing disturbs claims what it has listed and nothing else. -/
theorem of_undisturbed (hstore : e.store = .memory s) (hwellFormed : e.store.WellFormed)
    (hcomparable : Instance.areComparable (s.instances.filter (Instance.isDue now)) = true)
    (h : Undisturbed e (.poll (listing worker now limit)) result e') :
    result = .ok (.listed ((listed s now limit).map (·.id))) ∧
      e.store.Rewritten (fun i => i.claimed .running (some worker)) (listed s now limit)
        e'.store := by
  have hlisted := of_listed (hstore ▸ hwellFormed).nodup now limit
  exact (tours worker).of_undisturbed (c := .poll (listing worker now limit)) hwellFormed
    (by rw [hstore]; rfl) hlisted.1 (by rw [hstore]; exact hlisted.2)
    (fun time _ _ => answers_listing (e := { e with now := time }) hstore hcomparable) h

/-- What is due after a poll was due before, and was not claimed by it. -/
theorem of_due_after {taken : List Instance} {s' : MemoryStore}
    (hstore : e.store = .memory s) (hstore' : e'.store = .memory s')
    (h : e.store.Rewritten (fun i => i.claimed .running (some worker)) taken e'.store)
    {j : Instance} (hj : j ∈ s'.instances) (hdue : j.isDue now = true) :
    j ∈ s.instances ∧ j.id ∉ taken.map (·.id) := by
  have hfound : e'.store.find? j.id = some j := by
    refine Store.find?_of_mem h.wellFormed ?_
    rw [hstore']
    exact hj
  have hout : j.id ∉ taken.map (·.id) := by
    intro hmem
    obtain ⟨i, hi, hid⟩ := List.mem_map.mp hmem
    obtain ⟨time, hclaimed⟩ := h.here i hi
    obtain rfl := Option.some.inj (hfound.symm.trans (hid ▸ hclaimed))
    simp [Instance.isDue, Instance.stamped, Instance.claimed] at hdue
  rw [h.elsewhere _ hout, hstore] at hfound
  exact ⟨Instance.mem_of_find? hfound, hout⟩

/-- What a poll of a store in memory has done in the end, given the instances that it was to take at
a reference time. -/
structure Took (e : Engine) (worker : String) (now : Instant) (taken : List Instance)
    (result : Outcome CallResult) (e' : Engine) : Prop where
  returned : result = .ok (.listed (taken.map (·.id)))
  nodup : (taken.map (·.id)).Nodup
  claimed : ∀ i ∈ taken, ∃ time, e'.store.find? i.id = some { i with
    status := .running
    owner := some worker
    version := i.version.next
    updatedAt := time }
  elsewhere : ∀ id, id ∉ taken.map (·.id) → e'.store.find? id = e.store.find? id
  /-- The next poll for the same time returns, but none of the same instances. -/
  again : ∀ worker' limit', (∃ result' e'',
      Undisturbed e' (.poll (start e'.env worker' (some now) limit')) result' e'') ∧
    ∀ result' e'', Undisturbed e' (.poll (start e'.env worker' (some now) limit')) result' e'' →
      ∃ ids, result' = .ok (.listed ids) ∧ ∀ id ∈ ids, id ∉ taken.map (·.id)

theorem took_of_undisturbed (hstore : e.store = .memory s) (hwellFormed : e.store.WellFormed)
    (hcomparable : Instance.areComparable (s.instances.filter (Instance.isDue now)) = true)
    (h : Undisturbed e (.poll (listing worker now limit)) result e') :
    Took e worker now (listed s now limit) result e' := by
  obtain ⟨hresult, hrewritten⟩ := of_undisturbed hstore hwellFormed hcomparable h
  refine ⟨hresult, (of_listed (hstore ▸ hwellFormed).nodup now limit).1, hrewritten.here,
    hrewritten.elsewhere, fun worker' limit' => ?_⟩
  obtain ⟨s', hstore'⟩ : ∃ s', e'.store = .memory s' := by
    have htable := hrewritten.isTable
    rw [hstore] at htable
    rcases hkind : e'.store with s' | s'
    · exact ⟨s', rfl⟩
    · rw [hkind] at htable
      cases htable
  have hafter {j : Instance} (hj : j ∈ s'.instances) (hdue : j.isDue now = true) :=
    of_due_after hstore hstore' hrewritten hj hdue
  have hcomparable' : Instance.areComparable (s'.instances.filter (Instance.isDue now)) = true := by
    refine Instance.areComparable_of_subset (fun j hj => ?_) hcomparable
    obtain ⟨hmem, hdue⟩ := List.mem_filter.mp hj
    exact List.mem_filter.mpr ⟨(hafter hmem hdue).1, hdue⟩
  refine ⟨exists_undisturbed hstore' hrewritten.wellFormed hcomparable', fun result' e'' h' => ?_⟩
  obtain ⟨hresult', -⟩ := of_undisturbed hstore' hrewritten.wellFormed hcomparable' h'
  refine ⟨_, hresult', fun id hid => ?_⟩
  obtain ⟨j, hj, rfl⟩ := List.mem_map.mp hid
  obtain ⟨hmem, hdue⟩ := MemoryStore.mem_dueAt.mp ((listed_sublist _ _ _).subset hj)
  exact (hafter hmem hdue).2

/-- A poll that nothing disturbs takes the first of the due instances, as many as it may. -/
structure TakesFirst (e : Engine) (s : MemoryStore) (p : Poll) (worker : String) (now : Instant)
    (limit : Nat) (due : List Instance) : Prop where
  perm : due.Perm (s.instances.filter (Instance.isDue now))
  ordered : due.Pairwise s.Precedes
  /-- Unless an instance has been due since the first moment of the calendar, those that have no
  time come first. -/
  untimed_first : (∀ i ∈ due, ∀ t ∈ i.resumeAt, Instant.first < t.micros) →
    due.Pairwise fun i j => j.resumeAt = none → i.resumeAt = none
  ends : ∃ result e', Undisturbed e (.poll p) result e'
  took : ∀ result e', Undisturbed e (.poll p) result e' →
    Took e worker now (due.take limit) result e'

end Poll

namespace Sample

theorem wellFormed_of_numbered {s : MemoryStore}
    (hids : s.instances.map (·.id) = (List.range s.created).map fun n => Instance.idOf (n + 1)) :
    (Store.memory s).WellFormed := by
  refine ⟨?_, fun i hi => ?_, fun i _ => Store.kept_memory _ _⟩
  · rw [Store.instances, hids]
    exact List.nodup_range.map fun m n h => Nat.succ.inj (Instance.idOf_injective h)
  · have hid : i.id ∈ s.instances.map (·.id) := List.mem_map_of_mem hi
    rw [hids] at hid
    obtain ⟨n, hn, hid⟩ := List.mem_map.mp hid
    exact ⟨n + 1, List.mem_range.mp hn, hid.symm⟩

/-- A time so many minutes after midnight. -/
def after (minutes : Int) : Instant := ⟨minutes * 60000000, some 0⟩

/-- An instance that sleeps until a time. -/
def resting (number : Nat) (time : Instant) : Instance :=
  { fresh with id := Instance.idOf number, status := .waitingDelay, resumeAt := some time }

def queue : MemoryStore :=
  ⟨[resting 1 (after 10), resting 2 (after 5), { fresh with id := Instance.idOf 3 },
    resting 4 (after 30)], [], 4⟩

def queued : Engine := { engine 0 queue with now := midnight }

def taken : List Instance :=
  [{ fresh with id := Instance.idOf 3 }, resting 2 (after 5), resting 1 (after 10)]

theorem eq_taken {due : List Instance}
    (hperm : due.Perm (queue.instances.filter (Instance.isDue (after 20))))
    (hordered : due.Pairwise queue.Precedes) : due = taken := by
  have hdue : (queue.instances.filter (Instance.isDue (after 20))).Perm taken := by decide +kernel
  have hantisymm : ∀ i ∈ taken, ∀ j ∈ taken, queue.Precedes i j → queue.Precedes j i → i = j := by
    decide +kernel
  refine (hperm.trans hdue).eq_of_pairwise (fun i j hi hj => ?_) hordered (by decide +kernel)
  exact hantisymm i ((hperm.trans hdue).subset hi) j hj

/-- An instance that has been due since the first moment of the calendar, and one without a time. -/
def tied : MemoryStore :=
  ⟨[resting 1 ⟨Instant.first, some 0⟩, { fresh with id := Instance.idOf 2 }], [], 2⟩

def tiedEngine : Engine := { engine 0 tied with now := midnight }

end Sample
end WorkflowEngine

import WorkflowEngine.Proofs.Store.Keys
import WorkflowEngine.Proofs.System.Writes

/-!
# Deliveries of events

Whenever a graph takes an event, an instance is made of it, or the one is found that was made of an
event with the same key before. The store knows of all deliveries by the names of its instances,
which no other request changes.
-/
namespace WorkflowEngine

/-- An event that a graph has taken, and the instance that it was given. -/
structure Delivery where
  graphId : String
  key : Option String
  id : InstanceId
  isNew : Bool
  deriving DecidableEq, Repr

def Delivery.name (d : Delivery) : InstanceId × String × Option String := (d.id, d.graphId, d.key)

def Request.delivery? : (r : Request) → r.Answer → Option Delivery
  | .store (.create draft), answer =>
    match answer with
    | .ok (i, isNew) => some ⟨draft.graphId, draft.dedupeKey, i.id, isNew⟩
    | .error _ => none
  | _, _ => none

def Moment.delivery? (m : Moment) : Option Delivery :=
  match m.incident with
  | .served c answer => c.request.delivery? answer
  | _ => none

/-- What a call ends with. -/
def Moment.result? (m : Moment) : Option (Outcome CallResult) :=
  match m.incident with
  | .began _ (.ended result) | .resumed (.ended result) => some result
  | _ => none

def deliveries (h : List Moment) : List Delivery := h.filterMap Moment.delivery?

/-- The deliveries of one call. -/
def deliveriesOf (n : Nat) (h : List Moment) : List Delivery :=
  deliveries (h.filter (·.call = some n))

def OpenedBy (h : List Moment) (n : Nat) (o : Opening) : Prop :=
  ∃ m ∈ h, m.call = some n ∧ ∃ progress, m.incident = .began o progress

section
variable {h : List Moment} {m : Moment} {n : Nat} {o : Opening}

@[simp] theorem deliveries_append (h h' : List Moment) :
    deliveries (h ++ h') = deliveries h ++ deliveries h' := List.filterMap_append

@[simp] theorem deliveries_singleton (m : Moment) : deliveries [m] = m.delivery?.toList := by
  cases hm : m.delivery? <;> simp [deliveries, hm]

theorem mem_deliveries {d : Delivery} (hm : m ∈ h) (hd : m.delivery? = some d) :
    d ∈ deliveries h := List.mem_filterMap.mpr ⟨m, hm, hd⟩

theorem deliveriesOf_append_of_ne (hm : m.call ≠ some n) :
    deliveriesOf n (h ++ [m]) = deliveriesOf n h := by
  simp [deliveriesOf, List.filter_append, hm, deliveries]

theorem deliveriesOf_append_self (hm : m.call = some n) :
    deliveriesOf n (h ++ [m]) = deliveriesOf n h ++ m.delivery?.toList := by
  simp [deliveriesOf, List.filter_append, hm]

theorem OpenedBy.of_append (ho : OpenedBy (h ++ [m]) n o)
    (hm : m.call = some n → ∀ o progress, m.incident ≠ .began o progress) : OpenedBy h n o := by
  obtain ⟨m', hm', hcall, progress, hbegan⟩ := ho
  rcases List.mem_append.mp hm' with hm' | hm'
  · exact ⟨m', hm', hcall, progress, hbegan⟩
  · obtain rfl := List.mem_singleton.mp hm'
    exact absurd hbegan (hm hcall _ _)

end

/-! ## What the store knows of the deliveries -/

/-- A request that is served makes a delivery, or makes no instance. -/
inductive Store.Takes (s : Store) : Option Delivery → Store → Prop where
  | found {d : Delivery} {key : String} (hold : d.isNew = false) (hkey : d.key = some key)
      (hid : s.key? d.graphId key = some d.id) : Takes s (some d) s
  | made {d : Delivery} {s' : Store} (hnew : d.isNew = true)
      (hnone : ∀ key, d.key = some key → s.key? d.graphId key = none)
      (hadds : s.Adds d.name s') : Takes s (some d) s'
  | none {s' : Store} (hrenews : s.Renews s') : Takes s none s'

theorem Store.Keyed.takes {s s' : Store} (hs : s.Keyed) {now : Instant} {r : StoreRequest}
    {answer : Outcome r.Answer} (hperform : s.perform now r = (answer, s'))
    (hname : ∀ next expected cur, r = .save next expected → s.isTable = false →
      s.find? next.id = some cur → cur.version = expected → next.name = cur.name) :
    s.Takes ((Request.store r).delivery? answer) s' := by
  cases r with
  | create draft =>
    simp only [perform] at hperform
    split at hperform
    · rename_i result s'' hresult
      obtain ⟨rfl, rfl⟩ := Prod.mk.inj hperform
      obtain ⟨i, isNew⟩ := result
      rcases of_create hresult with ⟨rfl, rfl, hfound⟩ | ⟨rfl, hnone, hadds⟩
      · obtain ⟨key, hkey, hid⟩ := hs.of_existing? hfound
        exact .found rfl hkey hid
      · exact .made rfl (fun key hkey => hs.of_existing?_eq_none hnone hkey) hadds
    · obtain ⟨rfl, rfl⟩ := Prod.mk.inj hperform
      exact .none (.refl s)
  | save next expected =>
    simp only [perform] at hperform
    split at hperform
    · rename_i stored s'' hresult
      obtain ⟨rfl, rfl⟩ := Prod.mk.inj hperform
      refine .none (renews_save hs.nodup (fun t cur ht => ?_) hresult)
      exact hname next expected cur rfl (by rw [ht]; rfl)
    · obtain ⟨rfl, rfl⟩ := Prod.mk.inj hperform
      exact .none (.refl s)
  | claim id source target owner =>
    rcases hclaim : s.claim now id source target owner with ⟨claimed, s''⟩
    simp only [perform, hclaim] at hperform
    obtain ⟨rfl, rfl⟩ := Prod.mk.inj hperform
    exact .none (renews_claim hs.nodup hclaim)
  | load | listDue | listStale | listForGraph =>
    obtain ⟨rfl, rfl⟩ := Prod.mk.inj hperform
    exact .none (.refl s)

/-- A store that has just the instances that were made when events were taken. -/
structure Store.Remembers (s : Store) (taken : List Delivery) : Prop where
  keyed : s.Keyed
  names : s.names = (taken.filter (·.isNew)).map Delivery.name
  mem : ∀ d ∈ taken, d.name ∈ s.names

theorem Store.Remembers.takes {s s' : Store} {taken : List Delivery} {d : Option Delivery}
    (hs : s.Remembers taken) (h : s.Takes d s') : s'.Remembers (taken ++ d.toList) := by
  cases h with
  | @found d key hold hkey hid =>
    have hname : d.name ∈ s.names := by
      rw [Delivery.name, hkey]
      exact (hs.keyed.keys _ _ _).mp hid
    refine ⟨hs.keyed, by simp [hs.names, hold], fun d' hd' => ?_⟩
    rcases List.mem_append.mp hd' with hd' | hd'
    · exact hs.mem d' hd'
    · obtain rfl : d' = d := by simpa using hd'
      exact hname
  | @made d s' hnew hnone hadds =>
    refine ⟨hadds.keyed hs.keyed fun graphId key hname => ?_, ?_, fun d' hd' => ?_⟩
    · obtain ⟨rfl, hkey⟩ := Prod.mk.inj hname
      exact hnone key hkey
    · simp [hadds.names, hs.names, hnew]
    · rw [hadds.names, List.mem_append]
      rcases List.mem_append.mp hd' with hd' | hd'
      · exact .inl (hs.mem d' hd')
      · obtain rfl : d' = d := by simpa using hd'
        exact .inr (List.mem_singleton_self _)
  | none hrenews =>
    refine ⟨hrenews.keyed hs.keyed, by simp [hrenews.names, hs.names], fun d hd => ?_⟩
    rw [hrenews.names]
    exact hs.mem d (by simpa using hd)

section
variable {s s' : Store} {taken : List Delivery} {d : Delivery}

theorem Store.Takes.eq_of_old (h : s.Takes (some d) s') (hold : d.isNew = false) : s' = s := by
  cases h with
  | found => rfl
  | made hnew => simp [hold] at hnew

theorem Store.Remembers.isNew_eq_false_iff (hs : s.Remembers taken) (h : s.Takes (some d) s') :
    d.isNew = false ↔
      d.key ≠ none ∧ ∃ d' ∈ taken, d'.graphId = d.graphId ∧ d'.key = d.key := by
  cases h with
  | found hold hkey hid =>
    have hname := (hs.keyed.keys _ _ _).mp hid
    rw [hs.names] at hname
    obtain ⟨d', hd', hsame⟩ := List.mem_map.mp hname
    simp only [Delivery.name, Prod.mk.injEq] at hsame
    exact iff_of_true hold
      ⟨by simp [hkey], d', (List.mem_filter.mp hd').1, hsame.2.1, hsame.2.2.trans hkey.symm⟩
  | made hnew hnone =>
    refine iff_of_false (by simp [hnew]) ?_
    rintro ⟨hkey, d', hd', hgraph, hsame⟩
    obtain ⟨key, hkey⟩ := Option.ne_none_iff_exists'.mp hkey
    have hname := hs.mem d' hd'
    rw [Delivery.name, hgraph, hsame, hkey, ← hs.keyed.keys, hnone key hkey] at hname
    cases hname

/-- Only a delivery makes an instance. -/
theorem Store.Remembers.exists_delivery {d : Option Delivery} (hs : s.Remembers taken)
    (h : s.Takes d s') {id : InstanceId} {i : Instance} (hnone : s.find? id = none)
    (hi : s'.find? id = some i) : ∃ d', d = some d' ∧ d'.isNew = true ∧ i.name = d'.name := by
  obtain ⟨hname, rfl⟩ := Store.name_mem_names hi
  have hnew : i.name ∉ s.names := fun hold => by
    obtain ⟨j, hj, -⟩ := hs.keyed.exists_find? hold
    cases hnone.symm.trans hj
  cases h with
  | found => exact absurd hname hnew
  | @made d _ hd _ hadds =>
    rw [hadds.names] at hname
    rcases List.mem_append.mp hname with hname | hname
    · exact absurd hname hnew
    · exact ⟨d, rfl, hd, List.mem_singleton.mp hname⟩
  | none hrenews => exact absurd (hrenews.names ▸ hname) hnew

/-- An instance is given to an event anew only for the key with which it was made. -/
theorem Store.Remembers.eq_of_id (hs : s.Remembers taken) {d' : Delivery}
    (h : s.Takes (some d') s') (hd : d ∈ taken) (hid : d.id = d'.id) :
    d.graphId = d'.graphId ∧ d.key = d'.key ∧ d.key ≠ none := by
  cases h with
  | found hold hkey hfound =>
    have hname := (hs.keyed.keys _ _ _).mp hfound
    have hsame := hs.keyed.eq_of_fst (hs.mem d hd) hname hid
    simp only [Delivery.name, Prod.mk.injEq] at hsame
    exact ⟨hsame.2.1, hsame.2.2.trans hkey.symm, by simp [hsame.2.2]⟩
  | made _ _ hadds =>
    exact absurd (List.mem_map.mpr ⟨d.name, hs.mem d hd, hid⟩) (hadds.not_mem hs.keyed)

end

namespace System

variable {config : EngineConfig} {s s' s₀ s₁ : System} {m : Moment}

theorem Step.takes (hs : Reachable config s) (hkeyed : s.engine.store.Keyed) (hstep : Step s s')
    (hhistory : s'.history = s.history ++ [m]) :
    s.engine.store.Takes m.delivery? s'.engine.store := by
  cases hstep with
  | @serve n c answer e hasks hanswer =>
    obtain rfl := List.singleton_inj.mp (List.append_inj' hhistory rfl).2
    change s.engine.store.Takes (c.request.delivery? answer) e.store
    -- What a call writes over a store in memory was computed from what is stored there.
    have hname (next : Instance) (expected : Version) (cur : Instance)
        (hrequest : c.request = .store (.save next expected))
        (hmemory : s.engine.store.isTable = false) (hcur : s.engine.store.find? next.id = some cur)
        (hversion : cur.version = expected) : next.name = cur.name := by
      have hcounts := hs.counts (by simp [hmemory])
      have hsound := hs.isSound hcounts
      obtain ⟨i, step, hseen, rfl, hchange⟩ :=
        Call.IsSound.save (hsound.calls n _ hasks) hrequest
      obtain ⟨hid, horigin⟩ := hchange.next_eq
      rw [hid] at hcur
      obtain rfl := hsound.lives.find?_of_seen hcounts hseen hcur hversion
      have hidentity := Instance.identity_eq_of_origin horigin
      simp only [Instance.identity, Prod.mk.injEq] at hidentity
      exact Prod.ext hid (Prod.ext hidentity.1 hidentity.2.2.1)
    clear hhistory
    generalize c.request = r at answer hanswer hname
    cases r with
    | store r =>
      refine hkeyed.takes (Engine.perform_of_answers hanswer) fun next expected cur hsave => ?_
      exact hname next expected cur (congrArg Request.store hsave)
    | append entry =>
      have hsame := Engine.store_of_append hanswer
      rw [hsame]
      exact .none (.refl _)
    | invoke =>
      obtain rfl : e = s.engine := hanswer
      exact .none (.refl _)
  | start | resume | crash | register | unregister | tick =>
    obtain rfl := List.singleton_inj.mp (List.append_inj' hhistory rfl).2
    exact .none (.refl _)

theorem Reachable.remembers (hs : Reachable config s) :
    s.engine.store.Remembers (deliveries s.history) := by
  induction hs with
  | @fresh e he =>
    have hempty : e.store.names = [] ∧ e.store.key? = fun _ _ => none := by
      rcases he.store with hstore | hstore <;> rw [hstore] <;> exact ⟨rfl, rfl⟩
    obtain ⟨hnames, hkeys⟩ := hempty
    refine ⟨⟨?_, ?_, ?_⟩, hnames, fun d hd => absurd hd List.not_mem_nil⟩
    · rw [← Store.map_fst_names, System.fresh, hnames]
      exact List.nodup_nil
    · simp [System.fresh, hnames]
    · simp [System.fresh, hnames, hkeys]
  | @step s s' hs hstep ih =>
    obtain ⟨m, hhistory, -⟩ := hstep.history
    rw [hhistory, deliveries_append, deliveries_singleton]
    exact ih.takes (hstep.takes hs ih.keyed hhistory)

theorem Along.takes (hm : Along config s s₀ s₁ m) :
    s₀.engine.store.Remembers (deliveries s₀.history) ∧
      s₀.engine.store.Takes m.delivery? s₁.engine.store := by
  have hremembers := hm.reachable.remembers
  exact ⟨hremembers, hm.step.takes hm.reachable hremembers.keyed hm.history⟩

theorem Along.remembers (hm : Along config s s₀ s₁ m) :
    s₁.engine.store.Remembers (deliveries (s₀.history ++ [m])) := by
  rw [← hm.history]
  exact (hm.reachable.step hm.step).remembers

end System
end WorkflowEngine

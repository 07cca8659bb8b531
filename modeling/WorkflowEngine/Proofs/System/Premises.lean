import WorkflowEngine.Proofs.System.Consistency
import WorkflowEngine.Proofs.System.Stages

/-!
# Runs that satisfy the premises

Versions are counted in every run over a store in memory, and over a table in every run whose
number of moments fits into a column. Plans keep to their names in every run that removes none.
-/
namespace WorkflowEngine

namespace Store

def isTable : Store → Bool
  | memory _ => false
  | table _ => true

theorem time_eq_of_isTable {s s' : Store} (h : s.isTable = s'.isTable) : s.time = s'.time := by
  cases s <;> cases s' <;> first | rfl | cases h

theorem isTable_perform (s : Store) (now : Instant) (r : StoreRequest) :
    (s.perform now r).2.isTable = s.isTable := by
  cases r with
  | create draft =>
    cases s with
    | memory s => rfl
    | table s =>
      simp only [perform, create]
      cases s.create draft <;> rfl
  | save next expected =>
    cases s with
    | memory s =>
      simp only [perform, save]
      cases s.save now next expected <;> rfl
    | table s =>
      simp only [perform, save]
      cases s.save now next expected <;> rfl
  | claim => cases s <;> rfl
  | load | listDue | listStale | listForGraph => rfl

/-- No instance has been written more often than a number says. -/
def CountsUpTo (s : Store) (n : Nat) : Prop :=
  ∀ i ∈ s.instances, ∃ k : Nat, i.version = .count k ∧ k ≤ n

theorem CountsUpTo.mono {s : Store} {m n : Nat} (h : s.CountsUpTo m) (hmn : m ≤ n) :
    s.CountsUpTo n := by
  intro i hi
  obtain ⟨k, hk, hkm⟩ := h i hi
  exact ⟨k, hk, hkm.trans hmn⟩

theorem CountsUpTo.puts {s s' : Store} {n k : Nat} {i : Instance} (h : s.CountsUpTo n)
    (hputs : s.Puts i s') (hversion : i.version = .count k) (hk : k ≤ n + 1) :
    s'.CountsUpTo (n + 1) := by
  intro j hj
  have hfound := find?_of_mem hputs.wellFormed hj
  by_cases hid : j.id = i.id
  · rw [hid, hputs.here] at hfound
    obtain rfl := Option.some.inj hfound
    exact ⟨k, hversion, hk⟩
  · rw [hputs.elsewhere j.id hid] at hfound
    exact h.mono (Nat.le_succ n) j (Instance.mem_of_find? hfound)

theorem fits_of_le {m n : Nat} (hn : TableStore.fits n) (hmn : m ≤ n) : TableStore.fits m := by
  simp only [TableStore.fits, Bool.and_eq_true, decide_eq_true_eq] at hn ⊢
  omega

/-- A request adds at most one write to any instance. -/
theorem CountsUpTo.perform {s s' : Store} {n : Nat} {now : Instant} {r : StoreRequest}
    {answer : Outcome r.Answer} (h : s.CountsUpTo n) (hs : s.WellFormed)
    (hcolumn : s.isTable = true → TableStore.fits (n + 1 : Nat))
    (hdraft : ∀ d, r = .create d → d.version = .count 0)
    (hkept : ∀ next expected cur, r = .save next expected → s.find? next.id = some cur →
      cur.version = expected → (next.kept s.time).origin = cur.origin)
    (hperform : s.perform now r = (answer, s')) : s'.CountsUpTo (n + 1) := by
  have hsame := h.mono (Nat.le_succ n)
  cases r with
  | create draft =>
    simp only [Store.perform] at hperform
    split at hperform
    · rename_i result s'' hresult
      obtain ⟨-, rfl⟩ := Prod.mk.inj hperform
      obtain ⟨i, isNew⟩ := result
      rcases create_cases hs hresult with ⟨-, rfl⟩ | ⟨hi, -, -, hputs⟩
      · exact hsame
      · exact h.puts hputs (k := 0) (by rw [hi]; exact hdraft draft rfl) (Nat.zero_le _)
    · obtain ⟨-, rfl⟩ := Prod.mk.inj hperform
      exact hsame
  | save next expected =>
    simp only [Store.perform] at hperform
    split at hperform
    · rename_i stored s'' hresult
      obtain ⟨-, rfl⟩ := Prod.mk.inj hperform
      obtain ⟨cur, hcur, hversion, rfl, hputs⟩ := save_cases hs hresult
      obtain ⟨k, hk, hkn⟩ := h cur (Instance.mem_of_find? hcur)
      refine h.puts (hputs (hkept _ _ _ rfl hcur hversion)) (k := k + 1) ?_ (by omega)
      rw [Instance.stamped, ← hversion, hk]
      rfl
    · obtain ⟨-, rfl⟩ := Prod.mk.inj hperform
      exact hsame
  | claim id source target owner =>
    rcases hclaim : s.claim now id source target owner with ⟨claimed, s''⟩
    simp only [Store.perform, hclaim] at hperform
    obtain ⟨-, rfl⟩ := Prod.mk.inj hperform
    rcases claim_cases hs hclaim with
      ⟨-, rfl⟩ | ⟨cur, version, hcur, -, -, hversion, -, hputs⟩
    · exact hsame
    · obtain ⟨k, hk, hkn⟩ := h cur (Instance.mem_of_find? hcur)
      refine h.puts hputs (k := k + 1) ?_ (by omega)
      have hnext : cur.version.next = .count ((k + 1 : Nat) : Int) := by rw [hk]; rfl
      rcases hversion with rfl | ⟨rfl, t, rfl⟩
      · exact hnext
      · have hfits : TableStore.fits (k + 1 : Nat) := fits_of_le (hcolumn rfl) (by omega)
        rw [hnext, TableStore.counted, if_pos hfits]
        rfl
  | load | listDue | listStale | listForGraph =>
    obtain ⟨-, rfl⟩ := Prod.mk.inj hperform
    exact hsame

end Store

section
variable {config : EngineConfig} {time : Instant → Instant} {h : List Moment}

theorem Run.IsSound.save {r : Run} {next : Instance} {expected : Version}
    (hr : r.IsSound config time h) (hrequest : r.request = .store (.save next expected)) :
    ∃ i step, Seen time h i ∧ expected = i.version ∧ Change config h i step next := by
  cases r with
  | saving base step =>
    cases hrequest
    obtain ⟨hseen, hheld, p, hbound, hstep⟩ := hr
    exact ⟨base, _, hseen, rfl, .stepped hbound hheld hstep⟩
  | failing failed entry cause =>
    cases hrequest
    obtain ⟨base, error, now, hseen, hheld, rfl⟩ := hr
    exact ⟨base, _, hseen, rfl, .failed hheld⟩
  | loading | recording | invoking | reloading | recordingDropped | recordingFailure =>
    cases hrequest

namespace Call

variable {c : Call}

theorem IsSound.create {d : Draft} (hc : c.IsSound config time h)
    (hrequest : c.request = .store (.create d)) : d.IsPlanned h := by
  cases c with
  | emit c =>
    obtain rfl : c.draft = d := by simpa [request, Emit.request] using hrequest
    exact hc
  | dispatch c =>
    obtain rfl : c.draft = d := by simpa [request, Dispatch.request] using hrequest
    exact hc
  | poll c => cases c <;> cases hrequest
  | run c => cases c <;> cases hrequest
  | sweep c => cases c <;> cases hrequest
  | cancel c => cases c <;> cases hrequest
  | pass c =>
    cases c with
    | polling worker c => cases c <;> cases hrequest
    | running worker c => cases c <;> cases hrequest

/-- A call writes only what follows by a change from an instance that was stored. -/
theorem IsSound.save {next : Instance} {expected : Version} (hc : c.IsSound config time h)
    (hrequest : c.request = .store (.save next expected)) :
    ∃ i step, Seen time h i ∧ expected = i.version ∧ Change config h i step next := by
  cases c with
  | emit => cases hrequest
  | dispatch => cases hrequest
  | poll c => cases c <;> cases hrequest
  | run c => exact Run.IsSound.save hc hrequest
  | sweep c =>
    cases c with
    | listing => cases hrequest
    | releasing inFlightBefore current rest released =>
      cases hrequest
      obtain ⟨hseen, hheld⟩ := hc current (by simp)
      exact ⟨current, _, hseen, rfl, .released hheld⟩
  | cancel c =>
    cases c with
    | saving current reason now =>
      cases hrequest
      exact ⟨current, _, hc.1, rfl, .cancelled hc.2⟩
    | loading | recording => cases hrequest
  | pass c =>
    cases c with
    | polling worker c => cases c <;> cases hrequest
    | running worker c => exact Run.IsSound.save hc hrequest

end Call
end

/-- An answer comes with at most one request to the store. -/
theorem Engine.store_cases {e e' : Engine} {r : Request} {answer : r.Answer}
    (hanswer : e.Answers r answer e') :
    e'.store = e.store ∨
      ∃ q answer, r = .store q ∧ e.store.perform e.now q = (answer, e'.store) := by
  cases r with
  | store q => exact .inr ⟨q, answer, rfl, perform_of_answers hanswer⟩
  | append entry => exact .inl (store_of_append hanswer)
  | invoke =>
    obtain rfl : e' = e := hanswer
    exact .inl rfl

theorem Counts.append {h : List Moment} {m : Moment} {n : Nat} (hcounts : Counts h)
    (hm : m.engine.store.CountsUpTo n) : Counts (h ++ [m]) := by
  intro m' hm' i hi
  rcases List.mem_append.mp hm' with hm' | hm'
  · exact hcounts m' hm' i hi
  · obtain rfl := List.mem_singleton.mp hm'
    obtain ⟨k, hk, -⟩ := hm i hi
    simp [hk]

def Keeps (h : List Moment) : Prop := ∀ m ∈ h, ∀ graphId, m.incident ≠ .unregistered graphId

theorem Keeps.of_append {h₁ h₂ : List Moment} (hkeeps : Keeps (h₁ ++ h₂)) : Keeps h₁ :=
  fun m hm => hkeeps m (List.mem_append_left _ hm)

/-- After a registration its plan is found by its name, and so is every plan that was found
before. -/
theorem Registry.plan?_of_register {r r' : Registry} {g : Graph} {p : Plan}
    (hregister : r.register g = .ok (p, r')) :
    r'.plan? p.graphId p.version = some p ∧
      ∀ q, r.plan? q.graphId q.version = some q → r'.plan? q.graphId q.version = some q := by
  obtain ⟨compiled, -, hadd⟩ := of_bind_eq_ok hregister
  obtain ⟨rfl, rfl⟩ := Prod.mk.inj (Except.ok.inj hadd)
  cases hfound : r.plan? compiled.graphId compiled.version with
  | some p =>
    have hnames := List.find?_some hfound
    simp only [Bool.and_eq_true, beq_iff_eq] at hnames
    have hplans : (r.add compiled true).plans = r.plans := by simp [add, hfound]
    have hheld : r.held compiled = p := by simp [held, hfound]
    rw [hheld, hnames.1, hnames.2]
    simp only [plan?, hplans]
    exact ⟨hfound, fun q hq => hq⟩
  | none =>
    have hplans : (r.add compiled true).plans = r.plans ++ [compiled] := by simp [add, hfound]
    have hheld : r.held compiled = compiled := by simp [held, hfound]
    rw [hheld]
    simp only [plan?, hplans, List.find?_append]
    constructor
    · rw [show r.plans.find? _ = none from hfound]
      simp
    · intro q hq
      rw [show r.plans.find? _ = some q from hq, Option.some_or]

namespace System

variable {config : EngineConfig} {s s' : System}

theorem Step.store_cases (hstep : Step s s') :
    s'.engine.store = s.engine.store ∨
      ∃ n c r answer, s.calls n = some (.asking c) ∧ c.request = .store r ∧
        s.engine.store.perform s.engine.now r = (answer, s'.engine.store) := by
  cases hstep with
  | @serve n c answer e hasks hanswer =>
    rcases Engine.store_cases hanswer with hsame | ⟨r, answer, hrequest, hperform⟩
    · exact .inl hsame
    · exact .inr ⟨n, c, r, answer, hasks, hrequest, hperform⟩
  | start | resume | crash | register | unregister | tick => exact .inl rfl

theorem Step.isTable_eq (hstep : Step s s') :
    s'.engine.store.isTable = s.engine.store.isTable := by
  rcases hstep.store_cases with hsame | ⟨_, _, r, _, _, _, hperform⟩
  · rw [hsame]
  · rw [← Store.isTable_perform s.engine.store s.engine.now r, hperform]

/-- No instance is written more often than there are moments. The bound on the stored versions needs
the soundness of the run, and that needs their counts. -/
theorem Reachable.countsUpTo_and_counts (hs : Reachable config s)
    (hcolumn : s.engine.store.isTable = true → TableStore.fits s.history.length) :
    s.engine.store.CountsUpTo s.history.length ∧ Counts s.history := by
  induction hs with
  | @fresh e he =>
    refine ⟨?_, by simp [Counts, System.fresh]⟩
    rcases he.store with hstore | hstore
    · simp [Store.CountsUpTo, System.fresh, hstore, Store.instances, MemoryStore.empty]
    · simp [Store.CountsUpTo, System.fresh, hstore, Store.instances, TableStore.empty]
  | @step s s' hs hstep ih =>
    obtain ⟨m, hhistory, hengine⟩ := hstep.history
    have hlength : s'.history.length = s.history.length + 1 := by simp [hhistory]
    rw [hstep.isTable_eq, hlength] at hcolumn
    obtain ⟨hupTo, hcounts⟩ := ih fun h => Store.fits_of_le (hcolumn h) (Nat.le_succ _)
    have hsound := hs.isSound hcounts
    have hnext : s'.engine.store.CountsUpTo (s.history.length + 1) := by
      rcases hstep.store_cases with hsame | ⟨n, c, r, answer, hasks, hrequest, hperform⟩
      · rw [hsame]
        exact hupTo.mono (Nat.le_succ _)
      · have hc : c.IsSound config s.engine.store.time s.history := hsound.calls n _ hasks
        refine hupTo.perform hsound.lives.wellFormed hcolumn ?_ ?_ hperform
        · rintro d rfl
          obtain ⟨p, e, now, -, rfl⟩ := hc.create hrequest
          rfl
        · rintro next expected cur rfl hcur hversion
          obtain ⟨i, step, hseen, rfl, hchange⟩ := hc.save hrequest
          rw [hchange.next_eq.1] at hcur
          rw [hsound.lives.find?_of_seen hcounts hseen hcur hversion]
          exact Instance.kept_origin hchange.next_eq.2 _
    rw [hlength, hhistory]
    exact ⟨hnext, hcounts.append (hengine ▸ hnext)⟩

/-- Writes are counted in memory, and in a table as long as the run has fewer moments than a column
can count. -/
theorem Reachable.counts (hs : Reachable config s)
    (hcolumn : s.engine.store.isTable = true → TableStore.fits s.history.length) :
    Counts s.history := (hs.countsUpTo_and_counts hcolumn).2

namespace Along

variable {s₀ s₁ : System} {m : Moment}

/-- A run keeps to the kind of store with which it began. -/
theorem isTable_eq (h : Along config s s₀ s₁ m) :
    s₀.engine.store.isTable = s.engine.store.isTable ∧
      s₁.engine.store.isTable = s.engine.store.isTable := by
  have hlater {s s' : System} (hleads : Relation.ReflTransGen Step s s') :
      s'.engine.store.isTable = s.engine.store.isTable := by
    induction hleads with
    | refl => rfl
    | tail _ hstep ih => rw [hstep.isTable_eq, ih]
  exact ⟨(hlater (.head h.step h.leads)).symm, (hlater h.leads).symm⟩

theorem time_eq (h : Along config s s₀ s₁ m) : s₀.engine.store.time = s.engine.store.time :=
  Store.time_eq_of_isTable h.isTable_eq.1

theorem counts (h : Along config s s₀ s₁ m) (hcounts : Counts s.history) :
    Counts s₀.history ∧ Counts s₁.history := by
  obtain ⟨later, hlater⟩ := history_of_leads h.leads
  have hcounts₁ : Counts s₁.history := (hlater ▸ hcounts).of_append
  exact ⟨hcounts₁.of_history h.step, hcounts₁⟩

theorem fits (h : Along config s s₀ s₁ m)
    (hcolumn : s.engine.store.isTable = true → TableStore.fits s.history.length) :
    s₀.engine.store.isTable = true → TableStore.fits (s₀.history.length + 1 : Nat) := by
  intro htable
  obtain ⟨later, hlater⟩ := history_of_leads h.leads
  refine Store.fits_of_le (hcolumn (h.isTable_eq.1 ▸ htable)) ?_
  simp [hlater, h.history]

theorem column (h : Along config s s₀ s₁ m)
    (hcolumn : s.engine.store.isTable = true → TableStore.fits s.history.length) :
    s₀.engine.store.isTable = true → TableStore.fits s₀.history.length :=
  fun htable => Store.fits_of_le (h.fits hcolumn htable) (Nat.le_succ _)

theorem find?_eq (h : Along config s s₀ s₁ m) (id : InstanceId) :
    s₁.engine.store.find? id = m.find? id := by
  rw [h.engine]
  rfl

end Along

/-- Throughout a run no instance is written more often than there are moments. -/
theorem Reachable.countsUpTo_of_mem (hs : Reachable config s)
    (hcolumn : s.engine.store.isTable = true → TableStore.fits s.history.length) {m : Moment}
    (hm : m ∈ s.history) : m.engine.store.CountsUpTo s.history.length := by
  obtain ⟨before, after, hhistory⟩ := List.append_of_mem hm
  obtain ⟨s₀, s₁, hm, -⟩ := hs.along hhistory
  obtain ⟨later, hlater⟩ := history_of_leads hm.leads
  have hle : s₁.history.length ≤ s.history.length := by simp [hlater]
  have hcolumn₁ (htable : s₁.engine.store.isTable = true) : TableStore.fits s₁.history.length :=
    Store.fits_of_le (hcolumn (hm.isTable_eq.2 ▸ htable)) hle
  rw [← hm.engine]
  exact ((hm.reachable.step hm.step).countsUpTo_and_counts hcolumn₁).1.mono hle

/-- A step registers a plan, or removes some, or leaves the registry as it is. -/
theorem Step.registry_cases (hstep : Step s s') :
    ∃ m, s'.history = s.history ++ [m] ∧
      (s'.engine.registry = s.engine.registry ∧ (∀ p, m.incident ≠ .registered p) ∨
        (∃ g p, m.incident = .registered p ∧
          s.engine.registry.register g = .ok (p, s'.engine.registry)) ∨
        ∃ graphId, m.incident = .unregistered graphId) := by
  cases hstep with
  | serve _ hanswer =>
    exact ⟨_, rfl, .inl ⟨(Engine.frame_of_answers hanswer).2, by simp⟩⟩
  | register hregister => exact ⟨_, rfl, .inr (.inl ⟨_, _, rfl, hregister⟩)⟩
  | unregister graphId => exact ⟨_, rfl, .inr (.inr ⟨graphId, rfl⟩)⟩
  | start | resume | crash | tick => exact ⟨_, rfl, .inl ⟨rfl, by simp⟩⟩

/-- In a run that removes no plan, each plan that was registered is found by its name. -/
theorem Reachable.plan?_of_registered (hs : Reachable config s) (hkeeps : Keeps s.history)
    {p : Plan} (hp : Registered s.history p) :
    s.engine.registry.plan? p.graphId p.version = some p := by
  induction hs with
  | fresh =>
    obtain ⟨m, hm, -⟩ := hp
    cases hm
  | @step s s' hs hstep ih =>
    obtain ⟨m, hhistory, hcases⟩ := hstep.registry_cases
    rw [hhistory] at hkeeps hp
    have hold := ih hkeeps.of_append
    rcases hcases with ⟨hsame, hquiet⟩ | ⟨g, q, hincident, hregister⟩ | ⟨graphId, hincident⟩
    · rcases registered_append hp with hp | hp
      · exact hsame ▸ hold hp
      · exact absurd hp (hquiet p)
    · obtain ⟨hnew, hothers⟩ := Registry.plan?_of_register hregister
      rcases registered_append hp with hp | hp
      · exact hothers p (hold hp)
      · obtain rfl := Incident.registered.inj (hincident.symm.trans hp)
        exact hnew
    · exact absurd hincident (hkeeps m (by simp) graphId)

/-- In a run that removes no plan, a name stands for one plan. -/
theorem Reachable.eq_of_registered (hs : Reachable config s) (hkeeps : Keeps s.history)
    {p q : Plan} (hp : Registered s.history p) (hq : Registered s.history q)
    (hgraph : p.graphId = q.graphId) (hversion : p.version = q.version) : p = q := by
  have hfound := hs.plan?_of_registered hkeeps hp
  rw [hgraph, hversion, hs.plan?_of_registered hkeeps hq] at hfound
  exact (Option.some.inj hfound).symm

theorem Reachable.wellNamed (hs : Reachable config s) (hkeeps : Keeps s.history) :
    WellNamed s.history := by
  intro p q hp hq hgraph hversion
  rw [hs.eq_of_registered hkeeps hp hq hgraph hversion]
  exact .refl q

end System
end WorkflowEngine

import WorkflowEngine.Proofs.System.Aftermath
import WorkflowEngine.Proofs.System.Fencing

/-!
# Last writes

A stored instance that a worker holds shows the time of its last write. The intent to invoke an
action was stored by that write or before it.
-/
namespace WorkflowEngine

/-- Whether an instance is written. -/
def Moment.Writes (m : Moment) (id : InstanceId) : Prop := ∃ i, m.written? = some i ∧ i.id = id

/-- An instance was written at a moment and has not been written since. -/
structure LastWritten (h : List Moment) (id : InstanceId) (first : List Moment) (m : Moment)
    (since : List Moment) : Prop where
  history : h = first ++ m :: since
  writes : m.Writes id
  quiet : ∀ x ∈ since, ¬ x.Writes id

theorem LastWritten.append {h first since : List Moment} {id : InstanceId} {m x : Moment}
    (hm : LastWritten h id first m since) (hx : ¬ x.Writes id) :
    LastWritten (h ++ [x]) id first m (since ++ [x]) where
  history := by simp [hm.history]
  writes := hm.writes
  quiet := by
    intro y hy
    rcases List.mem_append.mp hy with hy | hy
    · exact hm.quiet y hy
    · obtain rfl := List.mem_singleton.mp hy
      exact hx

theorem LastWritten.mem_of_writes {h first since : List Moment} {id : InstanceId} {m x : Moment}
    (hm : LastWritten h id first m since) (hx : x ∈ h) (hwrites : x.Writes id) :
    x ∈ first ++ [m] := by
  rw [hm.history] at hx
  rcases List.mem_append.mp hx with hx | hx
  · exact List.mem_append_left _ hx
  · rcases List.mem_cons.mp hx with rfl | hx
    · exact List.mem_append_right _ (List.mem_singleton_self _)
    · exact absurd hwrites (hm.quiet x hx)

/-- A clock that is never set back. -/
def Steady (h : List Moment) : Prop := h.Pairwise fun m m' => m.engine.now ≤ m'.engine.now

theorem Steady.le {h first since : List Moment} {m x : Moment} (hsteady : Steady h)
    (hhistory : h = first ++ m :: since) (hx : x ∈ first ++ [m]) :
    x.engine.now ≤ m.engine.now := by
  subst hhistory
  rcases List.mem_append.mp hx with hx | hx
  · exact (List.pairwise_append.mp hsteady).2.2 x hx m List.mem_cons_self
  · obtain rfl := List.mem_singleton.mp hx
    exact Int.le_refl _

namespace Store

theorem micros_time (s : Store) (t : Instant) : (s.time t).micros = t.micros := by
  cases s <;> rfl

/-- What a request writes has the time of the clock, unless it is new. -/
theorem updatedAt_of_written {s s' : Store} {now : Instant} {r : StoreRequest}
    {answer : Outcome r.Answer} (hs : s.WellFormed) (hperform : s.perform now r = (answer, s'))
    {i : Instance} (hwritten : (Request.store r).written? answer = some i) :
    s.find? i.id = none ∨ i.updatedAt.micros = now.micros := by
  cases r with
  | create draft =>
    simp only [perform] at hperform
    split at hperform
    · rename_i result s'' hresult
      obtain ⟨rfl, rfl⟩ := Prod.mk.inj hperform
      obtain ⟨j, isNew⟩ := result
      rcases create_cases hs hresult with ⟨rfl, -⟩ | ⟨-, rfl, hnone, -⟩
      · cases hwritten
      · obtain rfl := Option.some.inj hwritten
        exact .inl hnone
    · obtain ⟨rfl, rfl⟩ := Prod.mk.inj hperform
      cases hwritten
  | save next expected =>
    simp only [perform] at hperform
    split at hperform
    · rename_i stored s'' hresult
      obtain ⟨rfl, rfl⟩ := Prod.mk.inj hperform
      obtain rfl := Option.some.inj hwritten
      obtain ⟨cur, -, -, rfl, -⟩ := save_cases hs hresult
      exact .inr rfl
    · obtain ⟨rfl, rfl⟩ := Prod.mk.inj hperform
      cases hwritten
  | claim id source target owner =>
    rcases hclaim : s.claim now id source target owner with ⟨claimed, s''⟩
    simp only [perform, hclaim] at hperform
    obtain ⟨rfl, rfl⟩ := Prod.mk.inj hperform
    rcases claim_cases hs hclaim with ⟨rfl, -⟩ | ⟨cur, version, -, -, -, -, rfl, -⟩
    · cases hwritten
    · obtain rfl := Option.some.inj hwritten
      exact .inr (s.micros_time now)
  | load | listDue | listStale | listForGraph => cases hwritten

end Store

section
variable {config : EngineConfig} {p : Plan} {made : Invocation → Prop} {i : Instance} {step : Step}
  {node : String}

/-- A step that leaves an intent has stored it, or has found it. -/
theorem Stepped.intent (hstep : Stepped config p made i step)
    (hintent : step.next.dispatching = some node) :
    i.dispatching = some node ∨
      step.entry.node = some node ∧ step.entry.outcome = .actionDispatched := by
  cases hstep with
  | passed =>
    rw [Step.advance_dispatching] at hintent
    exact .inl hintent
  | intended => exact .inr ⟨hintent, rfl⟩
  | slept => exact .inl hintent
  | succeeded =>
    rw [Step.advance_dispatching] at hintent
    cases hintent
  | gaveUp => cases hintent
  | retried => cases hintent
  | recovered => exact .inl hintent
  | abandoned => cases hintent

theorem Life.exists_intent {time : Instant → Instant} {id : InstanceId} {h : List Moment}
    (hlife : Life config time id h i) (hintent : i.dispatching = some node) :
    ∃ m ∈ h, m.stores id node .actionDispatched = true := by
  induction hlife with
  | @born _ _ _ _ i _ _ _ hdraft =>
    have hnone : (i.kept time).dispatching = none := by
      rw [Instance.kept, hdraft]
      rfl
    cases hnone.symm.trans hintent
  | idle _ _ _ ih =>
    obtain ⟨m, hm, hstores⟩ := ih hintent
    exact ⟨m, List.mem_append_left _ hm, hstores⟩
  | @changed before m i next step now hlife hid hchange hstored hfound ih =>
    have hnext : next.dispatching = some node := hintent
    have hold (hthere : i.dispatching = some node) :
        ∃ m' ∈ before ++ [m], m'.stores id node .actionDispatched = true := by
      obtain ⟨m', hm', hstores⟩ := ih hthere
      exact ⟨m', List.mem_append_left _ hm', hstores⟩
    cases hchange with
    | stepped _ _ hstep =>
      rcases hstep.intent hnext with h | hentry
      · exact hold h
      · refine ⟨m, List.mem_append_right _ (List.mem_singleton_self _), ?_⟩
        exact (Moment.stores_iff hstored (hstep.next_eq.1.trans hid)).mpr hentry
    | failed => cases hnext
    | released => exact hold hnext
    | cancelled => exact hold hnext
    | claimed => exact hold hnext

end

theorem Engine.now_of_answers {e e' : Engine} {r : Request} {answer : r.Answer}
    (hanswer : e.Answers r answer e') : e'.now = e.now := by
  cases r with
  | store r => exact congrArg (fun x => x.2.now) hanswer
  | append entry => rcases hanswer with rfl | rfl <;> rfl
  | invoke =>
    obtain rfl : e' = e := hanswer
    rfl

namespace System

variable {config : EngineConfig} {s s₀ s₁ : System} {m : Moment} {id : InstanceId} {i : Instance}

/-- A step is stored by a write of its instance. -/
theorem Reachable.writes_of_stores (hs : Reachable config s) (hcounts : Counts s.history)
    (hm : m ∈ s.history) {node : String} {outcome : AuditOutcome}
    (hstores : m.stores id node outcome = true) : m.Writes id := by
  obtain ⟨before, after, hhistory⟩ := List.append_of_mem hm
  obtain ⟨s₀, s₁, halong, -⟩ := hs.along hhistory
  obtain ⟨step, hstored, hstep⟩ := (Option.any_eq_true _ _).mp hstores
  simp only [Bool.and_eq_true, beq_iff_eq] at hstep
  obtain ⟨i, hi, hid⟩ := halong.written_of_stored hcounts hstored
  exact ⟨i, hi, hid.trans hstep.1.1⟩

/-- A write to an instance that is held has the time of the clock. -/
theorem Along.updatedAt (hm : Along config s s₀ s₁ m) (hcounts : Counts s.history)
    (hwritten : m.written? = some i) (howner : i.owner ≠ none) :
    i.updatedAt.micros = m.engine.now.micros := by
  have hold : s₀.engine.store.find? i.id ≠ none := by
    rw [hm.reachable.find?_eq_lastStored]
    have hreplaces := ((hm.written hcounts).1 i hwritten).1
    intro hnone
    rw [hnone] at hreplaces
    cases hreplaces with
    | created _ hdraft => exact howner (by rw [hdraft]; rfl)
  have hwf := (hm.reachable.isSound (hm.counts hcounts).1).lives.wellFormed
  unfold Moment.written? at hwritten
  split at hwritten
  · rename_i c answer hserved
    obtain ⟨-, -, -, hanswer⟩ := hm.step.of_served hm.history hserved
    rw [← hm.engine, Engine.now_of_answers hanswer]
    clear hserved
    generalize c.request = r at answer hanswer hwritten
    cases r with
    | store r =>
      exact (Store.updatedAt_of_written hwf (Engine.perform_of_answers hanswer)
        hwritten).resolve_left hold
    | append | invoke => cases hwritten
  · cases hwritten

/-- A stored instance has a last write, and is stored as that wrote it. -/
theorem Reachable.exists_lastWrite (hs : Reachable config s) (hcounts : Counts s.history)
    (hi : s.engine.store.find? id = some i) :
    ∃ first m since j, LastWritten s.history id first m since ∧ m.written? = some j ∧ j.id = id ∧
      i = j.kept s.engine.store.time := by
  induction hs with
  | fresh he =>
    rcases he.store with hstore | hstore <;> rw [System.fresh, hstore] at hi <;> cases hi
  | @step s s' hs hstep ih =>
    obtain ⟨m, hhistory, hengine⟩ := hstep.history
    have hm : Along config s' s s' m := ⟨hs, hstep, hhistory, hengine.symm, .refl⟩
    obtain ⟨hhere, helsewhere⟩ := hm.written hcounts
    by_cases hwrites : m.Writes id
    · obtain ⟨j, hj, rfl⟩ := hwrites
      have hfound := (hhere j hj).2
      rw [← hm.find?_eq, hi] at hfound
      obtain rfl := Option.some.inj hfound
      exact ⟨s.history, m, [], j, ⟨hhistory, ⟨j, hj, rfl⟩, by simp⟩, hj, rfl, rfl⟩
    · have hsame := helsewhere id fun j hj hid => hwrites ⟨j, hj, hid⟩
      rw [← hm.find?_eq, hi, ← hs.find?_eq_lastStored] at hsame
      obtain ⟨first, x, since, j, hlast, hj⟩ := ih (hcounts.of_history hstep) hsame.symm
      rw [hhistory, ← hm.time_eq]
      exact ⟨first, x, since ++ [m], j, hlast.append hwrites, hj⟩

/-- An instance that is held shows the time of its last write. -/
theorem Reachable.exists_lastWritten (hs : Reachable config s) (hcounts : Counts s.history)
    (hi : s.engine.store.find? id = some i) (howner : i.owner ≠ none) :
    ∃ first m since, LastWritten s.history id first m since ∧
      i.updatedAt.micros = m.engine.now.micros := by
  obtain ⟨first, m, since, j, hlast, hj, -, rfl⟩ := hs.exists_lastWrite hcounts hi
  obtain ⟨s₀, s₁, hm, -⟩ := hs.along hlast.history
  refine ⟨first, m, since, hlast, ?_⟩
  rw [← hm.updatedAt hcounts hj howner]
  exact s.engine.store.micros_time _

end System
end WorkflowEngine

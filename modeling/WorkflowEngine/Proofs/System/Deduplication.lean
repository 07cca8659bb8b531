import WorkflowEngine.Proofs.System.Deliveries

/-!
# One instance for each event

However often an event is delivered, a graph makes at most one instance of it, and every call that
takes it in returns that instance. Neither the progress of the instance nor that of the plans makes
a difference.
-/
namespace WorkflowEngine

/-- Events with a key start at most one instance of each graph, however often they are delivered and
whatever happens to the instance in between. -/
structure Deduplicates (h : List Moment) : Prop where
  /-- An instance is made of an event only if its graph has not taken one with the same key. -/
  isNew : ∀ before m after d, h = before ++ m :: after → m.delivery? = some d →
    (d.isNew = false ↔
      d.key ≠ none ∧ ∃ d' ∈ deliveries before, d'.graphId = d.graphId ∧ d'.key = d.key)
  /-- A graph that has taken an event is given an instance for it, which the call then returns. -/
  given : ∀ m ∈ h, ∀ c answer draft, m.incident = .served c answer →
    c.request = .store (.create draft) → ∃ d, m.delivery? = some d ∧ d.graphId = draft.graphId ∧
      d.key = draft.dedupeKey ∧ ∀ c', c = .emit c' → ∀ env,
        c.resume env answer = .ended (.ok (.started (some d.id)))
  created : ∀ before m after id i, h = before ++ m :: after → lastStored id before = none →
    m.find? id = some i → ∃ d, m.delivery? = some d ∧ d.isNew = true ∧ i.name = d.name
  stored : ∀ before m after d, h = before ++ m :: after → m.delivery? = some d →
    ∀ x ∈ m :: after, ∃ i, x.find? d.id = some i ∧ i.name = d.name
  single : ∀ m ∈ h, ∀ id id' i i', m.find? id = some i → m.find? id' = some i' →
    i.graphId = i'.graphId → i.dedupeKey = i'.dedupeKey → i.dedupeKey ≠ none → id = id'
  same : ∀ d ∈ deliveries h, ∀ d' ∈ deliveries h, d.graphId = d'.graphId → d.key = d'.key →
    d.key ≠ none → d.id = d'.id
  different : ∀ before m between m' after d d', h = before ++ m :: between ++ m' :: after →
    m.delivery? = some d → m'.delivery? = some d' → d.id = d'.id →
    d.graphId = d'.graphId ∧ d.key = d'.key ∧ d.key ≠ none
  unchanged : ∀ before m after d, h = before ++ m :: after → m.delivery? = some d →
    d.isNew = false → ∀ id, m.find? id = lastStored id before
  /-- What a call to take in an event for a graph returns was given to the event by that graph. -/
  emitted : ∀ before m after n e graphId id, h = before ++ m :: after → m.call = some n →
    OpenedBy (before ++ [m]) n (.emit e graphId) → m.result? = some (.ok (.started (some id))) →
    ∃ isNew, deliveriesOf n before = [⟨graphId, e.key, id, isNew⟩]
  dispatched : ∀ before m after n e ids, h = before ++ m :: after → m.call = some n →
    OpenedBy (before ++ [m]) n (.dispatch e) → m.result? = some (.ok (.listed ids)) →
    (deliveriesOf n before).map (·.id) = ids ∧ ∀ d ∈ deliveriesOf n before, d.key = e.key

/-! ## What calls return -/

/-- What has been delivered of an event, as far as the call that takes it in has come. -/
def Stage.Delivers (given : List Delivery) (o : Opening) : Stage → Prop
  | asking (.emit c) => ∃ e graphId, o = .emit e graphId ∧ c.draft.graphId = graphId ∧
      c.draft.dedupeKey = e.key ∧ given = []
  | answered (.emit _) answer => ∃ e graphId, o = .emit e graphId ∧ ∀ i isNew,
      answer = .ok (i, isNew) → given = [⟨graphId, e.key, i.id, isNew⟩]
  | asking (.dispatch c) => o = .dispatch c.event ∧ c.draft.dedupeKey = c.event.key ∧
      given.map (·.id) = c.started ∧ ∀ d ∈ given, d.key = c.event.key
  | answered (.dispatch c) answer => o = .dispatch c.event ∧ ∀ i isNew,
      answer = .ok (i, isNew) → given.map (·.id) = c.started ++ [i.id] ∧
        ∀ d ∈ given, d.key = c.event.key
  | _ => (∀ e graphId, o ≠ .emit e graphId) ∧ ∀ e, o ≠ .dispatch e

/-- A call that takes in an event returns what has been delivered of it. -/
def CallResult.Returns (given : List Delivery) : Opening → CallResult → Prop
  | .emit e graphId, started (some id) => ∃ isNew, given = [⟨graphId, e.key, id, isNew⟩]
  | .dispatch e, listed ids => given.map (·.id) = ids ∧ ∀ d ∈ given, d.key = e.key
  | _, _ => True

theorem Event.of_draftFor {env : Env} {e : Event} {graphId : String} {draft : Draft}
    (h : e.draftFor env graphId = .ok (some draft)) :
    draft.graphId = graphId ∧ draft.dedupeKey = e.key ∧ draft.version = .count 0 := by
  obtain ⟨p, hplan, hdraft⟩ := of_bind_eq_ok h
  obtain ⟨accepted, -, hdraft⟩ := of_bind_eq_ok hdraft
  cases accepted with
  | false => cases hdraft
  | true =>
    obtain rfl := Option.some.inj (Except.ok.inj hdraft)
    exact ⟨(Registry.plan_eq_ok hplan).2.1, rfl, rfl⟩

/-- A dispatch goes on with a graph that takes the event, or ends with what it has started. -/
theorem Dispatch.of_proceed (env : Env) (e : Event) (started : List InstanceId)
    (graphIds : List String) :
    (∀ c, proceed env e started graphIds = .waiting c →
      c.event = e ∧ c.draft.dedupeKey = e.key ∧ c.draft.version = .count 0 ∧ c.started = started) ∧
      ∀ ids, proceed env e started graphIds = .ended (.ok ids) → ids = started := by
  induction graphIds with
  | nil => exact ⟨fun _ hc => (by cases hc), fun ids hids => (by cases hids; rfl)⟩
  | cons graphId rest ih =>
    unfold proceed
    split
    · rename_i draft hdraft
      refine ⟨fun c hc => ?_, fun ids hids => (by cases hids)⟩
      obtain rfl := Progress.waiting.inj hc
      obtain ⟨-, hkey, hversion⟩ := Event.of_draftFor hdraft
      exact ⟨rfl, hkey, hversion, rfl⟩
    · exact ih
    · exact ⟨fun _ hc => (by cases hc), fun ids hids => (by cases hids)⟩

theorem Progress.of_map_eq_ended {σ τ α β : Type} {f : σ → τ} {g : α → β} {p : Progress σ α}
    {b : β} (hmap : p.map f g = .ended (.ok b)) : ∃ a, p = .ended (.ok a) ∧ b = g a := by
  cases p with
  | waiting s => cases hmap
  | ended result =>
    cases result with
    | error e => cases hmap
    | ok a => exact ⟨a, rfl, by cases hmap; rfl⟩

section
variable {env : Env} {o : Opening} {c c' : Call} {answer : c.request.Answer}
  {given : List Delivery} {result : CallResult}

theorem Stage.delivers_of_start (hstart : o.start env = .waiting c) :
    (asking c).Delivers [] o := by
  cases o with
  | emit e graphId =>
    obtain ⟨c', hnext, rfl⟩ := Progress.of_map_eq_waiting hstart
    simp only [Emit.start] at hnext
    split at hnext
    · rename_i draft hdraft
      obtain rfl := Progress.waiting.inj hnext
      obtain ⟨hgraph, hkey, -⟩ := Event.of_draftFor hdraft
      exact ⟨e, graphId, rfl, hgraph, hkey, rfl⟩
    · cases hnext
    · cases hnext
  | dispatch e =>
    obtain ⟨c', hnext, rfl⟩ := Progress.of_map_eq_waiting hstart
    obtain ⟨rfl, hkey, -, hstarted⟩ := (Dispatch.of_proceed _ _ _ _).1 c' hnext
    exact ⟨rfl, hkey, hstarted.symm, by simp⟩
  | sweep time grace =>
    simp only [Opening.start] at hstart
    split at hstart
    · obtain rfl := Progress.waiting.inj hstart
      exact ⟨by simp, by simp⟩
    · cases hstart
  | poll | run | cancel | pass =>
    obtain rfl := Progress.waiting.inj hstart
    exact ⟨by simp, by simp⟩

theorem CallResult.returns_of_start (hstart : o.start env = .ended (.ok result)) :
    result.Returns [] o := by
  cases o with
  | emit e graphId =>
    obtain ⟨id?, hended, rfl⟩ := Progress.of_map_eq_ended hstart
    simp only [Emit.start] at hended
    split at hended <;> cases hended
    trivial
  | dispatch e =>
    obtain ⟨ids, hended, rfl⟩ := Progress.of_map_eq_ended hstart
    exact ⟨((Dispatch.of_proceed _ _ _ _).2 ids hended).symm, by simp⟩
  | poll | run | sweep | cancel | pass => cases result <;> trivial

/-- A call that begins asks at most for an instance that has not been written. -/
theorem Call.version_of_start (hstart : o.start env = .waiting c) {draft : Draft}
    (hrequest : c.request = .store (.create draft)) : draft.version = .count 0 := by
  cases o with
  | emit e graphId =>
    obtain ⟨c', hnext, rfl⟩ := Progress.of_map_eq_waiting hstart
    cases hrequest
    simp only [Emit.start] at hnext
    split at hnext
    · rename_i hdraft
      obtain rfl := Progress.waiting.inj hnext
      exact (Event.of_draftFor hdraft).2.2
    · cases hnext
    · cases hnext
  | dispatch e =>
    obtain ⟨c', hnext, rfl⟩ := Progress.of_map_eq_waiting hstart
    cases hrequest
    exact ((Dispatch.of_proceed _ _ _ _).1 c' hnext).2.2.1
  | sweep time grace =>
    simp only [Opening.start] at hstart
    split at hstart
    · rename_i sweep hsweep
      obtain rfl := Progress.waiting.inj hstart
      cases sweep <;> cases hrequest
    · cases hstart
  | poll | run | cancel | pass =>
    obtain rfl := Progress.waiting.inj hstart
    cases hrequest

theorem Call.version_of_resume (hresume : c.resume env answer = .waiting c') {draft : Draft}
    (hrequest : c'.request = .store (.create draft)) : draft.version = .count 0 := by
  cases c with
  | emit c =>
    obtain ⟨c', hnext, rfl⟩ := Progress.of_map_eq_waiting hresume
    simp only [Emit.resume] at hnext
    split at hnext <;> cases hnext
  | dispatch c =>
    obtain ⟨c', hnext, rfl⟩ := Progress.of_map_eq_waiting hresume
    cases hrequest
    simp only [Dispatch.resume] at hnext
    split at hnext
    · exact ((Dispatch.of_proceed _ _ _ _).1 c' hnext).2.2.1
    · cases hnext
  | poll c =>
    obtain ⟨c', -, rfl⟩ := Progress.of_map_eq_waiting hresume
    cases c' <;> cases hrequest
  | run c =>
    obtain ⟨c', -, rfl⟩ := Progress.of_map_eq_waiting hresume
    cases c' <;> cases hrequest
  | sweep c =>
    obtain ⟨c', -, rfl⟩ := Progress.of_map_eq_waiting hresume
    cases c' <;> cases hrequest
  | cancel c =>
    obtain ⟨c', -, rfl⟩ := Progress.of_map_eq_waiting hresume
    cases c' <;> cases hrequest
  | pass c =>
    obtain ⟨c', -, rfl⟩ := Progress.of_map_eq_waiting hresume
    cases c' with
    | polling worker p => cases p <;> cases hrequest
    | running worker r => cases r <;> cases hrequest

theorem Stage.Delivers.served (hc : (asking c).Delivers given o) :
    (answered c answer).Delivers (given ++ (c.request.delivery? answer).toList) o := by
  cases c with
  | emit c =>
    obtain ⟨e, graphId, rfl, rfl, hkey, rfl⟩ := hc
    refine ⟨e, c.draft.graphId, rfl, fun i isNew hanswer => ?_⟩
    subst hanswer
    simp [Call.request, Emit.request, Request.delivery?, hkey]
  | dispatch c =>
    obtain ⟨rfl, hkey, hstarted, hkeys⟩ := hc
    refine ⟨rfl, fun i isNew hanswer => ?_⟩
    subst hanswer
    simp only [Call.request, Dispatch.request, Request.delivery?, Option.toList_some, hkey,
      List.map_append, List.map_singleton, hstarted, List.mem_append, List.mem_singleton, true_and]
    rintro d (hd | rfl)
    · exact hkeys d hd
    · rfl
  | poll | run | sweep | cancel | pass => exact hc

theorem Stage.Delivers.resumed (hc : (answered c answer).Delivers given o)
    (hresume : c.resume env answer = .waiting c') : (asking c').Delivers given o := by
  cases c with
  | emit c =>
    obtain ⟨c', hnext, rfl⟩ := Progress.of_map_eq_waiting hresume
    simp only [Emit.resume] at hnext
    split at hnext <;> cases hnext
  | dispatch c =>
    obtain ⟨c', hnext, rfl⟩ := Progress.of_map_eq_waiting hresume
    obtain ⟨rfl, hgiven⟩ := hc
    simp only [Dispatch.resume] at hnext
    split at hnext
    · rename_i stored isNew
      obtain ⟨hids, hkeys⟩ := hgiven stored isNew rfl
      obtain ⟨hevent, hkey, -, hstarted⟩ := (Dispatch.of_proceed _ _ _ _).1 c' hnext
      exact ⟨by rw [hevent], by rw [hevent, hkey], by rw [hids, hstarted],
        by rw [hevent]; exact hkeys⟩
    · cases hnext
  | poll | run | sweep | cancel | pass =>
    obtain ⟨c', -, rfl⟩ := Progress.of_map_eq_waiting hresume
    exact hc

theorem Stage.Delivers.ended (hc : (answered c answer).Delivers given o)
    (hresume : c.resume env answer = .ended (.ok result)) : result.Returns given o := by
  cases c with
  | emit c =>
    obtain ⟨id?, hended, rfl⟩ := Progress.of_map_eq_ended hresume
    obtain ⟨e, graphId, rfl, hgiven⟩ := hc
    simp only [Emit.resume] at hended
    split at hended
    · rename_i stored isNew
      cases hended
      exact ⟨isNew, hgiven stored isNew rfl⟩
    · cases hended
  | dispatch c =>
    obtain ⟨ids, hended, rfl⟩ := Progress.of_map_eq_ended hresume
    obtain ⟨rfl, hgiven⟩ := hc
    simp only [Dispatch.resume] at hended
    split at hended
    · rename_i stored isNew
      rw [(Dispatch.of_proceed _ _ _ _).2 ids hended]
      exact hgiven stored isNew rfl
    · cases hended
  | poll | run | sweep | cancel | pass =>
    obtain ⟨hemit, hdispatch⟩ := hc
    cases o with
    | emit e graphId => exact absurd rfl (hemit e graphId)
    | dispatch e => exact absurd rfl (hdispatch e)
    | poll | run | sweep | cancel | pass => cases result <;> trivial

end

namespace System

variable {config : EngineConfig} {s s₀ s₁ : System} {m : Moment} {n : Nat} {o : Opening}

theorem Reachable.deliveriesOf_begun (hs : Reachable config s) :
    deliveriesOf s.begun s.history = [] := by
  refine List.filterMap_eq_nil_iff.mpr fun m hm => ?_
  obtain ⟨hm, hcall⟩ := List.mem_filter.mp hm
  have hcrashed := hs.crashed_of_unbegun hm (by simpa using hcall)
  simp [Moment.delivery?, hcrashed]

theorem Along.opened_eq (hm : Along config s s₀ s₁ m) {o' : Opening}
    {progress : Progress Call CallResult} (hbegan : m.incident = .began o' progress)
    (ho : OpenedBy (s₀.history ++ [m]) s₀.begun o) : o = o' := by
  obtain ⟨m', hm', hcall', progress', hbegan'⟩ := ho
  obtain rfl := hm.eq_of_begun hm' hcall' (by simp [hbegan'])
  cases hbegan.symm.trans hbegan'
  rfl

theorem Reachable.delivers (hs : Reachable config s) :
    ∀ n stage, s.calls n = some stage →
      ∀ o, OpenedBy s.history n o → stage.Delivers (deliveriesOf n s.history) o := by
  refine hs.of_stages
    (P := fun h n stage => ∀ o, OpenedBy h n o → stage.Delivers (deliveriesOf n h) o) ?_ ?_ ?_ ?_
  · intro s₀ s₁ m o c hm hcall hbegan hstart o' ho'
    rw [hm.history] at ho' ⊢
    obtain rfl := hm.opened_eq hbegan ho'
    have hnone : m.delivery? = none := by rw [Moment.delivery?, hbegan]
    rw [deliveriesOf_append_self hcall, hnone, hm.reachable.deliveriesOf_begun]
    exact Stage.delivers_of_start hstart
  · intro s₀ s₁ m n c answer hm hcall hserved _ _ hc o ho
    rw [hm.history] at ho ⊢
    have hdelivery : m.delivery? = c.request.delivery? answer := by rw [Moment.delivery?, hserved]
    rw [deliveriesOf_append_self hcall, hdelivery]
    exact (hc o (ho.of_append (by simp [hserved]))).served
  · intro s₀ s₁ m n c answer c' hm hcall hresumed _ hresume hc o ho
    rw [hm.history] at ho ⊢
    have hnone : m.delivery? = none := by rw [Moment.delivery?, hresumed]
    rw [deliveriesOf_append_self hcall, hnone, Option.toList_none, List.append_nil]
    exact (hc o (ho.of_append (by simp [hresumed]))).resumed hresume
  · intro s₀ s₁ m n stage hm hcall _ hstage o ho
    rw [hm.history] at ho ⊢
    rw [deliveriesOf_append_of_ne hcall]
    exact hstage o (ho.of_append fun h => absurd h hcall)

theorem Reachable.version_of_create (hs : Reachable config s) {c : Call} {draft : Draft}
    (hasks : s.calls n = some (.asking c)) (hrequest : c.request = .store (.create draft)) :
    draft.version = .count 0 := by
  refine hs.of_stages (P := fun _ _ stage => ∀ c, stage = .asking c → ∀ draft,
    c.request = .store (.create draft) → draft.version = .count 0) ?_ ?_ ?_ ?_ n _ hasks c rfl draft
    hrequest
  · rintro s₀ s₁ m o c - - - hstart _ ⟨⟩ draft hrequest
    exact Call.version_of_start hstart hrequest
  · rintro s₀ s₁ m n c answer - - - - - - _ ⟨⟩
  · rintro s₀ s₁ m n c answer c' - - - - hresume - _ ⟨⟩ draft hrequest
    exact Call.version_of_resume hresume hrequest
  · intro s₀ s₁ m n stage _ _ _ hstage
    exact hstage

/-- No store refuses an event that a graph has taken. -/
theorem Along.exists_delivery (hm : Along config s s₀ s₁ m) {c : Call} {answer : c.request.Answer}
    (hserved : m.incident = .served c answer) {draft : Draft}
    (hrequest : c.request = .store (.create draft)) :
    ∃ d, m.delivery? = some d ∧ d.graphId = draft.graphId ∧ d.key = draft.dedupeKey ∧
      ∀ c', c = .emit c' → ∀ env, c.resume env answer = .ended (.ok (.started (some d.id))) := by
  obtain ⟨n, -, hasks, hanswer⟩ := hm.step.of_served hm.history hserved
  have hversion := hm.reachable.version_of_create hasks hrequest
  have hok {answer : Outcome (Instance × Bool)}
      (hanswer : s₀.engine.Answers (.store (.create draft)) answer s₁.engine) :
      ∃ i isNew, answer = .ok (i, isNew) := by
    obtain ⟨⟨i, isNew⟩, s', hcreate⟩ := s₀.engine.store.exists_create hversion
    have hperform := Engine.perform_of_answers hanswer
    simp only [Store.perform, hcreate] at hperform
    exact ⟨i, isNew, (Prod.mk.inj hperform).1.symm⟩
  cases c with
  | emit c =>
    cases hrequest
    obtain ⟨i, isNew, rfl⟩ := hok hanswer
    exact ⟨⟨_, _, i.id, isNew⟩, by rw [Moment.delivery?, hserved]; rfl, rfl, rfl, fun _ _ _ => rfl⟩
  | dispatch c =>
    cases hrequest
    obtain ⟨i, isNew, rfl⟩ := hok hanswer
    exact ⟨⟨_, _, i.id, isNew⟩, by rw [Moment.delivery?, hserved]; rfl, rfl, rfl,
      fun _ hc => by cases hc⟩
  | poll c => cases c <;> cases hrequest
  | run c => cases c <;> cases hrequest
  | sweep c => cases c <;> cases hrequest
  | cancel c => cases c <;> cases hrequest
  | pass c =>
    cases c with
    | polling worker p => cases p <;> cases hrequest
    | running worker r => cases r <;> cases hrequest

/-- The store keeps an instance for each delivery that was made. -/
theorem Along.exists_named (hm : Along config s s₀ s₁ m) {d : Delivery}
    (hd : d ∈ deliveries (s₀.history ++ [m])) : ∃ i, m.find? d.id = some i ∧ i.name = d.name := by
  rw [← hm.find?_eq]
  exact hm.remembers.keyed.exists_find? (hm.remembers.mem d hd)

theorem Along.returns (hm : Along config s s₀ s₁ m) (hcall : m.call = some n)
    (ho : OpenedBy (s₀.history ++ [m]) n o) {result : CallResult}
    (hresult : m.result? = some (.ok result)) :
    result.Returns (deliveriesOf n s₀.history) o := by
  unfold Moment.result? at hresult
  split at hresult
  · rename_i o' result' hbegan
    obtain rfl := Option.some.inj hresult
    obtain ⟨hbegun, hstart, -⟩ := hm.step.of_began hm.history hbegan
    obtain rfl := Option.some.inj (hcall.symm.trans hbegun)
    obtain rfl := hm.opened_eq hbegan ho
    rw [hm.reachable.deliveriesOf_begun]
    exact CallResult.returns_of_start hstart.symm
  · rename_i result' hresumed
    obtain rfl := Option.some.inj hresult
    obtain ⟨n', c, answer, hcall', hanswered, hresume, -⟩ := hm.step.of_resumed hm.history hresumed
    obtain rfl := Option.some.inj (hcall.symm.trans hcall')
    exact (hm.reachable.delivers n _ hanswered o (ho.of_append (by simp [hresumed]))).ended
      hresume.symm
  · cases hresult

theorem Reachable.deduplicates (hs : Reachable config s) : Deduplicates s.history where
  isNew := by
    intro before m after d hhistory hd
    obtain ⟨s₀, s₁, hm, rfl⟩ := hs.along hhistory
    obtain ⟨hremembers, htakes⟩ := hm.takes
    rw [hd] at htakes
    exact hremembers.isNew_eq_false_iff htakes
  given := by
    intro m hm c answer draft hserved hrequest
    obtain ⟨before, after, hhistory⟩ := List.append_of_mem hm
    obtain ⟨s₀, s₁, hm, -⟩ := hs.along hhistory
    exact hm.exists_delivery hserved hrequest
  created := by
    intro before m after id i hhistory hnone hi
    obtain ⟨s₀, s₁, hm, rfl⟩ := hs.along hhistory
    obtain ⟨hremembers, htakes⟩ := hm.takes
    rw [← hm.reachable.find?_eq_lastStored] at hnone
    rw [← hm.find?_eq] at hi
    exact hremembers.exists_delivery htakes hnone hi
  stored := by
    intro before m after d hhistory hd x hx
    obtain ⟨first, rest, hsplit⟩ := List.append_of_mem hx
    rw [hsplit, ← List.append_assoc] at hhistory
    obtain ⟨s₀, s₁, hx, hbefore⟩ := hs.along hhistory
    refine hx.exists_named (hbefore ▸ mem_deliveries ?_ hd)
    have hmem : m ∈ first ++ [x] := by
      cases first with
      | nil => simp [(List.cons.inj hsplit).1]
      | cons y first => simp [(List.cons.inj hsplit).1]
    rw [List.append_assoc]
    exact List.mem_append_right _ hmem
  single := by
    intro m hm id id' i i' hi hi' hgraph hsame hkey
    obtain ⟨before, after, hhistory⟩ := List.append_of_mem hm
    obtain ⟨s₀, s₁, hm, rfl⟩ := hs.along hhistory
    rw [← hm.find?_eq] at hi hi'
    obtain ⟨hname, rfl⟩ := Store.name_mem_names hi
    obtain ⟨hname', rfl⟩ := Store.name_mem_names hi'
    exact hm.remembers.keyed.eq_of_key hname hname' hgraph hsame hkey
  same := fun d hd d' hd' hgraph hsame hkey =>
    hs.remembers.keyed.eq_of_key (hs.remembers.mem d hd) (hs.remembers.mem d' hd') hgraph hsame hkey
  different := by
    intro before m between m' after d d' hhistory hd hd' hid
    obtain ⟨s₀, s₁, hm, hbefore⟩ := hs.along hhistory
    obtain ⟨hremembers, htakes⟩ := hm.takes
    rw [hd'] at htakes
    exact hremembers.eq_of_id htakes (mem_deliveries (by simp [hbefore]) hd) hid
  unchanged := by
    intro before m after d hhistory hd hold id
    obtain ⟨s₀, s₁, hm, rfl⟩ := hs.along hhistory
    have htakes := hm.takes.2
    rw [hd] at htakes
    rw [← hm.reachable.find?_eq_lastStored, ← hm.find?_eq, htakes.eq_of_old hold]
  emitted := by
    intro before m after n e graphId id hhistory hcall ho hresult
    obtain ⟨s₀, s₁, hm, rfl⟩ := hs.along hhistory
    exact hm.returns hcall ho hresult
  dispatched := by
    intro before m after n e ids hhistory hcall ho hresult
    obtain ⟨s₀, s₁, hm, rfl⟩ := hs.along hhistory
    exact hm.returns hcall ho hresult

/-- An event that a graph takes is delivered at once in some run. -/
theorem Reachable.emits (hs : Reachable config s) {e : Event} {graphId : String} {draft : Draft}
    (hstart : (Opening.emit e graphId).start s.engine.env = .waiting (.emit ⟨draft⟩))
    {i : Instance} {isNew : Bool} {store : Store}
    (hperform : s.engine.store.perform s.engine.now (.create draft) = (.ok (i, isNew), store)) :
    ∃ s', Reachable config s' ∧ s'.engine = { s.engine with store } ∧
      deliveries s'.history =
        deliveries s.history ++ [⟨draft.graphId, draft.dedupeKey, i.id, isNew⟩] := by
  have hstarted := hs.step (.start s (.emit e graphId))
  rw [hstart] at hstarted
  have hcreates : s.engine.Answers (Call.emit ⟨draft⟩).request (.ok (i, isNew))
      { s.engine with store } := by
    simp only [Engine.Answers, Call.request, Emit.request, Engine.perform, hperform]
  obtain ⟨s', hs', he, -, -, -, hhistory⟩ :=
    hstarted.served_resumed (n := s.begun) (Function.update_self _ _ _) hcreates
  refine ⟨s', hs', he, ?_⟩
  simp only [hhistory, turn, deliveries_append, List.append_assoc]
  rfl

end System

namespace Sample

def keyedEvent : Event := ⟨.manual, [], some "k"⟩

def keyedStore (i : Instance) : MemoryStore := ⟨[i], [(("g", "k"), "i1")], 1⟩

def keyed : Instance := { keyedEvent.draft plan (clock 0) with id := "i1" }

def keyedCancelled : Instance :=
  { keyed with status := .cancelled, completedAt := some (clock 0), version := .count 1 }

theorem start_emit_keyed (store : MemoryStore) :
    (Opening.emit keyedEvent "g").start (engine 0 store).env =
      .waiting (.emit ⟨keyedEvent.draft plan (clock 0)⟩) := by
  have hlatest : registry.latestPlan "g" = .ok plan := by
    simp [Registry.latestPlan, Registry.plan, Registry.plansOf, Registry.plan?, registry, plan]
  have hdraft : keyedEvent.draftFor (engine 0 store).env "g" =
      .ok (some (keyedEvent.draft plan (clock 0))) := by
    have hregistry : (engine 0 store).env.registry = registry := rfl
    rw [Event.draftFor, hregistry, hlatest]
    rfl
  simp only [Opening.start, Call.startEmit, Emit.start, hdraft]
  rfl

/-- A cancellation that is served at once delivers nothing. -/
theorem exists_keyedCancelled {s : System} (hs : System.Reachable default s)
    (hengine : s.engine = engine 0 (keyedStore keyed)) :
    ∃ s', System.Reachable default s' ∧ s'.engine = engine 0 (keyedStore keyedCancelled) ∧
      deliveries s'.history = deliveries s.history := by
  have hstarted := hs.step (.start s (.cancel "i1" none))
  have hloads : s.engine.Answers (.store (.load "i1")) (.ok keyed)
      (engine 0 (keyedStore keyed)) := by
    rw [hengine]
    rfl
  obtain ⟨s₁, hs₁, he₁, -, hasks₁, -, hh₁⟩ := hstarted.served_resumed (n := s.begun)
    (c := .cancel (.loading "i1" none)) (Function.update_self _ _ _) hloads
  have hsaves : s₁.engine.Answers (Call.cancel (.saving keyed none (clock 0))).request
      (.ok keyedCancelled) (engine 0 (keyedStore keyedCancelled)) := by
    rw [he₁]
    rfl
  obtain ⟨s₂, hs₂, he₂, -, hasks₂, -, hh₂⟩ := hs₁.served_resumed hasks₁ hsaves
  have happends (entry : AuditEntry) : s₂.engine.Answers (.append entry) ()
      (engine 0 (keyedStore keyedCancelled)) :=
    .inl (by rw [he₂])
  obtain ⟨s₃, hs₃, he₃, -, -, -, hh₃⟩ := hs₂.served_resumed hasks₂ (happends _)
  refine ⟨s₃, hs₃, he₃, ?_⟩
  simp only [hh₃, hh₂, hh₁, System.turn, deliveries_append, List.append_assoc]
  exact List.append_nil _

/-- In some run an event is delivered again after the instance that was made of it has been
cancelled. -/
theorem exists_deduplicates : ∃ s, System.Reachable default s ∧
    deliveries s.history = [⟨"g", some "k", "i1", true⟩, ⟨"g", some "k", "i1", false⟩] ∧
    s.engine.store.find? "i1" = some keyedCancelled ∧ Deduplicates s.history := by
  have hfresh : System.Reachable default
      (.fresh ⟨Registry.empty default, default, clock 0, .memory .empty, [], none⟩) :=
    .fresh ⟨rfl, rfl, .inl rfl⟩
  have hregistered := hfresh.step (.register register_graph)
  have hcreates : (Store.memory .empty).perform (clock 0)
      (.create (keyedEvent.draft plan (clock 0))) =
        (.ok (keyed, true), .memory (keyedStore keyed)) := rfl
  obtain ⟨s₁, hs₁, he₁, hd₁⟩ := hregistered.emits (start_emit_keyed .empty) hcreates
  obtain ⟨s₂, hs₂, he₂, hd₂⟩ := exists_keyedCancelled hs₁ he₁
  have hstart : (Opening.emit keyedEvent "g").start s₂.engine.env =
      .waiting (.emit ⟨keyedEvent.draft plan (clock 0)⟩) := by
    rw [he₂]
    exact start_emit_keyed _
  have hfinds : s₂.engine.store.perform s₂.engine.now (.create (keyedEvent.draft plan (clock 0))) =
      (.ok (keyedCancelled, false), .memory (keyedStore keyedCancelled)) := by
    rw [he₂]
    rfl
  obtain ⟨s₃, hs₃, he₃, hd₃⟩ := hs₂.emits hstart hfinds
  refine ⟨s₃, hs₃, ?_, ?_, hs₃.deduplicates⟩
  · rw [hd₃, hd₂, hd₁]
    rfl
  · rw [he₃]
    rfl

end Sample
end WorkflowEngine

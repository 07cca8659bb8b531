import WorkflowEngine.Proofs.System.Calls

/-!
# Soundness of runs

In every run each call goes by what was stored, each stored instance has its life, and each plan of
the registry was registered.
-/
namespace WorkflowEngine

variable {config : EngineConfig} {time : Instant → Instant} {h : List Moment} {m : Moment}
  {e e' : Engine}

theorem Engine.perform_of_answers {r : StoreRequest} {answer : Outcome r.Answer}
    (hanswer : e.Answers (.store r) answer e') : e.store.perform e.now r = (answer, e'.store) := by
  obtain ⟨rfl, rfl⟩ := Prod.mk.inj hanswer
  rfl

theorem Engine.store_of_append {entry : AuditEntry} {answer : Unit}
    (hanswer : e.Answers (.append entry) answer e') : e'.store = e.store := by
  rcases hanswer with rfl | rfl <;> rfl

theorem Engine.frame_of_answers {r : Request} {answer : r.Answer}
    (hanswer : e.Answers r answer e') : e'.config = e.config ∧ e'.registry = e.registry := by
  cases r with
  | store r =>
    obtain ⟨-, rfl⟩ := Prod.mk.inj hanswer
    exact ⟨rfl, rfl⟩
  | append entry => rcases hanswer with rfl | rfl <;> exact ⟨rfl, rfl⟩
  | invoke kind params context =>
    obtain rfl : e' = e := hanswer
    exact ⟨rfl, rfl⟩

theorem Store.Lives.empty {s : Store} (hs : s.instances = []) : s.Lives config s.time [] where
  time_eq := rfl
  wellFormed := by
    refine ⟨by simp [hs], ?_, ?_⟩
    · simp [hs]
    · simp [hs]
  unborn := by simp [Unborn]
  life := by simp [Store.find?, hs, Instance.find?]

theorem Poll.served {p : Poll} {answer : p.request.Answer}
    (hlives : e.store.Lives config time h) (hcounts : Counts (h ++ [m])) (hp : p.IsSound time h)
    (hanswer : e.Answers p.request answer e') (hm : m.engine.store = e'.store)
    (hstored : m.stored? = none) :
    e'.store.Lives config time (h ++ [m]) ∧ AnswerSound time (h ++ [m]) p.request answer := by
  cases p with
  | listing => exact hlives.listDue (Engine.perform_of_answers hanswer) hm hstored
  | claiming worker current rest claimed =>
    have hlive := (hp current (by simp)).2
    exact ⟨hlives.claim hcounts hlive (Engine.perform_of_answers hanswer) hm hstored, trivial⟩

theorem Run.served {r : Run} {answer : r.request.Answer} (hlives : e.store.Lives config time h)
    (hcounts : Counts h) (hr : r.IsSound config time h) (hanswer : e.Answers r.request answer e')
    (hm : m.engine.store = e'.store)
    (hstored : m.stored? = (RunStage.answered r answer).stored?) :
    e'.store.Lives config time (h ++ [m]) ∧ AnswerSound time (h ++ [m]) r.request answer := by
  cases r with
  | loading => exact hlives.load (Engine.perform_of_answers hanswer) hm hstored
  | saving base step =>
    obtain ⟨hseen, hheld, p, hbound, hstep⟩ := hr
    refine hlives.save hcounts hseen (.stepped hbound hheld hstep)
      (Engine.perform_of_answers hanswer) hm ?_
    rw [hstored]
    cases answer <;> rfl
  | recording stored entry =>
    have hsame := Engine.store_of_append hanswer
    rw [hsame] at hm ⊢
    exact ⟨hlives.idle hm hstored, trivial⟩
  | invoking v =>
    obtain rfl : e' = e := hanswer
    exact ⟨hlives.idle hm hstored, trivial⟩
  | reloading => exact hlives.load (Engine.perform_of_answers hanswer) hm hstored
  | recordingDropped current entry =>
    have hsame := Engine.store_of_append hanswer
    rw [hsame] at hm ⊢
    exact ⟨hlives.idle hm hstored, trivial⟩
  | failing failed entry cause =>
    obtain ⟨base, error, now, hseen, hheld, rfl⟩ := hr
    refine hlives.save (i := base) hcounts hseen (.failed hheld)
      (Engine.perform_of_answers hanswer) hm ?_
    rw [hstored, ite_self]
    rfl
  | recordingFailure entry cause =>
    have hsame := Engine.store_of_append hanswer
    rw [hsame] at hm ⊢
    exact ⟨hlives.idle hm hstored, trivial⟩

theorem Sweep.served {s : Sweep} {answer : s.request.Answer}
    (hlives : e.store.Lives config time h) (hcounts : Counts h) (hs : s.IsSound time h)
    (hanswer : e.Answers s.request answer e') (hm : m.engine.store = e'.store)
    (hstored : m.stored? = none) :
    e'.store.Lives config time (h ++ [m]) ∧ AnswerSound time (h ++ [m]) s.request answer := by
  cases s with
  | listing => exact hlives.listStale (Engine.perform_of_answers hanswer) hm hstored
  | releasing inFlightBefore current rest released =>
    obtain ⟨hseen, hheld⟩ := hs current (by simp)
    refine hlives.save hcounts hseen (.released hheld) (Engine.perform_of_answers hanswer) hm ?_
    rw [hstored, ite_self]

theorem Cancel.served {c : Cancel} {answer : c.request.Answer}
    (hlives : e.store.Lives config time h) (hcounts : Counts h) (hc : c.IsSound time h)
    (hanswer : e.Answers c.request answer e') (hm : m.engine.store = e'.store)
    (hstored : m.stored? = none) :
    e'.store.Lives config time (h ++ [m]) ∧ AnswerSound time (h ++ [m]) c.request answer := by
  cases c with
  | loading => exact hlives.load (Engine.perform_of_answers hanswer) hm hstored
  | saving current reason now =>
    refine hlives.save hcounts hc.1 (.cancelled hc.2) (Engine.perform_of_answers hanswer) hm ?_
    rw [hstored, ite_self]
  | recording =>
    have hsame := Engine.store_of_append hanswer
    rw [hsame] at hm ⊢
    exact ⟨hlives.idle hm hstored, trivial⟩

theorem Draft.IsPlanned.served {d : Draft} {answer : Outcome (Instance × Bool)}
    (hlives : e.store.Lives config time h) (hd : d.IsPlanned h)
    (hanswer : e.Answers (.store (.create d)) answer e') (hm : m.engine.store = e'.store)
    (hstored : m.stored? = none) : e'.store.Lives config time (h ++ [m]) := by
  obtain ⟨p, event, now, hp, rfl⟩ := hd
  exact hlives.create hp (Engine.perform_of_answers hanswer) hm hstored

/-- Whatever a sound call asks for, the lives go on when it is served. -/
theorem Call.served {c : Call} {answer : c.request.Answer}
    (hlives : e.store.Lives config time h) (hcounts : Counts (h ++ [m]))
    (hc : c.IsSound config time h) (hanswer : e.Answers c.request answer e')
    (hm : m.engine = e') (hserved : m.incident = .served c answer) :
    e'.store.Lives config time (h ++ [m]) ∧ AnswerSound time (h ++ [m]) c.request answer := by
  have hm : m.engine.store = e'.store := by rw [hm]
  have hrun : m.run? = (Stage.answered c answer).run? := by rw [Moment.run?, hserved]
  have hnone (h : (Stage.answered c answer).run? = none) : m.stored? = none := by
    rw [Moment.stored?, hrun, h]
    rfl
  have hsome {r : RunStage} (h : (Stage.answered c answer).run? = some r) :
      m.stored? = r.stored? := by
    rw [Moment.stored?, hrun, h]
    rfl
  cases c with
  | emit c => exact ⟨Draft.IsPlanned.served hlives hc hanswer hm (hnone rfl), trivial⟩
  | dispatch c => exact ⟨Draft.IsPlanned.served hlives hc hanswer hm (hnone rfl), trivial⟩
  | poll c => exact Poll.served hlives hcounts hc hanswer hm (hnone rfl)
  | run c => exact Run.served hlives hcounts.of_append hc hanswer hm (hsome rfl)
  | sweep c => exact Sweep.served hlives hcounts.of_append hc hanswer hm (hnone rfl)
  | cancel c => exact Cancel.served hlives hcounts.of_append hc hanswer hm (hnone rfl)
  | pass c =>
    cases c with
    | polling => exact Poll.served hlives hcounts hc hanswer hm (hnone rfl)
    | running => exact Run.served hlives hcounts.of_append hc hanswer hm (hsome rfl)

theorem AnswerSound.append {r : Request} {answer : r.Answer}
    (hanswer : AnswerSound time h r answer) (h' : List Moment) :
    AnswerSound time (h ++ h') r answer := by
  cases r with
  | store r =>
    cases r with
    | load => exact fun i hi => (hanswer i hi).append h'
    | save => exact fun i hi => ⟨(hanswer i hi).1.append h', (hanswer i hi).2⟩
    | listDue =>
      exact fun due hdue i hi => ⟨(hanswer due hdue i hi).1.append h', (hanswer due hdue i hi).2⟩
    | listStale =>
      exact fun stale hstale i hi =>
        ⟨(hanswer stale hstale i hi).1.append h', (hanswer stale hstale i hi).2⟩
    | create | claim | listForGraph => trivial
  | append | invoke => trivial

def Stage.IsSound (config : EngineConfig) (time : Instant → Instant) (h : List Moment) :
    Stage → Prop
  | asking c => c.IsSound config time h
  | answered c answer =>
    c.IsSound config time h ∧ AnswerSound time h c.request answer ∧
      ∀ v, (answered c answer).run?.bind RunStage.invocation? = some v → Made h v

theorem Stage.IsSound.append {stage : Stage} (hstage : stage.IsSound config time h)
    (h' : List Moment) : stage.IsSound config time (h ++ h') := by
  cases stage with
  | asking c => exact Call.IsSound.append hstage h'
  | answered c answer =>
    exact ⟨hstage.1.append h', hstage.2.1.append h', fun v hv => (hstage.2.2 v hv).append h'⟩

theorem Stage.isSound_of_next? {progress : Progress Call CallResult} {stage : Stage}
    (hnext : next? progress = some stage)
    (hsound : ∀ c, progress = .waiting c → c.IsSound config time h) :
    stage.IsSound config time h := by
  cases progress with
  | waiting c =>
    obtain rfl := Option.some.inj hnext
    exact hsound c rfl
  | ended => cases hnext

/-- A plan that is new in a registry after a registration is the one that was compiled. -/
theorem Registry.mem_plans_of_register {r r' : Registry} {g : Graph} {p q : Plan}
    (hregister : r.register g = .ok (p, r')) (hq : q ∈ r'.plans) : q ∈ r.plans ∨ q = p := by
  obtain ⟨compiled, -, hadd⟩ := of_bind_eq_ok hregister
  obtain ⟨rfl, rfl⟩ := Prod.mk.inj (Except.ok.inj hadd)
  simp only [add] at hq
  split at hq
  · exact .inl hq
  · rename_i hnone
    rcases List.mem_append.mp hq with hq | hq
    · exact .inl hq
    · obtain rfl := List.mem_singleton.mp hq
      rw [Option.not_isSome_iff_eq_none] at hnone
      exact .inr (by rw [held, hnone]; rfl)

/-- The plan that comes with a registration was there before, or is the one that was compiled. -/
theorem Registry.mem_or_ofGraph {r r' : Registry} {g : Graph} {p : Plan}
    (hregister : r.register g = .ok (p, r')) :
    p ∈ r.plans ∨ Plan.ofGraph r.config g = .ok p := by
  obtain ⟨compiled, hcompiled, hadd⟩ := of_bind_eq_ok hregister
  obtain ⟨rfl, rfl⟩ := Prod.mk.inj (Except.ok.inj hadd)
  unfold held
  cases hfound : r.plan? compiled.graphId compiled.version with
  | none => exact .inr hcompiled
  | some p => exact .inl (List.mem_of_find?_eq_some hfound)

theorem Registry.config_of_register {r r' : Registry} {g : Graph} {p : Plan}
    (hregister : r.register g = .ok (p, r')) : r'.config = r.config := by
  obtain ⟨_, -, hadd⟩ := of_bind_eq_ok hregister
  obtain ⟨-, rfl⟩ := Prod.mk.inj (Except.ok.inj hadd)
  rfl

theorem Counts.of_history {s s' : System} (hcounts : Counts s'.history)
    (hstep : System.Step s s') : Counts s.history := by
  obtain ⟨m, hm, -⟩ := hstep.history
  exact (hm ▸ hcounts).of_append

namespace System

/-- What holds throughout a run. -/
structure IsSound (config : EngineConfig) (time : Instant → Instant) (s : System) : Prop where
  config_eq : s.engine.config = config
  registryConfig : s.engine.registry.config = config
  known : s.engine.registry.IsKnown s.history
  compiled : ∀ p, Registered s.history p → ∃ g, Plan.ofGraph config g = .ok p
  lives : s.engine.store.Lives config time s.history
  calls : ∀ n stage, s.calls n = some stage → stage.IsSound config time s.history

theorem registered_append {p : Plan} (hp : Registered (h ++ [m]) p) :
    Registered h p ∨ m.incident = .registered p := by
  obtain ⟨m', hm, hincident⟩ := hp
  rcases List.mem_append.mp hm with hm | hm
  · exact .inl ⟨m', hm, hincident⟩
  · exact .inr (List.mem_singleton.mp hm ▸ hincident)

theorem IsSound.fresh (he : e.IsFresh config) : (fresh e).IsSound config e.store.time where
  config_eq := he.config
  registryConfig := by rw [System.fresh, he.registry]; rfl
  known := by
    simp [System.fresh, he.registry, Registry.empty, Registry.IsKnown]
  compiled := by simp [System.fresh, Registered]
  lives := by
    rcases he.store with hstore | hstore
    · exact .empty (by simp [hstore, Store.instances, MemoryStore.empty])
    · exact .empty (by simp [hstore, Store.instances, TableStore.empty])
  calls := by simp [System.fresh]

section
variable {s : System}

theorem IsSound.calls_append (hs : s.IsSound config time) (m : Moment) {n n' : Nat}
    {stage : Option Stage} {stage' : Stage}
    (hstage : ∀ st, stage = some st → st.IsSound config time (s.history ++ [m]))
    (hcall : Function.update s.calls n stage n' = some stage') :
    stage'.IsSound config time (s.history ++ [m]) := by
  by_cases hn : n' = n
  · subst hn
    rw [Function.update_self] at hcall
    exact hstage stage' hcall
  · rw [Function.update_of_ne hn] at hcall
    exact (hs.calls n' stage' hcall).append [m]

/-- A moment of a call that neither stores nor registers anything. -/
theorem IsSound.turn (hs : s.IsSound config time) {n : Nat} {stage : Option Stage}
    {incident : Incident} (hincident : ∀ p, incident ≠ .registered p)
    (hserved : ∀ c answer, incident ≠ .served c answer)
    (hstage : ∀ st, stage = some st →
      st.IsSound config time (s.history ++ [⟨some n, incident, s.engine⟩])) :
    (s.turn n stage incident s.engine).IsSound config time where
  config_eq := hs.config_eq
  registryConfig := hs.registryConfig
  known := fun p hp => (hs.known p hp).append _
  compiled := by
    intro p hp
    rcases registered_append hp with hp | hp
    · exact hs.compiled p hp
    · exact absurd hp (hincident p)
  lives := by
    refine hs.lives.idle rfl ?_
    unfold Moment.stored? Moment.run?
    cases incident with
    | served c answer => exact absurd rfl (hserved c answer)
    | began | resumed | crashed | registered | unregistered | ticked => rfl
  calls := fun n' stage' hcall => hs.calls_append _ hstage hcall

theorem IsSound.aside (hs : s.IsSound config time) {incident : Incident} {e : Engine}
    (hserved : ∀ c answer, incident ≠ .served c answer)
    (hconfig : e.config = config) (hregistry : e.registry.config = config)
    (hstore : e.store = s.engine.store)
    (hknown : e.registry.IsKnown (s.history ++ [⟨none, incident, e⟩]))
    (hcompiled : ∀ p, incident = .registered p → ∃ g, Plan.ofGraph config g = .ok p) :
    (s.aside incident e).IsSound config time where
  config_eq := hconfig
  registryConfig := hregistry
  known := hknown
  compiled := by
    intro p hp
    rcases registered_append hp with hp | hp
    · exact hs.compiled p hp
    · exact hcompiled p hp
  lives := by
    have hlives := hs.lives
    rw [← hstore] at hlives
    refine hlives.idle rfl ?_
    unfold Moment.stored? Moment.run?
    cases incident with
    | served c answer => exact absurd rfl (hserved c answer)
    | began | resumed | crashed | registered | unregistered | ticked => rfl
  calls := fun n stage hcall => (hs.calls n stage hcall).append _

theorem IsSound.step {s' : System} (hs : s.IsSound config time) (hcounts : Counts s'.history)
    (hstep : Step s s') : s'.IsSound config time := by
  cases hstep with
  | start o =>
    have hturn : (s.turn s.begun (Stage.next? (o.start s.engine.env))
        (.began o (o.start s.engine.env)) s.engine).IsSound config time := by
      refine hs.turn (by simp) (by simp) fun stage hstage => ?_
      refine Stage.isSound_of_next? hstage fun c hc => ?_
      exact Call.isSound_of_start (fun p hp => (hs.known p hp).append _) hc
    exact ⟨hturn.config_eq, hturn.registryConfig, hturn.known, hturn.compiled, hturn.lives,
      hturn.calls⟩
  | @serve n c answer e hasks hanswer =>
    have hstage : (Stage.asking c).IsSound config time s.history := hs.calls n _ hasks
    have hserved := Call.served (m := ⟨some n, .served c answer, e⟩) hs.lives hcounts hstage
      hanswer rfl rfl
    have hsame := Engine.frame_of_answers hanswer
    refine ⟨hsame.1.trans hs.config_eq, ?_, ?_, ?_, hserved.1, ?_⟩
    · exact hsame.2 ▸ hs.registryConfig
    · intro p hp
      exact (hs.known p (hsame.2 ▸ hp)).append _
    · intro p hp
      rcases registered_append hp with hp | hp
      · exact hs.compiled p hp
      · cases hp
    · refine fun n' stage' hcall => hs.calls_append _ ?_ hcall
      rintro _ ⟨⟩
      refine ⟨Call.IsSound.append hstage _, hserved.2, fun v hv => ?_⟩
      exact ⟨⟨some n, .served c answer, e⟩, by simp, hv⟩
  | @resume n c answer hanswered =>
    obtain ⟨hc, hanswer, hmade⟩ := hs.calls n _ hanswered
    refine hs.turn (by simp) (by simp) fun stage hstage => ?_
    refine Stage.isSound_of_next? hstage fun c' hc' => ?_
    exact Call.isSound_of_resume (fun p hp => (hs.known p hp).append _) hs.config_eq
      (hc.append _) (hanswer.append _) (fun v hv => (hmade v hv).append _) hc'
  | crash n => exact hs.turn (by simp) (by simp) (by simp)
  | @register g p r hregister =>
    have hp : ∃ g, Plan.ofGraph config g = .ok p := by
      rcases Registry.mem_or_ofGraph hregister with hp | hp
      · exact hs.compiled p (hs.known p hp)
      · exact ⟨g, hs.registryConfig ▸ hp⟩
    refine hs.aside (by simp) hs.config_eq
      ((Registry.config_of_register hregister).trans hs.registryConfig) rfl (fun q hq => ?_) ?_
    · rcases Registry.mem_plans_of_register hregister hq with hq | rfl
      · exact (hs.known q hq).append _
      · exact ⟨_, List.mem_append_right _ List.mem_cons_self, rfl⟩
    · rintro _ ⟨⟩
      exact hp
  | unregister graphId =>
    refine hs.aside (by simp) hs.config_eq hs.registryConfig rfl (fun p hp => ?_) (by simp)
    exact (hs.known p (List.mem_filter.mp hp).1).append _
  | tick now =>
    exact hs.aside (by simp) hs.config_eq hs.registryConfig rfl
      (fun p hp => (hs.known p hp).append _) (by simp)

end

/-- Every run is sound. -/
theorem Reachable.isSound {s : System} (hs : Reachable config s) (hcounts : Counts s.history) :
    s.IsSound config s.engine.store.time := by
  induction hs with
  | fresh he => exact .fresh he
  | step _ hstep ih =>
    have hsound := (ih (hcounts.of_history hstep)).step hcounts hstep
    exact hsound.lives.time_eq.symm ▸ hsound

theorem Reachable.life {s : System} (hs : Reachable config s) (hcounts : Counts s.history)
    {id : InstanceId} {i : Instance} (hi : s.engine.store.find? id = some i) :
    Life config s.engine.store.time id s.history i :=
  (hs.isSound hcounts).lives.life id i hi

/-- Every registered plan can be run. -/
theorem Reachable.isRunnable {s : System} (hs : Reachable config s) (hcounts : Counts s.history)
    {p : Plan} (hp : Registered s.history p) : p.IsRunnable := by
  obtain ⟨g, hg⟩ := (hs.isSound hcounts).compiled p hp
  exact Plan.isRunnable_of_ofGraph hg

end System
end WorkflowEngine

import WorkflowEngine.Proofs.System.Premises

/-!
# Undisturbed calls

Whatever a call does on its own, it does in some run of the system, while the calls that have begun
before stay where they are.
-/
namespace WorkflowEngine

/-- A call is served to its end, and nothing else happens to the engine. -/
inductive Alone : Engine → Call → Engine → Prop where
  | ends {e e' : Engine} {c : Call} {result : Outcome CallResult} (answer : c.request.Answer)
      (hanswer : e.Answers c.request answer e') (hresume : c.resume e'.env answer = .ended result) :
      Alone e c e'
  | goesOn {e e' e'' : Engine} {c c' : Call} (answer : c.request.Answer)
      (hanswer : e.Answers c.request answer e') (hresume : c.resume e'.env answer = .waiting c')
      (hrest : Alone e' c' e'') : Alone e c e''

namespace System

/-- A run leads on from one system to another without touching the plans and the first calls. -/
structure LeadsOn (n : Nat) (s s' : System) : Prop where
  history : ∃ later, s'.history = s.history ++ later ∧
    ∀ m ∈ later, (∀ p, m.incident ≠ .registered p) ∧ ∀ graphId, m.incident ≠ .unregistered graphId
  calls : ∀ k, k < n → s'.calls k = s.calls k

namespace LeadsOn

variable {n : Nat} {s s' s'' : System}

theorem trans (h : LeadsOn n s s') (h' : LeadsOn n s' s'') : LeadsOn n s s'' := by
  obtain ⟨later, hlater, hquiet⟩ := h.history
  obtain ⟨later', hlater', hquiet'⟩ := h'.history
  refine ⟨⟨later ++ later', by simp [hlater, hlater'], fun m hm => ?_⟩, fun k hk => ?_⟩
  · rcases List.mem_append.mp hm with hm | hm
    · exact hquiet m hm
    · exact hquiet' m hm
  · rw [h'.calls k hk, h.calls k hk]

theorem turn {k : Nat} (hk : n ≤ k) {stage : Option Stage} {incident : Incident} {e : Engine}
    (hregistered : ∀ p, incident ≠ .registered p)
    (hunregistered : ∀ graphId, incident ≠ .unregistered graphId) :
    LeadsOn n s (s.turn k stage incident e) := by
  refine ⟨⟨_, rfl, ?_⟩, fun j hj => Function.update_of_ne (hj.trans_le hk).ne _ _⟩
  simpa using ⟨hregistered, hunregistered⟩

theorem keeps (h : LeadsOn n s s') (hkeeps : Keeps s.history) : Keeps s'.history := by
  obtain ⟨later, hlater, hquiet⟩ := h.history
  rw [hlater]
  intro m hm
  rcases List.mem_append.mp hm with hm | hm
  · exact hkeeps m hm
  · exact (hquiet m hm).2

theorem registered (h : LeadsOn n s s') {p : Plan} (hp : Registered s.history p) :
    Registered s'.history p := by
  obtain ⟨later, hlater, -⟩ := h.history
  rw [hlater]
  exact hp.append later

end LeadsOn

section
variable {config : EngineConfig} {s : System} {n : Nat} {c : Call} {e : Engine}

/-- A call is served and goes on at once. -/
theorem Reachable.served_resumed (hs : Reachable config s) (hasks : s.calls n = some (.asking c))
    {answer : c.request.Answer} (hanswer : s.engine.Answers c.request answer e) :
    ∃ s', Reachable config s' ∧ s'.engine = e ∧ s'.begun = s.begun ∧
      s'.calls n = Stage.next? (c.resume e.env answer) ∧ LeadsOn n s s' ∧
      s'.history = s.history ++ [⟨some n, .served c answer, e⟩] ++
        [⟨some n, .resumed (c.resume e.env answer), e⟩] := by
  have hserved := hs.step (.serve hasks hanswer)
  have hanswered : (s.turn n (some (.answered c answer)) (.served c answer) e).calls n =
      some (.answered c answer) := Function.update_self n _ _
  refine ⟨_, hserved.step (.resume hanswered), rfl, rfl, Function.update_self n _ _, ?_, rfl⟩
  exact .trans (.turn le_rfl (by simp) (by simp)) (.turn le_rfl (by simp) (by simp))

/-- A call that goes on undisturbed is served in some run. -/
theorem Reachable.served_alone (hs : Reachable config s) (hasks : s.calls n = some (.asking c))
    (halone : Alone s.engine c e) :
    ∃ s', Reachable config s' ∧ s'.engine = e ∧ s'.begun = s.begun ∧ LeadsOn n s s' := by
  generalize hengine : s.engine = e₀ at halone
  induction halone generalizing s with
  | ends _ hanswer =>
    obtain ⟨s', hs', he, hbegun, -, hleads, -⟩ := hs.served_resumed hasks (hengine ▸ hanswer)
    exact ⟨s', hs', he, hbegun, hleads⟩
  | goesOn _ hanswer hresume _ ih =>
    obtain ⟨s', hs', he, hbegun, hnext, hleads, -⟩ :=
      hs.served_resumed hasks (hengine ▸ hanswer)
    rw [hresume] at hnext
    obtain ⟨s'', hs'', he', hbegun', hleads'⟩ := ih hs' hnext he
    exact ⟨s'', hs'', he', hbegun'.trans hbegun, hleads.trans hleads'⟩

theorem Reachable.begins (hs : Reachable config s) {o : Opening}
    (hstart : o.start s.engine.env = .waiting c) :
    ∃ s', Reachable config s' ∧ s'.engine = s.engine ∧ s'.begun = s.begun + 1 ∧
      s'.calls s.begun = some (.asking c) ∧ LeadsOn s.begun s s' := by
  have hstarted := hs.step (.start s o)
  rw [hstart] at hstarted
  exact ⟨_, hstarted, rfl, rfl, Function.update_self s.begun _ _,
    ⟨_, rfl, by simp⟩, fun k hk => Function.update_of_ne hk.ne _ _⟩

/-- A call that begins and goes on undisturbed is served in some run. -/
theorem Reachable.alone (hs : Reachable config s) {o : Opening}
    (hstart : o.start s.engine.env = .waiting c) (halone : Alone s.engine c e) :
    ∃ s', Reachable config s' ∧ s'.engine = e ∧ s'.begun = s.begun + 1 ∧
      LeadsOn s.begun s s' := by
  obtain ⟨s₁, hs₁, he, hbegun, hasks, hleads⟩ := hs.begins hstart
  obtain ⟨s₂, hs₂, he', hbegun', hleads'⟩ := hs₁.served_alone hasks (he ▸ halone)
  exact ⟨s₂, hs₂, he', hbegun'.trans hbegun, hleads.trans hleads'⟩

end
end System

namespace Sample

def registry : Registry := ⟨default, [plan], [("g", plan.version)]⟩

/-- A clock without an offset. -/
def clock (seconds : Int) : Instant := ⟨seconds * 1000000, none⟩

def engine (seconds : Int) (store : MemoryStore) : Engine :=
  ⟨registry, default, clock seconds, .memory store, [], none⟩

def keeping (seconds : Int) (i : Instance) : Engine := engine seconds ⟨[i], [], 1⟩

theorem register_graph : (Registry.empty default).register graph = .ok (plan, registry) := by
  have hconfig : (Registry.empty default).config = default := rfl
  rw [Registry.register, hconfig, ofGraph_graph]
  rfl

theorem planNode_eq {i : Instance} (hgraph : i.graphId = "g")
    (hversion : i.planVersion = plan.version) (seconds : Int) (store : MemoryStore)
    (node : String) :
    (engine seconds store).env.planNode i node = plan.node node := by
  have hplan : registry.plan "g" (some plan.version) = .ok plan := by
    simp [Registry.plan, Registry.plansOf, Registry.plan?, registry, plan]
  have hregistry : (engine seconds store).env.registry = registry := rfl
  rw [Env.planNode, hgraph, hversion, hregistry, hplan]
  rfl

def event : Event := ⟨.manual, [], none⟩

theorem start_emit (seconds : Int) (store : MemoryStore) :
    (Opening.emit event "g").start (engine seconds store).env =
      .waiting (.emit ⟨event.draft plan (clock seconds)⟩) := by
  have hlatest : registry.latestPlan "g" = .ok plan := by
    simp [Registry.latestPlan, Registry.plan, Registry.plansOf, Registry.plan?, registry, plan]
  have hdraft : event.draftFor (engine seconds store).env "g" =
      .ok (some (event.draft plan (clock seconds))) := by
    have hregistry : (engine seconds store).env.registry = registry := rfl
    rw [Event.draftFor, hregistry, hlatest]
    rfl
  simp only [Opening.start, Call.startEmit, Emit.start, hdraft]
  rfl

theorem listDue_eq {i : Instance} {seconds : Int} (hdue : i.isDue (clock seconds) = true)
    (hcomparable : Instance.areComparable [i] = true) :
    (keeping seconds i).Answers (.store (.listDue (clock seconds) 50)) (.ok [i])
      (keeping seconds i) := by
  have hfilter : [i].filter (Instance.isDue (clock seconds)) = [i] := by simp [hdue]
  have hlist : (keeping seconds i).store.listDue (clock seconds) 50 = .ok [i] := by
    simp only [Store.listDue, keeping, engine, MemoryStore.listDue, hfilter, hcomparable,
      MemoryStore.sortDue, List.mergeSort_singleton]
    rfl
  exact Prod.ext hlist.symm rfl

theorem listing_resume {i : Instance} {seconds : Int} (hdue : i.isDue (clock seconds) = true) :
    (Poll.listing "w" (clock seconds) 50).resume (.ok [i]) = .waiting (.claiming "w" i [] []) := by
  have hlisted : [i].filter (fun i => i.resumeAt.all (· ≤ clock seconds)) = [i] := by
    simp only [Instance.isDue, Bool.and_eq_true] at hdue
    simpa using hdue.2
  simp only [Poll.resume, hlisted]
  rfl

/-! The instance after each write. -/

def created : Instance := { event.draft plan (clock 0) with id := "i1" }

def held (i : Instance) (worker : String) (seconds : Int) : Instance :=
  (i.claimed .running (some worker)).stamped i.version.next (clock seconds)

def left : Instance := { held created "w" 0 with cursor := "d", version := .count 2 }

def asleep : Instance :=
  { left with
    cursor := "a"
    status := .waitingDelay
    owner := none
    resumeAt := some (clock 60)
    version := .count 3 }

def intending : Instance :=
  { held asleep "w" 60 with dispatching := some "a", resumeAt := none, version := .count 5 }

def retrying : Instance :=
  { intending with
    attempts := [("a", 1)]
    dispatching := none
    status := .waitingDelay
    owner := none
    resumeAt := some (clock 90)
    version := .count 6 }

/-! The calls of a worker. -/

theorem alone_emit :
    Alone (engine 0 .empty) (.emit ⟨event.draft plan (clock 0)⟩) (keeping 0 created) :=
  .ends (.ok (created, true)) rfl rfl

theorem alone_poll_created :
    Alone (keeping 0 created) (.poll (.listing "w" (clock 0) 50))
      (keeping 0 (held created "w" 0)) :=
  .goesOn (.ok [created]) (listDue_eq rfl rfl) rfl
    (.ends (.ok (some (held created "w" 0))) rfl rfl)

theorem alone_poll_asleep :
    Alone (keeping 60 asleep) (.poll (.listing "w" (clock 60) 50))
      (keeping 60 (held asleep "w" 60)) :=
  .goesOn (.ok [asleep]) (listDue_eq rfl rfl) rfl
    (.ends (.ok (some (held asleep "w" 60))) rfl rfl)

theorem begin_created (seconds : Int) :
    Run.begin (keeping seconds (held created "w" seconds)).env (held created "w" seconds) =
      .waiting (.saving (held created "w" seconds)
        (.advance (held created "w" seconds) "t" (some "d") (clock seconds) .triggered
          [("trigger", Choice.toValue TriggerKind.manual)])) := by
  have hrecover : recover (keeping seconds (held created "w" seconds)).env
      (held created "w" seconds) = .ok none := rfl
  rw [Run.begin, hrecover]
  simp only [Run.proceed]
  rw [visit, keeping, planNode_eq rfl rfl]
  rfl

theorem proceed_left :
    Run.proceed (keeping 0 left).env left =
      .waiting (.saving left {
        next := { left with
          cursor := "a"
          status := .waitingDelay
          owner := none
          resumeAt := some (clock 60) }
        entry := ⟨"i1", some "d", .delayed, [("resume_at", .text (clock 60).isoText),
          ("seconds", .ofNat 60), ("next", .text "a")], clock 0⟩
        wakeAt := some (clock 60) }) := by
  rw [Run.proceed, visit, keeping, planNode_eq rfl rfl]
  rfl

theorem alone_run_created :
    Alone (keeping 0 (held created "w" 0)) (.run (.loading "i1" "w")) (keeping 0 asleep) := by
  refine .goesOn (.ok (held created "w" 0)) rfl
    (congrArg (Progress.map Call.run CallResult.left) (begin_created 0)) ?_
  refine .goesOn (.ok left) rfl rfl ?_
  refine .goesOn () (.inl rfl) (congrArg (Progress.map Call.run CallResult.left) proceed_left) ?_
  exact .goesOn (.ok asleep) rfl rfl (.ends () (.inl rfl) rfl)

theorem begin_asleep :
    Run.begin (keeping 60 (held asleep "w" 60)).env (held asleep "w" 60) =
      .waiting (.saving (held asleep "w" 60)
        (.intend (held asleep "w" 60) "a" .sendWhatsapp (clock 60))) := by
  have hrecover : recover (keeping 60 (held asleep "w" 60)).env (held asleep "w" 60) = .ok none :=
    rfl
  rw [Run.begin, hrecover]
  simp only [Run.proceed]
  rw [visit, keeping, planNode_eq rfl rfl]
  rfl

theorem proceed_intending :
    Run.proceed (keeping 60 intending).env intending =
      .waiting (.invoking (invocation intending "a" .sendWhatsapp
        ⟨[("template", .null), ("message", .text "Hello"), ("session_id", .null)], []⟩ none
        (clock 60))) := by
  rw [Run.proceed, visit, keeping, planNode_eq rfl rfl]
  rfl

theorem alone_run_asleep :
    Alone (keeping 60 (held asleep "w" 60)) (.run (.loading "i1" "w")) (keeping 60 retrying) := by
  refine .goesOn (.ok (held asleep "w" 60)) rfl
    (congrArg (Progress.map Call.run CallResult.left) begin_asleep) ?_
  refine .goesOn (.ok intending) rfl rfl ?_
  refine .goesOn () (.inl rfl)
    (congrArg (Progress.map Call.run CallResult.left) proceed_intending) ?_
  refine .goesOn (.result (.failure "busy" false)) rfl rfl ?_
  exact .goesOn (.ok retrying) rfl rfl (.ends () (.inl rfl) rfl)

theorem start_poll {s : System} {seconds : Int} {i : Instance} (h : s.engine = keeping seconds i)
    (worker : String) :
    (Opening.poll worker none none).start s.engine.env =
      .waiting (.poll (.listing worker (clock seconds) 50)) := by
  rw [h]
  rfl

/-- In some run the instance has slept for as long as it was to. -/
theorem exists_asleep : ∃ s, System.Reachable default s ∧ s.engine = keeping 60 asleep ∧
    Registered s.history plan ∧ Keeps s.history := by
  have hfresh : System.Reachable default
      (.fresh ⟨Registry.empty default, default, clock 0, .memory .empty, [], none⟩) :=
    .fresh ⟨rfl, rfl, .inl rfl⟩
  have hregistered := hfresh.step (.register register_graph)
  obtain ⟨s₁, hs₁, he₁, -, hl₁⟩ := hregistered.alone (start_emit 0 .empty) alone_emit
  obtain ⟨s₂, hs₂, he₂, -, hl₂⟩ := hs₁.alone (start_poll he₁ "w") (he₁ ▸ alone_poll_created)
  obtain ⟨s₃, hs₃, he₃, -, hl₃⟩ := hs₂.alone (o := .run "i1" "w") rfl (he₂ ▸ alone_run_created)
  refine ⟨_, hs₃.step (.tick s₃ (clock 60)), ?_, ?_, ?_⟩
  · simp only [System.aside, he₃]
    rfl
  · have hplan : Registered [⟨none, .registered plan, engine 0 .empty⟩] plan :=
      ⟨_, List.mem_singleton_self _, rfl⟩
    exact (hl₃.registered (hl₂.registered (hl₁.registered hplan))).append _
  · have hkeeps := hl₃.keeps (hl₂.keeps (hl₁.keeps (by simp [Keeps, System.fresh, System.aside])))
    intro m hm graphId
    rcases List.mem_append.mp hm with hm | hm
    · exact hkeeps m hm graphId
    · obtain rfl := List.mem_singleton.mp hm
      simp

/-- Once the instance has slept, a worker may run it until it sleeps again. -/
theorem exists_retrying {s : System} (hs : System.Reachable default s)
    (hengine : s.engine = keeping 60 asleep) :
    ∃ s', System.Reachable default s' ∧ s'.engine = keeping 60 retrying ∧
      System.LeadsOn s.begun s s' := by
  obtain ⟨s₁, hs₁, he₁, hbegun, hl₁⟩ :=
    hs.alone (start_poll hengine "w") (hengine ▸ alone_poll_asleep)
  obtain ⟨s₂, hs₂, he₂, -, hl₂⟩ := hs₁.alone (o := .run "i1" "w") rfl (he₁ ▸ alone_run_asleep)
  exact ⟨s₂, hs₂, he₂, hl₁.trans ⟨hl₂.history, fun k hk => hl₂.calls k (by omega)⟩⟩

/-- In some run the action has failed once and is to be tried again. -/
theorem exists_tried : ∃ s, System.Reachable default s ∧ Keeps s.history ∧
    s.engine.store.isTable = false ∧ s.engine.store.find? "i1" = some retrying ∧
    BoundTo s.history plan retrying := by
  obtain ⟨s, hs, he, hplan, hkeeps⟩ := exists_asleep
  obtain ⟨s', hs', he', hleads⟩ := exists_retrying hs he
  refine ⟨s', hs', hleads.keeps hkeeps, ?_, ?_, hleads.registered hplan, rfl, rfl⟩
  · rw [he']
    rfl
  · rw [he']
    rfl

end Sample
end WorkflowEngine

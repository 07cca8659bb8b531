import WorkflowEngine.Proofs.System.Attendance
import WorkflowEngine.Proofs.System.Turns

/-!
# One worker at an instance

A worker tends an instance if it runs the instance once for each time that it has claimed it, and
nobody interferes. At any time at most one run then goes by the instance, and it goes by what is
stored. Whoever begins to run the instance finds no intent there, so that none is taken up again.
-/
namespace WorkflowEngine

/-- One worker runs an instance, only when it has claimed it and once each time. No call is dropped,
no plan is removed, and nobody sweeps or cancels the instance. -/
structure Tended (h : List Moment) (id : InstanceId) (worker : String) : Prop where
  unswept : Unswept h
  kept : Uncrashed h
  plans : Keeps h
  uncancelled : ∀ m ∈ h, ∀ i, m.find? id = some i → i.status ≠ .cancelled
  claimed : ∀ before m after w, h = before ++ m :: after → m.begun? = some (id, w) →
    w = worker ∧ Unfetched before id worker

theorem Tended.of_append {h l : List Moment} {id : InstanceId} {worker : String}
    (htended : Tended (h ++ l) id worker) : Tended h id worker where
  unswept := htended.unswept.of_prefix (List.prefix_append h l)
  kept := fun m hm => htended.kept m (List.mem_append_left _ hm)
  plans := htended.plans.of_append
  uncancelled := fun m hm => htended.uncancelled m (List.mem_append_left _ hm)
  claimed := fun before m after w hsplit =>
    htended.claimed before m (after ++ l) w (by simp [hsplit])

theorem Tended.snoc {h : List Moment} {m : Moment} {id : InstanceId} {worker : String}
    (htended : Tended h id worker) (hunswept : m.isSweep = false) (hkept : m.incident ≠ .crashed)
    (hplans : ∀ graphId, m.incident ≠ .unregistered graphId)
    (huncancelled : ∀ i, m.find? id = some i → i.status ≠ .cancelled)
    (hclaimed : ∀ w, m.begun? = some (id, w) → w = worker ∧ Unfetched h id worker) :
    Tended (h ++ [m]) id worker where
  unswept := List.forall_mem_append.mpr ⟨htended.unswept, by simpa using hunswept⟩
  kept := List.forall_mem_append.mpr ⟨htended.kept, by simpa using hkept⟩
  plans := List.forall_mem_append.mpr ⟨htended.plans, by simpa using hplans⟩
  uncancelled := List.forall_mem_append.mpr ⟨htended.uncancelled, by simpa using huncancelled⟩
  claimed before x after w hsplit hbegun := by
    rcases last_or_before hsplit with ⟨rfl, rfl, -⟩ | ⟨rest, hsplit, -⟩
    · exact hclaimed w hbegun
    · exact htended.claimed before x rest w hsplit hbegun

/-- What is unfetched was unfetched before, or has just been claimed. -/
theorem Unfetched.of_append {h : List Moment} {m : Moment} {id : InstanceId} {worker : String}
    (hclaimed : Unfetched (h ++ [m]) id worker) :
    m.claims id = true ∨ Unfetched h id worker ∧ m.begun? ≠ some (id, worker) := by
  obtain ⟨before, c, after, i, hsplit, hclaims, hi, howner, hafter⟩ := hclaimed
  rcases last_or_before hsplit with ⟨-, rfl, -⟩ | ⟨rest, rfl, rfl⟩
  · exact .inl hclaims
  · refine .inr ⟨⟨before, c, rest, i, rfl, hclaims, hi, howner, fun x hx => ?_⟩, ?_⟩
    · exact hafter x (List.mem_append_left _ hx)
    · exact hafter m (by simp)

/-- The instance that a run goes by. -/
def RunStage.base? : RunStage → Option Instance
  | asking (.saving base _) => some base
  | asking (.recording stored _) | answered (.recording stored _) _ => some stored
  | asking (.invoking v) | answered (.invoking v) _ => some v.base
  | answered (.loading _ _) answer => answer.toOption
  | answered (.saving _ _) answer => answer.toOption
  | _ => none

/-- A call runs an instance, as it stands, that is held. -/
def Works (h : List Moment) (n : Nat) (i : Instance) : Prop :=
  ∃ r, (stageOf n h).bind Stage.run? = some r ∧ r.base? = some i ∧ i.IsHeld

namespace Run

variable {env : Env} {i j : Instance} {r r' : Run}

/-- What a run asks for when it takes a turn with an instance. -/
inductive Turn (env : Env) (i : Instance) : Run → Prop
  | stepped {step : Step} (hvisit : visit env i = .ok (.done step)) : Turn env i (.saving i step)
  | invoked {v : Invocation} (hvisit : visit env i = .ok (.invoke v)) : Turn env i (.invoking v)
  | refused {e : Error} {failed : Instance} {entry : AuditEntry} (hvisit : visit env i = .error e)
      (hgone : e.unrunnable?.isSome) (hid : failed.id = i.id) : Turn env i (.failing failed entry e)

/-- What a run asks for when it begins with an instance. -/
inductive Beginning (env : Env) (i : Instance) : Run → Prop
  | turn {r : Run} (hturn : Turn env i r) : Beginning env i r
  | recovered {node : String} {step : Step} (hintent : i.dispatching = some node) :
      Beginning env i (.saving i step)
  | lost {node : String} {e : Error} {failed : Instance} {entry : AuditEntry}
      (hintent : i.dispatching = some node) (hgone : env.planNode i node = .error e)
      (hid : failed.id = i.id) : Beginning env i (.failing failed entry e)

theorem exists_failing {e : Error} (hfail : fail env i e = .waiting r) :
    e.unrunnable?.isSome ∧ ∃ failed entry, failed.id = i.id ∧ r = .failing failed entry e := by
  unfold fail at hfail
  split at hfail
  · cases hfail
  · rename_i name hname
    obtain rfl := Progress.waiting.inj hfail
    refine ⟨by simp [hname], _, _, ?_, rfl⟩
    rfl

theorem turn_of_proceed (hproceed : proceed env i = .waiting r) :
    i.status = .running ∧ Turn env i r := by
  unfold proceed at hproceed
  split at hproceed
  · rename_i hrunning
    split at hproceed
    · rename_i hvisit
      obtain rfl := Progress.waiting.inj hproceed
      exact ⟨hrunning, .stepped hvisit⟩
    · rename_i hvisit
      obtain rfl := Progress.waiting.inj hproceed
      exact ⟨hrunning, .invoked hvisit⟩
    · rename_i hvisit
      obtain ⟨hgone, failed, entry, hid, rfl⟩ := exists_failing hproceed
      exact ⟨hrunning, .refused hvisit hgone hid⟩
  · cases hproceed

theorem beginning_of_begin (hbegin : begin env i = .waiting r) : Beginning env i r := by
  unfold begin at hbegin
  split at hbegin
  · rename_i hrecover
    obtain rfl := Progress.waiting.inj hbegin
    unfold recover at hrecover
    split at hrecover
    · cases hrecover
    · rename_i hintent
      exact .recovered hintent
  · exact .turn (turn_of_proceed hbegin).2
  · rename_i hrecover
    obtain ⟨-, failed, entry, hid, rfl⟩ := exists_failing hbegin
    unfold recover at hrecover
    split at hrecover
    · cases hrecover
    · rename_i hintent
      rcases of_bind_eq_error hrecover with hgone | ⟨_, -, hstep⟩
      · exact .lost hintent hgone hid
      · cases hstep

theorem Turn.base?_eq (hturn : Turn env i r) (hj : (RunStage.asking r).base? = some j) :
    j = i := by
  cases hturn with
  | stepped => exact (Option.some.inj hj).symm
  | invoked hvisit =>
    obtain ⟨p, -, hv⟩ := isFor_of_visit hvisit
    exact (Option.some.inj hj).symm.trans hv.base
  | refused => cases hj

/-- A run goes on by the instance by which it went. -/
theorem base?_of_resume {answer : r.request.Answer} (hresume : r.resume env answer = .waiting r')
    (hj : (RunStage.asking r').base? = some j) : (RunStage.answered r answer).base? = some j := by
  cases goesOn_of_resume hresume with
  | begun _ _ hbegin =>
    refine congrArg some (Eq.symm ?_)
    cases beginning_of_begin hbegin with
    | turn hturn => exact hturn.base?_eq hj
    | recovered => exact (Option.some.inj hj).symm
    | lost => cases hj
  | stored => exact hj
  | recorded hproceed => exact congrArg some ((turn_of_proceed hproceed).2.base?_eq hj).symm
  | concluded => exact hj
  | refused | reloaded | failed => cases hj

end Run

namespace System

variable {config : EngineConfig} {s s₀ s₁ : System} {m : Moment} {n : Nat} {id : InstanceId}
  {worker : String} {i : Instance}

/-- How a call has come to the stage of its run. -/
inductive Arrives (config : EngineConfig) (s₀ s₁ : System) (m : Moment) (n : Nat) :
    RunStage → Prop
  | elsewhere {r : RunStage} (hcall : m.call ≠ some n)
      (hr : (stageOf n s₀.history).bind Stage.run? = some r) : Arrives config s₀ s₁ m n r
  | begun (id : InstanceId) (worker : String) :
      Arrives config s₀ s₁ m n (.asking (.loading id worker))
  | served {r : Run} {answer : r.request.Answer} (hcall : m.call = some n)
      (hrun : m.run? = some (.answered r answer))
      (hr : (stageOf n s₀.history).bind Stage.run? = some (.asking r))
      (hsound : r.IsSound config s₀.engine.store.time s₀.history)
      (hanswer : s₀.engine.Answers r.request answer s₁.engine) :
      Arrives config s₀ s₁ m n (.answered r answer)
  | resumed {r r' : Run} {answer : r.request.Answer} (hcall : m.call = some n)
      (hquiet : m.written? = none)
      (hr : (stageOf n s₀.history).bind Stage.run? = some (.answered r answer))
      (hsound : r.IsSound config s₀.engine.store.time s₀.history)
      (hresume : r.resume s₀.engine.env answer = .waiting r') :
      Arrives config s₀ s₁ m n (.asking r')

theorem Along.arrives (hm : Along config s s₀ s₁ m) (hcounts : Counts s.history) {r : RunStage}
    (hr : (stageOf n s₁.history).bind Stage.run? = some r) : Arrives config s₀ s₁ m n r := by
  by_cases hcall : m.call = some n
  · rw [hm.history, stageOf_append_self hcall] at hr
    obtain ⟨stage, hstage, hr⟩ := Option.bind_eq_some_iff.mp hr
    cases hincident : m.incident with
    | began o progress =>
      rw [Moment.stage?, hincident] at hstage
      obtain ⟨c, rfl, rfl⟩ := Stage.of_next?_eq_some hstage
      obtain ⟨-, hstart, -⟩ := hm.step.of_began hm.history hincident
      obtain ⟨id, worker, rfl⟩ := (Stage.of_start hstart.symm).1 r hr
      exact .begun id worker
    | served c answer =>
      have hrun : m.run? = some r := by
        rw [Moment.stage?, hincident] at hstage
        obtain rfl := Option.some.inj hstage
        rw [Moment.run?, hincident]
        exact hr
      obtain ⟨k, c', r₀, answer', hcall', hasks, hasking, rfl, hsound, hanswer⟩ :=
        hm.of_run? hcounts hrun
      obtain rfl := Option.some.inj (hcall.symm.trans hcall')
      refine .served hcall hrun ?_ hsound hanswer
      rw [← hm.reachable.calls_eq, hasks]
      exact hasking
    | resumed progress =>
      rw [Moment.stage?, hincident] at hstage
      obtain ⟨c', rfl, rfl⟩ := Stage.of_next?_eq_some hstage
      obtain ⟨k, c, answer, hcall', hanswered, hresume, -⟩ :=
        hm.step.of_resumed hm.history hincident
      obtain rfl := Option.some.inj (hcall.symm.trans hcall')
      have hquiet : m.written? = none := by rw [Moment.written?, hincident]
      rcases Stage.run?_of_resume hresume.symm hr with
        ⟨r₀, answer₀, r₁, hr₀, hnext, rfl⟩ | ⟨id, worker, rfl⟩
      · obtain ⟨r, answer', heq, hruns⟩ := Stage.runs_of_answered hr₀
        cases heq
        have hsound := hm.reachable.isSound (hm.counts hcounts).1
        refine .resumed hcall hquiet ?_ (hruns.isSound (hsound.calls _ _ hanswered).1) hnext
        rw [← hm.reachable.calls_eq, hanswered]
        exact hr₀
      · exact .begun id worker
    | crashed | registered | unregistered | ticked =>
      rw [Moment.stage?, hincident] at hstage
      cases hstage
  · rw [hm.history, stageOf_append_of_ne hcall] at hr
    exact .elsewhere hcall hr

/-- A run was asking for what it is served. -/
theorem Along.exists_asking (hm : Along config s s₀ s₁ m) (hcounts : Counts s.history) {r : Run}
    {answer : r.request.Answer} (hrun : m.run? = some (.answered r answer)) :
    ∃ n, m.call = some n ∧ (stageOf n s₀.history).bind Stage.run? = some (.asking r) ∧
      r.IsSound config s₀.engine.store.time s₀.history ∧
      s₀.engine.Answers r.request answer s₁.engine := by
  obtain ⟨n, c, r', answer', hcall, hasks, hasking, heq, hsound, hanswer⟩ :=
    hm.of_run? hcounts hrun
  cases heq
  refine ⟨n, hcall, ?_, hsound, hanswer⟩
  rw [← hm.reachable.calls_eq, hasks]
  exact hasking

theorem Reachable.exists_planNode (hs : Reachable config s) (hcounts : Counts s.history)
    (hkeeps : Keeps s.history) (hi : s.engine.store.find? id = some i) :
    ∃ n, s.engine.env.planNode i i.cursor = .ok n := by
  obtain ⟨p, hp⟩ := (hs.life hcounts hi).exists_boundTo
  have hconsistent := hs.consistent hcounts (hs.wellNamed hkeeps) hi hp
  obtain ⟨n, hn⟩ := Option.isSome_iff_exists.mp hconsistent.cursor
  have hplan := Registry.plan_of_plan? (hs.plan?_of_registered hkeeps hp.registered)
  rw [hp.graphId, hp.version] at hplan
  refine ⟨n, ?_⟩
  change (s.engine.registry.plan i.graphId (some i.planVersion)).bind (·.node i.cursor) = _
  rw [hplan]
  change p.node i.cursor = _
  rw [Plan.node, hn]

/-- What is tended is written by polls that claim it and by runs that go by it. -/
theorem Along.writer_of_tended (hm : Along config s s₀ s₁ m) (hcounts : Counts s.history)
    {w : Instance} (htended : Tended s₁.history w.id worker) (hw : m.written? = some w)
    (hborn : (lastStored w.id s₀.history).isSome) : Writer config s₀ m w := by
  have hmem : m ∈ s₁.history := by simp [hm.history]
  have hthere := ((hm.written hcounts).1 w hw).2
  have hkept : w.status ≠ .cancelled :=
    htended.uncancelled m hmem (w.kept s.engine.store.time) hthere
  exact hm.writer hcounts (htended.unswept m hmem) hw hborn hkept

/-- At any time one run at most goes by the instance, and it goes by what is stored. -/
structure Sole (time : Instant → Instant) (h : List Moment) (id : InstanceId) (worker : String) :
    Prop where
  current : ∀ n i, Works h n i → i.id = id → lastStored id h = some (i.kept time)
  unique : ∀ n n' i i', Works h n i → Works h n' i' → i.id = id → i'.id = id → n = n'
  unfetched : Unfetched h id worker → ∀ n i, Works h n i → i.id ≠ id
  unfailing : ∀ n failed entry cause,
    (stageOf n h).bind Stage.run? = some (.asking (.failing failed entry cause)) → failed.id ≠ id

/-- How a call has come to go by an instance that is held. -/
inductive Takes (s₀ : System) (m : Moment) (n : Nat) (i : Instance) : Prop
  | goesOn (hworks : Works s₀.history n i) (hunwritten : ∀ w, m.written? = some w → w.id ≠ i.id)
  | begun {id : InstanceId} {worker : String} (hcall : m.call = some n)
      (hrun : m.run? = some (.answered (.loading id worker) (.ok i))) (hid : i.id = id)
      (hstored : s₀.engine.store.find? id = some i)
  | saved {base : Instance} {step : WorkflowEngine.Step} (hcall : m.call = some n)
      (hrun : m.run? = some (.answered (.saving base step) (.ok i)))
      (hworks : Works s₀.history n base) (hid : base.id = i.id)

/-- Nobody but the call that goes by an instance writes it. -/
theorem Along.unwritten_elsewhere (hm : Along config s s₀ s₁ m) (hcounts : Counts s.history)
    (htended : Tended s₁.history i.id worker)
    (hsole : Sole s.engine.store.time s₀.history i.id worker) (hcall : m.call ≠ some n)
    (hworks : Works s₀.history n i) {w : Instance} (hw : m.written? = some w) : w.id ≠ i.id := by
  intro hid
  have hstored := hsole.current n i hworks rfl
  have hborn : (lastStored w.id s₀.history).isSome := by rw [hid, hstored]; rfl
  rw [← hid] at htended
  cases hm.writer_of_tended hcounts htended hw hborn with
  | claim _ hcur hfree =>
    rw [hid, hm.reachable.find?_eq_lastStored, hstored] at hcur
    obtain rfl := Option.some.inj hcur
    have hfree : i.owner = none := hfree
    obtain ⟨-, -, -, hheld⟩ := hworks
    simpa [hfree] using hheld.2
  | @save base step hrun hsound hcur hsaved =>
    obtain ⟨k, hcall', hr, -⟩ := hm.exists_asking hcounts hrun
    have hbase : base.id = i.id := by
      rw [← hid, hsaved]
      obtain ⟨-, -, p, -, hstep⟩ := hsound
      exact hstep.next_eq.1.symm
    obtain rfl := hsole.unique n k i base hworks ⟨_, hr, rfl, hsound.2.1⟩ rfl hbase
    exact hcall hcall'
  | fail hrun hfailed =>
    obtain ⟨k, -, hr, -⟩ := hm.exists_asking hcounts hrun
    exact hsole.unfailing k _ _ _ hr (hfailed.trans hid)

/-- A run that has been served goes by what it went by, by what it has fetched or by what it has
stored. -/
theorem Along.takes_of_served (hm : Along config s s₀ s₁ m) (hcounts : Counts s.history) {r : Run}
    {answer : r.request.Answer} (hcall : m.call = some n)
    (hrun : m.run? = some (.answered r answer))
    (hr : (stageOf n s₀.history).bind Stage.run? = some (.asking r))
    (hsound : r.IsSound config s₀.engine.store.time s₀.history)
    (hanswer : s₀.engine.Answers r.request answer s₁.engine)
    (hbase : (RunStage.answered r answer).base? = some i) (hheld : i.IsHeld) :
    Takes s₀ m n i := by
  have hgoes (hsame : (RunStage.asking r).base? = some i)
      (hquiet : r.request.written? answer = none) : Takes s₀ m n i := by
    refine .goesOn ⟨_, hr, hsame, hheld⟩ fun w hw => ?_
    rw [Moment.written?_of_run? hrun, hquiet] at hw
    cases hw
  cases r with
  | loading id worker =>
    cases answer with
    | error => cases hbase
    | ok j =>
      obtain rfl := Option.some.inj hbase
      have hload : s₀.engine.store.load id = .ok j :=
        (Prod.mk.inj (Engine.perform_of_answers hanswer)).1
      have hstored := Store.find?_of_load hload
      exact .begun hcall hrun (Instance.find?_id hstored) hstored
  | saving base step =>
    cases answer with
    | error => cases hbase
    | ok j =>
      obtain rfl := Option.some.inj hbase
      obtain ⟨hseen, hbaseHeld, p, hbound, hstep⟩ := hsound
      obtain ⟨-, rfl, -⟩ := (hm.reachable.isSound (hm.counts hcounts).1).lives.of_save
        (hm.counts hcounts).1 hseen (.stepped hbound hbaseHeld hstep)
        (Engine.perform_of_answers hanswer)
      exact .saved hcall hrun ⟨_, hr, rfl, hbaseHeld⟩ hstep.next_eq.1.symm
  | recording => exact hgoes hbase rfl
  | invoking => exact hgoes hbase rfl
  | reloading | recordingDropped | failing | recordingFailure => cases hbase

/-- Nobody but the run that goes by an instance writes it, and no other call takes it. -/
theorem Along.takes_of_works (hm : Along config s s₀ s₁ m) (hcounts : Counts s.history)
    (htended : Tended s₁.history id worker) (hsole : Sole s.engine.store.time s₀.history id worker)
    (hworks : Works s₁.history n i) (hid : i.id = id) : Takes s₀ m n i := by
  subst hid
  obtain ⟨r, hr, hbase, hheld⟩ := hworks
  have harrives := hm.arrives hcounts hr
  clear hr
  cases harrives with
  | elsewhere hcall hr =>
    have hworks : Works s₀.history n i := ⟨r, hr, hbase, hheld⟩
    exact .goesOn hworks fun w hw =>
      hm.unwritten_elsewhere hcounts htended hsole hcall hworks hw
  | begun => cases hbase
  | served hcall hrun hr hsound hanswer =>
    exact hm.takes_of_served hcounts hcall hrun hr hsound hanswer hbase hheld
  | resumed hcall hquiet hr _ hresume =>
    refine .goesOn ⟨_, hr, Run.base?_of_resume hresume hbase, hheld⟩ fun w hw => ?_
    rw [hquiet] at hw
    cases hw

/-- Whoever goes by the instance as it is stored finds its node. -/
theorem Along.not_failing (hm : Along config s s₀ s₁ m) (hcounts : Counts s.history)
    (hplans : Keeps s₀.history) (hsole : Sole s.engine.store.time s₀.history id worker) {r : Run}
    {answer : r.request.Answer}
    (hr : (stageOf n s₀.history).bind Stage.run? = some (.answered r answer))
    (hsound : r.IsSound config s₀.engine.store.time s₀.history) {failed : Instance}
    {entry : AuditEntry} {cause : Error}
    (hresume : r.resume s₀.engine.env answer = .waiting (.failing failed entry cause)) :
    failed.id ≠ id := by
  rintro rfl
  have hcounts₀ := (hm.counts hcounts).1
  have hnode {i : Instance} (hworks : Works s₀.history n i) (hid : failed.id = i.id) :
      ∃ p node, i.Consistent p ∧ s₀.engine.env.planNode i i.cursor = .ok node := by
    have hstored := hsole.current n i hworks hid.symm
    rw [← hm.reachable.find?_eq_lastStored] at hstored
    obtain ⟨p, hp⟩ := (hm.reachable.life hcounts₀ hstored).exists_boundTo
    have hnamed := hm.reachable.wellNamed hplans
    have hconsistent := hm.reachable.consistent hcounts₀ hnamed hstored hp
    obtain ⟨node, hnode⟩ := hm.reachable.exists_planNode hcounts₀ hplans hstored
    exact ⟨p, node, hconsistent.of_kept, hnode⟩
  have hturns {i : Instance} (hworks : Works s₀.history n i) (hrunning : i.status = .running)
      (hturn : Run.Turn s₀.engine.env i (.failing failed entry cause)) : False := by
    cases hturn with
    | refused hvisit hgone hid =>
      obtain ⟨-, node, -, hnode⟩ := hnode hworks hid
      have hlive : i.isTerminal = false := by
        simp [Instance.isTerminal, hrunning, Status.isTerminal]
      rw [Env.unrunnable?_of_visit hlive hnode hvisit] at hgone
      cases hgone
  cases Run.goesOn_of_resume hresume with
  | begun hrunning howner hbegin =>
    have hworks : Works s₀.history n _ := ⟨_, hr, rfl, hrunning, by simp [howner]⟩
    cases Run.beginning_of_begin hbegin with
    | turn hturn => exact hturns hworks hrunning hturn
    | lost hintent hgone hid =>
      obtain ⟨p, node, hconsistent, hnode⟩ := hnode hworks hid
      rw [(hconsistent.intent _ hintent).1, hnode] at hgone
      cases hgone
  | recorded hproceed =>
    obtain ⟨hrunning, hturn⟩ := Run.turn_of_proceed hproceed
    exact hturns ⟨_, hr, rfl, hsound.2 hrunning⟩ hrunning hturn

/-- Whoever begins to run the instance has claimed it. -/
theorem Along.of_loaded (hm : Along config s s₀ s₁ m) (htended : Tended s₁.history id worker)
    {id' : InstanceId} {w : String} (hrun : m.run? = some (.answered (.loading id' w) (.ok i)))
    (hload : i.id = id') (hid : i.id = id) :
    w = worker ∧ Unfetched s₀.history id worker ∧ m.begun? = some (id, worker) := by
  have hbegun : m.begun? = some (id, w) := by
    rw [Moment.begun?, hrun, ← hload, hid]
    rfl
  obtain ⟨rfl, hclaimed⟩ := htended.claimed s₀.history m [] w hm.history hbegun
  exact ⟨rfl, hclaimed, hbegun⟩

/-- After each moment, whoever goes by the instance goes by what is stored. -/
theorem Along.current (hm : Along config s s₀ s₁ m) (hcounts : Counts s.history)
    (htended : Tended s₁.history id worker) (hsole : Sole s.engine.store.time s₀.history id worker)
    (hworks : Works s₁.history n i) (hid : i.id = id) :
    lastStored id s₁.history = some (i.kept s.engine.store.time) := by
  obtain ⟨hwritten, hothers⟩ := hm.written hcounts
  rw [hm.history, lastStored_append]
  cases hm.takes_of_works hcounts htended hsole hworks hid with
  | goesOn hworks hunwritten =>
    rw [hothers id fun w hw => hid ▸ hunwritten w hw]
    exact hsole.current n i hworks hid
  | begun _ hrun hload hstored =>
    have hquiet : m.written? = none := Moment.written?_of_run? hrun
    have hwellFormed := (hm.reachable.isSound (hm.counts hcounts).1).lives.wellFormed
    have hkept := Store.kept_of_find? hwellFormed hstored
    have hsame : m.find? id = lastStored id s₀.history :=
      hothers id fun w hw => by
        rw [hquiet] at hw
        cases hw
    rw [hsame, ← hm.reachable.find?_eq_lastStored, ← hid, hload, hstored, ← hm.time_eq, hkept]
  | saved _ hrun =>
    rw [← hid]
    exact (hwritten i (Moment.written?_of_run? hrun)).2

/-- After each moment, one call at most goes by the instance. -/
theorem Along.works_unique (hm : Along config s s₀ s₁ m) (hcounts : Counts s.history)
    (htended : Tended s₁.history id worker) (hsole : Sole s.engine.store.time s₀.history id worker)
    {n' : Nat} {i' : Instance} (hworks : Works s₁.history n i) (hworks' : Works s₁.history n' i')
    (hid : i.id = id) (hid' : i'.id = id) : n = n' := by
  cases hm.takes_of_works hcounts htended hsole hworks hid with
  | goesOn hbefore hunwritten =>
    cases hm.takes_of_works hcounts htended hsole hworks' hid' with
    | goesOn hbefore' => exact hsole.unique n n' i i' hbefore hbefore' hid hid'
    | begun _ hrun hload =>
      exact absurd hid (hsole.unfetched (hm.of_loaded htended hrun hload hid').2.1 n i hbefore)
    | saved _ hrun =>
      exact absurd (hid'.trans hid.symm) (hunwritten i' (Moment.written?_of_run? hrun))
  | begun hcall hrun hload =>
    cases hm.takes_of_works hcounts htended hsole hworks' hid' with
    | goesOn hbefore' =>
      exact absurd hid' (hsole.unfetched (hm.of_loaded htended hrun hload hid).2.1 n' i' hbefore')
    | begun hcall' | saved hcall' => exact Option.some.inj (hcall.symm.trans hcall')
  | saved hcall hrun =>
    cases hm.takes_of_works hcounts htended hsole hworks' hid' with
    | goesOn _ hunwritten =>
      exact absurd (hid.trans hid'.symm) (hunwritten i (Moment.written?_of_run? hrun))
    | begun hcall' | saved hcall' => exact Option.some.inj (hcall.symm.trans hcall')

/-- After each moment, nobody goes by the instance if it has been claimed and not been fetched. -/
theorem Along.not_works_of_unfetched (hm : Along config s s₀ s₁ m) (hcounts : Counts s.history)
    (htended : Tended s₁.history id worker) (hsole : Sole s.engine.store.time s₀.history id worker)
    (hclaimed : Unfetched s₁.history id worker) (hworks : Works s₁.history n i) : i.id ≠ id := by
  intro hid
  rw [hm.history] at hclaimed
  have hunclaimed (hunwritten : ∀ w, m.written? = some w → w.id ≠ id) :
      Unfetched s₀.history id worker ∧ m.begun? ≠ some (id, worker) := by
    refine hclaimed.of_append.resolve_left
      (Bool.eq_false_iff.mp (hm.unclaimed_of_same hcounts ?_))
    rw [hm.reachable.find?_eq_lastStored, (hm.written hcounts).2 id hunwritten]
  cases hm.takes_of_works hcounts htended hsole hworks hid with
  | goesOn hbefore hunwritten =>
    exact hsole.unfetched (hunclaimed (hid ▸ hunwritten)).1 n i hbefore hid
  | begun _ hrun hload =>
    have hquiet : m.written? = none := Moment.written?_of_run? hrun
    exact (hunclaimed (by simp [hquiet])).2 (hm.of_loaded htended hrun hload hid).2.2
  | @saved base step _ hrun hbefore hbase =>
    have hid' := hbase.trans hid
    rcases hclaimed.of_append with hclaims | ⟨hclaimed, -⟩
    · obtain ⟨cur, -, hcur, hfree, -⟩ := hm.of_claims hcounts hclaims
      rw [hm.reachable.find?_eq_lastStored, hsole.current n base hbefore hid'] at hcur
      obtain rfl := Option.some.inj hcur
      obtain ⟨-, -, -, hheld⟩ := hbefore
      have hfree : base.owner = none := hfree
      simpa [hfree] using hheld.2
    · exact hsole.unfetched hclaimed n base hbefore hid'

/-- One run at most goes by the instance after each moment. -/
theorem Along.sole (hm : Along config s s₀ s₁ m) (hcounts : Counts s.history)
    (htended : Tended s₁.history id worker)
    (hsole : Sole s.engine.store.time s₀.history id worker) :
    Sole s.engine.store.time s₁.history id worker where
  current _ _ hworks hid := hm.current hcounts htended hsole hworks hid
  unique _ _ _ _ hworks hworks' hid hid' :=
    hm.works_unique hcounts htended hsole hworks hworks' hid hid'
  unfetched hclaimed _ _ hworks := hm.not_works_of_unfetched hcounts htended hsole hclaimed hworks
  unfailing n failed entry cause hr := by
    have htended₀ : Tended s₀.history id worker := (hm.history ▸ htended).of_append
    have harrives := hm.arrives hcounts hr
    clear hr
    cases harrives with
    | elsewhere _ hr => exact hsole.unfailing n failed entry cause hr
    | resumed _ _ hr hsound hresume =>
      exact hm.not_failing hcounts htended₀.plans hsole hr hsound hresume

/-- No intent of the instance is left behind that a run could find, or has found. -/
structure Unrecovered (h : List Moment) (id : InstanceId) (worker : String) : Prop where
  idle : ∀ i, lastStored id h = some i → i.isTerminal = false →
    i.owner = none ∨ Unfetched h id worker → i.dispatching = none
  loaded : ∀ n id' w i, (stageOf n h).bind Stage.run? = some (.answered (.loading id' w) (.ok i)) →
    i.id = id → i.IsHeld → i.dispatching = none
  saving : ∀ n base step, (stageOf n h).bind Stage.run? = some (.asking (.saving base step)) →
    base.id = id → step.entry.outcome.isRecovery = false

/-- A run that has stored the instance and does not hold it has no intent there. -/
theorem Along.idle_of_saved (hm : Along config s s₀ s₁ m) (hcounts : Counts s.history) {w : Instance}
    (hplans : Keeps s₁.history) (hsole : Sole s.engine.store.time s₀.history w.id worker)
    {base : Instance} {step : WorkflowEngine.Step}
    (hrun : m.run? = some (.answered (.saving base step) (.ok w)))
    (hsound : (Run.saving base step).IsSound config s₀.engine.store.time s₀.history)
    (hcur : s₀.engine.store.find? w.id = some (base.kept s₀.engine.store.time))
    (hsaved : w = step.next.stamped base.version.next s₀.engine.now)
    (hi : m.find? w.id = some (w.kept s.engine.store.time)) (hlive : w.isTerminal = false)
    (hidle : w.owner = none ∨ Unfetched (s₀.history ++ [m]) w.id worker) :
    w.dispatching = none := by
  obtain ⟨-, hheld, p, hbound, hstep⟩ := hsound
  rcases hidle with hunowned | hclaimed
  · have hwaits : w.status = .waitingDelay := by
      cases hstatus : w.status with
      | waitingDelay => rfl
      | running =>
        subst hsaved
        have howned := (hstep.isHeld_next hheld hstatus).2
        have hunowned : step.next.owner = none := hunowned
        simp [hunowned] at howned
      | succeeded | failed | cancelled =>
        simp [Instance.isTerminal, hstatus, Status.isTerminal] at hlive
    have hs₁ := hm.reachable.step hm.step
    have hfound := (hm.find?_eq w.id).trans hi
    obtain ⟨q, hq⟩ := (hs₁.life (hm.counts hcounts).2 hfound).exists_boundTo
    have hnamed := hs₁.wellNamed hplans
    exact ((hs₁.consistent (hm.counts hcounts).2 hnamed hfound hq).waiting hwaits).2.2
  · rcases hclaimed.of_append with hclaims | ⟨hclaimed, -⟩
    · obtain ⟨_, -, hcur', hunowned, -⟩ := hm.of_claims hcounts hclaims
      obtain rfl := Option.some.inj (hcur.symm.trans hcur')
      have hunowned : base.owner = none := hunowned
      simpa [hunowned] using hheld.2
    · obtain ⟨k, -, hr, -⟩ := hm.exists_asking hcounts hrun
      have hbase : base.id = w.id := by
        rw [hsaved]
        exact hstep.next_eq.1.symm
      exact absurd hbase (hsole.unfetched hclaimed k base ⟨_, hr, rfl, hheld⟩)

theorem Along.idle (hm : Along config s s₀ s₁ m) (hcounts : Counts s.history)
    (htended : Tended s₁.history id worker) (hsole : Sole s.engine.store.time s₀.history id worker)
    (hfree : Unrecovered s₀.history id worker) (hi : lastStored id s₁.history = some i)
    (hlive : i.isTerminal = false) (hidle : i.owner = none ∨ Unfetched s₁.history id worker) :
    i.dispatching = none := by
  obtain ⟨hwritten, hothers⟩ := hm.written hcounts
  rw [hm.history, lastStored_append] at hi
  rw [hm.history] at hidle
  by_cases hwrites : ∃ w, m.written? = some w ∧ w.id = id
  · obtain ⟨w, hw, rfl⟩ := hwrites
    obtain ⟨hreplaces, hthere⟩ := hwritten w hw
    obtain rfl := Option.some.inj (hi.symm.trans hthere)
    cases hcur : lastStored w.id s₀.history with
    | none =>
      rw [hcur] at hreplaces
      cases hreplaces with
      | created _ hdraft => exact congrArg Draft.dispatching hdraft
    | some cur =>
      cases hm.writer_of_tended hcounts htended hw (by rw [hcur]; rfl) with
      | @claim cur' _ _ _ hclaims hcur' hunowned hsaved =>
        obtain ⟨_, -, hcur'', -, hlive', -⟩ := hm.of_claims hcounts hclaims
        obtain rfl := Option.some.inj (hcur'.symm.trans hcur'')
        rw [hm.reachable.find?_eq_lastStored] at hcur'
        have hstays : w.dispatching = cur'.dispatching := by rw [hsaved]; rfl
        exact hstays.trans (hfree.idle cur' hcur' hlive' (.inl hunowned))
      | save hrun hsound hcur' hsaved =>
        have hnone : w.dispatching = none :=
          hm.idle_of_saved hcounts htended.plans hsole hrun hsound hcur' hsaved hi hlive hidle
        exact hnone
      | fail _ _ hfailed =>
        have hended : (w.kept s.engine.store.time).isTerminal = true := by
          simp [Instance.isTerminal, Instance.kept, hfailed, Status.isTerminal]
        rw [hlive] at hended
        cases hended
  · have hsame := hothers id fun w hw hid => hwrites ⟨w, hw, hid⟩
    rw [hsame] at hi
    have hunclaimed : m.claims id ≠ true := by
      refine Bool.eq_false_iff.mp (hm.unclaimed_of_same hcounts ?_)
      rw [hm.reachable.find?_eq_lastStored, hsame]
    exact hfree.idle i hi hlive
      (hidle.imp_right fun hclaimed => (hclaimed.of_append.resolve_left hunclaimed).1)

/-- A run that begins finds no intent, and takes none up. -/
theorem Along.unrecovered (hm : Along config s s₀ s₁ m) (hcounts : Counts s.history)
    (htended : Tended s₁.history id worker) (hsole : Sole s.engine.store.time s₀.history id worker)
    (hfree : Unrecovered s₀.history id worker) : Unrecovered s₁.history id worker where
  idle i hi hlive hidle := hm.idle hcounts htended hsole hfree hi hlive hidle
  loaded n id' w i hr hid hheld := by
    have harrives := hm.arrives hcounts hr
    clear hr
    cases harrives with
    | elsewhere _ hr => exact hfree.loaded n id' w i hr hid hheld
    | served hcall hrun hr _ hanswer =>
      have hload : s₀.engine.store.load id' = .ok i :=
        (Prod.mk.inj (Engine.perform_of_answers hanswer)).1
      have hstored := Store.find?_of_load hload
      have hid' : i.id = id' := Instance.find?_id hstored
      have hclaimed := (hm.of_loaded htended hrun hid' hid).2.1
      rw [hm.reachable.find?_eq_lastStored, ← hid', hid] at hstored
      exact hfree.idle i hstored hheld.isTerminal (.inr hclaimed)
  saving n base step hr hid := by
    have harrives := hm.arrives hcounts hr
    clear hr
    cases harrives with
    | elsewhere _ hr => exact hfree.saving n base step hr hid
    | resumed hcall _ hr hsound hresume =>
      have hturns {i : Instance} (hturn : Run.Turn s₀.engine.env i (.saving base step)) :
          step.entry.outcome.isRecovery = false := by
        cases hturn with
        | stepped hvisit => exact outcome_of_visit hvisit
      cases Run.goesOn_of_resume hresume with
      | @begun _ w i _ hrunning howner hbegin =>
        have hbase := Run.base?_of_resume hresume rfl
        obtain rfl := Option.some.inj hbase
        cases Run.beginning_of_begin hbegin with
        | turn hturn => exact hturns hturn
        | recovered hintent =>
          rw [hfree.loaded n _ w i hr hid ⟨hrunning, by simp [howner]⟩] at hintent
          cases hintent
      | recorded hproceed => exact hturns (Run.turn_of_proceed hproceed).2
      | concluded hconcluded =>
        obtain ⟨result, -, hconclude⟩ := of_bind_eq_ok hconcluded
        exact outcome_of_conclude hconclude

/-- At any time one run at most goes by what is tended, and no intent of it is taken up again. -/
theorem Reachable.sole_and_unrecovered (hs : Reachable config s) (hcounts : Counts s.history)
    (htended : Tended s.history id worker) {before after : List Moment}
    (hsplit : s.history = before ++ after) :
    Sole s.engine.store.time before id worker ∧ Unrecovered before id worker := by
  induction before using List.reverseRecOn generalizing after with
  | nil =>
    have hidle (n : Nat) (i : Instance) : ¬ Works [] n i := by
      rintro ⟨r, hr, -⟩
      cases hr
    refine ⟨⟨fun n i h => (hidle n i h).elim, fun n _ i _ h => (hidle n i h).elim,
      fun _ n i h => (hidle n i h).elim, fun n _ _ _ h => ?_⟩, fun _ h => ?_, fun _ _ _ _ h => ?_,
      fun _ _ _ h => ?_⟩ <;> cases h
  | append_singleton before m ih =>
    have hsplit' : s.history = before ++ m :: after := by simp [hsplit]
    obtain ⟨s₀, s₁, hm, rfl⟩ := hs.along hsplit'
    rw [← hm.history]
    have htended₁ : Tended s₁.history id worker := by
      refine Tended.of_append (l := after) ?_
      rwa [hm.history, ← hsplit]
    obtain ⟨hsole, hfree⟩ := ih hsplit'
    exact ⟨hm.sole hcounts htended₁ hsole, hm.unrecovered hcounts htended₁ hsole hfree⟩

end System
end WorkflowEngine

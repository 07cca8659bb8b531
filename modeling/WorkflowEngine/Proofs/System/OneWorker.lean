import WorkflowEngine.Proofs.System.LastWrites
import WorkflowEngine.Proofs.System.Tending

/-!
# A single worker

A single worker does one thing at a time. So nobody disturbs it: what its run goes by is stored as
it is, unless the instance has been cancelled, and what its poll is going to claim was due when the
poll listed it.
-/
namespace WorkflowEngine

namespace Stage

/-- Whether a call that has come so far is the work of a worker. -/
def isWork : Stage → Bool
  | asking c | answered c _ => c.isWork

theorem isWork_of_run? {stage : Stage} {r : RunStage} (hr : stage.run? = some r) :
    stage.isWork = true := by
  cases stage with
  | asking c | answered c =>
    cases c with
    | run | pass => rfl
    | emit | dispatch | poll | sweep | cancel => cases hr

theorem isWork_of_poll? {stage : Stage} {p : PollStage} (hp : stage.poll? = some p) :
    stage.isWork = true := by
  cases stage with
  | asking c | answered c =>
    cases c with
    | poll | pass => rfl
    | emit | dispatch | run | sweep | cancel => cases hp

/-- A call does not poll while it runs an instance. -/
theorem poll?_of_run? {stage : Stage} {r : RunStage} (hr : stage.run? = some r) :
    stage.poll? = none := by
  cases stage with
  | asking c | answered c =>
    cases c with
    | run => rfl
    | pass p =>
      cases p with
      | polling => cases hr
      | running => rfl
    | emit | dispatch | poll | sweep | cancel => cases hr

end Stage

theorem Moment.isWork_of_run? {m : Moment} {r : RunStage} (hr : m.run? = some r) :
    m.isWork = true := by
  unfold Moment.run? at hr
  split at hr
  · rename_i c answer hserved
    rw [isWork, hserved]
    exact Stage.isWork_of_run? hr
  · cases hr

/-- There is one worker, and it does one thing at a time: while one of its calls is served, no other
one is under way. -/
def OneWorker (h : List Moment) : Prop :=
  ∀ before m after, h = before ++ m :: after → m.isWork = true →
    ∀ n stage, stageOf n before = some stage → stage.isWork = true → m.call = some n

/-- No run goes by an instance as it is held. -/
def Unworked (h : List Moment) (id : InstanceId) : Prop := ∀ n i, Works h n i → i.id ≠ id

/-- A poll is going to claim an instance. -/
def PollStage.Lists (id : InstanceId) : PollStage → Prop
  | answered (.listing _ now _) answer =>
    ∃ due, answer = .ok due ∧ ∃ i ∈ due, i.id = id ∧ i.resumeAt.all (· ≤ now) = true
  | asking (.claiming _ current rest _) | answered (.claiming _ current rest _) _ =>
    ∃ i ∈ current :: rest, i.id = id
  | asking (.listing _ _ _) => False

/-- A poll is about to find an instance due, as it is stored. -/
def PollStage.Finds (s : Store) (id : InstanceId) : PollStage → Prop
  | asking (.listing _ now _) => ∃ i, s.find? id = some i ∧ i.resumeAt.all (· ≤ now) = true
  | _ => False

/-- No poll is going to claim an instance. -/
def Unlisted (h : List Moment) (id : InstanceId) : Prop :=
  ∀ n p, (stageOf n h).bind Stage.poll? = some p → ¬ p.Lists id

section
variable {h l : List Moment} {m : Moment} {n : Nat} {stage : Stage} {id : InstanceId}

theorem OneWorker.of_append (hone : OneWorker (h ++ l)) : OneWorker h :=
  fun before m after hsplit => hone before m (after ++ l) (by simp [hsplit])

/-- While one call of the worker is under way, the worker does nothing else. -/
theorem OneWorker.isWork_eq_false (hone : OneWorker (h ++ [m])) (hn : stageOf n h = some stage)
    (hwork : stage.isWork = true) (hcall : m.call ≠ some n) : m.isWork = false :=
  Bool.eq_false_iff.mpr fun hm => hcall (hone h m [] rfl hm n stage hn hwork)

/-- While the worker is served in one call, no other one is under way. -/
theorem OneWorker.call_eq (hone : OneWorker (h ++ [m])) (hm : m.isWork = true)
    (hn : stageOf n (h ++ [m]) = some stage) (hwork : stage.isWork = true) : m.call = some n := by
  by_contra hcall
  rw [stageOf_append_of_ne hcall] at hn
  exact hcall (hone h m [] rfl hm n stage hn hwork)

theorem Poll.lists_of_proceed {worker : String} {rest : List Instance}
    {claimed : List InstanceId} {p : Poll} (hproceed : proceed worker rest claimed = .waiting p)
    (hlists : (PollStage.asking p).Lists id) : ∃ i ∈ rest, i.id = id := by
  cases rest with
  | nil => cases hproceed
  | cons current rest =>
    obtain rfl := Progress.waiting.inj hproceed
    exact hlists

/-- A poll claims what it has listed. -/
theorem Poll.lists_of_resume {p p' : Poll} {answer : p.request.Answer}
    (hresume : p.resume answer = .waiting p') (hlists : (PollStage.asking p').Lists id) :
    (PollStage.answered p answer).Lists id := by
  cases p with
  | listing worker now limit =>
    simp only [resume] at hresume
    split at hresume
    · rename_i due
      obtain ⟨i, hi, hid⟩ := lists_of_proceed hresume hlists
      obtain ⟨hmem, hdue⟩ := List.mem_filter.mp hi
      exact ⟨due, rfl, i, hmem, hid, hdue⟩
    · cases hresume
  | claiming worker current rest claimed =>
    have hrest (hlisted : ∃ i ∈ rest, i.id = id) : ∃ i ∈ current :: rest, i.id = id := by
      obtain ⟨i, hi, hid⟩ := hlisted
      exact ⟨i, List.mem_cons_of_mem _ hi, hid⟩
    simp only [resume] at hresume
    split at hresume
    · exact hrest (lists_of_proceed hresume hlists)
    · exact hrest (lists_of_proceed hresume hlists)
    · cases hresume

/-- What a poll is going to claim after an answer, it was going to claim before, or it has just
found. -/
theorem Poll.lists_of_served {p : Poll} {answer : p.request.Answer} {e e' : Engine}
    (hwellFormed : e.store.WellFormed) (hanswer : e.Answers p.request answer e')
    (hlists : (PollStage.answered p answer).Lists id) :
    (PollStage.asking p).Lists id ∨ (PollStage.asking p).Finds e.store id := by
  cases p with
  | listing worker now limit =>
    obtain ⟨due, rfl, i, hi, rfl, hdue⟩ := hlists
    have hlist := (Prod.mk.inj (Engine.perform_of_answers hanswer)).1
    exact .inr ⟨i, Store.find?_of_mem hwellFormed (Store.of_listDue hlist hi).1, hdue⟩
  | claiming => exact .inl hlists

theorem Stage.lists_of_served {c : Call} {answer : c.request.Answer} {e e' : Engine}
    {p : PollStage} (hwellFormed : e.store.WellFormed) (hanswer : e.Answers c.request answer e')
    (hp : (answered c answer).poll? = some p) (hlists : p.Lists id) :
    ∃ p₀, (asking c).poll? = some p₀ ∧ (p₀.Lists id ∨ p₀.Finds e.store id) := by
  cases c with
  | poll p₀ =>
    obtain rfl := Option.some.inj hp
    exact ⟨_, rfl, Poll.lists_of_served hwellFormed hanswer hlists⟩
  | pass c =>
    cases c with
    | polling worker p₀ =>
      obtain rfl := Option.some.inj hp
      exact ⟨_, rfl, Poll.lists_of_served hwellFormed hanswer hlists⟩
    | running => cases hp
  | emit | dispatch | run | sweep | cancel => cases hp

end

namespace System

variable {config : EngineConfig} {s s₀ s₁ : System} {m : Moment} {n : Nat} {id : InstanceId}
  {i : Instance}

/-- What a run goes by, it goes by since before, or it has just taken it. -/
theorem Along.takes_or_elsewhere (hm : Along config s s₀ s₁ m) (hcounts : Counts s.history)
    (hworks : Works s₁.history n i) :
    m.call ≠ some n ∧ Works s₀.history n i ∨ m.call = some n ∧ Takes s₀ m n i := by
  obtain ⟨r, hr, hbase, hheld⟩ := hworks
  have harrives := hm.arrives hcounts hr
  clear hr
  cases harrives with
  | elsewhere hcall hr => exact .inl ⟨hcall, r, hr, hbase, hheld⟩
  | begun => cases hbase
  | served hcall hrun hr hsound hanswer =>
    exact .inr ⟨hcall, hm.takes_of_served hcounts hcall hrun hr hsound hanswer hbase hheld⟩
  | resumed hcall hquiet hr _ hresume =>
    have hworks : Works s₀.history n i := ⟨_, hr, Run.base?_of_resume hresume hbase, hheld⟩
    refine .inr ⟨hcall, .goesOn hworks fun w hw => ?_⟩
    rw [hquiet] at hw
    cases hw

/-- Nobody begins to go by an instance that is not held. -/
theorem Along.unworked (hm : Along config s s₀ s₁ m) (hcounts : Counts s.history)
    (hunworked : Unworked s₀.history id)
    (hunheld : ∀ i, s₀.engine.store.find? id = some i → ¬ i.IsHeld) : Unworked s₁.history id := by
  rintro n i hworks rfl
  rcases hm.takes_or_elsewhere hcounts hworks with ⟨-, hworks⟩ | ⟨-, htakes⟩
  · exact hunworked n i hworks rfl
  · cases htakes with
    | goesOn hworks => exact hunworked n i hworks rfl
    | begun _ _ hid hstored =>
      obtain ⟨-, -, -, hheld⟩ := hworks
      exact hunheld i (hid ▸ hstored) hheld
    | saved _ _ hworks hid => exact hunworked n _ hworks hid

/-- What a run goes by after a moment is stored as it is, unless the instance has been cancelled. -/
theorem Along.stands (hm : Along config s s₀ s₁ m) (hcounts : Counts s.history)
    (hone : OneWorker s₁.history)
    (hstands : ∀ n i, Works s₀.history n i → Stands s.engine.store.time s₀.history i)
    (hworks : Works s₁.history n i) : Stands s.engine.store.time s₁.history i := by
  rcases hm.takes_or_elsewhere hcounts hworks with ⟨hcall, hworks⟩ | ⟨-, htakes⟩
  · have hstays : Stays s₀.history s₁.history i.id := by
      obtain ⟨r, hr, -⟩ := hworks
      obtain ⟨stage, hn, hr⟩ := Option.bind_eq_some_iff.mp hr
      refine hm.stays_of_idle hcounts ?_ i.id
      exact (hm.history ▸ hone).isWork_eq_false hn (Stage.isWork_of_run? hr) hcall
    exact (hstands n i hworks).of_stays hstays
  · cases htakes with
    | goesOn hworks hunwritten =>
      exact (hstands n i hworks).of_stays
        (hm.stays hcounts fun w hw hid => absurd hid (hunwritten w hw))
    | begun _ hrun hid hstored =>
      have hwellFormed := (hm.reachable.isSound (hm.counts hcounts).1).lives.wellFormed
      have hkept := Store.kept_of_find? hwellFormed hstored
      rw [hm.time_eq] at hkept
      subst hid
      have hi : Stands s.engine.store.time s₀.history i :=
        .inl (by rw [hkept, ← hm.reachable.find?_eq_lastStored, hstored])
      exact hi.of_stays (hm.stays_of_unwritten hcounts (Moment.written?_of_run? hrun) i.id)
    | saved _ hrun _ _ =>
      have hw : m.written? = some i := Moment.written?_of_run? hrun
      refine .inl ?_
      rw [hm.history, lastStored_append, ((hm.written hcounts).1 i hw).2]

/-- With a single worker, whatever a run goes by is stored as it is, unless the instance has been
cancelled. -/
theorem Reachable.stands (hs : Reachable config s) (hcounts : Counts s.history)
    (hone : OneWorker s.history) (hworks : Works s.history n i) :
    Stands s.engine.store.time s.history i := by
  induction hs generalizing n i with
  | fresh =>
    obtain ⟨r, hr, -⟩ := hworks
    cases hr
  | @step s s' hs hstep ih =>
    obtain ⟨m, hhistory, hengine⟩ := hstep.history
    have hm : Along config s' s s' m := ⟨hs, hstep, hhistory, hengine.symm, .refl⟩
    refine hm.stands hcounts hone (fun n i hworks => ?_) hworks
    rw [← hm.time_eq]
    exact ih (hm.counts hcounts).1 (hhistory ▸ hone).of_append hworks

/-- A poll that is going to claim an instance was going to before, or has just found it. -/
theorem Along.lists_or_finds (hm : Along config s s₀ s₁ m) (hcounts : Counts s.history)
    {p : PollStage} (hp : (stageOf n s₁.history).bind Stage.poll? = some p) (hlists : p.Lists id) :
    ∃ p₀, (stageOf n s₀.history).bind Stage.poll? = some p₀ ∧
      (p₀.Lists id ∨ p₀.Finds s₀.engine.store id) := by
  by_cases hcall : m.call = some n
  · rw [hm.history, stageOf_append_self hcall] at hp
    obtain ⟨stage, hstage, hp⟩ := Option.bind_eq_some_iff.mp hp
    cases hincident : m.incident with
    | began o progress =>
      rw [Moment.stage?, hincident] at hstage
      obtain ⟨c, rfl, rfl⟩ := Stage.of_next?_eq_some hstage
      obtain ⟨-, hstart, -⟩ := hm.step.of_began hm.history hincident
      obtain ⟨worker, now, limit, rfl⟩ := (Stage.of_start hstart.symm).2 p hp
      exact hlists.elim
    | served c answer =>
      rw [Moment.stage?, hincident] at hstage
      obtain rfl := Option.some.inj hstage
      obtain ⟨k, hcall', hasks, hanswer⟩ := hm.step.of_served hm.history hincident
      obtain rfl := Option.some.inj (hcall.symm.trans hcall')
      have hwellFormed := (hm.reachable.isSound (hm.counts hcounts).1).lives.wellFormed
      rw [← hm.reachable.calls_eq, hasks]
      exact Stage.lists_of_served hwellFormed hanswer hp hlists
    | resumed progress =>
      rw [Moment.stage?, hincident] at hstage
      obtain ⟨c', rfl, rfl⟩ := Stage.of_next?_eq_some hstage
      obtain ⟨k, c, answer, hcall', hanswered, hresume, -⟩ :=
        hm.step.of_resumed hm.history hincident
      obtain rfl := Option.some.inj (hcall.symm.trans hcall')
      obtain ⟨p₀, answer₀, p₁, hp₀, hnext, rfl⟩ := Stage.poll?_of_resume hresume.symm hp
      rw [hm.reachable.calls_eq] at hanswered
      exact ⟨_, by rw [hanswered]; exact hp₀, .inl (Poll.lists_of_resume hnext hlists)⟩
    | crashed | registered | unregistered | ticked =>
      rw [Moment.stage?, hincident] at hstage
      cases hstage
  · rw [hm.history, stageOf_append_of_ne hcall] at hp
    exact ⟨p, hp, .inl hlists⟩

end System
end WorkflowEngine

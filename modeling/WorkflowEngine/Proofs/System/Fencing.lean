import WorkflowEngine.Proofs.System.Writes

/-!
# Fencing

A run goes by the instance as it found it when it began. As soon as anybody else writes the
instance, whatever the run still holds is out of date, and it writes nothing any more.
-/
namespace WorkflowEngine

/-- The instance of which a run begins, and the worker for which it does. -/
def RunStage.begun? : RunStage → Option (InstanceId × String)
  | answered (.loading id worker) _ => some (id, worker)
  | _ => none

def Moment.begun? (m : Moment) : Option (InstanceId × String) := m.run?.bind RunStage.begun?

/-- The run that a call has begun last, and what has happened since. -/
structure Begun (h : List Moment) (n : Nat) (id : InstanceId) (worker : String)
    (since : List Moment) : Prop where
  begins : ∃ before m, h = before ++ m :: since ∧ m.call = some n ∧ m.begun? = some (id, worker)
  latest : ∀ m ∈ since, m.call = some n → m.begun? = none

/-- An instance was written after it had been as it is here. -/
def Outdated (h : List Moment) (i : Instance) : Prop :=
  ∃ m ∈ h, ∃ j, m.find? i.id = some j ∧ i.version.Before j.version

def OnlyWrittenBy (n : Nat) (id : InstanceId) (h : List Moment) : Prop :=
  ∀ m ∈ h, ∀ i, m.written? = some i → i.id = id → m.call = some n

/-- A call runs an instance that is not out of date unless somebody else has written it since. -/
structure Drives (time : Instant → Instant) (h : List Moment) (n : Nat) (i : Instance) : Prop where
  seen : Seen time h i
  running : i.status = .running
  run : ∃ worker since, Begun h n i.id worker since ∧ i.owner = some worker ∧
    (OnlyWrittenBy n i.id since ∨ Outdated h i)

section
variable {h : List Moment} {m : Moment} {n : Nat} {id id' : InstanceId} {worker worker' : String}
  {since since' : List Moment} {i : Instance}

theorem Begun.append (hbegun : Begun h n id worker since)
    (hm : m.call = some n → m.begun? = none) : Begun (h ++ [m]) n id worker (since ++ [m]) := by
  obtain ⟨before, first, rfl, hcall, hfirst⟩ := hbegun.begins
  refine ⟨⟨before, first, by simp, hcall, hfirst⟩, fun m' hm' hcall' => ?_⟩
  rcases List.mem_append.mp hm' with hm' | hm'
  · exact hbegun.latest m' hm' hcall'
  · obtain rfl := List.mem_singleton.mp hm'
    exact hm hcall'

/-- A call has begun one run last. -/
theorem Begun.unique (hbegun : Begun h n id worker since) (hbegun' : Begun h n id' worker' since') :
    id = id' ∧ since = since' := by
  obtain ⟨before, first, rfl, hcall, hfirst⟩ := hbegun.begins
  obtain ⟨before', first', hsplit, hcall', hfirst'⟩ := hbegun'.begins
  have hnot {m : Moment} {l : List Moment} {a : InstanceId × String}
      (hlatest : ∀ x ∈ l, x.call = some n → x.begun? = none) (hm : m ∈ l) (hcall : m.call = some n)
      (hbegins : m.begun? = some a) : False := by
    rw [hlatest m hm hcall] at hbegins
    cases hbegins
  rcases List.append_eq_append_iff.mp hsplit with ⟨rest, rfl, hrest⟩ | ⟨rest, rfl, hrest⟩
  · cases rest with
    | nil =>
      obtain ⟨rfl, rfl⟩ := List.cons.inj hrest
      exact ⟨(Prod.mk.inj (Option.some.inj (hfirst.symm.trans hfirst'))).1, rfl⟩
    | cons x rest =>
      obtain ⟨rfl, rfl⟩ := List.cons.inj hrest
      exact (hnot hbegun.latest (by simp) hcall' hfirst').elim
  · cases rest with
    | nil =>
      obtain ⟨rfl, rfl⟩ := List.cons.inj hrest
      exact ⟨(Prod.mk.inj (Option.some.inj (hfirst.symm.trans hfirst'))).1, rfl⟩
    | cons x rest =>
      obtain ⟨rfl, rfl⟩ := List.cons.inj hrest
      exact (hnot hbegun'.latest (by simp) hcall hfirst).elim

theorem OnlyWrittenBy.append (honly : OnlyWrittenBy n id h)
    (hm : ∀ i, m.written? = some i → i.id = id → m.call = some n) :
    OnlyWrittenBy n id (h ++ [m]) := by
  intro m' hm' i hi hid
  rcases List.mem_append.mp hm' with hm' | hm'
  · exact honly m' hm' i hi hid
  · obtain rfl := List.mem_singleton.mp hm'
    exact hm i hi hid

theorem Outdated.append (hold : Outdated h i) (h' : List Moment) : Outdated (h ++ h') i := by
  obtain ⟨m, hm, hlater⟩ := hold
  exact ⟨m, List.mem_append_left _ hm, hlater⟩

end

namespace System

variable {config : EngineConfig} {s s' : System} {m : Moment} {n : Nat} {i : Instance}

/-- A write makes everything out of date that was seen of the instance before. -/
theorem Step.outdated (hs : Reachable config s) (hcounts : Counts s'.history) (hstep : Step s s')
    (hhistory : s'.history = s.history ++ [m]) {stored : Instance}
    (hstored : m.written? = some stored) (hid : stored.id = i.id)
    (hseen : Seen s.engine.store.time s.history i) : Outdated s'.history i := by
  obtain ⟨before, hbefore, hfound⟩ := hseen
  obtain ⟨hreplaces, hthere⟩ := ((hs.step hstep).written hcounts hhistory).1 stored hstored
  refine ⟨m, by simp [hhistory], _, hid ▸ hthere, ?_⟩
  rw [hid, ← hs.find?_eq_lastStored] at hreplaces
  generalize hcur : s.engine.store.find? i.id = cur at hreplaces
  cases hreplaces with
  | created =>
    have hunborn := (hs.isSound (hcounts.of_history hstep)).lives.unborn i.id hcur
    rw [(hunborn before hbefore).1] at hfound
    cases hfound
  | @changed base next step k now hversion hchange =>
    have hlast : (Version.count k).Before (.count (k + 1)) := Version.before_next k
    have hlife := hs.life (hcounts.of_history hstep) hcur
    rcases hlife.eq_or_before (hcounts.of_history hstep) hbefore hfound with heq | hbefore
    · have hsame : i.version = base.version := congrArg (·.version) heq
      rw [hsame, hversion]
      exact hlast
    · have hbefore : i.version.Before base.version := hbefore
      rw [hversion] at hbefore
      exact hbefore.trans hlast

theorem Step.drives (hs : Reachable config s) (hcounts : Counts s'.history) (hstep : Step s s')
    (hhistory : s'.history = s.history ++ [m]) (hquiet : m.call = some n → m.begun? = none)
    (hdrives : Drives s.engine.store.time s.history n i) :
    Drives s.engine.store.time s'.history n i := by
  obtain ⟨hseen, hrunning, worker, since, hbegun, howner, hcurrent⟩ := hdrives
  rw [hhistory]
  refine ⟨hseen.append _, hrunning, worker, since ++ [m], hbegun.append hquiet, howner, ?_⟩
  rcases hcurrent with honly | hold
  · by_cases hother : ∃ stored, m.written? = some stored ∧ stored.id = i.id ∧ m.call ≠ some n
    · obtain ⟨stored, hstored, hid, -⟩ := hother
      exact .inr (hhistory ▸ hstep.outdated hs hcounts hhistory hstored hid hseen)
    · refine .inl (honly.append fun stored hstored hid => ?_)
      by_contra hcall
      exact hother ⟨stored, hstored, hid, hcall⟩
  · exact .inr (hold.append _)

end System

/-- What a run is going to write, it computes from an instance that it drives. -/
def RunStage.Driving (time : Instant → Instant) (h : List Moment) (n : Nat) : RunStage → Prop
  | asking (.saving base _) => Drives time h n base
  | answered (.saving _ _) answer =>
    ∀ stored, answer = .ok stored → stored.status = .running → Drives time h n stored
  | asking (.recording stored _) | answered (.recording stored _) _ =>
    stored.status = .running → Drives time h n stored
  | asking (.invoking v) | answered (.invoking v) _ => Drives time h n v.base
  | asking (.failing failed _ _) =>
    ∃ base error now, Drives time h n base ∧ failed = base.unrunnable error now
  | answered (.loading _ worker) answer =>
    ∀ i, answer = .ok i → i.status = .running → i.owner = some worker → Drives time h n i
  | _ => True

theorem RunStage.Driving.imp {time : Instant → Instant} {h h' : List Moment} {n : Nat}
    {stage : RunStage} (hstage : stage.Driving time h n)
    (himp : ∀ i, Drives time h n i → Drives time h' n i) : stage.Driving time h' n := by
  cases stage with
  | asking r =>
    cases r with
    | saving => exact himp _ hstage
    | recording => exact fun hrunning => himp _ (hstage hrunning)
    | invoking => exact himp _ hstage
    | failing =>
      obtain ⟨base, error, now, hdrives, rfl⟩ := hstage
      exact ⟨base, error, now, himp _ hdrives, rfl⟩
    | loading | reloading | recordingDropped | recordingFailure => trivial
  | answered r answer =>
    cases r with
    | loading => exact fun i hi hrunning howner => himp _ (hstage i hi hrunning howner)
    | saving => exact fun stored hstored hrunning => himp _ (hstage stored hstored hrunning)
    | recording => exact fun hrunning => himp _ (hstage hrunning)
    | invoking => exact himp _ hstage
    | reloading | recordingDropped | failing | recordingFailure => trivial

namespace Run

variable {time : Instant → Instant} {h : List Moment} {n : Nat} {env : Env} {i : Instance}
  {r r' : Run}

theorem driving_of_fail {e : Error} (hi : Drives time h n i) (hfail : fail env i e = .waiting r) :
    (RunStage.asking r).Driving time h n := by
  unfold fail at hfail
  split at hfail
  · cases hfail
  · obtain rfl := Progress.waiting.inj hfail
    exact ⟨i, _, _, hi, rfl⟩

theorem driving_of_proceed (hi : i.status = .running → Drives time h n i)
    (hproceed : proceed env i = .waiting r) : (RunStage.asking r).Driving time h n := by
  unfold proceed at hproceed
  split at hproceed
  · rename_i hrunning
    have hi := hi hrunning
    split at hproceed
    · obtain rfl := Progress.waiting.inj hproceed
      exact hi
    · rename_i v hvisit
      obtain rfl := Progress.waiting.inj hproceed
      obtain ⟨p, -, hv⟩ := isFor_of_visit hvisit
      rw [← hv.base] at hi
      exact hi
    · exact driving_of_fail hi hproceed
  · cases hproceed

theorem driving_of_begin (hi : Drives time h n i) (hbegin : begin env i = .waiting r) :
    (RunStage.asking r).Driving time h n := by
  unfold begin at hbegin
  split at hbegin
  · obtain rfl := Progress.waiting.inj hbegin
    exact hi
  · exact driving_of_proceed (fun _ => hi) hbegin
  · exact driving_of_fail hi hbegin

theorem driving_of_resume {answer : r.request.Answer}
    (hr : (RunStage.answered r answer).Driving time h n)
    (hresume : r.resume env answer = .waiting r') : (RunStage.asking r').Driving time h n := by
  cases goesOn_of_resume hresume with
  | begun hrunning howner hbegin => exact driving_of_begin (hr _ rfl hrunning howner) hbegin
  | stored => exact hr _ rfl
  | recorded hproceed => exact driving_of_proceed hr hproceed
  | concluded => exact hr
  | refused | reloaded | failed => trivial

end Run

section
variable {config : EngineConfig} {time : Instant → Instant} {h : List Moment} {m : Moment} {n : Nat}
  {e e' : Engine} {r : Run}

/-- An instance that is stored as a call has it is not out of date. -/
theorem Drives.onlyWrittenBy {i : Instance} (hdrives : Drives time h n i)
    (hlives : e.store.Lives config time h) (hcounts : Counts h)
    (hfound : e.store.find? i.id = some (i.kept time)) :
    ∃ worker since, Begun h n i.id worker since ∧ i.owner = some worker ∧
      OnlyWrittenBy n i.id since := by
  obtain ⟨worker, since, hbegun, howner, honly | ⟨m, hm, j, hj, hbefore⟩⟩ := hdrives.run
  · exact ⟨worker, since, hbegun, howner, honly⟩
  · rcases (hlives.life i.id _ hfound).eq_or_before hcounts hm hj with rfl | hafter
    · exact absurd hbefore (Version.not_before_self _)
    · exact absurd (hbefore.trans hafter) (Version.not_before_self _)

/-- A run writes what follows by a change from an instance that it drives. -/
theorem Run.exists_drives {next : Instance} {expected : Version} (hr : r.IsSound config time h)
    (hdriving : (RunStage.asking r).Driving time h n)
    (hrequest : r.request = .store (.save next expected)) :
    ∃ base step, Drives time h n base ∧ expected = base.version ∧
      Change config h base step next := by
  cases r with
  | saving base step =>
    cases hrequest
    obtain ⟨-, hheld, p, hbound, hstep⟩ := hr
    exact ⟨base, _, hdriving, rfl, .stepped hbound hheld hstep⟩
  | failing failed entry cause =>
    cases hrequest
    obtain ⟨base, error, now, hdrives, rfl⟩ := hdriving
    obtain ⟨worker, since, -, howner, -⟩ := hdrives.run
    exact ⟨base, _, hdrives, rfl, .failed ⟨hdrives.running, by simp [howner]⟩⟩
  | loading | recording | invoking | reloading | recordingDropped | recordingFailure =>
    cases hrequest

theorem Run.driving_of_served {answer : r.request.Answer} (hlives : e.store.Lives config time h)
    (hcounts : Counts h) (hr : r.IsSound config time h)
    (hdriving : (RunStage.asking r).Driving time h n) (hanswer : e.Answers r.request answer e')
    (hsound : AnswerSound time (h ++ [m]) r.request answer) (hcall : m.call = some n)
    (hm : m.run? = some (.answered r answer))
    (hframe : m.begun? = none → ∀ i, Drives time h n i → Drives time (h ++ [m]) n i) :
    (RunStage.answered r answer).Driving time (h ++ [m]) n := by
  have hbegun : m.begun? = (RunStage.answered r answer).begun? := by rw [Moment.begun?, hm]; rfl
  cases r with
  | loading id worker =>
    intro i hi hrunning howner
    cases hi
    have hload : e.store.load id = .ok i := (Prod.mk.inj (Engine.perform_of_answers hanswer)).1
    have hid : Instance.id i = id := Instance.find?_id (Store.find?_of_load hload)
    have hbegun : m.begun? = some (Instance.id i, worker) := by rw [hid]; exact hbegun
    exact ⟨hsound i rfl, hrunning, worker, [], ⟨⟨h, m, rfl, hcall, hbegun⟩, by simp⟩, howner,
      .inl (by simp [OnlyWrittenBy])⟩
  | saving base step =>
    intro stored hstored hrunning
    cases hstored
    obtain ⟨hseen, hheld, p, hbound, hstep⟩ := hr
    obtain ⟨hfound, rfl, -⟩ := hlives.of_save hcounts hseen (.stepped hbound hheld hstep)
      (Engine.perform_of_answers hanswer)
    obtain ⟨worker, since, hsince, howner, honly⟩ :=
      Drives.onlyWrittenBy hdriving hlives hcounts hfound
    have hid : step.next.id = base.id := hstep.next_eq.1
    rw [← hid] at hsince honly
    refine ⟨(hsound _ rfl).1, hrunning, worker, since ++ [m], hsince.append fun _ => hbegun, ?_,
      .inl (honly.append fun _ _ _ => hcall)⟩
    exact (hstep.owner_eq hrunning).trans howner
  | recording => exact hdriving.imp (hframe hbegun)
  | invoking => exact hdriving.imp (hframe hbegun)
  | reloading | recordingDropped | failing | recordingFailure => trivial

end

namespace System

variable {config : EngineConfig} {s : System}

/-- Every run drives the instance by which it goes. -/
theorem Reachable.driving (hs : Reachable config s) (hcounts : Counts s.history) {n : Nat}
    {stage : Stage} {r : RunStage} (hn : s.calls n = some stage) (hr : stage.run? = some r) :
    r.Driving s.engine.store.time s.history n := by
  refine hs.of_stages (P := fun h n stage =>
    ∀ r, stage.run? = some r → r.Driving s.engine.store.time h n) ?_ ?_ ?_ ?_ n stage hn r hr
  · intro s₀ s₁ m o c _ _ _ hstart r hr
    obtain ⟨id, worker, rfl⟩ := (Stage.of_start hstart).1 r hr
    trivial
  · intro s₀ s₁ m n c answer hm hcall hserved hasks hanswer ih r hr
    obtain ⟨hcounts₀, hcounts₁⟩ := hm.counts hcounts
    have hsound := hm.reachable.isSound hcounts₀
    have hc : c.IsSound config s₀.engine.store.time s₀.history := hsound.calls n _ hasks
    have hframe (hquiet : m.begun? = none) (i : Instance) :=
      hm.step.drives (n := n) (i := i) hm.reachable hcounts₁ hm.history fun _ => hquiet
    rw [hm.history] at hcounts₁
    have hanswers := (Call.served hsound.lives hcounts₁ hc hanswer hm.engine.symm hserved).2
    rw [hm.history] at hframe ⊢
    rw [hm.time_eq] at hsound hc hanswers hframe
    have hmrun : m.run? = (Stage.answered c answer).run? := by rw [Moment.run?, hserved]
    obtain ⟨r₀, answer₀, rfl, hruns⟩ := Stage.runs_of_answered hr
    exact Run.driving_of_served hsound.lives hcounts₀ (hruns.isSound hc) (ih _ hruns.asking)
      (hruns.answers hanswer) (hruns.answerSound hanswers) hcall (hmrun.trans hruns.answered) hframe
  · intro s₀ s₁ m n c answer c' hm _ hresumed _ hresume ih r hr
    rcases Stage.run?_of_resume hresume hr with ⟨r₀, answer₀, r₁, hr₀, hnext, rfl⟩ | ⟨_, _, rfl⟩
    · refine (Run.driving_of_resume (ih _ hr₀) hnext).imp fun i => ?_
      rw [← hm.time_eq]
      refine hm.step.drives hm.reachable (hm.counts hcounts).2 hm.history fun _ => ?_
      simp [Moment.begun?, Moment.run?, hresumed]
    · trivial
  · intro s₀ s₁ m n stage hm hcall _ ih r hr
    refine (ih r hr).imp fun i => ?_
    rw [← hm.time_eq]
    exact hm.step.drives hm.reachable (hm.counts hcounts).2 hm.history
      fun hsame => absurd hsame hcall

end System
end WorkflowEngine

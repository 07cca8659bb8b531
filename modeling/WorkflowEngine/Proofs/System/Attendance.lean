import WorkflowEngine.Proofs.System.Claims
import WorkflowEngine.Proofs.System.Deeds
import WorkflowEngine.Proofs.System.Fencing
import WorkflowEngine.Proofs.System.Passes

/-!
# Who is at an instance

As long as no call is dropped and no sweep takes instances from their workers, whatever is held has
just been claimed, or is being run, or has stumped the engine. So when everybody has come to rest,
an instance that has not ended waits for its time, and is found by the next poll after that.
-/
namespace WorkflowEngine

/-- An instance was claimed for a worker, and nobody has begun to run it for the worker since. -/
def Unfetched (h : List Moment) (id : InstanceId) (worker : String) : Prop :=
  ∃ before m after i, h = before ++ m :: after ∧ m.claims id = true ∧ m.find? id = some i ∧
    i.owner = some worker ∧ ∀ x ∈ after, x.begun? ≠ some (id, worker)

/-- Why an instance is held by a worker. -/
inductive Attended (time : Instant → Instant) (h : List Moment) (id : InstanceId)
    (worker : String) : Prop
  | unfetched (hclaimed : Unfetched h id worker)
  | running {n : Nat} {r : RunStage} (hr : (stageOf n h).bind Stage.run? = some r)
      (hfollows : r.Follows time h n worker id)
  | stumped {n : Nat} (hstumped : WasStumped h n id)

section
variable {time : Instant → Instant} {h : List Moment} {m : Moment} {n : Nat} {id : InstanceId}
  {worker : String}

theorem Unfetched.append (hclaimed : Unfetched h id worker)
    (hm : m.begun? ≠ some (id, worker)) : Unfetched (h ++ [m]) id worker := by
  obtain ⟨before, c, after, i, rfl, hclaims, hi, howner, hafter⟩ := hclaimed
  refine ⟨before, c, after ++ [m], i, by simp, hclaims, hi, howner, fun x hx => ?_⟩
  rcases List.mem_append.mp hx with hx | hx
  · exact hafter x hx
  · obtain rfl := List.mem_singleton.mp hx
    exact hm

theorem WasStumped.append (hid : WasStumped h n id) (h' : List Moment) :
    WasStumped (h ++ h') n id := by
  obtain ⟨before, x, after, stage, progress, rfl, hrest⟩ := hid
  exact ⟨before, x, after ++ h', stage, progress, by simp, hrest⟩

/-- What a worker still holds when its run has ended has stumped the engine. -/
theorem LeftBehind.of_owned {stumped : Prop} {i : Instance}
    (hleft : LeftBehind time h n worker id stumped) (hi : lastStored id h = some i)
    (howner : i.owner = some worker) : stumped := by
  rcases hleft with ⟨j, hj, -, hfree⟩ | ⟨j, rfl, hstands, hrests⟩
  · obtain rfl := Option.some.inj (hi.symm.trans hj)
    rw [howner] at hfree
    cases hfree
  · rcases hrests with ⟨hstumped, -⟩ | ⟨-, hrests, -⟩
    · exact hstumped
    · rcases hstands with hstored | ⟨k, hk, -, hfree⟩
      · obtain rfl := Option.some.inj (hi.symm.trans hstored)
        have hfree : j.owner = none := hrests.1
        rw [show (j.kept time).owner = j.owner from rfl, hfree] at howner
        cases howner
      · obtain rfl := Option.some.inj (hi.symm.trans hk)
        rw [howner] at hfree
        cases hfree

theorem Moment.stage?_of_run? {r : RunStage} (hrun : m.run? = some r) :
    m.stage?.bind Stage.run? = some r := by
  unfold Moment.run? at hrun
  split at hrun
  · rename_i hserved
    rw [Moment.stage?, hserved]
    exact hrun
  · cases hrun

end

/-- A call goes on with its run. -/
theorem Call.Runs.resume_of_waiting {c : Call} {answer : c.request.Answer} {r r' : Run}
    {answer' : r.request.Answer} (h : c.Runs answer r answer') {env : Env}
    (hresume : r.resume env answer' = .waiting r') :
    ∃ c', c.resume env answer = .waiting c' ∧ (Stage.asking c').run? = some (.asking r') := by
  cases h with
  | run =>
    refine ⟨.run r', ?_, rfl⟩
    simp only [Call.resume, hresume, Progress.map]
  | pass worker r rest claimed =>
    refine ⟨.pass (.running worker r' rest claimed), ?_, rfl⟩
    simp only [Call.resume, Pass.resume, hresume, Progress.map]

namespace System

variable {config : EngineConfig} {s s₀ s₁ : System} {m : Moment} {n : Nat} {id : InstanceId}
  {worker : String} {i : Instance}

/-- A call that goes on is served or resumed, if it is not dropped. -/
theorem Along.served_or_resumed (hm : Along config s s₀ s₁ m) {stage : Stage}
    (hcall : m.call = some n) (hn : s₀.calls n = some stage) (hkept : m.incident ≠ .crashed) :
    (∃ c answer, stage = .asking c ∧ m.incident = .served c answer ∧
        s₀.engine.Answers c.request answer s₁.engine) ∨
      ∃ c answer, stage = .answered c answer ∧
        m.incident = .resumed (c.resume s₀.engine.env answer) := by
  obtain ⟨hs, hstep, hhistory, -, -⟩ := hm
  cases hstep with
  | start o =>
    obtain rfl := List.singleton_inj.mp (List.append_inj' hhistory rfl).2
    obtain rfl := Option.some.inj hcall
    exact absurd (hs.lt_begun _ _ hn) (Nat.lt_irrefl _)
  | @serve k c answer e hasks hanswer =>
    obtain rfl := List.singleton_inj.mp (List.append_inj' hhistory rfl).2
    obtain rfl : k = n := Option.some.inj hcall
    obtain rfl := Option.some.inj (hn.symm.trans hasks)
    exact .inl ⟨c, answer, rfl, rfl, hanswer⟩
  | @resume k c answer hanswered =>
    obtain rfl := List.singleton_inj.mp (List.append_inj' hhistory rfl).2
    obtain rfl : k = n := Option.some.inj hcall
    obtain rfl := Option.some.inj (hn.symm.trans hanswered)
    exact .inr ⟨c, answer, rfl, rfl⟩
  | crash k =>
    obtain rfl := List.singleton_inj.mp (List.append_inj' hhistory rfl).2
    exact absurd rfl hkept
  | register | unregister | tick =>
    obtain rfl := List.singleton_inj.mp (List.append_inj' hhistory rfl).2
    cases hcall

/-- A run that is served goes on with what is held. -/
theorem Along.attended_of_served (hm : Along config s s₀ s₁ m) (hcounts : Counts s.history)
    (hcolumn : s.engine.store.isTable = true → TableStore.fits s.history.length)
    (hcall : m.call = some n) {c : Call} {answer : c.request.Answer} {r : Run}
    {answer' : r.request.Answer} (hcalls : s₀.calls n = some (.asking c))
    (hserved : m.incident = .served c answer)
    (hanswer : s₀.engine.Answers c.request answer s₁.engine) (hruns : c.Runs answer r answer')
    (hfollows : (RunStage.asking r).Follows s.engine.store.time s₀.history n worker id) :
    Attended s.engine.store.time s₁.history id worker := by
  have hc : c.IsSound config s.engine.store.time s₀.history := by
    rw [← hm.time_eq]
    exact (hm.reachable.isSound (hm.counts hcounts).1).calls n _ hcalls
  have hrun : m.run? = some (.answered r answer') := by
    rw [Moment.run?, hserved]
    exact hruns.answered
  have happended (entry : AuditEntry) (hentry : r.request.appended? = some entry) :
      Appended s₁.history n entry := by
    refine ⟨m, by simp [hm.history], hcall, c, answer, hserved, ?_⟩
    cases hruns <;> exact hentry
  obtain ⟨hfollows', -⟩ := hm.follows_of_served hcounts hcolumn (hruns.isSound hc)
    (hruns.answers hanswer) (Moment.written?_of_run? hrun) happended hfollows
  refine .running (n := n) ?_ hfollows'
  rw [hm.history, stageOf_append_self hcall, Moment.stage?, hserved]
  exact hruns.answered

/-- A run that goes by what is held goes on with it, or leaves it, or is stumped. -/
theorem Along.attended_of_running (hm : Along config s s₀ s₁ m) (hcounts : Counts s.history)
    (hcolumn : s.engine.store.isTable = true → TableStore.fits s.history.length)
    (hkept : m.incident ≠ .crashed) {r : RunStage}
    (hr : (stageOf n s₀.history).bind Stage.run? = some r)
    (hfollows : r.Follows s.engine.store.time s₀.history n worker id)
    (hstays : Stays s₀.history s₁.history id) (hi : lastStored id s₁.history = some i)
    (howner : i.owner = some worker) :
    Attended s.engine.store.time s₁.history id worker := by
  obtain ⟨stage, hn, hr⟩ := Option.bind_eq_some_iff.mp hr
  have hcalls : s₀.calls n = some stage := hm.reachable.calls_eq n ▸ hn
  by_cases hcall : m.call = some n
  · rcases hm.served_or_resumed hcall hcalls hkept with
      ⟨c, answer, rfl, hserved, hanswer⟩ | ⟨c, answer, rfl, hresumed⟩
    · rcases Stage.run?_cases c answer with ⟨hnone, -⟩ | ⟨r₀, answer', hruns⟩
      · rw [hnone] at hr
        cases hr
      · obtain rfl := Option.some.inj (hruns.asking.symm.trans hr)
        exact hm.attended_of_served hcounts hcolumn hcall hcalls hserved hanswer hruns hfollows
    · obtain ⟨r₀, answer', rfl, hruns⟩ := Stage.runs_of_answered hr
      have hfares := Run.fares_of_resume s₀.engine.env hfollows
      rw [hm.history] at hstays hi ⊢
      cases hresume : r₀.resume s₀.engine.env answer' with
      | waiting r' =>
        rw [hresume] at hfares
        obtain ⟨c', hgoes, hrun'⟩ := hruns.resume_of_waiting hresume
        refine .running (n := n) ?_ (hfares.2.append hstays)
        rw [stageOf_append_self hcall, Moment.stage?, hresumed, hgoes]
        exact hrun'
      | ended result =>
        rw [hresume] at hfares
        have hengine : m.engine = s₀.engine := by
          obtain ⟨-, -, -, -, -, -, hsame⟩ := hm.step.of_resumed hm.history hresumed
          rw [← hm.engine, hsame]
        refine .stumped (n := n) (wasStumped_append.mpr
          (.inr ⟨hcall, _, hresumed, .answered r₀ answer', ?_, ?_⟩))
        · rw [hn]
          exact hr
        · rw [hengine]
          exact (LeftBehind.append hfares hstays).of_owned hi howner
  · rw [hm.history] at hstays ⊢
    refine .running (n := n) ?_ (hfollows.append hstays)
    rw [stageOf_append_of_ne hcall, hn]
    exact hr

/-- Whoever begins to run what was claimed for a worker finds it as it was claimed. -/
theorem Along.attended_of_unfetched (hm : Along config s s₀ s₁ m) (hcounts : Counts s.history)
    (hclaimed : Unfetched s₀.history id worker) (hi : lastStored id s₀.history = some i)
    (hrunning : i.status = .running) (howner : i.owner = some worker) :
    Attended s.engine.store.time s₁.history id worker := by
  by_cases hbegun : m.begun? = some (id, worker)
  · obtain ⟨stage, hrun, hbegun⟩ := Option.bind_eq_some_iff.mp hbegun
    obtain ⟨n, c, r, answer, hcall, -, -, rfl, -, hanswer⟩ := hm.of_run? hcounts hrun
    cases r with
    | loading id' worker' =>
      obtain ⟨rfl, rfl⟩ := Prod.mk.inj (Option.some.inj hbegun)
      have hstored : s₀.engine.store.find? id' = some i :=
        (hm.reachable.find?_eq_lastStored id').trans hi
      obtain rfl : i.id = id' := Instance.find?_id hstored
      have hwellFormed := (hm.reachable.isSound (hm.counts hcounts).1).lives.wellFormed
      have hkept := Store.kept_of_find? hwellFormed hstored
      rw [hm.time_eq] at hkept
      obtain ⟨j, rfl, hid, hj⟩ := hm.loaded hcounts ⟨hrunning, howner, .inl (hkept.symm ▸ hi)⟩
        (Engine.perform_of_answers hanswer) (Moment.written?_of_run? hrun)
      refine .running (n := n) (r := .answered (.loading i.id worker') (.ok j)) ?_
        ⟨rfl, rfl, j, rfl, hid, hj⟩
      rw [hm.history, stageOf_append_self hcall, Moment.stage?_of_run? hrun]
    | saving | recording | invoking | reloading | recordingDropped | failing
    | recordingFailure => cases hbegun
  · rw [hm.history]
    exact .unfetched (hclaimed.append hbegun)

theorem Along.attended (hm : Along config s s₀ s₁ m) (hcounts : Counts s.history)
    (hcolumn : s.engine.store.isTable = true → TableStore.fits s.history.length)
    (hunswept : m.isSweep = false) (hkept : m.incident ≠ .crashed)
    (hattended : ∀ i worker, lastStored id s₀.history = some i → i.status = .running →
      i.owner = some worker → Attended s.engine.store.time s₀.history id worker)
    (hi : lastStored id s₁.history = some i) (hrunning : i.status = .running)
    (howner : i.owner = some worker) : Attended s.engine.store.time s₁.history id worker := by
  obtain ⟨hwritten, hothers⟩ := hm.written hcounts
  have hlast : m.find? id = some i := by
    rw [hm.history, lastStored_append] at hi
    exact hi
  by_cases hwrites : ∃ w, m.written? = some w ∧ w.id = id
  · obtain ⟨w, hw, rfl⟩ := hwrites
    obtain ⟨hreplaces, hthere⟩ := hwritten w hw
    obtain rfl := Option.some.inj (hlast.symm.trans hthere)
    have hborn : (lastStored w.id s₀.history).isSome := by
      generalize lastStored w.id s₀.history = cur at hreplaces
      cases hreplaces with
      | created _ hdraft =>
        have hfree : w.owner = none := by rw [hdraft]; rfl
        rw [show (w.kept s.engine.store.time).owner = w.owner from rfl, hfree] at howner
        cases howner
      | changed => rfl
    obtain ⟨-, hclaims | ⟨base, step, hrun, hid, -⟩⟩ :=
      hm.claimed_or_stepped hcounts hunswept hw hborn hrunning
    · exact .unfetched ⟨s₀.history, m, [], _, hm.history, hclaims, hlast, howner, by simp⟩
    · obtain ⟨n, c, r, answer, hcall, -, -, -, -⟩ := hm.of_run? hcounts hrun
      refine .running (n := n) (r := .answered (.saving base step) (.ok w)) ?_ ?_
      · rw [hm.history, stageOf_append_self hcall, Moment.stage?_of_run? hrun]
      · refine ⟨hid, fun i hi => ?_, fun e he => by cases he⟩
        obtain rfl := Except.ok.inj hi
        exact ⟨rfl, .inl (hm.history ▸ (lastStored_append _ _ _).trans hlast),
          .inl ⟨hrunning, howner⟩⟩
  · have hsame : lastStored id s₀.history = some i :=
      (hothers id fun w hw hid => hwrites ⟨w, hw, hid⟩).symm.trans hlast
    have hstays : Stays s₀.history s₁.history id := by
      intro j hj
      rw [hi, ← hsame]
      exact .inl hj
    rcases hattended i worker hsame hrunning howner with hclaimed | ⟨hr, hfollows⟩ | hstumped
    · exact hm.attended_of_unfetched hcounts hclaimed hsame hrunning howner
    · exact hm.attended_of_running hcounts hcolumn hkept hr hfollows hstays hi howner
    · rw [hm.history]
      exact .stumped (hstumped.append _)

end System

/-- No call is dropped. -/
def Uncrashed (h : List Moment) : Prop := ∀ m ∈ h, m.incident ≠ .crashed

/-- Without sweeps and dropped calls, somebody is at whatever is held. -/
theorem System.Reachable.attended {config : EngineConfig} {s : System} (hs : Reachable config s)
    (hcolumn : s.engine.store.isTable = true → TableStore.fits s.history.length)
    (hunswept : Unswept s.history) (hkept : Uncrashed s.history) {before after : List Moment}
    (hsplit : s.history = before ++ after) {id : InstanceId} {i : Instance} {worker : String}
    (hi : lastStored id before = some i) (hrunning : i.status = .running)
    (howner : i.owner = some worker) :
    Attended s.engine.store.time before id worker := by
  have hcounts := hs.counts hcolumn
  induction before using List.reverseRecOn generalizing after i worker with
  | nil => cases hi
  | append_singleton before m ih =>
    have hsplit' : s.history = before ++ m :: after := by simp [hsplit]
    have hmem : m ∈ s.history := by simp [hsplit]
    obtain ⟨s₀, s₁, hm, rfl⟩ := hs.along hsplit'
    rw [← hm.history] at hi ⊢
    exact hm.attended hcounts hcolumn (hunswept m hmem) (hkept m hmem)
      (fun _ _ hi hrunning howner => ih hsplit' hi hrunning howner) hi hrunning howner

/-- The instance that a run is about. -/
def Run.target : Run → InstanceId
  | loading id _ | reloading id _ => id
  | saving base _ => base.id
  | recording stored _ => stored.id
  | invoking v => v.base.id
  | recordingDropped current _ => current.id
  | failing failed _ _ => failed.id
  | recordingFailure entry _ => entry.instanceId

def RunStage.target : RunStage → InstanceId
  | asking r | answered r _ => r.target

/-- Everybody has come to rest about a stored instance: whoever has claimed it has gone on to run
it, and no run of it is going on. -/
structure AtRest (h : List Moment) (id : InstanceId) : Prop where
  stored : (lastStored id h).isSome
  fetched : ∀ worker, ¬ Unfetched h id worker
  quiet : ∀ n r, (stageOf n h).bind Stage.run? = some r → r.target ≠ id

/-- A run that goes by what is held is about it. -/
theorem RunStage.Follows.target_eq {time : Instant → Instant} {h : List Moment} {n : Nat}
    {id : InstanceId} {worker : String} {r : RunStage} {i : Instance}
    (hr : r.Follows time h n worker id) (hi : lastStored id h = some i)
    (howner : i.owner = some worker) : r.target = id := by
  have hheld (hgone : Gone h id) : False := by
    obtain ⟨j, hj, -, hfree⟩ := hgone
    obtain rfl := Option.some.inj (hi.symm.trans hj)
    rw [howner] at hfree
    cases hfree
  have hunrested {j : Instance} (hid : j.id = id) (hrests : j.Rests) (hj : Stands time h j) :
      False := by
    subst hid
    rcases hj with hstored | hgone
    · obtain rfl := Option.some.inj (hi.symm.trans hstored)
      have hfree : (j.kept time).owner = none := hrests.1
      rw [howner] at hfree
      cases hfree
    · exact hheld hgone
  cases r with
  | asking r =>
    cases r with
    | loading | saving | recording | invoking | reloading => exact hr.1
    | recordingDropped => exact (hheld hr).elim
    | failing =>
      obtain ⟨-, base, error, now, hid, -, rfl⟩ := hr
      exact hid
    | recordingFailure =>
      obtain ⟨-, j, hid, hrests, hj⟩ := hr
      exact (hunrested hid hrests hj).elim
  | answered r answer =>
    cases r with
    | loading | saving | recording | invoking | reloading => exact hr.1
    | recordingDropped => exact (hheld hr).elim
    | failing failed entry cause =>
      obtain ⟨-, hok, herror⟩ := hr
      cases answer with
      | ok j =>
        obtain ⟨hid, hrests, hj⟩ := hok j rfl
        exact (hunrested hid hrests hj).elim
      | error e => exact (hheld (herror e rfl)).elim
    | recordingFailure =>
      obtain ⟨-, -, j, hid, hrests, hj⟩ := hr
      exact (hunrested hid hrests hj).elim

/-- Nobody holds an instance about which everybody has come to rest, unless it has stumped the
engine. -/
theorem Attended.not_atRest {time : Instant → Instant} {h : List Moment} {id : InstanceId}
    {worker : String} {i : Instance} (hattended : Attended time h id worker)
    (hcalm : ∀ n, ¬ WasStumped h n id) (hi : lastStored id h = some i)
    (howner : i.owner = some worker) : ¬ AtRest h id := by
  intro hrests
  cases hattended with
  | unfetched hclaimed => exact hrests.fetched worker hclaimed
  | running hr hfollows => exact hrests.quiet _ _ hr (hfollows.target_eq hi howner)
  | stumped hstumped => exact hcalm _ hstumped

/-- What is held is held by a worker that is at it, so nobody holds an instance about which
everybody has come to rest. -/
theorem System.Reachable.free_of_atRest {config : EngineConfig} {s : System}
    (hs : Reachable config s)
    (hcolumn : s.engine.store.isTable = true → TableStore.fits s.history.length)
    (hnamed : WellNamed s.history) (hunswept : Unswept s.history) (hkept : Uncrashed s.history)
    {before after : List Moment} (hsplit : s.history = before ++ after) {id : InstanceId}
    (hcalm : ∀ n, ¬ WasStumped s.history n id) (hrests : AtRest before id) {i : Instance}
    (hi : lastStored id before = some i) : i.owner = none := by
  cases howner : i.owner with
  | none => rfl
  | some worker =>
    have hcounts := hs.counts hcolumn
    have hrunning : i.status = .running := by
      rcases List.eq_nil_or_concat before with rfl | ⟨first, m, rfl⟩
      · cases hi
      · rw [List.concat_eq_append] at hsplit hi
        have hsplit' : s.history = first ++ m :: after := by simp [hsplit]
        obtain ⟨s₀, s₁, hs₀, hstep, -, hhistory⟩ := hs.step_of_history hsplit'
        have hs₁ := hs₀.step hstep
        rw [hsplit, ← hhistory] at hcounts hnamed
        rw [← hhistory, ← hs₁.find?_eq_lastStored] at hi
        obtain ⟨p, hp⟩ := (hs₁.life hcounts.of_append hi).exists_boundTo
        have hconsistent := hs₁.consistent hcounts.of_append hnamed.of_append hi hp
        exact hconsistent.owned (by simp [howner])
    have hattended := hs.attended hcolumn hunswept hkept hsplit hi hrunning howner
    refine absurd hrests (hattended.not_atRest (fun n hstumped => hcalm n ?_) hi howner)
    rw [hsplit]
    exact hstumped.append after

end WorkflowEngine

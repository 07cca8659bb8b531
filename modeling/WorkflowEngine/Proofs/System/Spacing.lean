import WorkflowEngine.Proofs.System.OneWorker
import WorkflowEngine.Proofs.System.Retries

/-!
# How far apart the tries of an action are

The wait before another try is counted from when the failed try began, and not from when it failed.
So a single worker never tries again sooner than that, but a try that takes longer than the wait is
followed by the next one at once.
-/
namespace WorkflowEngine

/-- The time for which a call polls, if it is given one. -/
def Opening.polledFor? : Opening → Option Instant
  | poll _ time _ | pass _ time => time
  | _ => none

/-- Nobody polls for a time that is still to come. -/
def Punctual (h : List Moment) : Prop :=
  ∀ m ∈ h, ∀ o progress, m.incident = .began o progress →
    ∀ t, o.polledFor? = some t → t ≤ m.engine.now

/-- The clock has shown a time, given in microseconds, or a later one. -/
def Reached (h : List Moment) (micros : Int) : Prop := ∃ m ∈ h, micros ≤ m.engine.now.micros

/-- In some moment an instance waited to be tried again after a try. -/
def WaitedFor (config : EngineConfig) (h : List Moment) (v : Invocation) : Prop :=
  ∃ m ∈ h, ∃ w, m.find? v.base.id = some w ∧ w.Awaits config v

/-- The time of the next try in microseconds. -/
def Invocation.retryMicros (v : Invocation) (config : EngineConfig) : Int :=
  v.time.micros + 1000000 * config.backoff v.attempt.toNat

/-- How things stand after a try that has failed, from which a call has still to conclude. -/
inductive Pauses (config : EngineConfig) (h since : List Moment) (n : Nat) (v : Invocation)
    (reply : Reply) : Prop
  | concluding {r : RunStage} (hr : (stageOf n h).bind Stage.run? = some r)
      (hconcludes : r.Concludes config v reply)
  | ended {i : Instance} (hi : lastStored v.base.id h = some i) (hended : i.isTerminal = true)
      (hunworked : Unworked h v.base.id)
  | waiting {i : Instance} (hi : lastStored v.base.id h = some i) (hfree : i.owner = none)
      (hwaits : i.Awaits config v) (hwaited : WaitedFor config since v)
      (hunworked : Unworked h v.base.id) (hunlisted : Unlisted h v.base.id)
  | due (hwaited : WaitedFor config since v) (hreached : Reached h (v.retryMicros config))
      (hasked : ∀ k w, (stageOf k h).bind Stage.run? = some (.asking (.invoking w)) →
        w.base.id = v.base.id → v.retryMicros config ≤ w.time.micros)

section
variable {config : EngineConfig} {h : List Moment} {m : Moment} {v : Invocation} {reply : Reply}
  {step : Step} {micros : Int}

theorem Punctual.of_append {l : List Moment} (hpunctual : Punctual (h ++ l)) : Punctual h :=
  fun m hm => hpunctual m (List.mem_append_left _ hm)

theorem Steady.of_append {l : List Moment} (hsteady : Steady (h ++ l)) : Steady h :=
  (List.pairwise_append.mp hsteady).1

theorem Reached.append (hreached : Reached h micros) (h' : List Moment) :
    Reached (h ++ h') micros := by
  obtain ⟨m, hm, hle⟩ := hreached
  exact ⟨m, List.mem_append_left _ hm, hle⟩

theorem WaitedFor.append (hwaited : WaitedFor config h v) (h' : List Moment) :
    WaitedFor config (h ++ h') v := by
  obtain ⟨m, hm, hw⟩ := hwaited
  exact ⟨m, List.mem_append_left _ hm, hw⟩

theorem time_of_visit {env : Env} {i : Instance} (hvisit : visit env i = .ok (.invoke v)) :
    v.time = env.now := by
  obtain ⟨p, n, -, -, h⟩ := visit_eq_ok hvisit
  cases hstep : n.step with
  | action kind params next =>
    rw [hstep] at h
    by_cases hintent : i.dispatching = some i.cursor
    · simp only [if_pos hintent] at h
      obtain rfl := Visit.invoke.inj h
      rfl
    · simp [hintent] at h
  | trigger | condition | delay => simp [hstep] at h

/-- A call lists what is due at the time for which it polls, or now. -/
theorem Opening.now_of_start {env : Env} {o : Opening} {c : Call} {worker : String} {now : Instant}
    {limit : Int} (hstart : o.start env = .waiting c)
    (hp : (Stage.asking c).poll? = some (.asking (.listing worker now limit))) :
    now = o.polledFor?.getD env.now := by
  cases o with
  | poll worker time limit | pass worker time =>
    obtain rfl := Progress.waiting.inj hstart
    cases hp
    rfl
  | run | cancel =>
    obtain rfl := Progress.waiting.inj hstart
    cases hp
  | sweep time grace =>
    simp only [start] at hstart
    split at hstart
    · obtain rfl := Progress.waiting.inj hstart
      cases hp
    · cases hstart
  | emit | dispatch =>
    obtain ⟨_, -, rfl⟩ := Progress.of_map_eq_waiting hstart
    cases hp

/-- A poll lists what is due only once. -/
theorem Poll.ne_listing_of_resume {p : Poll} {answer : p.request.Answer} {worker : String}
    {now : Instant} {limit : Int} : p.resume answer ≠ .waiting (.listing worker now limit) := by
  have key {worker' : String} {rest : List Instance} {claimed : List InstanceId} :
      proceed worker' rest claimed ≠ .waiting (.listing worker now limit) := by
    cases rest <;> simp [proceed]
  cases p <;> simp only [resume] <;> split <;> simp [key]

/-- An action is invoked with the time at which the run asks for it. -/
theorem Run.time_of_resume {env : Env} {r : Run} {answer : r.request.Answer}
    (hresume : r.resume env answer = .waiting (.invoking v)) : v.time = env.now := by
  cases goesOn_of_resume hresume with
  | begun _ _ hbegin =>
    cases beginning_of_begin hbegin with
    | turn hturn =>
      cases hturn with
      | invoked hvisit => exact time_of_visit hvisit
  | recorded hproceed =>
    cases (turn_of_proceed hproceed).2 with
    | invoked hvisit => exact time_of_visit hvisit

/-- What follows from a failure ends the instance, or it is tried again later. -/
theorem Invocation.Concludes.of_transient (h : v.Concludes config reply step)
    (hreply : reply.isTransient = true) : step.next.isTerminal = true ∨
      ∃ reason wakeAt, v.retryTime? config = some wakeAt ∧ step = v.retry reason wakeAt := by
  obtain ⟨result, hresult, hconclude⟩ := of_bind_eq_ok h
  have hsettle := Shaped.of_toOutcome_eq_ok hresult
  cases result with
  | success =>
    rw [Reply.isTransient_of_success hsettle] at hreply
    cases hreply
  | failure reason isPermanent =>
    simp only [Invocation.conclude] at hconclude
    split at hconclude
    · obtain rfl := Except.ok.inj hconclude
      exact .inl rfl
    · split at hconclude
      · rename_i wakeAt hwake
        exact .inr ⟨reason, wakeAt, hwake, (Except.ok.inj hconclude).symm⟩
      · cases hconclude

theorem Invocation.Concludes.status_ne_running (h : v.Concludes config reply step)
    (hreply : reply.isTransient = true) : step.next.status ≠ .running := by
  intro hrunning
  rcases h.of_transient hreply with hended | ⟨reason, wakeAt, -, rfl⟩
  · simp [Instance.isTerminal, hrunning, Status.isTerminal] at hended
  · cases hrunning

/-- A failure leaves nothing to stump the engine if the time of the next try can be represented. -/
theorem Reply.not_stumps (hreply : reply.isTransient = true)
    (hdate : (v.retryTime? config).isSome) : ¬ v.Stumps config reply := by
  intro hstumps
  cases hstumps with
  | strange => cases hreply
  | retry _ _ hfar => simp [hfar] at hdate

end

namespace System

variable {config : EngineConfig} {s s₀ s₁ : System} {m : Moment} {n : Nat} {id : InstanceId}
  {since : List Moment} {v : Invocation} {reply : Reply}

theorem Reachable.le_now (hs : Reachable config s) (hsteady : Steady s.history) {micros : Int}
    (hreached : Reached s.history micros) : micros ≤ s.engine.now.micros := by
  obtain ⟨x, hx, hle⟩ := hreached
  rcases List.eq_nil_or_concat s.history with hnil | ⟨h, m, hhistory⟩
  · rw [hnil] at hx
    cases hx
  · rw [List.concat_eq_append] at hhistory
    rw [hs.engine_of_history hhistory]
    rw [hhistory] at hx
    exact hle.trans (hsteady.le (by rw [hhistory]) hx)

/-- A run has asked for an invocation at the time of the invocation. -/
theorem Reachable.reached_of_invoking (hs : Reachable config s)
    (hr : (stageOf n s.history).bind Stage.run? = some (.asking (.invoking v))) :
    Reached s.history v.time.micros := by
  obtain ⟨stage, hn, hr⟩ := Option.bind_eq_some_iff.mp hr
  rw [← hs.calls_eq] at hn
  refine hs.of_stages (P := fun h _ stage => stage.run? = some (.asking (.invoking v)) →
    Reached h v.time.micros) ?_ ?_ ?_ ?_ n stage hn hr
  · intro s₀ s₁ m o c _ _ _ hstart hr
    obtain ⟨id, worker, heq⟩ := (Stage.of_start hstart).1 _ hr
    cases heq
  · intro s₀ s₁ m n c answer _ _ _ _ _ _ hr
    obtain ⟨r₀, answer₀, heq, -⟩ := Stage.runs_of_answered hr
    cases heq
  · intro s₀ s₁ m n c answer c' hm _ hresumed _ hresume _ hr
    rcases Stage.run?_of_resume hresume hr with ⟨r₀, answer₀, r₁, -, hnext, heq⟩ | ⟨_, _, heq⟩
    · cases heq
      obtain ⟨-, -, -, -, -, -, hengine⟩ := hm.step.of_resumed hm.history hresumed
      refine ⟨m, by simp [hm.history], ?_⟩
      rw [← hm.engine, hengine, Run.time_of_resume hnext]
      exact Int.le_refl _
    · cases heq
  · intro s₀ s₁ m n stage hm _ _ ih hr
    rw [hm.history]
    exact (ih hr).append _

/-- Nobody lists what is due at a time that is still to come. -/
theorem Reachable.reached_of_listing (hs : Reachable config s) (hpunctual : Punctual s.history)
    {worker : String} {now : Instant} {limit : Int}
    (hp : (stageOf n s.history).bind Stage.poll? = some (.asking (.listing worker now limit))) :
    Reached s.history now.micros := by
  obtain ⟨stage, hn, hp⟩ := Option.bind_eq_some_iff.mp hp
  rw [← hs.calls_eq] at hn
  refine hs.of_stages (P := fun h _ stage => Punctual h →
    stage.poll? = some (.asking (.listing worker now limit)) → Reached h now.micros)
    ?_ ?_ ?_ ?_ n stage hn hpunctual hp
  · intro s₀ s₁ m o c hm _ hbegan hstart hpunctual hp
    have hmem : m ∈ s₁.history := by simp [hm.history]
    obtain ⟨-, -, hengine⟩ := hm.step.of_began hm.history hbegan
    obtain rfl := Opening.now_of_start hstart hp
    refine ⟨m, hmem, ?_⟩
    cases htime : o.polledFor? with
    | none =>
      rw [← hm.engine, hengine]
      exact Int.le_refl _
    | some t => exact hpunctual m hmem o _ hbegan t htime
  · intro s₀ s₁ m n c answer _ _ _ _ _ _ _ hp
    obtain ⟨p₀, answer₀, heq, -⟩ := Stage.poll?_of_answered hp
    cases heq
  · intro s₀ s₁ m n c answer c' _ _ _ _ hresume _ _ hp
    obtain ⟨p₀, answer₀, p₁, -, hnext, heq⟩ := Stage.poll?_of_resume hresume hp
    cases heq
    exact absurd hnext Poll.ne_listing_of_resume
  · intro s₀ s₁ m n stage hm _ _ ih hpunctual hp
    rw [hm.history] at hpunctual ⊢
    exact (ih hpunctual.of_append hp).append _

/-- A poll finds what waits only if its time has come. -/
theorem Reachable.reached_of_finds (hs : Reachable config s) (hpunctual : Punctual s.history)
    {p : PollStage} (hp : (stageOf n s.history).bind Stage.poll? = some p)
    (hfinds : p.Finds s.engine.store id) {i : Instance} (hi : s.engine.store.find? id = some i)
    (hwaits : i.Awaits config v) : Reached s.history (v.retryMicros config) := by
  cases p with
  | answered => exact hfinds.elim
  | asking p =>
    cases p with
    | claiming => exact hfinds.elim
    | listing worker now limit =>
      obtain ⟨j, hj, hdue⟩ := hfinds
      obtain rfl := Option.some.inj (hi.symm.trans hj)
      obtain ⟨wakeAt, hresume, hmicros⟩ := hwaits.resumeAt
      rw [hresume] at hdue
      have hle : wakeAt ≤ now := by simpa using hdue
      obtain ⟨x, hx, hnow⟩ := hs.reached_of_listing hpunctual hp
      refine ⟨x, hx, le_trans ?_ hnow⟩
      rw [Invocation.retryMicros, ← hmicros]
      exact hle

/-- Whoever asks for an invocation goes by what is held. -/
theorem Reachable.works_of_invoking (hs : Reachable config s) (hcounts : Counts s.history)
    (hr : (stageOf n s.history).bind Stage.run? = some (.asking (.invoking v))) :
    Works s.history n v.base := by
  refine ⟨_, hr, rfl, ?_⟩
  obtain ⟨stage, hn, hr⟩ := Option.bind_eq_some_iff.mp hr
  rw [← hs.calls_eq] at hn
  have hdrives : Drives s.engine.store.time s.history n v.base := hs.driving hcounts hn hr
  obtain ⟨worker, -, -, howner, -⟩ := hdrives.run
  exact ⟨hdrives.running, by simp [howner]⟩

/-- What a sweep writes goes on, but nobody holds it any more. -/
theorem Along.released_of_sweep (hm : Along config s s₀ s₁ m) (hcounts : Counts s.history)
    (hsweep : m.isSweep = true) {w : Instance} (hw : m.written? = some w) :
    w.status = .running ∧ w.owner = none := by
  have hcounts₀ := (hm.counts hcounts).1
  have hsound := hm.reachable.isSound hcounts₀
  unfold Moment.isSweep at hsweep
  split at hsweep
  · rename_i sw answer hserved
    rw [Moment.written?, hserved] at hw
    obtain ⟨k, -, hasks, hanswer⟩ := hm.step.of_served hm.history hserved
    have hsw : sw.IsSound s₀.engine.store.time s₀.history := hsound.calls k _ hasks
    cases sw with
    | listing => cases hw
    | releasing inFlightBefore base =>
      cases answer with
      | error => cases hw
      | ok stored =>
        obtain rfl := Option.some.inj hw
        obtain ⟨hseen, hheld⟩ := hsw base List.mem_cons_self
        obtain ⟨-, rfl, -⟩ := hsound.lives.of_save hcounts₀ hseen (.released hheld)
          (Engine.perform_of_answers hanswer)
        exact ⟨rfl, rfl⟩
  · cases hsweep

/-- What nobody holds goes on only if it is claimed. -/
theorem Along.claims_of_free (hm : Along config s s₀ s₁ m) (hcounts : Counts s.history)
    {i w : Instance} (hw : m.written? = some w) (hi : lastStored w.id s₀.history = some i)
    (hfree : i.owner = none) (hlive : w.isTerminal = false) : m.claims w.id = true := by
  have hreplaces := ((hm.written hcounts).1 w hw).1
  have hfound := (hm.reachable.find?_eq_lastStored w.id).trans hi
  have hborn : (lastStored w.id s₀.history).isSome := by rw [hi]; rfl
  rw [hi] at hreplaces
  cases hreplaces with
  | @changed base next step k now hversion hchange =>
    have hunheld (hheld : base.IsHeld) :
        m.claims (next.stamped (.count (k + 1)) now).id = true := by
      have hfree : base.owner = none := hfree
      simp [Instance.IsHeld, hfree] at hheld
    cases hchange with
    | stepped _ hheld | failed hheld | released hheld => exact hunheld hheld
    | cancelled => cases hlive
    | claimed =>
      have hunswept : m.isSweep = false := by
        refine Bool.eq_false_iff.mpr fun hsweep => ?_
        cases (hm.released_of_sweep hcounts hsweep hw).2
      obtain ⟨-, hclaims | ⟨base', step, -, -, hheld, hfound'⟩⟩ :=
        hm.claimed_or_stepped hcounts hunswept hw hborn rfl
      · exact hclaims
      · have howner := congrArg (·.owner) (Option.some.inj (hfound.symm.trans hfound'))
        have howner : base'.owner = none := howner.symm.trans hfree
        simp [Instance.IsHeld, howner] at hheld

/-- What is claimed was going to be claimed. -/
theorem Along.not_unlisted_of_claims (hm : Along config s s₀ s₁ m) (hclaims : m.claims id = true) :
    ¬ Unlisted s₀.history id := by
  intro hunlisted
  have hclaimed : m.claimed? = some id := by simpa [Moment.claims] using hclaims
  obtain ⟨p, hpoll, hclaimed⟩ := Option.bind_eq_some_iff.mp hclaimed
  obtain ⟨c, answer, hserved, hp⟩ := Moment.exists_served_of_poll? hpoll
  obtain ⟨k, -, hasks, -⟩ := hm.step.of_served hm.history hserved
  obtain ⟨p₀, answer₀, rfl, hasking⟩ := Stage.poll?_of_answered hp
  rw [hm.reachable.calls_eq] at hasks
  refine hunlisted k (.asking p₀) (by rw [hasks]; exact hasking) ?_
  cases p₀ with
  | listing => cases hclaimed
  | claiming worker current rest claimed =>
    refine ⟨current, List.mem_cons_self, ?_⟩
    rcases answer₀ with _ | _ | _
    · cases hclaimed
    · cases hclaimed
    · exact Option.some.inj hclaimed

theorem Along.unworked_of_saved (hm : Along config s s₀ s₁ m) (hone : OneWorker s₁.history)
    (hcall : m.call = some n) {base : Instance} {step : WorkflowEngine.Step}
    {answer : Outcome Instance} (hrun : m.run? = some (.answered (.saving base step) answer))
    (hleft : ∀ i, answer = .ok i → i.status ≠ .running) (id : InstanceId) :
    Unworked s₁.history id ∧ Unlisted s₁.history id := by
  have hwork : m.isWork = true := Moment.isWork_of_run? hrun
  have hself {k : Nat} {stage : Stage} (hk : stageOf k s₁.history = some stage)
      (hstage : stage.isWork = true) :
      stage.run? = some (.answered (.saving base step) answer) := by
    rw [hm.history] at hone hk
    obtain rfl := Option.some.inj (hcall.symm.trans (hone.call_eq hwork hk hstage))
    rw [stageOf_append_self hcall] at hk
    have hstage := Moment.stage?_of_run? hrun
    rw [hk] at hstage
    exact hstage
  constructor
  · rintro k i ⟨r, hr, hbase, hheld⟩ -
    obtain ⟨stage, hk, hr⟩ := Option.bind_eq_some_iff.mp hr
    obtain rfl := Option.some.inj (hr.symm.trans (hself hk (Stage.isWork_of_run? hr)))
    cases answer with
    | error => cases hbase
    | ok stored =>
      obtain rfl := Option.some.inj hbase
      exact hleft _ rfl hheld.1
  · intro k p hp
    obtain ⟨stage, hk, hp⟩ := Option.bind_eq_some_iff.mp hp
    rw [Stage.poll?_of_run? (hself hk (Stage.isWork_of_poll? hp))] at hp
    cases hp

/-- What the run that concludes a failed try stores lets the instance wait, or ends it. If it is
refused, the instance has been cancelled. -/
theorem Along.pauses_of_saved (hm : Along config s s₀ s₁ m) (hcounts : Counts s.history)
    (hcolumn : s.engine.store.isTable = true → TableStore.fits s.history.length)
    (hone : OneWorker s₁.history) (hreply : reply.isTransient = true)
    (hcursor : v.base.cursor = v.node) (hcall : m.call = some n) {step : WorkflowEngine.Step}
    {answer : Outcome Instance} (hstep : v.Concludes config reply step)
    (hrun : m.run? = some (.answered (.saving v.base step) answer)) :
    Pauses config s₁.history (since ++ [m]) n v reply := by
  obtain ⟨k, hcall', hr, hsound, hanswer⟩ := hm.exists_asking hcounts hrun
  obtain rfl := Option.some.inj (hcall.symm.trans hcall')
  rw [hm.time_eq] at hsound
  obtain ⟨hseen, hheld, p, hbound, hstepped⟩ := hsound
  have hstands : Stands s.engine.store.time s₀.history v.base := by
    rw [← hm.time_eq]
    exact hm.reachable.stands (hm.counts hcounts).1 (hm.history ▸ hone).of_append
      ⟨_, hr, rfl, hheld⟩
  have hwritten := Moment.written?_of_run? hrun
  obtain ⟨hok, herror, -⟩ := hm.saved hcounts hcolumn hstands rfl rfl hseen
    (.stepped hbound hheld hstepped) (Engine.perform_of_answers hanswer) hwritten
  cases answer with
  | error e =>
    obtain ⟨i, hi, hcancelled, -⟩ := herror e rfl
    have hidle := hm.unworked_of_saved hone hcall hrun (by simp) v.base.id
    exact .ended hi (by simp [Instance.isTerminal, hcancelled, Status.isTerminal]) hidle.1
  | ok stored =>
    obtain ⟨-, version, now, rfl⟩ := hok stored rfl
    have hid : step.next.id = v.base.id := hstepped.next_eq.1
    have hthere : m.find? v.base.id =
        some ((step.next.stamped version now).kept s.engine.store.time) :=
      hid ▸ ((hm.written hcounts).1 _ hwritten).2
    have hstored : lastStored v.base.id s₁.history =
        some ((step.next.stamped version now).kept s.engine.store.time) := by
      rw [hm.history, lastStored_append, hthere]
    have hidle := hm.unworked_of_saved hone hcall hrun (fun i hi => by
      obtain rfl := Except.ok.inj hi
      exact hstep.status_ne_running hreply) v.base.id
    rcases hstep.of_transient hreply with hended | ⟨reason, wakeAt, hwake, rfl⟩
    · exact .ended hstored hended hidle.1
    · have hwaits := v.awaits_retry hcursor hwake s.engine.store.micros_time reason version now
      exact .waiting hstored rfl hwaits ⟨m, by simp, _, hthere, hwaits⟩ hidle.1 hidle.2

/-- A run that concludes a failed try is not through yet, or it stores what follows. -/
theorem Along.pauses_of_concluding (hm : Along config s s₀ s₁ m) (hcounts : Counts s.history)
    (hcolumn : s.engine.store.isTable = true → TableStore.fits s.history.length)
    (hone : OneWorker s₁.history) (hreply : reply.isTransient = true)
    (hdate : (v.retryTime? config).isSome) (hkept : m.call = some n → m.incident ≠ .crashed)
    (hcursor : v.base.cursor = v.node) {r : RunStage}
    (hr : (stageOf n s₀.history).bind Stage.run? = some r)
    (hconcludes : r.Concludes config v reply) :
    Pauses config s₁.history (since ++ [m]) n v reply := by
  rcases hm.concludes_or_saves hcounts hkept (Reply.not_stumps hreply hdate) hr hconcludes with
    ⟨r', hr', hconcludes'⟩ | ⟨hcall, step, answer, hstep, hrun⟩
  · exact .concluding hr' hconcludes'
  · exact hm.pauses_of_saved hcounts hcolumn hone hreply hcursor hcall hstep hrun

/-- What waits goes on waiting until a poll finds it due, or it is cancelled. -/
theorem Along.pauses_of_waiting (hm : Along config s s₀ s₁ m) (hcounts : Counts s.history)
    (hpunctual : Punctual s₀.history) {i : Instance}
    (hi : lastStored v.base.id s₀.history = some i) (hfree : i.owner = none)
    (hwaits : i.Awaits config v) (hwaited : WaitedFor config since v)
    (hunworked : Unworked s₀.history v.base.id) (hunlisted : Unlisted s₀.history v.base.id) :
    Pauses config s₁.history (since ++ [m]) n v reply := by
  obtain ⟨hwritten, hothers⟩ := hm.written hcounts
  have hfound := (hm.reachable.find?_eq_lastStored v.base.id).trans hi
  have hunheld (j : Instance) (hj : s₀.engine.store.find? v.base.id = some j) : ¬ j.IsHeld := by
    obtain rfl := Option.some.inj (hfound.symm.trans hj)
    simp [Instance.IsHeld, hfree]
  have hunworked := hm.unworked hcounts hunworked hunheld
  by_cases hwrites : ∃ w, m.written? = some w ∧ w.id = v.base.id
  · obtain ⟨w, hw, hid⟩ := hwrites
    -- what nobody owns is cancelled or claimed, and no poll was going to claim it
    by_cases hended : w.isTerminal = true
    · have hthere := (hwritten w hw).2
      rw [hid, ← lastStored_append _ s₀.history, ← hm.history] at hthere
      exact .ended hthere hended hunworked
    · have hclaims := hm.claims_of_free hcounts hw (hid ▸ hi) hfree (by simpa using hended)
      rw [hid] at hclaims
      exact absurd hunlisted (hm.not_unlisted_of_claims hclaims)
  · have hsame : lastStored v.base.id s₁.history = some i := by
      rw [hm.history, lastStored_append, hothers _ fun w hw hid => hwrites ⟨w, hw, hid⟩, hi]
    by_cases hlisted : Unlisted s₁.history v.base.id
    · exact .waiting hsame hfree hwaits (hwaited.append _) hunworked hlisted
    · obtain ⟨k, p, hp, hlists⟩ : ∃ k p, (stageOf k s₁.history).bind Stage.poll? = some p ∧
          p.Lists v.base.id := by simpa [Unlisted] using hlisted
      obtain ⟨p₀, hp₀, hlists | hfinds⟩ := hm.lists_or_finds hcounts hp hlists
      · exact absurd hlists (hunlisted k p₀ hp₀)
      · refine .due (hwaited.append _) ?_ fun k' w hr hid => ?_
        · rw [hm.history]
          exact (hm.reachable.reached_of_finds hpunctual hp₀ hfinds hfound hwaits).append _
        · have hworks := (hm.reachable.step hm.step).works_of_invoking (hm.counts hcounts).2 hr
          exact absurd hid (hunworked k' w.base hworks)

theorem Along.pauses_of_due (hm : Along config s s₀ s₁ m) (hcounts : Counts s.history)
    (hsteady : Steady s₀.history) (hwaited : WaitedFor config since v)
    (hreached : Reached s₀.history (v.retryMicros config))
    (hasked : ∀ k w, (stageOf k s₀.history).bind Stage.run? = some (.asking (.invoking w)) →
      w.base.id = v.base.id → v.retryMicros config ≤ w.time.micros) :
    Pauses config s₁.history (since ++ [m]) n v reply := by
  refine .due (hwaited.append _) (hm.history ▸ hreached.append _) fun k w hr hid => ?_
  cases hm.arrives hcounts hr with
  | elsewhere _ hr => exact hasked k w hr hid
  | resumed _ _ _ _ hresume =>
    rw [Run.time_of_resume hresume]
    exact hm.reachable.le_now hsteady hreached

theorem Along.pauses (hm : Along config s s₀ s₁ m) (hcounts : Counts s.history)
    (hcolumn : s.engine.store.isTable = true → TableStore.fits s.history.length)
    (hone : OneWorker s₁.history) (hsteady : Steady s₀.history) (hpunctual : Punctual s₀.history)
    (hreply : reply.isTransient = true) (hdate : (v.retryTime? config).isSome)
    (hcursor : v.base.cursor = v.node) (hkept : m.call = some n → m.incident ≠ .crashed)
    (hpauses : Pauses config s₀.history since n v reply) :
    Pauses config s₁.history (since ++ [m]) n v reply := by
  cases hpauses with
  | concluding hr hconcludes =>
    exact hm.pauses_of_concluding hcounts hcolumn hone hreply hdate hkept hcursor hr hconcludes
  | ended hi hended hunworked =>
    have hfound := (hm.reachable.find?_eq_lastStored v.base.id).trans hi
    refine .ended ?_ hended (hm.unworked hcounts hunworked fun j hj hheld => ?_)
    · rw [hm.history, lastStored_append]
      exact hm.find?_of_ended hcounts hfound hended
    · obtain rfl := Option.some.inj (hfound.symm.trans hj)
      simp [hheld.isTerminal] at hended
  | waiting hi hfree hwaits hwaited hunworked hunlisted =>
    exact hm.pauses_of_waiting hcounts hpunctual hi hfree hwaits hwaited hunworked hunlisted
  | due hwaited hreached hasked =>
    exact hm.pauses_of_due hcounts hsteady hwaited hreached hasked

/-- From a try that has failed until another one is made. -/
theorem Reachable.pauses (hs : Reachable config s)
    (hcolumn : s.engine.store.isTable = true → TableStore.fits s.history.length)
    (hone : OneWorker s.history) (hsteady : Steady s.history) (hpunctual : Punctual s.history)
    {before after : List Moment} (hhistory : s.history = before ++ m :: since ++ after)
    (hcall : m.call = some n) (hrun : m.run? = some (.answered (.invoking v) reply))
    (hreply : reply.isTransient = true) (hdate : (v.retryTime? config).isSome)
    (hkept : ∀ x ∈ since, x.call = some n → x.incident ≠ .crashed) :
    Pauses config (before ++ m :: since) since n v reply := by
  have hcounts := hs.counts hcolumn
  have hcursor : v.base.cursor = v.node := by
    obtain ⟨s₀, s₁, hm, -⟩ := hs.along (m := m) (by rw [hhistory, List.append_assoc]; rfl)
    obtain ⟨-, -, -, ⟨-, -, p, -, hfor⟩, -⟩ := hm.exists_asking hcounts hrun
    exact hfor.node.symm
  -- by induction from the end, so that each moment is a step of the run
  induction since using List.reverseRecOn generalizing after with
  | nil =>
    refine .concluding (r := .answered (.invoking v) reply) ?_ ⟨rfl, rfl⟩
    rw [stageOf_append_self hcall]
    exact Moment.stage?_of_run? hrun
  | append_singleton since x ih =>
    have hsplit : s.history = (before ++ m :: since) ++ x :: after := by simp [hhistory]
    obtain ⟨s₀, s₁, hx, hbefore⟩ := hs.along hsplit
    obtain ⟨later, hlater⟩ := history_of_leads hx.leads
    have hpauses := ih hsplit fun y hy => hkept y (List.mem_append_left _ hy)
    rw [← hbefore] at hpauses hsplit
    rw [← List.cons_append, ← List.append_assoc, ← hbefore, ← hx.history]
    exact hx.pauses hcounts hcolumn (hlater ▸ hone).of_append (hsplit ▸ hsteady).of_append
      (hsplit ▸ hpunctual).of_append hreply hdate hcursor (hkept x (by simp)) hpauses

end System

/-- Two tries of an action are as far apart as the wait after the first one, counted from when that
one began. In between the instance has waited. -/
structure Apart (config : EngineConfig) (m : Moment) (between : List Moment) (v w : Invocation) :
    Prop where
  /-- The first try may have taken a while. -/
  began : v.time ≤ m.engine.now
  waited : WaitedFor config between v
  apart : v.time.micros + 1000000 * config.backoff v.attempt.toNat ≤ w.time.micros

namespace System

variable {config : EngineConfig} {s : System} {m m' : Moment} {id : InstanceId} {node : String}
  {before between after : List Moment} {v v' : Invocation} {reply reply' : Reply}

/-- Nothing but the wait is between two tries of a single worker: the next try begins when the wait,
counted from the beginning of the failed one, is over, or later. -/
theorem Reachable.tries_apart (hs : Reachable config s)
    (hcolumn : s.engine.store.isTable = true → TableStore.fits s.history.length)
    (hone : OneWorker s.history) (hsteady : Steady s.history) (hpunctual : Punctual s.history)
    (hhistory : s.history = before ++ m :: between ++ m' :: after)
    (htry : m.tryOf? id node = some (v, reply)) (htry' : m'.tryOf? id node = some (v', reply'))
    (hreply : reply.isTransient = true) (hdate : (v.retryTime? config).isSome)
    (hkept : ∀ x ∈ between, x.call = m.call → x.incident ≠ .crashed) :
    Apart config m between v v' := by
  have hcounts := hs.counts hcolumn
  obtain ⟨htried, hid⟩ := Option.filter_eq_some_iff.mp htry
  obtain ⟨htried', hid'⟩ := Option.filter_eq_some_iff.mp htry'
  simp only [Bool.and_eq_true, beq_iff_eq] at hid hid'
  have hrun := Moment.run?_of_tried? htried
  have hrun' := Moment.run?_of_tried? htried'
  have hsplit : s.history = before ++ m :: (between ++ m' :: after) := by simp [hhistory]
  obtain ⟨s₀, s₁, hm, hbefore⟩ := hs.along hsplit
  obtain ⟨n, hcall, hasks, -⟩ := hm.exists_asking hcounts hrun
  obtain ⟨s₀', s₁', hm', hbefore'⟩ := hs.along hhistory
  obtain ⟨k, hcall', hasks', -⟩ := hm'.exists_asking hcounts hrun'
  have hpauses := hs.pauses hcolumn hone hsteady hpunctual hhistory hcall hrun hreply hdate
    fun x hx hxcall => hkept x hx (hxcall.trans hcall.symm)
  rw [← hbefore'] at hpauses
  have hworks := hm'.reachable.works_of_invoking (hm'.counts hcounts).1 hasks'
  cases hpauses with
  | concluding hr hconcludes =>
    -- the call that makes the second try is the only one of the worker, and it is not at the first
    obtain ⟨stage, hn, hr₀⟩ := Option.bind_eq_some_iff.mp hr
    rw [hbefore'] at hn
    obtain rfl := Option.some.inj (hcall'.symm.trans (hone _ m' after hhistory
      (Moment.isWork_of_run? hrun') n stage hn (Stage.isWork_of_run? hr₀)))
    obtain rfl := Option.some.inj (hasks'.symm.trans hr)
    exact hconcludes.elim
  | ended _ _ hunworked => exact absurd (hid'.1.trans hid.1.symm) (hunworked k v'.base hworks)
  | waiting _ _ _ _ hunworked =>
    exact absurd (hid'.1.trans hid.1.symm) (hunworked k v'.base hworks)
  | due hwaited _ hasked =>
    refine ⟨?_, hwaited, hasked k v' hasks' (hid'.1.trans hid.1.symm)⟩
    have hreached := (hm.reachable.reached_of_invoking hasks).append [m]
    obtain ⟨later, hlater⟩ := history_of_leads hm.leads
    rw [← hm.history] at hreached
    have hle := (hm.reachable.step hm.step).le_now (hlater ▸ hsteady).of_append hreached
    rwa [hm.engine] at hle

end System

namespace Sample

/-- The instance after a failure that took a minute to be reported. -/
def delayed : Instance := { retrying with updatedAt := clock 120 }

/-- The instance when the action is then tried for the second time. -/
def hurrying : Instance :=
  { held delayed "w" 120 with dispatching := some "a", resumeAt := none, version := .count 8 }

def hurried : Invocation :=
  invocation hurrying "a" .sendWhatsapp
    ⟨[("template", .null), ("message", .text "Hello"), ("session_id", .null)], []⟩ none (clock 120)

/-- A system in which one worker has been at work, by a clock that was never set back. At most the
last call is still under way. -/
structure Calm (s : System) (n : Nat) : Prop where
  reachable : System.Reachable default s
  idle : ∀ k, k ≠ n → s.calls k = none
  one : OneWorker s.history
  steady : Steady s.history
  past : ∀ m ∈ s.history, m.engine.now ≤ s.engine.now
  punctual : Punctual s.history
  kept : Uncrashed s.history

namespace Calm

variable {s s' : System} {m : Moment} {n n' : Nat} {c : Call} {e : Engine}

theorem snoc (hs : Calm s n) (hstep : System.Step s s') (hhistory : s'.history = s.history ++ [m])
    (hm : m.engine = s'.engine) (hnow : s.engine.now ≤ s'.engine.now)
    (hidle : ∀ k, k ≠ n' → s'.calls k = none) (hwork : m.isWork = true → m.call = some n)
    (hbegan : ∀ o progress, m.incident = .began o progress → o.polledFor? = none)
    (hkept : m.incident ≠ .crashed) : Calm s' n' where
  reachable := hs.reachable.step hstep
  idle := hidle
  one := by
    rw [hhistory]
    intro before x after hsplit hx k stage hk hstage
    rcases last_or_before hsplit with ⟨rfl, rfl, -⟩ | ⟨rest, hrest, -⟩
    · by_cases hkn : k = n
      · rw [hkn]
        exact hwork hx
      · rw [← hs.reachable.calls_eq, hs.idle k hkn] at hk
        cases hk
    · exact hs.one before x rest hrest hx k stage hk hstage
  steady := by
    rw [hhistory]
    refine List.pairwise_append.mpr ⟨hs.steady, List.pairwise_singleton _ _, fun x hx y hy => ?_⟩
    obtain rfl := List.mem_singleton.mp hy
    rw [hm]
    exact Int.le_trans (hs.past x hx) hnow
  past := by
    rw [hhistory]
    refine List.forall_mem_append.mpr ⟨fun x hx => Int.le_trans (hs.past x hx) hnow, fun x hx => ?_⟩
    obtain rfl := List.mem_singleton.mp hx
    rw [hm]
    exact Int.le_refl _
  punctual := by
    rw [hhistory]
    refine List.forall_mem_append.mpr ⟨hs.punctual, fun x hx o progress ho t ht => ?_⟩
    obtain rfl := List.mem_singleton.mp hx
    rw [hbegan o progress ho] at ht
    cases ht
  kept := by
    rw [hhistory]
    refine List.forall_mem_append.mpr ⟨hs.kept, fun x hx => ?_⟩
    obtain rfl := List.mem_singleton.mp hx
    exact hkept

theorem tick (hs : Calm s n) (now : Instant) (hnow : s.engine.now ≤ now) :
    ∃ s', Calm s' n ∧ s'.engine = { s.engine with now } ∧ s'.calls = s.calls ∧
      s.history <+: s'.history :=
  ⟨_, hs.snoc (.tick s now) rfl rfl hnow hs.idle (by simp [Moment.isWork]) (by simp) (by simp),
    rfl, rfl, List.prefix_append _ _⟩

/-- A call is served, and goes on at once. -/
theorem serves (hs : Calm s n) (hasks : s.calls n = some (.asking c)) {answer : c.request.Answer}
    (hanswer : s.engine.Answers c.request answer e) {progress : Progress Call CallResult}
    (hresume : c.resume e.env answer = progress) :
    ∃ s', Calm s' n ∧ s'.engine = e ∧ s'.calls n = Stage.next? progress ∧
      s.history ++ [⟨some n, .served c answer, e⟩] <+: s'.history := by
  have hnow : s.engine.now ≤ e.now := by
    rw [Engine.now_of_answers hanswer]
    exact Int.le_refl _
  have hserved : Calm (s.turn n (some (.answered c answer)) (.served c answer) e) n :=
    hs.snoc (.serve hasks hanswer) rfl rfl hnow (fun k hk => by
      simp [System.turn, Function.update_of_ne hk, hs.idle k hk]) (fun _ => rfl) (by simp) (by simp)
  refine ⟨_, hserved.snoc (.resume (Function.update_self n _ _)) rfl rfl (Int.le_refl _)
    (fun k hk => ?_) (fun _ => rfl) (by simp) (by simp), rfl,
    hresume ▸ Function.update_self n _ _, List.prefix_append _ _⟩
  simp [System.turn, Function.update_of_ne hk, hs.idle k hk]

theorem turn (hs : Calm s n) (hasks : s.calls n = some (.asking c)) {answer : c.request.Answer}
    (hanswer : s.engine.Answers c.request answer e) {progress : Progress Call CallResult}
    (hresume : c.resume e.env answer = progress) :
    ∃ s', Calm s' n ∧ s'.engine = e ∧ s'.calls n = Stage.next? progress ∧
      s.history <+: s'.history := by
  obtain ⟨s', hs', he', hnext, hprefix⟩ := hs.serves hasks hanswer hresume
  exact ⟨s', hs', he', hnext, (List.prefix_append _ _).trans hprefix⟩

/-- The last call goes on to its end. -/
theorem alone (hs : Calm s n) (hasks : s.calls n = some (.asking c))
    (halone : Alone s.engine c e) :
    ∃ s', Calm s' n ∧ s'.engine = e ∧ s'.calls n = none ∧ s.history <+: s'.history := by
  generalize he : s.engine = e₀ at halone
  induction halone generalizing s with
  | ends answer hanswer hresume =>
    obtain ⟨s', hs', he', hover, hprefix⟩ := hs.turn hasks (he ▸ hanswer) hresume
    exact ⟨s', hs', he', hover, hprefix⟩
  | goesOn answer hanswer hresume _ ih =>
    obtain ⟨s₁, hs₁, he₁, hnext, hprefix₁⟩ := hs.turn hasks (he ▸ hanswer) hresume
    obtain ⟨s', hs', he', hover, hprefix⟩ := ih hs₁ hnext he₁
    exact ⟨s', hs', he', hover, hprefix₁.trans hprefix⟩

theorem begins (hs : Calm s n) (hover : s.calls n = none) {o : Opening}
    (hpolled : o.polledFor? = none) (hstart : o.start s.engine.env = .waiting c) :
    ∃ s' n', Calm s' n' ∧ s'.engine = s.engine ∧ s'.calls n' = some (.asking c) ∧
      s.history <+: s'.history := by
  have hidle (k : Nat) : s.calls k = none := by
    by_cases hk : k = n
    · rw [hk, hover]
    · exact hs.idle k hk
  refine ⟨_, s.begun, hs.snoc (.start s o) rfl rfl (Int.le_refl _) (fun k hk => ?_)
    (by simp [Moment.isWork]) (fun o' progress ho => ?_) (by simp), rfl, ?_,
    List.prefix_append _ _⟩
  · simp [System.turn, Function.update_of_ne hk, hidle k]
  · cases ho
    exact hpolled
  · simp [System.turn, hstart, Stage.next?]

/-- A call begins and goes on to its end. -/
theorem calls (hs : Calm s n) (hover : s.calls n = none) {o : Opening}
    (hpolled : o.polledFor? = none) (hstart : o.start s.engine.env = .waiting c)
    (halone : Alone s.engine c e) :
    ∃ s' n', Calm s' n' ∧ s'.engine = e ∧ s'.calls n' = none ∧ s.history <+: s'.history := by
  obtain ⟨s₁, n₁, hs₁, he₁, hasks, hprefix₁⟩ := hs.begins hover hpolled hstart
  obtain ⟨s', hs', he', hover', hprefix⟩ := hs₁.alone hasks (he₁ ▸ halone)
  exact ⟨s', n₁, hs', he', hover', hprefix₁.trans hprefix⟩

/-- The worker polls the instance and runs it until it asks for an invocation. -/
theorem asks {seconds : Int} {i next : Instance} {step : Step} {v : Invocation} (hs : Calm s n)
    (hover : s.calls n = none) (he : s.engine = keeping seconds i)
    (hpoll : Alone (keeping seconds i) (.poll (.listing "w" (clock seconds) 50))
      (keeping seconds (held i "w" seconds)))
    (hload : (keeping seconds (held i "w" seconds)).Answers (.store (.load "i1"))
      (.ok (held i "w" seconds)) (keeping seconds (held i "w" seconds)))
    (hbegin : Run.begin (keeping seconds (held i "w" seconds)).env (held i "w" seconds) =
      .waiting (.saving (held i "w" seconds) step))
    (hsave : (keeping seconds (held i "w" seconds)).Answers
      (.store (.save step.next (held i "w" seconds).version)) (.ok next) (keeping seconds next))
    (hproceed : Run.proceed (keeping seconds next).env next = .waiting (.invoking v)) :
    ∃ s' n', Calm s' n' ∧ s'.engine = keeping seconds next ∧
      s'.calls n' = some (.asking (.run (.invoking v))) ∧ s.history <+: s'.history := by
  have hloaded : (Call.run (.loading "i1" "w")).resume (keeping seconds (held i "w" seconds)).env
      (.ok (held i "w" seconds)) = .waiting (.run (.saving (held i "w" seconds) step)) :=
    congrArg (Progress.map Call.run CallResult.left) hbegin
  have hrecorded : (Call.run (.recording next step.entry)).resume (keeping seconds next).env () =
      .waiting (.run (.invoking v)) :=
    congrArg (Progress.map Call.run CallResult.left) hproceed
  have hsaved : (Call.run (.saving (held i "w" seconds) step)).resume (keeping seconds next).env
      (.ok next) = .waiting (.run (.recording next step.entry)) := rfl
  obtain ⟨s₁, n₁, hs₁, he₁, hover₁, hp₁⟩ :=
    hs.calls hover (o := .poll "w" none none) rfl (start_poll he "w") (he ▸ hpoll)
  obtain ⟨s₂, n₂, hs₂, he₂, hasks₂, hp₂⟩ := hs₁.begins hover₁ (o := .run "i1" "w") rfl rfl
  obtain ⟨s₃, hs₃, he₃, hasks₃, hp₃⟩ := hs₂.turn hasks₂ (he₂.trans he₁ ▸ hload) hloaded
  obtain ⟨s₄, hs₄, he₄, hasks₄, hp₄⟩ := hs₃.turn hasks₃ (he₃ ▸ hsave) hsaved
  obtain ⟨s₅, hs₅, he₅, hasks₅, hp₅⟩ := hs₄.turn hasks₄ (.inl he₄.symm) hrecorded
  exact ⟨s₅, n₂, hs₅, he₅, hasks₅, (((hp₁.trans hp₂).trans hp₃).trans hp₄).trans hp₅⟩

end Calm

/-- In some run the instance has slept, and one worker has been at work. -/
theorem exists_calm : ∃ s n, Calm s n ∧ s.calls n = none ∧ s.engine = keeping 60 asleep := by
  have hfresh : Calm (.fresh ⟨Registry.empty default, default, clock 0, .memory .empty, [], none⟩)
      0 :=
    ⟨.fresh ⟨rfl, rfl, .inl rfl⟩, fun _ _ => rfl, fun before m after hsplit => by
      simp [System.fresh] at hsplit, .nil, by simp [System.fresh], by simp [Punctual, System.fresh],
      by simp [Uncrashed, System.fresh]⟩
  have hregistered : Calm _ 0 := hfresh.snoc (.register register_graph) rfl rfl (Int.le_refl _)
    (fun _ _ => rfl) (by simp [Moment.isWork]) (by simp) (by simp)
  obtain ⟨s₁, n₁, hs₁, he₁, hover₁, -⟩ :=
    hregistered.calls rfl (o := .emit event "g") rfl (start_emit 0 .empty) alone_emit
  obtain ⟨s₂, n₂, hs₂, he₂, hover₂, -⟩ :=
    hs₁.calls hover₁ (o := .poll "w" none none) rfl (start_poll he₁ "w") (he₁ ▸ alone_poll_created)
  obtain ⟨s₃, n₃, hs₃, he₃, hover₃, -⟩ :=
    hs₂.calls hover₂ (o := .run "i1" "w") rfl rfl (he₂ ▸ alone_run_created)
  obtain ⟨s₄, hs₄, he₄, hcalls, -⟩ := hs₃.tick (clock 60) (by rw [he₃]; decide)
  exact ⟨s₄, n₃, hs₄, by rw [hcalls, hover₃], by rw [he₄, he₃]; rfl⟩

theorem begin_delayed :
    Run.begin (keeping 120 (held delayed "w" 120)).env (held delayed "w" 120) =
      .waiting (.saving (held delayed "w" 120)
        (.intend (held delayed "w" 120) "a" .sendWhatsapp (clock 120))) := by
  have hrecover : recover (keeping 120 (held delayed "w" 120)).env (held delayed "w" 120) =
    .ok none := rfl
  rw [Run.begin, hrecover]
  simp only [Run.proceed]
  rw [visit, keeping, planNode_eq rfl rfl]
  rfl

theorem proceed_hurrying :
    Run.proceed (keeping 120 hurrying).env hurrying = .waiting (.invoking hurried) := by
  rw [Run.proceed, visit, keeping, planNode_eq rfl rfl]
  rfl

theorem alone_poll_delayed :
    Alone (keeping 120 delayed) (.poll (.listing "w" (clock 120) 50))
      (keeping 120 (held delayed "w" 120)) :=
  .goesOn (.ok [delayed]) (listDue_eq rfl rfl) rfl
    (.ends (.ok (some (held delayed "w" 120))) rfl rfl)

/-- What follows from the first failure, which was due to be tried again half a minute before. -/
def suspending : Run := .saving intending (sending.retry "busy" (clock 90))

theorem alone_suspending : Alone (keeping 120 intending) (.run suspending) (keeping 120 delayed) :=
  .goesOn (.ok delayed) rfl rfl (.ends () (.inl rfl) rfl)

/-- The first try is reported to have failed, a minute after it began. -/
def reported (n : Nat) : Moment :=
  ⟨some n, .served (.run (.invoking sending)) busy, keeping 120 intending⟩

/-- The second try is reported to have succeeded, at the time at which it began. -/
def achieved (n : Nat) : Moment :=
  ⟨some n, .served (.run (.invoking hurried)) (.result (.success [])), keeping 120 hurrying⟩

/-- In some run the worker asks for the first try. -/
theorem exists_sending : ∃ s n, Calm s n ∧ s.engine = keeping 60 intending ∧
    s.calls n = some (.asking (.run (.invoking sending))) := by
  obtain ⟨s, n, hs, hover, he⟩ := exists_calm
  obtain ⟨s', n', hs', he', hasks, -⟩ :=
    hs.asks hover he alone_poll_asleep rfl begin_asleep rfl proceed_intending
  exact ⟨s', n', hs', he', hasks⟩

/-- After the failure the worker asks for the second try. -/
theorem Calm.hurries {s : System} {n : Nat} (hs : Calm s n) (hover : s.calls n = none)
    (he : s.engine = keeping 120 delayed) : ∃ s' n', Calm s' n' ∧
      s'.engine = keeping 120 hurrying ∧ s'.calls n' = some (.asking (.run (.invoking hurried))) ∧
      s.history <+: s'.history :=
  hs.asks hover he alone_poll_delayed rfl begin_delayed rfl proceed_hurrying

/-- In some run the action takes a minute to fail. It is due to be tried again half a minute after
it began to be tried, so it is tried again at once. -/
theorem exists_hurried : ∃ s before m between m' after, System.Reachable default s ∧
    (s.engine.store.isTable = true → TableStore.fits s.history.length) ∧ OneWorker s.history ∧
    Steady s.history ∧ Punctual s.history ∧
    s.history = before ++ m :: between ++ m' :: after ∧
    m.tryOf? "i1" "a" = some (sending, busy) ∧
    m'.tryOf? "i1" "a" = some (hurried, .result (.success [])) ∧ busy.isTransient = true ∧
    (sending.retryTime? default).isSome ∧
    (∀ x ∈ between, x.call = m.call → x.incident ≠ .crashed) ∧
    Apart default m between sending hurried ∧ hurried.time = m.engine.now ∧
    ¬ m.engine.now.micros + 1000000 * EngineConfig.backoff default 1 ≤ hurried.time.micros := by
  have hfails : (Call.run (.invoking sending)).resume (keeping 120 intending).env busy =
      .waiting (.run suspending) := rfl
  have hsucceeds : (Call.run (.invoking hurried)).resume (keeping 120 hurrying).env
      (.result (.success [])) = .waiting (.run (.saving hurrying _)) := rfl
  obtain ⟨s₁, n₁, hs₁, he₁, hasks₁⟩ := exists_sending
  obtain ⟨s₂, hs₂, he₂, hcalls₂, -⟩ := hs₁.tick (clock 120) (by rw [he₁]; decide)
  rw [← hcalls₂] at hasks₁
  obtain ⟨s₃, hs₃, he₃, hasks₃, hp₃⟩ := hs₂.serves hasks₁ (by rw [he₂, he₁]; rfl) hfails
  obtain ⟨s₄, hs₄, he₄, hover₄, hp₄⟩ := hs₃.alone hasks₃ (he₃ ▸ alone_suspending)
  obtain ⟨s₅, n₅, hs₅, he₅, hasks₅, hp₅⟩ := hs₄.hurries hover₄ he₄
  obtain ⟨s₆, hs₆, he₆, -, hp₆⟩ := hs₅.serves hasks₅ (by rw [he₅]; rfl) hsucceeds
  obtain ⟨between, hbetween⟩ := hp₃.trans (hp₄.trans hp₅)
  obtain ⟨after, hafter⟩ := hp₆
  have hcolumn : s₆.engine.store.isTable = true → TableStore.fits s₆.history.length := by
    simp [he₆, keeping, engine, Store.isTable]
  have hhistory :
      s₆.history = s₂.history ++ reported n₁ :: between ++ achieved n₅ :: after := by
    rw [← hafter, ← hbetween]
    simp [reported, achieved]
  have htry : (reported n₁).tryOf? "i1" "a" = some (sending, busy) := rfl
  have htry' : (achieved n₅).tryOf? "i1" "a" = some (hurried, .result (.success [])) := rfl
  have hkept (x : Moment) (hx : x ∈ between) (_ : x.call = (reported n₁).call) :
      x.incident ≠ .crashed := hs₆.kept x (by simp [hhistory, hx])
  have hsoon : ¬ (clock 120).micros + 1000000 * EngineConfig.backoff default 1 ≤
      hurried.time.micros := by decide
  exact ⟨s₆, _, _, between, _, after, hs₆.reachable, hcolumn, hs₆.one, hs₆.steady, hs₆.punctual,
    hhistory, htry, htry', rfl, rfl, hkept,
    hs₆.reachable.tries_apart hcolumn hs₆.one hs₆.steady hs₆.punctual hhistory htry htry' rfl rfl
      hkept, rfl, hsoon⟩

end Sample
end WorkflowEngine

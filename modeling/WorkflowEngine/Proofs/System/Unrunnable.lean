import WorkflowEngine.Proofs.System.LastWrites
import WorkflowEngine.Proofs.System.Ledger
import WorkflowEngine.Proofs.System.Sweeps

/-!
# Instances that cannot go on

A run that finds no plan or no node for its instance fails the instance, by the state that it read
or wrote last. If that is still stored, the failure is the last that is ever written of the
instance, and it is recorded once. Otherwise somebody else has written the instance, and the run
leaves it alone.
-/
namespace WorkflowEngine

/-- A failed instance and the entry for that, as an error demands of an instance that it keeps from
ever going on. -/
structure Error.Condemns (cause : Error) (failed : Instance) (entry : AuditEntry) : Prop where
  status : failed.status = .failed
  owner : failed.owner = none
  dispatching : failed.dispatching = none
  resumeAt : failed.resumeAt = none
  completedAt : failed.completedAt ≠ none
  named : ∃ name, cause.unrunnable? = some name ∧
    failed.error = some (name ++ ": " ++ cause.message) ∧ entry.detail = [("reason", .text name)]
  instanceId : entry.instanceId = failed.id
  node : entry.node = some failed.cursor
  outcome : entry.outcome = .failed

theorem Error.Condemns.stamped {cause : Error} {failed : Instance} {entry : AuditEntry}
    (h : cause.Condemns failed entry) (version : Version) (now : Instant) :
    cause.Condemns (failed.stamped version now) entry :=
  ⟨h.status, h.owner, h.dispatching, h.resumeAt, h.completedAt, h.named, h.instanceId, h.node,
    h.outcome⟩

theorem Error.Condemns.isTerminal {cause : Error} {failed : Instance} {entry : AuditEntry}
    (h : cause.Condemns failed entry) : failed.isTerminal = true := by
  rw [Instance.isTerminal, h.status]
  rfl

/-- The moment at which a run has last read or written its instance, and what has happened since.
What the run owes for it or has appended since is the entry for what it wrote. -/
structure Touched (h : List Moment) (n : Nat) (id : InstanceId) (w : Moment) (since : List Moment)
    (owed : List AuditEntry) : Prop where
  history : ∃ first, h = first ++ w :: since
  call : w.call = some n
  touches : (∃ worker, w.begun? = some (id, worker)) ∨ w.Writes id
  quiet : ∀ x ∈ since, x.call = some n → x.begun? = none ∧ x.written? = none
  appended : ofCall Moment.appended? n since ++ owed = w.settled?.toList

/-- A run has an instance as it has last read or written it. -/
def Holds (h : List Moment) (n : Nat) (i : Instance) (owed : List AuditEntry) : Prop :=
  ∃ w since, Touched h n i.id w since owed ∧ ∃ cur, w.find? i.id = some cur ∧
    cur.version = i.version

/-- Somebody else has written an instance since a run has last read or written it, and the run has
appended nothing but what it owed before. -/
def Overtaken (h : List Moment) (n : Nat) (id : InstanceId) : Prop :=
  ∃ w since, Touched h n id w since [] ∧ ∃ x ∈ since, x.call ≠ some n ∧ x.Writes id

/-- A run has failed its instance because of an error, and may still owe the entry for it. -/
def Condemned (h : List Moment) (n : Nat) (cause : Error) (failed : Instance) (entry : AuditEntry)
    (owed : List AuditEntry) : Prop :=
  ∃ w since, Touched h n failed.id w since owed ∧ w.written? = some failed ∧
    w.settled? = some entry ∧ cause.Condemns failed entry

section
variable {h : List Moment} {m w : Moment} {n : Nat} {id : InstanceId} {i : Instance}
  {since : List Moment} {owed owed' : List AuditEntry} {cause : Error} {entry : AuditEntry}

theorem Touched.append (hw : Touched h n id w since owed)
    (hm : m.call = some n → m.begun? = none ∧ m.written? = none)
    (howed : ofCall Moment.appended? n [m] ++ owed' = owed) :
    Touched (h ++ [m]) n id w (since ++ [m]) owed' where
  history := by
    obtain ⟨first, rfl⟩ := hw.history
    exact ⟨first, by simp⟩
  call := hw.call
  touches := hw.touches
  quiet := by
    intro x hx hcall
    rcases List.mem_append.mp hx with hx | hx
    · exact hw.quiet x hx hcall
    · obtain rfl := List.mem_singleton.mp hx
      exact hm hcall
  appended := by rw [ofCall_append, List.append_assoc, howed, hw.appended]

theorem Holds.append (hi : Holds h n i owed)
    (hm : m.call = some n → m.begun? = none ∧ m.written? = none)
    (howed : ofCall Moment.appended? n [m] ++ owed' = owed) : Holds (h ++ [m]) n i owed' := by
  obtain ⟨w, since, hw, hfound⟩ := hi
  exact ⟨w, since ++ [m], hw.append hm howed, hfound⟩

theorem Overtaken.append (hid : Overtaken h n id)
    (hm : m.call = some n → m.begun? = none ∧ m.written? = none)
    (hnothing : ofCall Moment.appended? n [m] = []) : Overtaken (h ++ [m]) n id := by
  obtain ⟨w, since, hw, x, hx, hother⟩ := hid
  refine ⟨w, since ++ [m], hw.append hm ?_, x, List.mem_append_left _ hx, hother⟩
  rw [hnothing, List.append_nil]

theorem Condemned.append (hi : Condemned h n cause i entry owed)
    (hm : m.call = some n → m.begun? = none ∧ m.written? = none)
    (howed : ofCall Moment.appended? n [m] ++ owed' = owed) :
    Condemned (h ++ [m]) n cause i entry owed' := by
  obtain ⟨w, since, hw, hthere⟩ := hi
  exact ⟨w, since ++ [m], hw.append hm howed, hthere⟩

/-- What a run has just read or written it has as it is stored. -/
theorem Touched.here (hcall : m.call = some n)
    (htouches : (∃ worker, m.begun? = some (id, worker)) ∨ m.Writes id) :
    Touched (h ++ [m]) n id m [] m.settled?.toList :=
  ⟨⟨h, rfl⟩, hcall, htouches, by simp, rfl⟩

end

/-- What a run can answer for. -/
def RunStage.Accounts (h : List Moment) (n : Nat) : RunStage → Prop
  | answered (.loading _ _) answer =>
    (∀ i : Instance, answer = .ok i → Holds h n i []) ∧
      ∀ e, answer = .error e → e.unrunnable? = none
  | answered (.saving _ step) answer =>
    ∀ stored, answer = .ok stored → Holds h n stored [step.entry]
  | asking (.recording stored entry) => Holds h n stored [entry]
  | answered (.recording stored _) _ => Holds h n stored []
  | asking (.failing failed entry cause) => Holds h n failed [] ∧ cause.Condemns failed entry
  | answered (.failing failed entry cause) answer =>
    (∀ i, answer = .ok i → Condemned h n cause i entry [entry]) ∧
      ∀ e, answer = .error e → e.isConflict = true ∧ Overtaken h n failed.id
  | asking (.recordingFailure entry cause) => ∃ i, Condemned h n cause i entry [entry]
  | answered (.recordingFailure entry cause) _ => ∃ i, Condemned h n cause i entry []
  | _ => True

/-- What a run answers for stays so while the run reads, writes and appends nothing. -/
theorem RunStage.Accounts.append {h : List Moment} {m : Moment} {n : Nat} {stage : RunStage}
    (hstage : stage.Accounts h n)
    (hm : m.call = some n → m.begun? = none ∧ m.written? = none)
    (hnothing : ofCall Moment.appended? n [m] = []) : stage.Accounts (h ++ [m]) n := by
  have howed {owed : List AuditEntry} : ofCall Moment.appended? n [m] ++ owed = owed := by
    rw [hnothing, List.nil_append]
  cases stage with
  | asking r =>
    cases r with
    | recording => exact Holds.append hstage hm howed
    | failing => exact ⟨hstage.1.append hm howed, hstage.2⟩
    | recordingFailure =>
      obtain ⟨i, hi⟩ := hstage
      exact ⟨i, hi.append hm howed⟩
    | loading | saving | invoking | reloading | recordingDropped => trivial
  | answered r answer =>
    cases r with
    | loading => exact ⟨fun i hi => (hstage.1 i hi).append hm howed, hstage.2⟩
    | saving => exact fun stored hstored => (hstage stored hstored).append hm howed
    | recording => exact Holds.append hstage hm howed
    | failing =>
      exact ⟨fun i hi => (hstage.1 i hi).append hm howed,
        fun e he => ⟨(hstage.2 e he).1, (hstage.2 e he).2.append hm hnothing⟩⟩
    | recordingFailure =>
      obtain ⟨i, hi⟩ := hstage
      exact ⟨i, hi.append hm howed⟩
    | invoking | reloading | recordingDropped => trivial

namespace Run

variable {h : List Moment} {n : Nat} {env : Env} {i : Instance} {r r' : Run} {e cause : Error}

theorem accounts_of_fail (hi : Holds h n i []) (hfail : fail env i cause = .waiting r) :
    (RunStage.asking r).Accounts h n := by
  unfold fail at hfail
  split at hfail
  · cases hfail
  · rename_i name hname
    obtain rfl := Progress.waiting.inj hfail
    exact ⟨hi, rfl, rfl, rfl, rfl, by simp, ⟨name, hname, rfl, rfl⟩, rfl, rfl, rfl⟩

theorem accounts_of_proceed (hi : Holds h n i []) (hproceed : proceed env i = .waiting r) :
    (RunStage.asking r).Accounts h n := by
  unfold proceed at hproceed
  split at hproceed
  · split at hproceed
    · obtain rfl := Progress.waiting.inj hproceed
      trivial
    · obtain rfl := Progress.waiting.inj hproceed
      trivial
    · exact accounts_of_fail hi hproceed
  · cases hproceed

theorem accounts_of_begin (hi : Holds h n i []) (hbegin : begin env i = .waiting r) :
    (RunStage.asking r).Accounts h n := by
  unfold begin at hbegin
  split at hbegin
  · obtain rfl := Progress.waiting.inj hbegin
    trivial
  · exact accounts_of_proceed hi hbegin
  · exact accounts_of_fail hi hbegin

/-- Going on, a run still answers for what it has done. -/
theorem accounts_of_resume {answer : r.request.Answer}
    (hr : (RunStage.answered r answer).Accounts h n) (hresume : r.resume env answer = .waiting r') :
    (RunStage.asking r').Accounts h n := by
  cases goesOn_of_resume hresume with
  | begun _ _ hbegin => exact accounts_of_begin (hr.1 _ rfl) hbegin
  | stored => exact hr _ rfl
  | recorded hproceed => exact accounts_of_proceed hr hproceed
  | failed => exact ⟨_, hr.1 _ rfl⟩
  | refused | concluded | reloaded => trivial

/-- An error with which a run ends at once says nothing of plans or nodes. -/
theorem unrunnable?_of_fail (hended : fail env i cause = .ended (.error e)) :
    e.unrunnable? = none := by
  unfold fail at hended
  split at hended
  · rename_i hquiet
    obtain rfl := Except.error.inj (Progress.ended.inj hended)
    exact hquiet
  · cases hended

theorem unrunnable?_of_proceed (hended : proceed env i = .ended (.error e)) :
    e.unrunnable? = none := by
  unfold proceed at hended
  split at hended
  · split at hended
    · cases hended
    · cases hended
    · exact unrunnable?_of_fail hended
  · cases hended

theorem unrunnable?_of_begin (hended : begin env i = .ended (.error e)) :
    e.unrunnable? = none := by
  unfold begin at hended
  split at hended
  · cases hended
  · exact unrunnable?_of_proceed hended
  · exact unrunnable?_of_fail hended

end Run

theorem Invocation.unrunnable?_of_conclude {config : EngineConfig} {v : Invocation} {reply : Reply}
    {e : Error} (h : reply.settle.toOutcome.bind (v.conclude config) = .error e) :
    e.unrunnable? = none := by
  rcases of_bind_eq_error h with hsettle | ⟨result, -, hconclude⟩
  · cases hreply : reply.settle with
    | ok => simp [hreply, Shaped.toOutcome] at hsettle
    | error shape =>
      rw [hreply] at hsettle
      obtain rfl := Except.error.inj hsettle
      rfl
  · cases result with
    | success => cases hconclude
    | failure reason isPermanent =>
      simp only [conclude] at hconclude
      split at hconclude
      · cases hconclude
      · split at hconclude
        · cases hconclude
        · obtain rfl := Except.error.inj hconclude
          rfl

namespace System

variable {config : EngineConfig} {s s₀ s₁ : System} {m w : Moment} {n : Nat} {id : InstanceId}
  {first since : List Moment}

/-- What nobody has written since a moment is stored as it was then. -/
theorem Reachable.find?_of_unwritten (hs : Reachable config s) (hcounts : Counts s.history)
    (hhistory : s.history = first ++ w :: since) (hunwritten : ∀ x ∈ since, ¬ x.Writes id) :
    s.engine.store.find? id = w.find? id := by
  have hlast (between rest : List Moment) (hsplit : since = between ++ rest) :
      lastStored id (first ++ w :: between) = w.find? id := by
    induction between using List.reverseRecOn generalizing rest with
    | nil => exact lastStored_append id first w
    | append_singleton between x ih =>
      have hx : s.history = (first ++ w :: between) ++ x :: rest := by simp [hhistory, hsplit]
      have hquiet : ¬ x.Writes id := hunwritten x (by simp [hsplit])
      rw [← List.cons_append, ← List.append_assoc, lastStored_append,
        (hs.written hcounts hx).2 id fun i hi hid => hquiet ⟨i, hi, hid⟩]
      exact ih (x :: rest) (by simp [hsplit])
  rw [hs.find?_eq_lastStored, hhistory]
  exact hlast since [] (by simp)

/-- A run whose write is refused has been overtaken. -/
theorem Along.overtaken (hm : Along config s s₀ s₁ m) (hcounts : Counts s.history)
    {i cur : Instance} (hi : Holds s₀.history n i []) (hcur : s₀.engine.store.find? i.id = some cur)
    (hbefore : i.version.Before cur.version) : Overtaken s₀.history n i.id := by
  obtain ⟨w, since, hw, old, hold, hversion⟩ := hi
  refine ⟨w, since, hw, ?_⟩
  by_contra hnobody
  obtain ⟨first, hfirst⟩ := hw.history
  have hunwritten (x : Moment) (hx : x ∈ since) : ¬ x.Writes i.id := by
    rintro ⟨j, hj, hid⟩
    refine hnobody ⟨x, hx, fun hcall => ?_, j, hj, hid⟩
    rw [(hw.quiet x hx hcall).2] at hj
    cases hj
  have hsame := hm.reachable.find?_of_unwritten (hm.counts hcounts).1 hfirst hunwritten
  rw [hcur, hold] at hsame
  obtain rfl := Option.some.inj hsame
  rw [hversion] at hbefore
  exact Version.not_before_self _ hbefore

/-- A run that is served answers for what it is served. -/
theorem Along.run_accounts_of_served (hm : Along config s s₀ s₁ m) (hcounts : Counts s.history)
    (hcolumn : s.engine.store.isTable = true → TableStore.fits s.history.length) {r : Run}
    {answer : r.request.Answer} (hcall : m.call = some n)
    (hrun : m.run? = some (.answered r answer)) (happended : m.appended? = r.request.appended?)
    (hsound : r.IsSound config s₀.engine.store.time s₀.history)
    (hanswer : s₀.engine.Answers r.request answer s₁.engine)
    (hr : (RunStage.asking r).Accounts s₀.history n) :
    (RunStage.answered r answer).Accounts s₁.history n := by
  have hbegun : m.begun? = (RunStage.answered r answer).begun? := by rw [Moment.begun?, hrun]; rfl
  have hwritten := Moment.written?_of_run? hrun
  have hsettled : m.settled? = (RunStage.answered r answer).settled? := by
    rw [Moment.settled?, hrun]
    rfl
  rw [hm.history]
  cases r with
  | loading id worker =>
    have hload : s₀.engine.store.load id = answer :=
      (Prod.mk.inj (Engine.perform_of_answers hanswer)).1
    refine ⟨fun i hi => ?_, fun e he => ?_⟩
    · subst hi
      have hfound := Store.find?_of_load hload
      obtain rfl : i.id = id := Instance.find?_id hfound
      have hnone : m.written? = none := hwritten
      have hthere : m.find? i.id = some i := by
        rw [(hm.written hcounts).2 i.id (by simp [hnone]), ← hm.reachable.find?_eq_lastStored,
          hfound]
      have htouched := Touched.here (h := s₀.history) hcall (.inl ⟨worker, hbegun⟩)
      rw [hsettled] at htouched
      exact ⟨m, [], htouched, i, hthere, rfl⟩
    · rw [Store.load_eq] at hload
      subst he
      split at hload
      · cases hload
      · obtain rfl := Except.error.inj hload
        rfl
  | saving base step =>
    rintro stored rfl
    have hthere := ((hm.written hcounts).1 stored hwritten).2
    have htouched := Touched.here (h := s₀.history) hcall (.inr ⟨stored, hwritten, rfl⟩)
    rw [hsettled] at htouched
    exact ⟨m, [], htouched, _, hthere, rfl⟩
  | recording stored entry =>
    refine Holds.append hr (fun _ => ⟨hbegun, hwritten⟩) ?_
    rw [ofCall_self hcall, happended]
    rfl
  | failing failed entry cause =>
    obtain ⟨hholds, hcondemns⟩ := hr
    obtain ⟨base, error, now, hseen, hheld, rfl⟩ := hsound
    have hperform := Engine.perform_of_answers hanswer
    refine ⟨fun i hi => ?_, fun e he => ?_⟩
    · subst hi
      have hlives := (hm.reachable.isSound (hm.counts hcounts).1).lives
      have hchange : Change config s₀.history base none (base.unrunnable error now) := .failed hheld
      obtain ⟨-, rfl, -⟩ := hlives.of_save (hm.counts hcounts).1 hseen hchange hperform
      have htouched := Touched.here (h := s₀.history) hcall (.inr ⟨_, hwritten, rfl⟩)
      rw [hsettled] at htouched
      exact ⟨m, [], htouched, hwritten, hsettled, hcondemns.stamped _ _⟩
    · subst he
      have hid : (base.unrunnable error now).id = base.id := rfl
      obtain ⟨hconflict, cur, hcur, hbefore⟩ := hm.of_refused hcolumn hseen hid hperform
      refine ⟨hconflict, (hm.overtaken hcounts hholds hcur hbefore).append
        (fun _ => ⟨hbegun, hwritten⟩) ?_⟩
      rw [ofCall_self hcall, happended]
      rfl
  | recordingFailure entry cause =>
    obtain ⟨i, hi⟩ := hr
    refine ⟨i, hi.append (fun _ => ⟨hbegun, hwritten⟩) ?_⟩
    rw [ofCall_self hcall, happended]
    rfl
  | invoking | reloading | recordingDropped => trivial

/-- Every run answers for what it has done. -/
theorem Reachable.accounts (hs : Reachable config s)
    (hcolumn : s.engine.store.isTable = true → TableStore.fits s.history.length) {stage : Stage}
    {r : RunStage} (hn : s.calls n = some stage) (hr : stage.run? = some r) :
    r.Accounts s.history n := by
  have hcounts := hs.counts hcolumn
  refine hs.of_stages (P := fun h n stage => ∀ r, stage.run? = some r → r.Accounts h n)
    ?_ ?_ ?_ ?_ n stage hn r hr
  · intro s₀ s₁ m o c _ _ _ hstart r hr
    obtain ⟨id, worker, rfl⟩ := (Stage.of_start hstart).1 r hr
    trivial
  · intro s₀ s₁ m n c answer hm hcall hserved hasks hanswer ih r hr
    have hsound := hm.reachable.isSound (hm.counts hcounts).1
    obtain ⟨r₀, answer₀, rfl, hruns⟩ := Stage.runs_of_answered hr
    have hrun : m.run? = some (.answered r₀ answer₀) := by
      rw [Moment.run?, hserved]
      exact hr
    have happended : m.appended? = r₀.request.appended? := by
      rw [Moment.appended?, hserved]
      cases hruns <;> rfl
    exact hm.run_accounts_of_served hcounts hcolumn hcall hrun happended
      (hruns.isSound (hsound.calls n _ hasks)) (hruns.answers hanswer) (ih _ hruns.asking)
  · intro s₀ s₁ m n c answer c' hm _ hresumed _ hresume ih r hr
    rcases Stage.run?_of_resume hresume hr with ⟨r₀, answer₀, r₁, hr₀, hnext, rfl⟩ | ⟨_, _, rfl⟩
    · rw [hm.history]
      refine (Run.accounts_of_resume (ih _ hr₀) hnext).append (fun _ => ?_) (ofCall_of_none ?_)
      · simp [Moment.begun?, Moment.run?, Moment.written?, hresumed]
      · simp [Moment.appended?, hresumed]
    · trivial
  · intro s₀ s₁ m n stage hm hcall _ ih r hr
    rw [hm.history]
    exact (ih r hr).append (fun hsame => absurd hsame hcall) (ofCall_of_ne hcall)

end System

/-- When a call goes on, a run of it ends with an error. -/
def Raises (h : List Moment) (m : Moment) (n : Nat) (e : Error) : Prop :=
  m.call = some n ∧ (∃ progress, m.incident = .resumed progress) ∧ ∃ r answer,
    (stageOf n h).bind Stage.run? = some (.answered r answer) ∧
      r.resume m.engine.env answer = .ended (.error e)

theorem Raises.of_run {h : List Moment} {n : Nat} {r : Run} {answer : r.request.Answer}
    {e e' : Engine} {cause : Error} (hended : r.resume e'.env answer = .ended (.error cause))
    (progress : Progress Call CallResult) :
    Raises (h ++ [⟨some n, .served (.run r) answer, e⟩]) ⟨some n, .resumed progress, e'⟩ n cause :=
  ⟨rfl, ⟨progress, rfl⟩, r, answer, congrArg (Option.bind · Stage.run?) (stageOf_append_self rfl),
    hended⟩

/-- A run that ends because its instance cannot go on has been overtaken, or has failed it. -/
theorem Run.of_unrunnable {config : EngineConfig} {h : List Moment} {n : Nat} {env : Env} {r : Run}
    {answer : r.request.Answer} {p : Phase} {e : Error} {name : String}
    (hr : (RunStage.answered r answer).Accounts h n)
    (hp : (RunStage.answered r answer).At config h p)
    (hended : r.resume env answer = .ended (.error e)) (hname : e.unrunnable? = some name) :
    (∃ id, Overtaken h n id) ∨ ∃ i entry, Condemned h n e i entry [] := by
  have hnever {α : Prop} (hquiet : e.unrunnable? = none) : α := by
    rw [hquiet] at hname
    cases hname
  cases r with
  | loading id worker =>
    cases answer with
    | error e' =>
      obtain rfl := Except.error.inj (Progress.ended.inj hended)
      exact hnever (hr.2 _ rfl)
    | ok i =>
      simp only [resume] at hended
      split at hended
      · exact hnever (unrunnable?_of_begin hended)
      · cases hended
  | saving base step =>
    cases answer with
    | ok => cases hended
    | error e' =>
      simp only [resume] at hended
      rw [if_pos (hp.2 e' rfl).1] at hended
      cases hended
  | recording => exact hnever (unrunnable?_of_proceed hended)
  | invoking v =>
    simp only [resume] at hended
    split at hended
    · cases hended
    · rename_i e' herror
      obtain rfl := Except.error.inj (Progress.ended.inj hended)
      exact hnever (Invocation.unrunnable?_of_conclude herror)
  | reloading id step =>
    obtain ⟨current, rfl, -⟩ := hp
    simp only [resume] at hended
    split at hended <;> cases hended
  | recordingDropped => cases hended
  | failing failed entry cause =>
    cases answer with
    | ok => cases hended
    | error e' => exact .inl ⟨failed.id, (hr.2 e' rfl).2⟩
  | recordingFailure entry cause =>
    obtain rfl := Except.error.inj (Progress.ended.inj hended)
    obtain ⟨i, hi⟩ := hr
    exact .inr ⟨i, entry, hi⟩

theorem System.Reachable.of_raises {config : EngineConfig} {s : System} (hs : Reachable config s)
    (hcolumn : s.engine.store.isTable = true → TableStore.fits s.history.length) {m : Moment}
    {n : Nat} {e : Error} {name : String} (hraises : Raises s.history m n e)
    (hname : e.unrunnable? = some name) :
    (∃ id, Overtaken s.history n id) ∨ ∃ i entry, Condemned s.history n e i entry [] := by
  obtain ⟨-, -, r, answer, hstage, hended⟩ := hraises
  obtain ⟨stage, hn, hrun⟩ := Option.bind_eq_some_iff.mp hstage
  rw [← hs.calls_eq] at hn
  obtain ⟨p, -, hp⟩ := hs.course_of_stage hcolumn hn
  rw [Stage.At, hrun] at hp
  exact Run.of_unrunnable (hs.accounts hcolumn hn hrun) hp hended hname

end WorkflowEngine

import WorkflowEngine.Proofs.System.Standing
import WorkflowEngine.Proofs.Visit.Stumped

/-!
# How a run leaves its instance

A run that no other worker disturbs follows its instance: whatever it is about to store replaces
what is stored, unless the instance has been cancelled. When the run is over, the instance is at
rest, or it has stumped the engine and is still held.
-/
namespace WorkflowEngine

/-- What a run was answered stumps the engine. -/
inductive RunStage.Stumped (env : Env) (id : InstanceId) : RunStage → Prop
  | loaded {worker : String} {i : Instance} (hid : i.id = id) (hrunning : i.status = .running)
      (howner : i.owner = some worker) (hintent : i.dispatching = none) (h : env.Stumped i) :
      Stumped env id (.answered (.loading id worker) (.ok i))
  | stored {i : Instance} {entry : AuditEntry} {answer : Unit} (hid : i.id = id)
      (hrunning : i.status = .running) (h : env.Stumped i) :
      Stumped env id (.answered (.recording i entry) answer)
  | invoked {v : Invocation} {reply : Reply} (hid : v.base.id = id)
      (h : v.Stumps env.config reply) : Stumped env id (.answered (.invoking v) reply)

/-- Nobody holds the instance, and it sleeps or has ended. -/
def Instance.Rests (i : Instance) : Prop :=
  i.owner = none ∧ (i.status = .waitingDelay ∨ i.isTerminal = true)

def AuditEntry.Reports (id : InstanceId) (entry : AuditEntry) : Prop :=
  entry.instanceId = id ∧ (entry.outcome = .failed ∨ entry.outcome = .actionFailed)

def Request.appended? : Request → Option AuditEntry
  | .append entry => some entry
  | _ => none

/-- A call has appended an entry; whether it was lost, the call does not know. -/
def Appended (h : List Moment) (n : Nat) (entry : AuditEntry) : Prop :=
  ∃ m ∈ h, m.call = some n ∧
    ∃ c answer, m.incident = .served c answer ∧ c.request.appended? = some entry

/-- An instance is stored for a worker to go on with, or has been cancelled since. -/
structure HeldBy (time : Instant → Instant) (h : List Moment) (worker : String) (i : Instance) :
    Prop where
  running : i.status = .running
  owner : i.owner = some worker
  stands : Stands time h i

def Pending (time : Instant → Instant) (h : List Moment) (worker : String) (id : InstanceId) :
    Prop :=
  ∃ i, i.id = id ∧ HeldBy time h worker i

/-- A run has stored an instance, and is about to append the entry for it. -/
structure Went (time : Instant → Instant) (h : List Moment) (worker : String) (i : Instance)
    (entry : AuditEntry) : Prop where
  stands : Stands time h i
  leaves : i.status = .running ∧ i.owner = some worker ∨
    i.Rests ∧ (i.status = .failed → entry.Reports i.id)

/-- What a run goes by that no other worker disturbs. -/
def RunStage.Follows (time : Instant → Instant) (h : List Moment) (n : Nat) (worker : String)
    (id : InstanceId) : RunStage → Prop
  | asking (.loading id' worker') =>
    id' = id ∧ worker' = worker ∧ Pending time h worker id
  | answered (.loading id' worker') answer =>
    id' = id ∧ worker' = worker ∧ ∃ i, answer = .ok i ∧ i.id = id ∧
      (HeldBy time h worker i ∨ i.status = .cancelled ∧ Gone h id)
  | asking (.saving base _) => base.id = id ∧ HeldBy time h worker base
  | answered (.saving base step) answer =>
    base.id = id ∧ (∀ i, answer = .ok i → i.id = id ∧ Went time h worker i step.entry) ∧
      ∀ e, answer = .error e → Gone h id
  | asking (.recording i entry) => i.id = id ∧ Went time h worker i entry
  | answered (.recording i entry) _ =>
    i.id = id ∧ Went time h worker i entry ∧ Appended h n entry
  | asking (.invoking v) | answered (.invoking v) _ => v.base.id = id ∧ HeldBy time h worker v.base
  | asking (.reloading id' _) | answered (.reloading id' _) _ => id' = id ∧ Gone h id
  | asking (.recordingDropped _ _) | answered (.recordingDropped _ _) _ => Gone h id
  | asking (.failing failed entry _) =>
    entry.Reports id ∧ ∃ base error now, base.id = id ∧ HeldBy time h worker base ∧
      failed = base.unrunnable error now
  | answered (.failing _ entry _) answer =>
    entry.Reports id ∧ (∀ i, answer = .ok i → i.id = id ∧ i.Rests ∧ Stands time h i) ∧
      ∀ e, answer = .error e → Gone h id
  | asking (.recordingFailure entry _) =>
    entry.Reports id ∧ ∃ i, i.id = id ∧ i.Rests ∧ Stands time h i
  | answered (.recordingFailure entry _) _ =>
    entry.Reports id ∧ Appended h n entry ∧ ∃ i, i.id = id ∧ i.Rests ∧ Stands time h i

/-- How a run leaves its instance, given whether the engine was stumped. -/
def LeftBehind (time : Instant → Instant) (h : List Moment) (n : Nat) (worker : String)
    (id : InstanceId) (stumped : Prop) : Prop :=
  Gone h id ∨ ∃ i, i.id = id ∧ Stands time h i ∧
    (stumped ∧ i.status = .running ∧ i.owner = some worker ∨
      ¬ stumped ∧ i.Rests ∧ (i.status = .failed → ∃ entry, Appended h n entry ∧ entry.Reports id))

section
variable {time : Instant → Instant} {h : List Moment} {n : Nat} {worker : String} {id : InstanceId}
  {env : Env} {i : Instance}

theorem Appended.append {entry : AuditEntry} (hentry : Appended h n entry) (h' : List Moment) :
    Appended (h ++ h') n entry := by
  obtain ⟨m, hm, happended⟩ := hentry
  exact ⟨m, List.mem_append_left _ hm, happended⟩

theorem HeldBy.of_stays {h' : List Moment} (hi : HeldBy time h worker i)
    (hstays : Stays h h' i.id) : HeldBy time h' worker i :=
  ⟨hi.running, hi.owner, hi.stands.of_stays hstays⟩

theorem Pending.of_stays {h' : List Moment} (hid : Pending time h worker id)
    (hstays : Stays h h' id) : Pending time h' worker id := by
  obtain ⟨i, rfl, hi⟩ := hid
  exact ⟨i, rfl, hi.of_stays hstays⟩

/-- What is held is stored as it is held, or cancelled. -/
theorem Pending.cases {cur : Instance} (hid : Pending time h worker id)
    (hcur : lastStored id h = some cur) : cur.owner = some worker ∨ cur.status = .cancelled := by
  obtain ⟨i, rfl, hi⟩ := hid
  rcases hi.stands with hstored | ⟨j, hj, hcancelled, -⟩
  · obtain rfl := Option.some.inj (hcur.symm.trans hstored)
    exact .inl hi.owner
  · obtain rfl := Option.some.inj (hcur.symm.trans hj)
    exact .inr hcancelled

theorem Went.of_stays {h' : List Moment} {entry : AuditEntry} (hi : Went time h worker i entry)
    (hstays : Stays h h' i.id) : Went time h' worker i entry :=
  ⟨hi.stands.of_stays hstays, hi.leaves⟩

theorem RunStage.Follows.append {m : Moment} {stage : RunStage}
    (hstage : stage.Follows time h n worker id) (hstays : Stays h (h ++ [m]) id) :
    stage.Follows time (h ++ [m]) n worker id := by
  have hheld {i : Instance} (hid : i.id = id) (hi : HeldBy time h worker i) :
      HeldBy time (h ++ [m]) worker i := hi.of_stays (hid ▸ hstays)
  have hwent {i : Instance} {entry : AuditEntry} (hid : i.id = id)
      (hi : Went time h worker i entry) : Went time (h ++ [m]) worker i entry :=
    hi.of_stays (hid ▸ hstays)
  have hstands {i : Instance} (hid : i.id = id) (hi : Stands time h i) :
      Stands time (h ++ [m]) i := hi.of_stays (hid ▸ hstays)
  cases stage with
  | asking r =>
    cases r with
    | loading =>
      obtain ⟨hid, hworker, hpending⟩ := hstage
      exact ⟨hid, hworker, hpending.of_stays hstays⟩
    | saving => exact ⟨hstage.1, hheld hstage.1 hstage.2⟩
    | recording => exact ⟨hstage.1, hwent hstage.1 hstage.2⟩
    | invoking => exact ⟨hstage.1, hheld hstage.1 hstage.2⟩
    | reloading => exact ⟨hstage.1, hstage.2.of_stays hstays⟩
    | recordingDropped => exact Gone.of_stays hstage hstays
    | failing =>
      obtain ⟨hreports, base, error, now, hid, hbase, hfailed⟩ := hstage
      exact ⟨hreports, base, error, now, hid, hheld hid hbase, hfailed⟩
    | recordingFailure =>
      obtain ⟨hreports, i, hid, hrests, hi⟩ := hstage
      exact ⟨hreports, i, hid, hrests, hstands hid hi⟩
  | answered r answer =>
    cases r with
    | loading =>
      obtain ⟨hid, hworker, i, hanswer, hi, hi' | ⟨hstatus, hgone⟩⟩ := hstage
      · exact ⟨hid, hworker, i, hanswer, hi, .inl (hheld hi hi')⟩
      · exact ⟨hid, hworker, i, hanswer, hi, .inr ⟨hstatus, hgone.of_stays hstays⟩⟩
    | saving =>
      obtain ⟨hid, hok, herror⟩ := hstage
      refine ⟨hid, fun i hi => ?_, fun e he => (herror e he).of_stays hstays⟩
      exact ⟨(hok i hi).1, hwent (hok i hi).1 (hok i hi).2⟩
    | recording => exact ⟨hstage.1, hwent hstage.1 hstage.2.1, hstage.2.2.append _⟩
    | invoking => exact ⟨hstage.1, hheld hstage.1 hstage.2⟩
    | reloading => exact ⟨hstage.1, hstage.2.of_stays hstays⟩
    | recordingDropped => exact Gone.of_stays hstage hstays
    | failing =>
      obtain ⟨hreports, hok, herror⟩ := hstage
      refine ⟨hreports, fun i hi => ?_, fun e he => (herror e he).of_stays hstays⟩
      obtain ⟨hid, hrests, hi'⟩ := hok i hi
      exact ⟨hid, hrests, hstands hid hi'⟩
    | recordingFailure =>
      obtain ⟨hreports, happended, i, hid, hrests, hi⟩ := hstage
      exact ⟨hreports, happended.append _, i, hid, hrests, hstands hid hi⟩

theorem RunStage.Follows.eq_of_stumped {stage : RunStage} {id' : InstanceId}
    (hstage : stage.Follows time h n worker id) (hstumped : stage.Stumped env id') : id' = id := by
  cases hstumped with
  | loaded hid =>
    obtain ⟨-, -, i, hanswer, hi, -⟩ := hstage
    obtain rfl := Except.ok.inj hanswer
    exact hid.symm.trans hi
  | stored hid => exact hid.symm.trans hstage.1
  | invoked hid => exact hid.symm.trans hstage.1

/-- A step leaves an instance to its worker, or at rest. -/
theorem Stepped.leaves {config : EngineConfig} {p : Plan} {made : Invocation → Prop} {step : Step}
    (hstep : Stepped config p made i step) (hrunning : i.status = .running)
    (howner : i.owner = some worker) :
    step.next.status = .running ∧ step.next.owner = some worker ∨
      step.next.Rests ∧ (step.next.status = .failed → step.entry.Reports i.id) := by
  by_cases hnext : step.next.status = .running
  · exact .inl ⟨hnext, (hstep.owner_eq hnext).trans howner⟩
  · right
    cases hstep with
    | @passed _ exit =>
      cases exit with
      | none => exact ⟨⟨rfl, .inr rfl⟩, fun hfailed => by cases hfailed⟩
      | some target => exact absurd hrunning hnext
    | intended => exact absurd hrunning hnext
    | slept => exact ⟨⟨rfl, .inl rfl⟩, fun hfailed => by cases hfailed⟩
    | @succeeded v _ hv =>
      obtain rfl := hv.base
      cases hexit : v.exit with
      | none =>
        simp only [Step.advance]
        exact ⟨⟨rfl, .inr rfl⟩, fun hfailed => by cases hfailed⟩
      | some target =>
        rw [hexit] at hnext
        exact absurd hrunning hnext
    | gaveUp hv =>
      obtain rfl := hv.base
      exact ⟨⟨rfl, .inr rfl⟩, fun _ => ⟨rfl, .inr rfl⟩⟩
    | retried hv =>
      obtain rfl := hv.base
      exact ⟨⟨rfl, .inl rfl⟩, fun hfailed => by cases hfailed⟩
    | recovered => exact absurd hrunning hnext
    | abandoned => exact ⟨⟨rfl, .inr rfl⟩, fun _ => ⟨rfl, .inl rfl⟩⟩

/-- What a run comes to, given whether it was answered something that stumps the engine. -/
def Run.Fares (time : Instant → Instant) (h : List Moment) (n : Nat) (worker : String)
    (id : InstanceId) (stumped : Prop) : Progress Run Instance → Prop
  | .waiting r => ¬ stumped ∧ (RunStage.asking r).Follows time h n worker id
  | .ended _ => LeftBehind time h n worker id stumped

namespace Run

variable {stumped : Prop}

theorem fares_of_fail {e : Error} (hid : i.id = id) (hi : HeldBy time h worker i)
    (hstumped : stumped ↔ e.unrunnable? = none) :
    Fares time h n worker id stumped (fail env i e) := by
  unfold fail
  split
  · rename_i hquiet
    exact .inr ⟨i, hid, hi.stands, .inl ⟨hstumped.mpr hquiet, hi.running, hi.owner⟩⟩
  · rename_i hname
    refine ⟨fun h => ?_, ⟨hid, .inl rfl⟩, i, _, _, hid, hi, rfl⟩
    rw [hstumped.mp h] at hname
    cases hname

theorem fares_of_proceed (hid : i.id = id) (hi : HeldBy time h worker i)
    (hstumped : stumped ↔ env.Stumped i) :
    Fares time h n worker id stumped (proceed env i) := by
  have hlive : i.isTerminal = false := by simp [Instance.isTerminal, hi.running, Status.isTerminal]
  have hcalm {result : Visit} (hvisit : visit env i = .ok result) : ¬ stumped := by
    intro h
    obtain ⟨e, herror, -⟩ := (Env.stumped_iff hlive).mp (hstumped.mp h)
    rw [hvisit] at herror
    cases herror
  rw [proceed, if_pos hi.running]
  split
  · rename_i step hvisit
    exact ⟨hcalm hvisit, hid, hi⟩
  · rename_i v hvisit
    obtain ⟨p, -, hv⟩ := isFor_of_visit hvisit
    obtain rfl := hv.base
    exact ⟨hcalm hvisit, hid, hi⟩
  · rename_i e hvisit
    refine fares_of_fail hid hi (hstumped.trans ((Env.stumped_iff hlive).trans ?_))
    constructor
    · rintro ⟨e', herror, hquiet⟩
      obtain rfl := Except.error.inj (hvisit.symm.trans herror)
      exact hquiet
    · exact fun hquiet => ⟨e, hvisit, hquiet⟩

theorem fares_of_begin (hid : i.id = id) (hi : HeldBy time h worker i)
    (hstumped : stumped ↔ i.dispatching = none ∧ env.Stumped i) :
    Fares time h n worker id stumped (begin env i) := by
  have hcalm {result : Outcome (Option Step)} (hrecover : recover env i = result)
      (hresult : result ≠ .ok none) : ¬ stumped := by
    intro h
    refine hresult (hrecover.symm.trans ?_)
    rw [recover, (hstumped.mp h).1]
  unfold begin
  rcases recover_cases env i with
      ⟨step, hrecover⟩ | ⟨hintent, hrecover⟩ | ⟨e, hrecover, hrecorded⟩
  · rw [hrecover]
    exact ⟨hcalm hrecover (by simp), hid, hi⟩
  · rw [hrecover]
    exact fares_of_proceed hid hi (hstumped.trans (and_iff_right hintent))
  · rw [hrecover]
    refine fares_of_fail hid hi ⟨fun h => absurd h (hcalm hrecover (by simp)), fun hquiet => ?_⟩
    rw [hquiet] at hrecorded
    cases hrecorded

/-- A run that goes by its instance still does so after an answer, or leaves it. -/
theorem fares_of_resume (env : Env) {r : Run} {answer : r.request.Answer}
    (hr : (RunStage.answered r answer).Follows time h n worker id) :
    Fares time h n worker id ((RunStage.answered r answer).Stumped env id)
      (r.resume env answer) := by
  cases r with
  | loading id' worker' =>
    obtain ⟨rfl, rfl, i, rfl, hid, hi | ⟨hcancelled, hgone⟩⟩ := hr
    · have hresume : resume env (.loading id' worker') (.ok i) = begin env i :=
        if_pos ⟨hi.running, hi.owner⟩
      rw [hresume]
      refine fares_of_begin hid hi ⟨fun h => ?_, fun h => ?_⟩
      · cases h with
        | loaded _ _ _ hintent h => exact ⟨hintent, h⟩
      · exact .loaded hid hi.running hi.owner h.1 h.2
    · have hresume : resume env (.loading id' worker') (.ok i) = .ended (.ok i) :=
        if_neg (by simp [hcancelled])
      rw [hresume]
      exact .inl hgone
  | saving base step =>
    obtain ⟨hid, hok, herror⟩ := hr
    cases answer with
    | ok stored => exact ⟨(fun h => by cases h), hok stored rfl⟩
    | error e =>
      have hgone := herror e rfl
      simp only [resume]
      split
      · exact ⟨(fun h => by cases h), hid, hgone⟩
      · exact .inl hgone
  | recording stored entry =>
    obtain ⟨hid, hwent, happended⟩ := hr
    change Fares time h n worker id _ (proceed env stored)
    rcases hwent.leaves with ⟨hrunning, howner⟩ | ⟨hrests, hreports⟩
    · refine fares_of_proceed hid ⟨hrunning, howner, hwent.stands⟩ ⟨fun h => ?_, fun h => ?_⟩
      · cases h with
        | stored _ _ h => exact h
      · exact .stored hid hrunning h
    · have hrunning : stored.status ≠ .running := by
        rcases hrests.2 with hasleep | hended
        · simp [hasleep]
        · intro hrunning
          simp [Instance.isTerminal, hrunning, Status.isTerminal] at hended
      rw [proceed, if_neg hrunning]
      refine .inr ⟨stored, hid, hwent.stands, .inr ⟨?_, hrests, fun hfailed => ?_⟩⟩
      · rintro (_ | ⟨_, h, _⟩)
        exact hrunning h
      · exact ⟨entry, happended, hid ▸ hreports hfailed⟩
  | invoking v =>
    obtain ⟨hid, hv⟩ := hr
    have hstumped : (RunStage.answered (.invoking v) answer).Stumped env id ↔
        v.Stumps env.config answer := by
      constructor
      · rintro (_ | _ | ⟨_, h⟩)
        exact h
      · exact .invoked hid
    simp only [resume]
    split
    · rename_i step hstep
      refine ⟨fun h => ?_, hid, hv⟩
      obtain ⟨e, herror⟩ := Invocation.stumps_iff.mp (hstumped.mp h)
      rw [hstep] at herror
      cases herror
    · rename_i e herror
      have hstumps := hstumped.mpr (Invocation.stumps_iff.mpr ⟨e, herror⟩)
      exact .inr ⟨v.base, hid, hv.stands, .inl ⟨hstumps, hv.running, hv.owner⟩⟩
  | reloading id' step =>
    obtain ⟨-, hgone⟩ := hr
    simp only [resume]
    split
    · split
      · exact ⟨(fun h => by cases h), hgone⟩
      · exact .inl hgone
    · exact .inl hgone
  | recordingDropped => exact .inl hr
  | failing failed entry cause =>
    obtain ⟨hreports, hok, herror⟩ := hr
    cases answer with
    | ok i => exact ⟨(fun h => by cases h), hreports, i, hok i rfl⟩
    | error e => exact .inl (herror e rfl)
  | recordingFailure entry cause =>
    obtain ⟨hreports, happended, i, hid, hrests, hi⟩ := hr
    refine .inr ⟨i, hid, hi, .inr ⟨fun h => ?_, hrests, fun _ => ⟨entry, happended, hreports⟩⟩⟩
    cases h

end Run
end

namespace System.Along

variable {config : EngineConfig} {s s₀ s₁ : System} {m : Moment} {id : InstanceId}
  {worker : String} {n : Nat}

/-- What goes by the instance as it stands is stored, unless the instance has been cancelled. -/
theorem saved (hm : Along config s s₀ s₁ m) (hcounts : Counts s.history)
    (hcolumn : s.engine.store.isTable = true → TableStore.fits s.history.length)
    {i base next : Instance} {step : Option WorkflowEngine.Step} {answer : Outcome Instance}
    (hi : Stands s.engine.store.time s₀.history i) (hid : base.id = i.id)
    (hversion : base.version = i.version) (hseen : Seen s.engine.store.time s₀.history base)
    (hchange : Change config s₀.history base step next)
    (hperform : s₀.engine.store.perform s₀.engine.now (.save next i.version) =
      (answer, s₁.engine.store))
    (hwritten : m.written? = answer.toOption) :
    (∀ stored, answer = .ok stored → Stands s.engine.store.time s₁.history stored ∧
        ∃ version now, stored = next.stamped version now) ∧
      (∀ e, answer = .error e → Gone s₁.history i.id) ∧
      ∀ id, id ≠ i.id → Stays s₀.history s₁.history id := by
  have hcounts₀ := (hm.counts hcounts).1
  have hlives := (hm.reachable.isSound hcounts₀).lives
  rw [hm.time_eq] at hlives
  have hnext : next.id = base.id := hchange.next_eq.1
  rw [← hversion] at hperform
  cases answer with
  | ok stored =>
    obtain ⟨-, rfl, -⟩ := hlives.of_save hcounts₀ hseen hchange hperform
    have hthere := ((hm.written hcounts).1 _ hwritten).2
    refine ⟨fun stored hstored => ?_, fun e he => ?_, fun id hne => ?_⟩
    · obtain rfl := Except.ok.inj hstored
      refine ⟨.inl ?_, _, _, rfl⟩
      rw [hm.history, lastStored_append, hthere]
    · cases he
    · refine hm.stays_elsewhere hcounts hwritten fun heq => hne ?_
      exact heq.trans (hnext.trans hid)
  | error e =>
    have hstays := hm.stays_of_unwritten hcounts hwritten
    refine ⟨fun stored hstored => ?_, fun _ _ => ?_, fun id _ => hstays id⟩
    · cases hstored
    · rcases hi with hstored | hgone
      · rw [← hm.time_eq] at hseen
        obtain ⟨-, cur, hcur, hbefore⟩ := hm.of_refused hcolumn hseen hnext hperform
        rw [hm.reachable.find?_eq_lastStored, hid, hstored] at hcur
        obtain rfl := Option.some.inj hcur
        rw [hversion] at hbefore
        exact absurd hbefore (Version.not_before_self _)
      · exact hgone.of_stays (hstays _)

theorem loaded (hm : Along config s s₀ s₁ m) (hcounts : Counts s.history)
    {answer : Outcome Instance} {i : Instance} (hi : HeldBy s.engine.store.time s₀.history worker i)
    (hperform : s₀.engine.store.perform s₀.engine.now (.load i.id) = (answer, s₁.engine.store))
    (hwritten : m.written? = none) :
    ∃ j, answer = .ok j ∧ j.id = i.id ∧ (HeldBy s.engine.store.time s₁.history worker j ∨
      j.status = .cancelled ∧ Gone s₁.history i.id) := by
  have hstays := hm.stays_of_unwritten hcounts hwritten i.id
  have hload : s₀.engine.store.load i.id = answer := (Prod.mk.inj hperform).1
  rw [Store.load_eq, hm.reachable.find?_eq_lastStored] at hload
  rcases hi.stands with hstored | hgone
  · rw [hstored] at hload
    have hkept : (i.kept s.engine.store.time).kept s.engine.store.time =
        i.kept s.engine.store.time := Store.kept_kept _ i
    refine ⟨i.kept s.engine.store.time, hload.symm, rfl, .inl ⟨hi.running, hi.owner, ?_⟩⟩
    rcases hi.stands.of_stays hstays with hstored | hgone
    · exact .inl (by rw [hkept]; exact hstored)
    · exact .inr hgone
  · obtain ⟨j, hj, hcancelled, howner⟩ := hgone
    rw [hj] at hload
    have hid : j.id = i.id := by
      rw [← hm.reachable.find?_eq_lastStored] at hj
      exact Instance.find?_id hj
    exact ⟨j, hload.symm, hid, .inr ⟨hcancelled, Gone.of_stays ⟨j, hj, hcancelled, howner⟩ hstays⟩⟩

/-- A run that is served still goes by its instance, and nothing happens to any other one. -/
theorem follows_of_served (hm : Along config s s₀ s₁ m) (hcounts : Counts s.history)
    (hcolumn : s.engine.store.isTable = true → TableStore.fits s.history.length) {r : Run}
    {answer : r.request.Answer} (hsound : r.IsSound config s.engine.store.time s₀.history)
    (hanswer : s₀.engine.Answers r.request answer s₁.engine)
    (hwritten : m.written? = r.request.written? answer)
    (happended : ∀ entry, r.request.appended? = some entry → Appended s₁.history n entry)
    (hr : (RunStage.asking r).Follows s.engine.store.time s₀.history n worker id) :
    (RunStage.answered r answer).Follows s.engine.store.time s₁.history n worker id ∧
      ∀ id', id' ≠ id → Stays s₀.history s₁.history id' := by
  cases r with
  | loading id' worker' =>
    have hstays := hm.stays_of_unwritten hcounts hwritten
    obtain ⟨rfl, rfl, i, rfl, hi⟩ := hr
    have hj := hm.loaded hcounts hi (Engine.perform_of_answers hanswer) hwritten
    exact ⟨⟨rfl, rfl, hj⟩, fun id' _ => hstays id'⟩
  | saving base step =>
    obtain ⟨rfl, hi⟩ := hr
    obtain ⟨hseen, hheld, p, hbound, hstep⟩ := hsound
    obtain ⟨hok, herror, hothers⟩ := hm.saved hcounts hcolumn hi.stands rfl rfl hseen
      (.stepped hbound hheld hstep) (Engine.perform_of_answers hanswer) hwritten
    refine ⟨⟨rfl, fun stored hstored => ?_, herror⟩, hothers⟩
    obtain ⟨hstands, version, now, rfl⟩ := hok stored hstored
    have hid : (step.next.stamped version now).id = base.id := hstep.next_eq.1
    refine ⟨hid, hstands, ?_⟩
    rw [hid]
    exact hstep.leaves hi.running hi.owner
  | recording stored entry =>
    have hstays := hm.stays_of_unwritten hcounts hwritten
    obtain ⟨rfl, hwent⟩ := hr
    exact ⟨⟨rfl, hwent.of_stays (hstays _), happended entry rfl⟩, fun id' _ => hstays id'⟩
  | invoking v =>
    have hstays := hm.stays_of_unwritten hcounts hwritten
    obtain ⟨rfl, hi⟩ := hr
    exact ⟨⟨rfl, hi.of_stays (hstays _)⟩, fun id' _ => hstays id'⟩
  | reloading id' step =>
    have hstays := hm.stays_of_unwritten hcounts hwritten
    exact ⟨⟨hr.1, hr.2.of_stays (hstays _)⟩, fun id' _ => hstays id'⟩
  | recordingDropped current entry =>
    have hstays := hm.stays_of_unwritten hcounts hwritten
    exact ⟨Gone.of_stays hr (hstays _), fun id' _ => hstays id'⟩
  | failing failed entry cause =>
    obtain ⟨hreports, i, error, now, rfl, hi, rfl⟩ := hr
    obtain ⟨base, error', now', hseen, hheld, heq⟩ := hsound
    have hid : base.id = i.id := congrArg (·.id) heq.symm
    have hversion : base.version = i.version := congrArg (·.version) heq.symm
    have hchange : Change config s₀.history base none (i.unrunnable error now) :=
      heq ▸ .failed hheld
    obtain ⟨hok, herror, hothers⟩ := hm.saved hcounts hcolumn hi.stands hid hversion hseen
      hchange (Engine.perform_of_answers hanswer) hwritten
    refine ⟨⟨hreports, fun stored hstored => ?_, herror⟩, hothers⟩
    obtain ⟨hstands, version, now, rfl⟩ := hok stored hstored
    exact ⟨rfl, ⟨rfl, .inr rfl⟩, hstands⟩
  | recordingFailure entry cause =>
    have hstays := hm.stays_of_unwritten hcounts hwritten
    obtain ⟨hreports, i, rfl, hrests, hi⟩ := hr
    exact ⟨⟨hreports, happended entry rfl, i, rfl, hrests, hi.of_stays (hstays _)⟩,
      fun id' _ => hstays id'⟩

end System.Along
end WorkflowEngine

import WorkflowEngine.Proofs.System.Served

/-!
# What calls go by

A call goes by instances that were stored when it read or wrote them, and by what it found there.
Each answer leaves it sound: what it asks for next follows from what was stored.
-/
namespace WorkflowEngine

section
variable {h : List Moment} {p : Plan} {i : Instance}

theorem Registered.append (hp : Registered h p) (h' : List Moment) : Registered (h ++ h') p := by
  obtain ⟨m, hm, hincident⟩ := hp
  exact ⟨m, List.mem_append_left _ hm, hincident⟩

theorem BoundTo.append (hbound : BoundTo h p i) (h' : List Moment) : BoundTo (h ++ h') p i :=
  ⟨hbound.registered.append h', hbound.graphId, hbound.version⟩

theorem Made.append {v : Invocation} (hmade : Made h v) (h' : List Moment) : Made (h ++ h') v := by
  obtain ⟨m, hm, hinvocation⟩ := hmade
  exact ⟨m, List.mem_append_left _ hm, hinvocation⟩

theorem Stepped.imp {config : EngineConfig} {made made' : Invocation → Prop} {step : Step}
    (himp : ∀ v, made v → made' v) (hstep : Stepped config p made i step) :
    Stepped config p made' i step := by
  cases hstep with
  | passed hnode hkind houtcome hexit => exact .passed hnode hkind houtcome hexit
  | intended hnode hkind hintent => exact .intended hnode hkind hintent
  | slept hnode hdelay => exact .slept hnode hdelay
  | succeeded hv hmade => exact .succeeded hv (himp _ hmade)
  | gaveUp hv hmade => exact .gaveUp hv (himp _ hmade)
  | retried hv hmade hmore => exact .retried hv (himp _ hmade) hmore
  | recovered hintent hnode hkind hidempotent =>
    exact .recovered hintent hnode hkind hidempotent
  | abandoned hintent hnode hrisky => exact .abandoned hintent hnode hrisky

/-- A registry of which every plan was registered. -/
def Registry.IsKnown (r : Registry) (h : List Moment) : Prop := ∀ p ∈ r.plans, Registered h p

theorem Registry.IsKnown.boundTo {r : Registry} (hr : r.IsKnown h) (hbinds : r.Binds p i) :
    BoundTo h p i := ⟨hr p hbinds.1, hbinds.2.1, hbinds.2.2⟩

/-- The instance of an event, for a plan that was registered. -/
def Draft.IsPlanned (h : List Moment) (d : Draft) : Prop :=
  ∃ p e now, Registered h p ∧ d = Event.draft e p now

theorem Draft.IsPlanned.append {d : Draft} (hd : d.IsPlanned h) (h' : List Moment) :
    d.IsPlanned (h ++ h') := by
  obtain ⟨p, e, now, hp, rfl⟩ := hd
  exact ⟨p, e, now, hp.append h', rfl⟩

theorem Event.isPlanned {env : Env} {e : Event} {graphId : String} {d : Draft}
    (hr : env.registry.IsKnown h) (hdraft : e.draftFor env graphId = .ok (some d)) :
    d.IsPlanned h := by
  obtain ⟨p, hplan, hdraft⟩ := of_bind_eq_ok hdraft
  obtain ⟨accepted, -, hdraft⟩ := of_bind_eq_ok hdraft
  cases accepted with
  | false => cases hdraft
  | true =>
    obtain rfl := Option.some.inj (Except.ok.inj hdraft)
    exact ⟨p, e, env.now, hr p (Registry.plan_eq_ok hplan).1, rfl⟩

end

section
variable {config : EngineConfig} {time : Instant → Instant} {h : List Moment} {env : Env}

namespace Run

/-- How a run goes on from an answer. -/
inductive GoesOn (env : Env) : (r : Run) → r.request.Answer → Run → Prop where
  | begun {id : InstanceId} {worker : String} {i : Instance} {r : Run}
      (hrunning : i.status = .running) (howner : i.owner = some worker)
      (hbegin : begin env i = .waiting r) : GoesOn env (.loading id worker) (.ok i) r
  | stored {base stored : Instance} {step : Step} :
      GoesOn env (.saving base step) (.ok stored) (.recording stored step.entry)
  | refused {base : Instance} {step : Step} {e : Error} (hconflict : e.isConflict = true) :
      GoesOn env (.saving base step) (.error e) (.reloading base.id step)
  | recorded {stored : Instance} {entry : AuditEntry} {answer : Unit} {r : Run}
      (hproceed : proceed env stored = .waiting r) : GoesOn env (.recording stored entry) answer r
  | concluded {v : Invocation} {reply : Reply} {step : Step}
      (hstep : reply.settle.toOutcome.bind (v.conclude env.config) = .ok step) :
      GoesOn env (.invoking v) reply (.saving v.base step)
  | reloaded {id : InstanceId} {step : Step} {current : Instance} (hinvoked : step.invoked = true) :
      GoesOn env (.reloading id step) (.ok current)
        (.recordingDropped current (step.droppedEntry current env.now))
  | failed {failed stored : Instance} {entry : AuditEntry} {cause : Error} :
      GoesOn env (.failing failed entry cause) (.ok stored) (.recordingFailure entry cause)

theorem goesOn_of_resume {r r' : Run} {answer : r.request.Answer}
    (hresume : r.resume env answer = .waiting r') : GoesOn env r answer r' := by
  cases r with
  | loading id worker =>
    simp only [resume] at hresume
    split at hresume
    · split at hresume
      · rename_i hheld
        exact .begun hheld.1 hheld.2 hresume
      · cases hresume
    · cases hresume
  | saving base step =>
    simp only [resume] at hresume
    split at hresume
    · obtain rfl := Progress.waiting.inj hresume
      exact .stored
    · split at hresume
      · rename_i hconflict
        obtain rfl := Progress.waiting.inj hresume
        exact .refused hconflict
      · cases hresume
  | recording stored entry => exact .recorded hresume
  | invoking v =>
    simp only [resume] at hresume
    split at hresume
    · rename_i step hstep
      obtain rfl := Progress.waiting.inj hresume
      exact .concluded hstep
    · cases hresume
  | reloading id step =>
    simp only [resume] at hresume
    split at hresume
    · split at hresume
      · rename_i hinvoked
        obtain rfl := Progress.waiting.inj hresume
        exact .reloaded hinvoked
      · cases hresume
    · cases hresume
  | recordingDropped current entry => cases hresume
  | failing failed entry cause =>
    simp only [resume] at hresume
    split at hresume
    · obtain rfl := Progress.waiting.inj hresume
      exact .failed
    · cases hresume
  | recordingFailure entry cause => cases hresume

/-- What a run goes by. -/
def IsSound (config : EngineConfig) (time : Instant → Instant) (h : List Moment) : Run → Prop
  | saving base step =>
    Seen time h base ∧ base.IsHeld ∧ ∃ p, BoundTo h p base ∧ Stepped config p (Made h) base step
  | recording stored _ => Seen time h stored ∧ (stored.status = .running → stored.IsHeld)
  | invoking v => Seen time h v.base ∧ v.base.IsHeld ∧ ∃ p, BoundTo h p v.base ∧ v.IsFor p v.base
  | failing failed _ _ =>
    ∃ base error now, Seen time h base ∧ base.IsHeld ∧ failed = base.unrunnable error now
  | _ => True

theorem IsSound.append {r : Run} (hr : r.IsSound config time h) (h' : List Moment) :
    r.IsSound config time (h ++ h') := by
  cases r with
  | saving base step =>
    obtain ⟨hseen, hheld, p, hbound, hstep⟩ := hr
    exact ⟨hseen.append h', hheld, p, hbound.append h', hstep.imp fun v hv => hv.append h'⟩
  | recording stored entry => exact ⟨hr.1.append h', hr.2⟩
  | invoking v =>
    obtain ⟨hseen, hheld, p, hbound, hv⟩ := hr
    exact ⟨hseen.append h', hheld, p, hbound.append h', hv⟩
  | failing failed entry cause =>
    obtain ⟨base, error, now, hseen, hheld, rfl⟩ := hr
    exact ⟨base, error, now, hseen.append h', hheld, rfl⟩
  | loading | reloading | recordingDropped | recordingFailure => trivial

theorem isSound_of_fail {i : Instance} {e : Error} {r : Run} (hseen : Seen time h i)
    (hheld : i.IsHeld) (hfail : fail env i e = .waiting r) : r.IsSound config time h := by
  unfold fail at hfail
  split at hfail
  · cases hfail
  · obtain rfl := Progress.waiting.inj hfail
    exact ⟨i, _, _, hseen, hheld, rfl⟩

theorem isSound_of_proceed {i : Instance} {r : Run} (hknown : env.registry.IsKnown h)
    (hseen : Seen time h i) (hheld : i.status = .running → i.IsHeld)
    (hproceed : proceed env i = .waiting r) : r.IsSound config time h := by
  unfold proceed at hproceed
  split at hproceed
  · rename_i hrunning
    have hheld := hheld hrunning
    split at hproceed
    · rename_i step hvisit
      obtain rfl := Progress.waiting.inj hproceed
      obtain ⟨p, hbinds, hstep⟩ := stepped_of_visit hvisit
      exact ⟨hseen, hheld, p, hknown.boundTo hbinds, hstep⟩
    · rename_i v hvisit
      obtain rfl := Progress.waiting.inj hproceed
      obtain ⟨p, hbinds, hv⟩ := isFor_of_visit hvisit
      obtain rfl := hv.base
      exact ⟨hseen, hheld, p, hknown.boundTo hbinds, hv⟩
    · exact isSound_of_fail hseen hheld hproceed
  · cases hproceed

theorem isSound_of_begin {i : Instance} {r : Run} (hknown : env.registry.IsKnown h)
    (hseen : Seen time h i) (hheld : i.IsHeld) (hbegin : begin env i = .waiting r) :
    r.IsSound config time h := by
  unfold begin at hbegin
  split at hbegin
  · rename_i step hrecover
    obtain rfl := Progress.waiting.inj hbegin
    obtain ⟨p, hbinds, hstep⟩ := stepped_of_recover hrecover
    exact ⟨hseen, hheld, p, hknown.boundTo hbinds, hstep⟩
  · exact isSound_of_proceed hknown hseen (fun _ => hheld) hbegin
  · exact isSound_of_fail hseen hheld hbegin

/-- What a run asks for after an answer follows from what was stored. -/
theorem isSound_of_resume {r r' : Run} {answer : r.request.Answer}
    (hknown : env.registry.IsKnown h) (hconfig : env.config = config)
    (hr : r.IsSound config time h) (hanswer : AnswerSound time h r.request answer)
    (hmade : ∀ v, (RunStage.answered r answer).invocation? = some v → Made h v)
    (hresume : r.resume env answer = .waiting r') : r'.IsSound config time h := by
  cases goesOn_of_resume hresume with
  | @begun _ _ i _ hrunning howner hbegin =>
    exact isSound_of_begin hknown (hanswer i rfl) ⟨hrunning, by simp [howner]⟩ hbegin
  | @stored base stored step =>
    obtain ⟨hseen, hheld, p, hbound, hstep⟩ := hr
    obtain ⟨hseen', version, now, rfl⟩ := hanswer stored rfl
    exact ⟨hseen', hstep.isHeld_next hheld⟩
  | recorded hproceed => exact isSound_of_proceed hknown hr.1 hr.2 hproceed
  | @concluded v _ step hconcluded =>
    obtain ⟨hseen, hheld, p, hbound, hv⟩ := hr
    obtain ⟨result, -, hconclude⟩ := of_bind_eq_ok hconcluded
    exact ⟨hseen, hheld, p, hbound, stepped_of_conclude hv (hmade v rfl) (hconfig ▸ hconclude)⟩
  | refused | reloaded | failed => trivial

end Run

namespace Poll

def IsSound (time : Instant → Instant) (h : List Moment) : Poll → Prop
  | listing _ _ _ => True
  | claiming _ current rest _ => ∀ i ∈ current :: rest, Seen time h i ∧ i.isTerminal = false

theorem IsSound.append {p : Poll} (hp : p.IsSound time h) (h' : List Moment) :
    p.IsSound time (h ++ h') := by
  cases p with
  | listing => trivial
  | claiming => exact fun i hi => ⟨(hp i hi).1.append h', (hp i hi).2⟩

theorem isSound_of_proceed {worker : String} {rest : List Instance} {claimed : List InstanceId}
    {p : Poll} (hrest : ∀ i ∈ rest, Seen time h i ∧ i.isTerminal = false)
    (hproceed : proceed worker rest claimed = .waiting p) : p.IsSound time h := by
  cases rest with
  | nil => cases hproceed
  | cons current rest =>
    obtain rfl := Progress.waiting.inj hproceed
    exact hrest

theorem isSound_of_resume {p p' : Poll} {answer : p.request.Answer} (hp : p.IsSound time h)
    (hanswer : AnswerSound time h p.request answer)
    (hresume : p.resume answer = .waiting p') : p'.IsSound time h := by
  cases p with
  | listing worker now limit =>
    simp only [resume] at hresume
    split at hresume
    · rename_i due
      refine isSound_of_proceed (fun i hi => ?_) hresume
      obtain ⟨hseen, hisDue⟩ := hanswer due rfl i (List.mem_filter.mp hi).1
      refine ⟨hseen, ?_⟩
      simp only [Instance.isDue, Bool.and_eq_true, Bool.not_eq_true'] at hisDue
      exact hisDue.1.1
    · cases hresume
  | claiming worker current rest claimed =>
    have hrest : ∀ i ∈ rest, Seen time h i ∧ i.isTerminal = false :=
      fun i hi => hp i (List.mem_cons_of_mem _ hi)
    simp only [resume] at hresume
    split at hresume
    · exact isSound_of_proceed hrest hresume
    · exact isSound_of_proceed hrest hresume
    · cases hresume

end Poll

namespace Sweep

def IsSound (time : Instant → Instant) (h : List Moment) : Sweep → Prop
  | listing _ _ _ => True
  | releasing _ current rest _ => ∀ i ∈ current :: rest, Seen time h i ∧ i.IsHeld

theorem IsSound.append {s : Sweep} (hs : s.IsSound time h) (h' : List Moment) :
    s.IsSound time (h ++ h') := by
  cases s with
  | listing => trivial
  | releasing => exact fun i hi => ⟨(hs i hi).1.append h', (hs i hi).2⟩

theorem isSound_of_proceed {inFlightBefore : Instant} {rest : List Instance}
    {released : List InstanceId} {s : Sweep} (hrest : ∀ i ∈ rest, Seen time h i ∧ i.IsHeld)
    (hproceed : proceed inFlightBefore rest released = .waiting s) : s.IsSound time h := by
  cases rest with
  | nil => cases hproceed
  | cons current rest =>
    obtain rfl := Progress.waiting.inj hproceed
    exact hrest

theorem isSound_of_resume {s s' : Sweep} {answer : s.request.Answer} (hs : s.IsSound time h)
    (hanswer : AnswerSound time h s.request answer)
    (hresume : s.resume answer = .waiting s') : s'.IsSound time h := by
  cases s with
  | listing before inFlightBefore limit =>
    simp only [resume] at hresume
    split at hresume
    · rename_i stale
      refine isSound_of_proceed (fun i hi => ?_) hresume
      obtain ⟨hseen, hisStale⟩ := hanswer stale rfl i (List.mem_filter.mp hi).1
      simp only [Instance.isStale, Bool.and_eq_true, beq_iff_eq] at hisStale
      exact ⟨hseen, hisStale.1⟩
    · cases hresume
  | releasing inFlightBefore current rest released =>
    have hrest : ∀ i ∈ rest, Seen time h i ∧ i.IsHeld :=
      fun i hi => hs i (List.mem_cons_of_mem _ hi)
    simp only [resume] at hresume
    split at hresume
    · exact isSound_of_proceed hrest hresume
    · split at hresume
      · exact isSound_of_proceed hrest hresume
      · cases hresume

end Sweep

namespace Cancel

def IsSound (time : Instant → Instant) (h : List Moment) : Cancel → Prop
  | saving current _ _ => Seen time h current ∧ current.isTerminal = false
  | _ => True

theorem IsSound.append {c : Cancel} (hc : c.IsSound time h) (h' : List Moment) :
    c.IsSound time (h ++ h') := by
  cases c with
  | saving => exact ⟨hc.1.append h', hc.2⟩
  | loading | recording => trivial

theorem isSound_of_resume {c c' : Cancel} {answer : c.request.Answer}
    (hanswer : AnswerSound time h c.request answer)
    (hresume : c.resume env answer = .waiting c') : c'.IsSound time h := by
  cases c with
  | loading id reason =>
    simp only [resume] at hresume
    split at hresume
    · rename_i i
      split at hresume
      · cases hresume
      · rename_i hlive
        obtain rfl := Progress.waiting.inj hresume
        exact ⟨hanswer i rfl, by simpa using hlive⟩
    · cases hresume
  | saving current reason now =>
    simp only [resume] at hresume
    split at hresume
    · obtain rfl := Progress.waiting.inj hresume
      trivial
    · split at hresume
      · obtain rfl := Progress.waiting.inj hresume
        trivial
      · cases hresume
  | recording => cases hresume

end Cancel

theorem Dispatch.isPlanned_of_proceed {e : Event} {started : List InstanceId}
    {graphIds : List String} {d : Dispatch} (hknown : env.registry.IsKnown h)
    (hproceed : proceed env e started graphIds = .waiting d) : d.draft.IsPlanned h := by
  induction graphIds with
  | nil => cases hproceed
  | cons graphId rest ih =>
    simp only [proceed] at hproceed
    split at hproceed
    · rename_i draft hdraft
      obtain rfl := Progress.waiting.inj hproceed
      exact Event.isPlanned hknown hdraft
    · exact ih hproceed
    · cases hproceed

theorem Dispatch.isPlanned_of_resume {d d' : Dispatch} {answer : d.request.Answer}
    (hknown : env.registry.IsKnown h) (hresume : d.resume env answer = .waiting d') :
    d'.draft.IsPlanned h := by
  simp only [resume] at hresume
  split at hresume
  · exact isPlanned_of_proceed hknown hresume
  · cases hresume

namespace Call

def IsSound (config : EngineConfig) (time : Instant → Instant) (h : List Moment) : Call → Prop
  | emit c => c.draft.IsPlanned h
  | dispatch c => c.draft.IsPlanned h
  | poll c | pass (.polling _ c) => c.IsSound time h
  | run c | pass (.running _ c _ _) => c.IsSound config time h
  | sweep c => c.IsSound time h
  | cancel c => c.IsSound time h

theorem IsSound.append {c : Call} (hc : c.IsSound config time h) (h' : List Moment) :
    c.IsSound config time (h ++ h') := by
  cases c with
  | emit c => exact Draft.IsPlanned.append hc h'
  | dispatch c => exact Draft.IsPlanned.append hc h'
  | poll c => exact Poll.IsSound.append hc h'
  | run c => exact Run.IsSound.append hc h'
  | sweep c => exact Sweep.IsSound.append hc h'
  | cancel c => exact Cancel.IsSound.append hc h'
  | pass c =>
    cases c with
    | polling => exact Poll.IsSound.append hc h'
    | running => exact Run.IsSound.append hc h'

end Call

namespace Progress

variable {σ τ α β : Type} {f : σ → τ} {g : α → β}

theorem of_map_eq_waiting {p : Progress σ α} {t : τ} (hmap : p.map f g = .waiting t) :
    ∃ s, p = .waiting s ∧ t = f s := by
  cases p with
  | waiting s => exact ⟨s, rfl, (Progress.waiting.inj hmap).symm⟩
  | ended result => cases result <;> cases hmap

end Progress

namespace Call

theorem isSound_of_pass {worker : String} {ids : List InstanceId} {claimed : Nat} {p : Pass}
    (hproceed : Pass.proceed worker ids claimed = .waiting p) :
    (Call.pass p).IsSound config time h := by
  cases ids with
  | nil => cases hproceed
  | cons id rest =>
    obtain rfl := Progress.waiting.inj hproceed
    trivial

theorem isSound_of_resume {c c' : Call} {answer : c.request.Answer}
    (hknown : env.registry.IsKnown h) (hconfig : env.config = config)
    (hc : c.IsSound config time h) (hanswer : AnswerSound time h c.request answer)
    (hmade : ∀ v, (Stage.answered c answer).run?.bind RunStage.invocation? = some v → Made h v)
    (hresume : c.resume env answer = .waiting c') : c'.IsSound config time h := by
  cases c with
  | emit c =>
    obtain ⟨c', hnext, rfl⟩ := Progress.of_map_eq_waiting hresume
    simp only [Emit.resume] at hnext
    split at hnext <;> cases hnext
  | dispatch c =>
    obtain ⟨c', hnext, rfl⟩ := Progress.of_map_eq_waiting hresume
    exact Dispatch.isPlanned_of_resume hknown hnext
  | poll c =>
    obtain ⟨c', hnext, rfl⟩ := Progress.of_map_eq_waiting hresume
    exact Poll.isSound_of_resume hc hanswer hnext
  | run c =>
    obtain ⟨c', hnext, rfl⟩ := Progress.of_map_eq_waiting hresume
    exact Run.isSound_of_resume hknown hconfig hc hanswer hmade hnext
  | sweep c =>
    obtain ⟨c', hnext, rfl⟩ := Progress.of_map_eq_waiting hresume
    exact Sweep.isSound_of_resume hc hanswer hnext
  | cancel c =>
    obtain ⟨c', hnext, rfl⟩ := Progress.of_map_eq_waiting hresume
    exact Cancel.isSound_of_resume hanswer hnext
  | pass c =>
    obtain ⟨c', hnext, rfl⟩ := Progress.of_map_eq_waiting hresume
    cases c with
    | polling worker poll =>
      simp only [Pass.resume] at hnext
      split at hnext
      · rename_i poll' hpoll
        obtain rfl := Progress.waiting.inj hnext
        exact Poll.isSound_of_resume hc hanswer hpoll
      · exact isSound_of_pass hnext
      · cases hnext
    | running worker run rest claimed =>
      simp only [Pass.resume] at hnext
      split at hnext
      · rename_i run' hrun
        obtain rfl := Progress.waiting.inj hnext
        exact Run.isSound_of_resume hknown hconfig hc hanswer hmade hrun
      · exact isSound_of_pass hnext

theorem isSound_of_start {o : Opening} {c : Call} (hknown : env.registry.IsKnown h)
    (hstart : o.start env = .waiting c) : c.IsSound config time h := by
  cases o with
  | emit e graphId =>
    obtain ⟨c', hemit, rfl⟩ := Progress.of_map_eq_waiting hstart
    unfold Emit.start at hemit
    split at hemit
    · rename_i draft hdraft
      obtain rfl := Progress.waiting.inj hemit
      exact Event.isPlanned hknown hdraft
    · cases hemit
    · cases hemit
  | dispatch e =>
    obtain ⟨c', hdispatch, rfl⟩ := Progress.of_map_eq_waiting hstart
    exact Dispatch.isPlanned_of_proceed hknown hdispatch
  | poll worker now limit =>
    obtain rfl := Progress.waiting.inj hstart
    trivial
  | run id worker =>
    obtain rfl := Progress.waiting.inj hstart
    trivial
  | sweep now grace =>
    simp only [Opening.start] at hstart
    split at hstart
    · rename_i s hs
      obtain rfl := Progress.waiting.inj hstart
      simp only [Sweep.start] at hs
      obtain ⟨_, -, hs⟩ := of_bind_eq_ok hs
      obtain ⟨_, -, hs⟩ := of_bind_eq_ok hs
      obtain ⟨_, -, hs⟩ := of_bind_eq_ok hs
      obtain ⟨_, -, hs⟩ := of_bind_eq_ok hs
      obtain rfl := Except.ok.inj hs
      trivial
    · cases hstart
  | cancel id reason =>
    obtain rfl := Progress.waiting.inj hstart
    trivial
  | pass worker now =>
    obtain rfl := Progress.waiting.inj hstart
    trivial

end Call
end
end WorkflowEngine

import WorkflowEngine.Proofs.System.Running

/-!
# Deeds of runs

A run does something whenever it is served: it stores a step or is refused to, invokes an action,
appends an entry. Which deeds can follow on each other is laid down by phases. Whatever else goes on
in the system, the deeds of every call keep to them.
-/
namespace WorkflowEngine

/-- What a run has done when a request of it was served. -/
inductive Deed where
  | loaded (id : InstanceId)
  | stored (step : Step)
  | refused (step : Step)
  | invoked (v : Invocation) (reply : Reply)
  | reloaded (current : Instance)
  | failed (i : Instance)
  | appended (entry : AuditEntry)

def RunStage.deed? : RunStage → Option Deed
  | answered (.loading id _) _ => some (.loaded id)
  | answered (.saving _ step) (.ok _) => some (.stored step)
  | answered (.saving _ step) (.error _) => some (.refused step)
  | answered (.recording _ entry) _ => some (.appended entry)
  | answered (.invoking v) reply => some (.invoked v reply)
  | answered (.reloading _ _) (.ok current) => some (.reloaded current)
  | answered (.recordingDropped _ entry) _ => some (.appended entry)
  | answered (.failing failed _ _) (.ok _) => some (.failed failed)
  | answered (.recordingFailure entry _) _ => some (.appended entry)
  | _ => none

def Moment.deed? (m : Moment) : Option Deed := m.run?.bind RunStage.deed?

def deeds (n : Nat) (h : List Moment) : List Deed :=
  (h.filter (·.call = some n)).filterMap Moment.deed?

@[simp] theorem deeds_append (n : Nat) (h h' : List Moment) :
    deeds n (h ++ h') = deeds n h ++ deeds n h' := by
  simp [deeds]

theorem deeds_cons_self {n : Nat} {m : Moment} {h : List Moment} (hm : m.call = some n) :
    deeds n (m :: h) = m.deed?.toList ++ deeds n h := by
  cases hdeed : m.deed? <;> simp [deeds, hm, hdeed]

theorem deeds_snoc_self {n : Nat} {m : Moment} {h : List Moment} (hm : m.call = some n) :
    deeds n (h ++ [m]) = deeds n h ++ m.deed?.toList := by
  rw [deeds_append, deeds_cons_self hm]
  simp [deeds]

theorem deeds_snoc_of_idle {n : Nat} {m : Moment} {h : List Moment} (hm : m.deed? = none) :
    deeds n (h ++ [m]) = deeds n h := by
  have hnone : deeds n [m] = [] := by
    by_cases hcall : m.call = some n <;> simp [deeds, hcall, hm]
  rw [deeds_append, hnone, List.append_nil]

theorem deeds_snoc_of_ne {n : Nat} {m : Moment} {h : List Moment} (hm : m.call ≠ some n) :
    deeds n (h ++ [m]) = deeds n h := by
  simp [deeds, hm]

theorem deeds_eq_nil {n : Nat} {h : List Moment}
    (hidle : ∀ m ∈ h, m.call = some n → m.deed? = none) : deeds n h = [] := by
  refine List.filterMap_eq_nil_iff.mpr fun m hm => ?_
  obtain ⟨hmem, hcall⟩ := List.mem_filter.mp hm
  exact hidle m hmem (by simpa using hcall)

theorem of_mem_deeds {n : Nat} {d : Deed} {h : List Moment} (hd : d ∈ deeds n h) :
    ∃ m ∈ h, m.deed? = some d := by
  obtain ⟨m, hm, hdeed⟩ := List.mem_filterMap.mp hd
  exact ⟨m, (List.mem_filter.mp hm).1, hdeed⟩

theorem RunStage.deed?_eq_stored {stage : RunStage} {step : Step} :
    stage.deed? = some (.stored step) ↔ stage.stored? = some step := by
  cases stage with
  | asking r => simp [deed?, stored?]
  | answered r answer =>
    cases r with
    | saving | reloading | failing => cases answer <;> simp [deed?, stored?]
    | loading | recording | invoking | recordingDropped | recordingFailure =>
      simp [deed?, stored?]

theorem RunStage.deed?_eq_invoked {stage : RunStage} {v : Invocation} :
    (∃ reply, stage.deed? = some (.invoked v reply)) ↔ stage.invocation? = some v := by
  cases stage with
  | asking r => simp [deed?, invocation?]
  | answered r answer =>
    cases r with
    | saving | reloading | failing => cases answer <;> simp [deed?, invocation?]
    | loading | recording | recordingDropped | recordingFailure => simp [deed?, invocation?]
    | invoking w =>
      constructor
      · rintro ⟨reply, hdeed⟩
        cases hdeed
        rfl
      · intro hinvocation
        obtain rfl := Option.some.inj hinvocation
        exact ⟨answer, rfl⟩

theorem Moment.deed?_eq_stored {m : Moment} {step : Step} :
    m.deed? = some (.stored step) ↔ m.stored? = some step := by
  cases hrun : m.run? with
  | none => simp [deed?, stored?, hrun]
  | some stage => simpa [deed?, stored?, hrun] using RunStage.deed?_eq_stored

theorem Moment.deed?_eq_invoked {m : Moment} {v : Invocation} :
    (∃ reply, m.deed? = some (.invoked v reply)) ↔ m.invocation? = some v := by
  cases hrun : m.run? with
  | none => simp [deed?, invocation?, hrun]
  | some stage => simpa [deed?, invocation?, hrun] using RunStage.deed?_eq_invoked

/-- The outcomes that an invocation is recorded with. -/
def AuditOutcome.isResult : AuditOutcome → Bool
  | actionSucceeded | actionFailed | cancelledPostHoc => true
  | _ => false

/-- A step for which no action was invoked. -/
structure Step.IsPlain (step : Step) : Prop where
  uninvoked : step.invoked = false
  outcome : step.entry.outcome.isResult = false

/-- The step that an invocation leads to with its reply. -/
def Invocation.Concludes (config : EngineConfig) (v : Invocation) (reply : Reply) (step : Step) :
    Prop :=
  reply.settle.toOutcome.bind (v.conclude config) = .ok step

/-- How far a call has come with its deeds. -/
inductive Phase where
  | idle
  /-- A run goes on with the instance as it has loaded or stored it. -/
  | ready
  | stored (step : Step)
  | refused (step : Step)
  | invoked (v : Invocation) (reply : Reply)
  | reloaded (step : Step) (current : Instance)
  | failed (i : Instance)

namespace Phase

/-- A run may be over. -/
inductive Rests (config : EngineConfig) : Phase → Prop
  | idle : Rests config .idle
  | ready : Rests config .ready
  | stumped {v : Invocation} {reply : Reply} (h : v.Stumps config reply) :
      Rests config (.invoked v reply)

inductive Next (config : EngineConfig) : Phase → Deed → Phase → Prop
  | loaded {p : Phase} (hrests : p.Rests config) (id : InstanceId) :
      Next config p (.loaded id) .ready
  | stored {step : Step} (hplain : step.IsPlain) : Next config .ready (.stored step) (.stored step)
  | refused {step : Step} (hplain : step.IsPlain) :
      Next config .ready (.refused step) (.refused step)
  | invoked (v : Invocation) (reply : Reply) :
      Next config .ready (.invoked v reply) (.invoked v reply)
  | concluded {v : Invocation} {reply : Reply} {step : Step}
      (hstep : v.Concludes config reply step) :
      Next config (.invoked v reply) (.stored step) (.stored step)
  | rejected {v : Invocation} {reply : Reply} {step : Step}
      (hstep : v.Concludes config reply step) :
      Next config (.invoked v reply) (.refused step) (.refused step)
  | recorded (step : Step) : Next config (.stored step) (.appended step.entry) .ready
  | reloaded {step : Step} (huninvoked : step.invoked = false) (current : Instance) :
      Next config (.refused step) (.reloaded current) .idle
  | discarded {step : Step} {current : Instance} (hinvoked : step.invoked = true)
      (hid : current.id = step.entry.instanceId) :
      Next config (.refused step) (.reloaded current) (.reloaded step current)
  | dropped (step : Step) (current : Instance) (now : Instant) :
      Next config (.reloaded step current) (.appended (step.droppedEntry current now)) .idle
  | failed (i : Instance) : Next config .ready (.failed i) (.failed i)
  | reported {i : Instance} {entry : AuditEntry} (hid : entry.instanceId = i.id)
      (houtcome : entry.outcome = .failed) : Next config (.failed i) (.appended entry) .idle

end Phase

/-- The phase that a deed leads to, if it is the same from every phase. -/
def Deed.phase? : Deed → Option Phase
  | loaded _ => some .ready
  | stored step => some (.stored step)
  | refused step => some (.refused step)
  | invoked v reply => some (.invoked v reply)
  | failed i => some (.failed i)
  | reloaded _ | appended _ => none

/-- Deeds that follow on each other from one phase to another. -/
inductive Course (config : EngineConfig) : Phase → List Deed → Phase → Prop
  | nil (p : Phase) : Course config p [] p
  | cons {p q r : Phase} {d : Deed} {ds : List Deed} (hnext : p.Next config d q)
      (hrest : Course config q ds r) : Course config p (d :: ds) r

namespace Course

variable {config : EngineConfig} {p q r : Phase} {d : Deed} {ds ds' : List Deed}

theorem append (h : Course config p ds q) (h' : Course config q ds' r) :
    Course config p (ds ++ ds') r := by
  induction h with
  | nil => exact h'
  | cons hnext _ ih => exact .cons hnext (ih h')

theorem of_append (h : Course config p (ds ++ ds') r) :
    ∃ q, Course config p ds q ∧ Course config q ds' r := by
  induction ds generalizing p with
  | nil => exact ⟨p, .nil p, h⟩
  | cons d ds ih =>
    cases h with
    | cons hnext hrest =>
      obtain ⟨q, hds, hds'⟩ := ih hrest
      exact ⟨q, .cons hnext hds, hds'⟩

theorem after_deed (h : Course config p (ds ++ d :: ds') r) (hd : d.phase? = some q) :
    Course config q ds' r := by
  obtain ⟨p', -, hrest⟩ := h.of_append
  cases hrest with
  | cons hnext hrest =>
    cases hnext with
    | loaded | stored | refused | invoked | concluded | rejected | failed =>
      cases hd
      exact hrest
    | recorded | reloaded | discarded | dropped | reported => cases hd

end Course

section Computed

variable {config : EngineConfig} {env : Env} {i : Instance} {step : Step}

theorem Stepped.isPlain {p : Plan} (h : Stepped config p (fun _ => False) i step) :
    step.IsPlain ∧ step.entry.instanceId = i.id := by
  cases h with
  | @passed n exit outcome detail now _ _ houtcome _ =>
    refine ⟨⟨?_, ?_⟩, ?_⟩
    · cases exit <;> rfl
    · rw [Step.advance_entry_outcome]
      rcases houtcome with rfl | rfl | rfl <;> rfl
    · cases exit <;> rfl
  | intended | slept | recovered | abandoned => exact ⟨⟨rfl, rfl⟩, rfl⟩
  | succeeded _ hmade | gaveUp _ hmade | retried _ hmade _ => exact hmade.elim

theorem isPlain_of_visit (h : visit env i = .ok (.done step)) :
    step.IsPlain ∧ step.entry.instanceId = i.id := by
  have hstep : ∃ p, env.registry.Binds p i ∧ Stepped default p (fun _ => False) i step :=
    stepped_of_visit h
  obtain ⟨p, -, hstep⟩ := hstep
  exact hstep.isPlain

theorem isPlain_of_recover (h : recover env i = .ok (some step)) :
    step.IsPlain ∧ step.entry.instanceId = i.id := by
  have hstep : ∃ p, env.registry.Binds p i ∧ Stepped default p (fun _ => False) i step :=
    stepped_of_recover h
  obtain ⟨p, -, hstep⟩ := hstep
  exact hstep.isPlain

structure Invocation.Reports (v : Invocation) (entry : AuditEntry) : Prop where
  instanceId : entry.instanceId = v.base.id
  node : entry.node = some v.node
  outcome : entry.outcome = .actionSucceeded ∨ entry.outcome = .actionFailed
  unmarked : entry.detail.lookup "discarded" = none

theorem Invocation.Concludes.reports {v : Invocation} {reply : Reply}
    (h : v.Concludes config reply step) : step.invoked = true ∧ v.Reports step.entry := by
  obtain ⟨result, -, h⟩ := of_bind_eq_ok h
  cases result with
  | success result =>
    obtain rfl := Except.ok.inj h
    refine ⟨rfl, ?_⟩
    cases hexit : v.exit with
    | none => exact ⟨rfl, rfl, .inl rfl, by simp [Step.advance, detail, List.lookup_cons]⟩
    | some target => exact ⟨rfl, rfl, .inl rfl, by simp [Step.advance, detail, List.lookup_cons]⟩
  | failure reason isPermanent =>
    simp only [conclude] at h
    split at h
    · obtain rfl := Except.ok.inj h
      exact ⟨rfl, rfl, rfl, .inr rfl, by simp [giveUp, detail, List.lookup_cons]⟩
    · split at h
      · obtain rfl := Except.ok.inj h
        exact ⟨rfl, rfl, rfl, .inr rfl, by simp [retry, detail, List.lookup_cons]⟩
      · cases h

end Computed

/-- An instance was stored at some time. -/
def Known (h : List Moment) (id : InstanceId) : Prop := ∃ m ∈ h, ∃ i, m.find? id = some i

theorem Known.append {h : List Moment} {id : InstanceId} (hid : Known h id) (h' : List Moment) :
    Known (h ++ h') id := by
  obtain ⟨m, hm, hfound⟩ := hid
  exact ⟨m, List.mem_append_left _ hm, hfound⟩

/-- The step that a run is about to store has been computed in the phase that its call is in. -/
def Phase.Computes (config : EngineConfig) (base : Instance) (step : Step) (p : Phase) : Prop :=
  (p = .ready ∧ step.IsPlain ∨ ∃ v reply, p = .invoked v reply ∧ v.base = base ∧
    v.Concludes config reply step) ∧ step.entry.instanceId = base.id

/-- How far a call has come with its deeds when its run is at a stage. -/
def RunStage.At (config : EngineConfig) (h : List Moment) : RunStage → Phase → Prop
  | asking (.loading _ _), p => p.Rests config
  | answered (.loading _ _) _, p => p = .ready
  | asking (.saving base step), p => p.Computes config base step
  | answered (.saving base step) answer, p =>
    (∀ stored, answer = .ok stored → p = .stored step) ∧
      ∀ e, answer = .error e →
        e.isConflict = true ∧ p = .refused step ∧ step.entry.instanceId = base.id
  | asking (.recording _ entry), p => ∃ step, p = .stored step ∧ entry = step.entry
  | answered (.recording _ _) _, p => p = .ready
  | asking (.invoking _), p => p = .ready
  | answered (.invoking v) reply, p => p = .invoked v reply
  | asking (.reloading id step), p =>
    p = .refused step ∧ step.entry.instanceId = id ∧ Known h id
  | answered (.reloading _ step) answer, p => ∃ current, answer = .ok current ∧
    (step.invoked = true ∧ p = .reloaded step current ∨ step.invoked = false ∧ p = .idle)
  | asking (.recordingDropped current entry), p =>
    ∃ step now, p = .reloaded step current ∧ entry = step.droppedEntry current now
  | answered (.recordingDropped _ _) _, p => p = .idle
  | asking (.failing failed entry _), p =>
    p = .ready ∧ entry.instanceId = failed.id ∧ entry.outcome = .failed
  | answered (.failing failed entry _) answer, p =>
    (entry.instanceId = failed.id ∧ entry.outcome = .failed) ∧
      (∀ i, answer = .ok i → p = .failed failed) ∧ ∀ e, answer = .error e → p = .ready
  | asking (.recordingFailure entry _), p =>
    ∃ i, p = .failed i ∧ entry.instanceId = i.id ∧ entry.outcome = .failed
  | answered (.recordingFailure _ _) _, p => p = .idle

theorem RunStage.At.append {config : EngineConfig} {h : List Moment} {stage : RunStage} {p : Phase}
    (hstage : stage.At config h p) (h' : List Moment) : stage.At config (h ++ h') p := by
  cases stage with
  | asking r =>
    cases r with
    | reloading => exact ⟨hstage.1, hstage.2.1, hstage.2.2.append h'⟩
    | loading | saving | recording | invoking | recordingDropped | failing | recordingFailure =>
      exact hstage
  | answered r answer => cases r <;> exact hstage

namespace Run

variable {config : EngineConfig} {h : List Moment} {env : Env} {i : Instance} {r r' : Run}
  {p : Phase}

theorem at_of_fail {e : Error} (hfail : fail env i e = .waiting r) :
    (RunStage.asking r).At config h .ready := by
  unfold fail at hfail
  split at hfail
  · cases hfail
  · obtain rfl := Progress.waiting.inj hfail
    exact ⟨rfl, rfl, rfl⟩

theorem at_of_proceed (hproceed : proceed env i = .waiting r) :
    (RunStage.asking r).At config h .ready := by
  unfold proceed at hproceed
  split at hproceed
  · split at hproceed
    · rename_i step hvisit
      obtain rfl := Progress.waiting.inj hproceed
      obtain ⟨hplain, hid⟩ := isPlain_of_visit hvisit
      exact ⟨.inl ⟨rfl, hplain⟩, hid⟩
    · obtain rfl := Progress.waiting.inj hproceed
      exact rfl
    · exact at_of_fail hproceed
  · cases hproceed

theorem at_of_begin (hbegin : begin env i = .waiting r) :
    (RunStage.asking r).At config h .ready := by
  unfold begin at hbegin
  split at hbegin
  · rename_i step hrecover
    obtain rfl := Progress.waiting.inj hbegin
    obtain ⟨hplain, hid⟩ := isPlain_of_recover hrecover
    exact ⟨.inl ⟨rfl, hplain⟩, hid⟩
  · exact at_of_proceed hbegin
  · exact at_of_fail hbegin

/-- Going on, a run does nothing yet. -/
theorem at_of_resume {answer : r.request.Answer} (hconfig : env.config = config)
    (hknown : ∀ base step, r = .saving base step → Known h base.id)
    (hr : (RunStage.answered r answer).At config h p)
    (hresume : r.resume env answer = .waiting r') : (RunStage.asking r').At config h p := by
  cases goesOn_of_resume hresume with
  | begun _ _ hbegin =>
    obtain rfl : p = .ready := hr
    exact at_of_begin hbegin
  | stored => exact ⟨_, hr.1 _ rfl, rfl⟩
  | refused =>
    obtain ⟨-, hp, hid⟩ := hr.2 _ rfl
    exact ⟨hp, hid, hknown _ _ rfl⟩
  | recorded hproceed =>
    obtain rfl : p = .ready := hr
    exact at_of_proceed hproceed
  | concluded hstep =>
    obtain rfl : p = .invoked _ _ := hr
    rw [hconfig] at hstep
    exact ⟨.inr ⟨_, _, rfl, rfl, hstep⟩, (Invocation.Concludes.reports hstep).2.instanceId⟩
  | reloaded hinvoked =>
    obtain ⟨current, hcurrent, hp | ⟨huninvoked, -⟩⟩ := hr
    · cases hcurrent
      exact ⟨_, _, hp.2, rfl⟩
    · rw [hinvoked] at huninvoked
      cases huninvoked
  | failed =>
    obtain ⟨⟨hid, houtcome⟩, hok, -⟩ := hr
    exact ⟨_, hok _ rfl, hid, houtcome⟩

/-- A run that ends has nothing left to do. -/
theorem rests_of_resume {answer : r.request.Answer} {result : Outcome Instance}
    (hconfig : env.config = config) (hr : (RunStage.answered r answer).At config h p)
    (hended : r.resume env answer = .ended result) : p.Rests config := by
  cases r with
  | loading =>
    obtain rfl : p = .ready := hr
    exact .ready
  | saving base step =>
    simp only [resume] at hended
    split at hended
    · cases hended
    · rename_i e
      rw [if_pos (hr.2 e rfl).1] at hended
      cases hended
  | recording =>
    obtain rfl : p = .ready := hr
    exact .ready
  | invoking v =>
    obtain rfl : p = .invoked v answer := hr
    simp only [resume] at hended
    split at hended
    · cases hended
    · rename_i e he
      rw [hconfig] at he
      exact .stumped (Invocation.stumps_iff.mpr ⟨e, he⟩)
  | reloading id step =>
    obtain ⟨current, rfl, ⟨hinvoked, -⟩ | ⟨-, rfl⟩⟩ := hr
    · simp only [resume] at hended
      rw [if_pos hinvoked] at hended
      cases hended
    · exact .idle
  | recordingDropped =>
    obtain rfl : p = .idle := hr
    exact .idle
  | failing failed entry cause =>
    obtain ⟨-, hok, herror⟩ := hr
    simp only [resume] at hended
    split at hended
    · cases hended
    · rename_i e
      rw [herror e rfl]
      exact .ready
  | recordingFailure =>
    obtain rfl : p = .idle := hr
    exact .idle

end Run

namespace Stage

def At (config : EngineConfig) (h : List Moment) (stage : Stage) (p : Phase) : Prop :=
  match stage.run? with
  | some r => r.At config h p
  | none => p.Rests config

variable {config : EngineConfig} {h : List Moment} {env : Env} {p : Phase}

theorem At.append {stage : Stage} (hstage : stage.At config h p) (h' : List Moment) :
    stage.At config (h ++ h') p := by
  unfold At at hstage ⊢
  split
  · rename_i r hr
    rw [hr] at hstage
    exact RunStage.At.append hstage h'
  · rename_i hr
    rwa [hr] at hstage

theorem at_of_start {o : Opening} {c : Call} (hstart : o.start env = .waiting c)
    (hrests : p.Rests config) : (asking c).At config h p := by
  unfold At
  split
  · rename_i r hr
    obtain ⟨id, worker, rfl⟩ := (of_start hstart).1 r hr
    exact hrests
  · exact hrests

theorem at_of_pass {worker : String} {ids : List InstanceId} {claimed : Nat} {pass : Pass}
    (hproceed : Pass.proceed worker ids claimed = .waiting pass) (hrests : p.Rests config) :
    (asking (.pass pass)).At config h p := by
  obtain ⟨-, id, hbegins⟩ := run?_of_pass hproceed
  rw [At, hbegins]
  exact hrests

/-- Going on, a call does nothing yet, and it ends with nothing left to do. -/
theorem at_of_resume {c : Call} {answer : c.request.Answer} (hconfig : env.config = config)
    (hknown : ∀ base step answer', (answered c answer).run? =
      some (.answered (.saving base step) answer') → Known h base.id)
    (hc : (answered c answer).At config h p) :
    (∀ c', c.resume env answer = .waiting c' → (asking c').At config h p) ∧
      ∀ result, c.resume env answer = .ended result → p.Rests config := by
  cases c with
  | run r =>
    have hrun (base : Instance) (step : Step) (heq : r = .saving base step) : Known h base.id := by
      subst heq
      exact hknown base step answer rfl
    refine ⟨fun c' hresume => ?_, fun result hresume => ?_⟩
    · obtain ⟨r', hnext, rfl⟩ := Progress.of_map_eq_waiting hresume
      exact Run.at_of_resume hconfig hrun hc hnext
    · cases hended : r.resume env answer with
      | waiting r' => simp [Call.resume, hended, Progress.map] at hresume
      | ended result' => exact Run.rests_of_resume hconfig hc hended
  | pass pass =>
    cases pass with
    | polling worker poll =>
      have hrests : p.Rests config := hc
      refine ⟨fun c' hresume => ?_, fun _ _ => hrests⟩
      obtain ⟨pass', hnext, rfl⟩ := Progress.of_map_eq_waiting hresume
      simp only [Pass.resume] at hnext
      split at hnext
      · obtain rfl := Progress.waiting.inj hnext
        exact hrests
      · exact at_of_pass hnext hrests
      · cases hnext
    | running worker r rest claimed =>
      have hrun (base : Instance) (step : Step) (heq : r = .saving base step) :
          Known h base.id := by
        subst heq
        exact hknown base step answer rfl
      have hr : (RunStage.answered r answer).At config h p := hc
      refine ⟨fun c' hresume => ?_, fun result hresume => ?_⟩
      · obtain ⟨pass', hnext, rfl⟩ := Progress.of_map_eq_waiting hresume
        simp only [Pass.resume] at hnext
        split at hnext
        · rename_i r' hgoes
          obtain rfl := Progress.waiting.inj hnext
          exact Run.at_of_resume hconfig hrun hr hgoes
        · rename_i hended
          exact at_of_pass hnext (Run.rests_of_resume hconfig hr hended)
      · cases hended : r.resume env answer with
        | waiting r' => simp [Call.resume, Pass.resume, hended, Progress.map] at hresume
        | ended result' => exact Run.rests_of_resume hconfig hr hended
  | emit | dispatch | poll | sweep | cancel =>
    have hrests : p.Rests config := hc
    refine ⟨fun c' hresume => ?_, fun _ _ => hrests⟩
    obtain ⟨_, -, rfl⟩ := Progress.of_map_eq_waiting hresume
    exact hrests

end Stage

namespace System

variable {config : EngineConfig} {s s₀ s₁ : System} {m : Moment} {n : Nat} {p : Phase}

theorem Along.of_reloaded (hm : Along config s s₀ s₁ m) (hcounts : Counts s.history)
    {id : InstanceId} (hknown : Known s₀.history id) {answer : Outcome Instance}
    (hperform : s₀.engine.store.perform s₀.engine.now (.load id) = (answer, s₁.engine.store)) :
    ∃ current, answer = .ok current ∧ current.id = id := by
  have hlives := (hm.reachable.isSound (hm.counts hcounts).1).lives
  have hload : s₀.engine.store.load id = answer := (Prod.mk.inj hperform).1
  rw [Store.load_eq] at hload
  cases hfound : s₀.engine.store.find? id with
  | some current =>
    rw [hfound] at hload
    exact ⟨current, hload.symm, Instance.find?_id hfound⟩
  | none =>
    obtain ⟨x, hx, i, hi⟩ := hknown
    rw [(hlives.unborn id hfound x hx).1] at hi
    cases hi

/-- A run that is served does what its phase allows. -/
theorem Along.run_at_of_served (hm : Along config s s₀ s₁ m) (hcounts : Counts s.history)
    (hcolumn : s.engine.store.isTable = true → TableStore.fits s.history.length) {r : Run}
    {answer : r.request.Answer} (hsound : r.IsSound config s₀.engine.store.time s₀.history)
    (hanswer : s₀.engine.Answers r.request answer s₁.engine)
    (hr : (RunStage.asking r).At config s₀.history p) :
    ∃ q, Course config p (RunStage.answered r answer).deed?.toList q ∧
      (RunStage.answered r answer).At config s₁.history q := by
  cases r with
  | loading id worker => exact ⟨.ready, .cons (.loaded hr id) (.nil _), rfl⟩
  | saving base step =>
    obtain ⟨hcomputed, hid⟩ := hr
    cases answer with
    | ok stored =>
      refine ⟨.stored step, .cons ?_ (.nil _), fun _ _ => rfl, fun e he => ?_⟩
      · rcases hcomputed with ⟨rfl, hplain⟩ | ⟨v, reply, rfl, -, hstep⟩
        · exact .stored hplain
        · exact .concluded hstep
      · cases he
    | error e =>
      -- A step is refused only because the instance has changed in the meantime.
      obtain ⟨hseen, hheld, _, hbound, hstep⟩ := hsound
      have hrefused := hm.of_refused hcolumn hseen hstep.next_eq.1
        (Engine.perform_of_answers hanswer)
      refine ⟨.refused step, .cons ?_ (.nil _), fun stored hstored => ?_, fun e' he => ?_⟩
      · rcases hcomputed with ⟨rfl, hplain⟩ | ⟨v, reply, rfl, -, hstep⟩
        · exact .refused hplain
        · exact .rejected hstep
      · cases hstored
      · obtain rfl := Except.error.inj he
        exact ⟨hrefused.1, rfl, hid⟩
  | recording stored entry =>
    obtain ⟨step, rfl, rfl⟩ := hr
    exact ⟨.ready, .cons (.recorded step) (.nil _), rfl⟩
  | invoking v =>
    obtain rfl : p = .ready := hr
    exact ⟨.invoked v answer, .cons (.invoked v answer) (.nil _), rfl⟩
  | reloading id step =>
    obtain ⟨rfl, hid, hknown⟩ := hr
    obtain ⟨current, rfl, hcurrent⟩ :=
      hm.of_reloaded hcounts hknown (Engine.perform_of_answers hanswer)
    cases hinvoked : step.invoked with
    | true =>
      exact ⟨.reloaded step current, .cons (.discarded hinvoked (hcurrent.trans hid.symm)) (.nil _),
        current, rfl, .inl ⟨hinvoked, rfl⟩⟩
    | false =>
      exact ⟨.idle, .cons (.reloaded hinvoked current) (.nil _), current, rfl,
        .inr ⟨hinvoked, rfl⟩⟩
  | recordingDropped current entry =>
    obtain ⟨step, now, rfl, rfl⟩ := hr
    exact ⟨.idle, .cons (.dropped step current now) (.nil _), rfl⟩
  | failing failed entry cause =>
    obtain ⟨rfl, hentry⟩ := hr
    cases answer with
    | ok stored =>
      refine ⟨.failed failed, .cons (.failed failed) (.nil _), hentry, fun _ _ => rfl,
        fun e he => ?_⟩
      cases he
    | error e =>
      refine ⟨.ready, .nil _, hentry, fun stored hstored => ?_, fun _ _ => rfl⟩
      cases hstored
  | recordingFailure entry cause =>
    obtain ⟨i, rfl, hid, houtcome⟩ := hr
    exact ⟨.idle, .cons (.reported hid houtcome) (.nil _), rfl⟩

theorem Along.at_of_served (hm : Along config s s₀ s₁ m) (hcounts : Counts s.history)
    (hcolumn : s.engine.store.isTable = true → TableStore.fits s.history.length) {c : Call}
    {answer : c.request.Answer} (hserved : m.incident = .served c answer)
    (hsound : c.IsSound config s₀.engine.store.time s₀.history)
    (hanswer : s₀.engine.Answers c.request answer s₁.engine)
    (hc : (Stage.asking c).At config s₀.history p) :
    ∃ q, Course config p m.deed?.toList q ∧ (Stage.answered c answer).At config s₁.history q := by
  have hrun : m.run? = (Stage.answered c answer).run? := by rw [Moment.run?, hserved]
  rw [Moment.deed?, hrun]
  rcases Stage.run?_cases c answer with ⟨hasking, hanswered⟩ | ⟨r, answer', hruns⟩
  · rw [Stage.At, hasking] at hc
    simp only [Stage.At, hanswered]
    exact ⟨p, .nil p, hc⟩
  · rw [Stage.At, hruns.asking] at hc
    simp only [Stage.At, hruns.answered]
    exact hm.run_at_of_served hcounts hcolumn (hruns.isSound hsound) (hruns.answers hanswer) hc

/-- A run was asking for what it is served, and goes by what was stored. -/
theorem Along.of_run? (hm : Along config s s₀ s₁ m) (hcounts : Counts s.history)
    {stage : RunStage} (hrun : m.run? = some stage) :
    ∃ n c r answer, m.call = some n ∧ s₀.calls n = some (.asking c) ∧
      (Stage.asking c).run? = some (.asking r) ∧ stage = .answered r answer ∧
      r.IsSound config s₀.engine.store.time s₀.history ∧
      s₀.engine.Answers r.request answer s₁.engine := by
  unfold Moment.run? at hrun
  split at hrun
  · rename_i c answer hserved
    obtain ⟨n, hcall, hasks, hanswer⟩ := hm.step.of_served hm.history hserved
    obtain ⟨r, answer', rfl, hruns⟩ := Stage.runs_of_answered hrun
    have hsound := hm.reachable.isSound (hm.counts hcounts).1
    exact ⟨n, c, r, answer', hcall, hasks, hruns.asking, rfl,
      hruns.isSound (hsound.calls n _ hasks), hruns.answers hanswer⟩
  · cases hrun

theorem IsSound.known_base {time : Instant → Instant} (hs : s.IsSound config time) {c : Call}
    {answer : c.request.Answer} (hn : s.calls n = some (.answered c answer)) {base : Instance}
    {step : WorkflowEngine.Step} {answer' : Outcome Instance}
    (hrun : (Stage.answered c answer).run? = some (.answered (.saving base step) answer')) :
    Known s.history base.id := by
  obtain ⟨r, answer₀, hrun, hruns⟩ := Stage.runs_of_answered hrun
  cases hrun
  obtain ⟨⟨x, hx, hfound⟩, -⟩ := hruns.isSound (hs.calls n _ hn).1
  exact ⟨x, hx, _, hfound⟩

theorem Reachable.deeds_begun (hs : Reachable config s) : deeds s.begun s.history = [] :=
  deeds_eq_nil fun m hm hcall => by
    simp [Moment.deed?, Moment.run?, hs.crashed_of_unbegun hm hcall]

/-- The deeds of a call that goes on have led it to where it is. -/
theorem Reachable.course_of_stage (hs : Reachable config s)
    (hcolumn : s.engine.store.isTable = true → TableStore.fits s.history.length) {stage : Stage}
    (hn : s.calls n = some stage) :
    ∃ p, Course config .idle (deeds n s.history) p ∧ stage.At config s.history p := by
  have hcounts := hs.counts hcolumn
  refine hs.of_stages (P := fun h n stage =>
    ∃ p, Course config .idle (deeds n h) p ∧ stage.At config h p) ?_ ?_ ?_ ?_ n stage hn
  · intro s₀ s₁ m o c hm hcall hbegan hstart
    have hdeed : m.deed? = none := by simp [Moment.deed?, Moment.run?, hbegan]
    rw [hm.history, deeds_snoc_of_idle hdeed, hm.reachable.deeds_begun]
    exact ⟨.idle, .nil _, Stage.at_of_start hstart .idle⟩
  · intro s₀ s₁ m n c answer hm hcall hserved hasks hanswer ih
    obtain ⟨p, hcourse, hp⟩ := ih
    have hsound := hm.reachable.isSound (hm.counts hcounts).1
    obtain ⟨q, hdeed, hq⟩ :=
      hm.at_of_served hcounts hcolumn hserved (hsound.calls n _ hasks) hanswer hp
    refine ⟨q, ?_, hq⟩
    rw [hm.history, deeds_snoc_self hcall]
    exact hcourse.append hdeed
  · intro s₀ s₁ m n c answer c' hm hcall hresumed hanswered hresume ih
    obtain ⟨p, hcourse, hp⟩ := ih
    have hsound := hm.reachable.isSound (hm.counts hcounts).1
    have hdeed : m.deed? = none := by simp [Moment.deed?, Moment.run?, hresumed]
    have hnext := (Stage.at_of_resume hsound.config_eq
      (fun base step answer' hrun => hsound.known_base hanswered hrun) hp).1 c' hresume
    rw [hm.history, deeds_snoc_of_idle hdeed]
    exact ⟨p, hcourse, hnext.append [m]⟩
  · intro s₀ s₁ m n stage hm hcall _ ih
    obtain ⟨p, hcourse, hp⟩ := ih
    rw [hm.history, deeds_snoc_of_ne hcall]
    exact ⟨p, hcourse, hp.append [m]⟩

/-- The deeds of every call follow on each other. -/
theorem Reachable.course (hs : Reachable config s)
    (hcolumn : s.engine.store.isTable = true → TableStore.fits s.history.length) (n : Nat) :
    ∃ p, Course config .idle (deeds n s.history) p := by
  induction hs with
  | fresh => exact ⟨.idle, .nil _⟩
  | @step s s' hs hstep ih =>
    obtain ⟨m, hhistory, hengine⟩ := hstep.history
    have hm : Along config s' s s' m := ⟨hs, hstep, hhistory, hengine.symm, .refl⟩
    cases hdeed : m.deed? with
    | none =>
      rw [hhistory, deeds_snoc_of_idle hdeed]
      exact ih (hm.column hcolumn)
    | some d =>
      by_cases hcall : m.call = some n
      -- A call may be dropped later on, so its stage is looked up right after its last deed.
      · cases hstep with
        | @serve k c answer e hasks hanswer =>
          obtain rfl := List.singleton_inj.mp (List.append_inj' hhistory rfl).2
          obtain rfl : k = n := Option.some.inj hcall
          obtain ⟨p, hcourse, -⟩ := (hs.step (.serve hasks hanswer)).course_of_stage hcolumn
            (Function.update_self _ _ _)
          exact ⟨p, hcourse⟩
        | start | resume | crash | register | unregister | tick =>
          obtain rfl := List.singleton_inj.mp (List.append_inj' hhistory rfl).2
          cases hdeed
      · rw [hhistory, deeds_snoc_of_ne hcall]
        exact ih (hm.column hcolumn)

/-- When a call is over that was not dropped, it has nothing left to do. -/
theorem Reachable.rests_of_over (hs : Reachable config s)
    (hcolumn : s.engine.store.isTable = true → TableStore.fits s.history.length)
    (hover : s.calls n = none) (hkept : ∀ m ∈ s.history, m.call = some n → m.incident ≠ .crashed) :
    ∃ p, Course config .idle (deeds n s.history) p ∧ p.Rests config := by
  induction hs with
  | fresh => exact ⟨.idle, .nil _, .idle⟩
  | @step s s' hs hstep ih =>
    obtain ⟨m, hhistory, hengine⟩ := hstep.history
    have hm : Along config s' s s' m := ⟨hs, hstep, hhistory, hengine.symm, .refl⟩
    have hkept₀ (x : Moment) (hx : x ∈ s.history) : x.call = some n → x.incident ≠ .crashed :=
      hkept x (hhistory ▸ List.mem_append_left _ hx)
    have hother (hcall : m.call ≠ some n) (hover : s.calls n = none) :
        ∃ p, Course config .idle (deeds n s'.history) p ∧ p.Rests config := by
      rw [hhistory, deeds_snoc_of_ne hcall]
      exact ih (hm.column hcolumn) hover hkept₀
    cases hstep with
    | start o =>
      obtain rfl := List.singleton_inj.mp (List.append_inj' hhistory rfl).2
      rcases update_cases hover with ⟨rfl, -⟩ | ⟨hcall, hover⟩
      · rw [hhistory, deeds_snoc_of_idle rfl, hs.deeds_begun]
        exact ⟨.idle, .nil _, .idle⟩
      · exact hother hcall hover
    | @serve k c answer e hasks hanswer =>
      obtain rfl := List.singleton_inj.mp (List.append_inj' hhistory rfl).2
      rcases update_cases hover with ⟨-, hnone⟩ | ⟨hcall, hover⟩
      · cases hnone
      · exact hother hcall hover
    | @resume k c answer hanswered =>
      obtain rfl := List.singleton_inj.mp (List.append_inj' hhistory rfl).2
      rcases update_cases hover with ⟨rfl, hnone⟩ | ⟨hcall, hover⟩
      · have hsound := hs.isSound (hs.counts (hm.column hcolumn))
        obtain ⟨p, hcourse, hp⟩ := hs.course_of_stage (hm.column hcolumn) hanswered
        rw [hhistory, deeds_snoc_of_idle rfl]
        refine ⟨p, hcourse, ?_⟩
        cases hresume : c.resume s.engine.env answer with
        | waiting c' =>
          rw [hresume] at hnone
          cases hnone
        | ended result =>
          exact (Stage.at_of_resume hsound.config_eq
            (fun base step answer' hrun => hsound.known_base hanswered hrun) hp).2 result hresume
      · exact hother hcall hover
    | crash k =>
      obtain rfl := List.singleton_inj.mp (List.append_inj' hhistory rfl).2
      rcases update_cases hover with ⟨rfl, -⟩ | ⟨hcall, hover⟩
      · exact absurd rfl (hkept _ (hhistory ▸ List.mem_append_right _ List.mem_cons_self) rfl)
      · exact hother hcall hover
    | register | unregister | tick =>
      obtain rfl := List.singleton_inj.mp (List.append_inj' hhistory rfl).2
      exact hother (by simp) hover

end System
end WorkflowEngine

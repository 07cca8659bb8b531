import WorkflowEngine.Proofs.System.Audit

/-!
# The ledger of a call

Whatever a run stores, it has an entry for: that of a step, or that of a failure which ends the
instance. It appends the entry next, before it does anything else. So what a call has reported is
what it has settled, but for one entry at most that it still owes.
-/
namespace WorkflowEngine

/-- What is observed of a call, moment by moment. -/
def ofCall {α : Type} (f : Moment → Option α) (n : Nat) (h : List Moment) : List α :=
  (h.filter (·.call = some n)).filterMap f

section
variable {α : Type} {f : Moment → Option α} {n : Nat} {h : List Moment} {m : Moment}

@[simp] theorem ofCall_append (f : Moment → Option α) (n : Nat) (h h' : List Moment) :
    ofCall f n (h ++ h') = ofCall f n h ++ ofCall f n h' := by
  simp [ofCall]

theorem ofCall_self (hm : m.call = some n) : ofCall f n [m] = (f m).toList := by
  cases hfm : f m <;> simp [ofCall, hm, hfm]

theorem ofCall_of_ne (hm : m.call ≠ some n) : ofCall f n [m] = [] := by
  simp [ofCall, hm]

theorem ofCall_of_none (hm : f m = none) : ofCall f n [m] = [] := by
  by_cases hcall : m.call = some n <;> simp [ofCall, hcall, hm]

theorem ofCall_eq_nil (hnone : ∀ m ∈ h, m.call = some n → f m = none) : ofCall f n h = [] := by
  refine List.filterMap_eq_nil_iff.mpr fun m hm => ?_
  obtain ⟨hmem, hcall⟩ := List.mem_filter.mp hm
  exact hnone m hmem (by simpa using hcall)

theorem mem_ofCall {a : α} : a ∈ ofCall f n h ↔ ∃ m ∈ h, m.call = some n ∧ f m = some a := by
  simp [ofCall, List.mem_filterMap, and_assoc]

theorem countP_filterMap_any {β : Type} (p : α → Bool) (g : β → Option α) (l : List β) :
    (l.filterMap g).countP p = l.countP fun b => (g b).any p := by
  rw [List.countP_filterMap]
  congr 1
  funext b
  cases g b <;> rfl

theorem countP_ofCall (p : α → Bool) :
    (ofCall f n h).countP p = h.countP fun m => (f m).any p && decide (m.call = some n) := by
  rw [ofCall, countP_filterMap_any, List.countP_filter]

end

/-- The entry that a run appends for what it has stored. -/
def Run.report? : Run → Option AuditEntry
  | recording _ entry | recordingFailure entry _ => some entry
  | _ => none

namespace RunStage

/-- The entry for what has just been stored. -/
def settled? : RunStage → Option AuditEntry
  | answered (.saving _ step) (.ok _) => some step.entry
  | answered (.failing _ entry _) (.ok _) => some entry
  | _ => none

/-- The entry that has just been appended for what was stored. -/
def reported? : RunStage → Option AuditEntry
  | answered r _ => r.report?
  | asking _ => none

/-- The entry that a run has still to append for what it has stored. -/
def owed? : RunStage → Option AuditEntry
  | asking r => r.report?
  | answered r answer => (answered r answer).settled?

end RunStage

def Stage.owed? (stage : Stage) : Option AuditEntry := stage.run?.bind RunStage.owed?

namespace Moment

def settled? (m : Moment) : Option AuditEntry := m.run?.bind RunStage.settled?

def reported? (m : Moment) : Option AuditEntry := m.run?.bind RunStage.reported?

end Moment

namespace Run

variable {env : Env} {i : Instance} {r r' : Run}

theorem report?_of_fail {e : Error} (hfail : fail env i e = .waiting r) : r.report? = none := by
  unfold fail at hfail
  split at hfail
  · cases hfail
  · obtain rfl := Progress.waiting.inj hfail
    rfl

theorem report?_of_proceed (hproceed : proceed env i = .waiting r) : r.report? = none := by
  unfold proceed at hproceed
  split at hproceed
  · split at hproceed
    · obtain rfl := Progress.waiting.inj hproceed
      rfl
    · obtain rfl := Progress.waiting.inj hproceed
      rfl
    · exact report?_of_fail hproceed
  · cases hproceed

theorem report?_of_begin (hbegin : begin env i = .waiting r) : r.report? = none := by
  unfold begin at hbegin
  split at hbegin
  · obtain rfl := Progress.waiting.inj hbegin
    rfl
  · exact report?_of_proceed hbegin
  · exact report?_of_fail hbegin

/-- What a run has stored it reports next. -/
theorem report?_of_resume {answer : r.request.Answer}
    (hresume : r.resume env answer = .waiting r') :
    r'.report? = (RunStage.answered r answer).settled? := by
  cases goesOn_of_resume hresume with
  | begun _ _ hbegin => exact report?_of_begin hbegin
  | recorded hproceed => exact report?_of_proceed hproceed
  | stored | refused | concluded | reloaded | failed => rfl

/-- A run that has just stored something is not over. -/
theorem settled?_of_ended {answer : r.request.Answer} {result : Outcome Instance}
    (hended : r.resume env answer = .ended result) :
    (RunStage.answered r answer).settled? = none := by
  cases r with
  | saving | failing =>
    cases answer with
    | ok => cases hended
    | error => rfl
  | loading | recording | invoking | reloading | recordingDropped | recordingFailure => rfl

end Run

namespace Stage

variable {env : Env}

theorem owed?_of_start {o : Opening} : (next? (o.start env)).bind owed? = none := by
  cases hstart : o.start env with
  | ended => rfl
  | waiting c =>
    change (asking c).run?.bind RunStage.owed? = none
    cases hrun : (asking c).run? with
    | none => rfl
    | some r =>
      obtain ⟨id, worker, rfl⟩ := (of_start hstart).1 r hrun
      rfl

theorem owed?_of_pass (worker : String) (ids : List InstanceId) (claimed : Nat) :
    (next? ((Pass.proceed worker ids claimed).map Call.pass CallResult.claimed)).bind owed? =
      none := by
  cases ids <;> rfl

/-- Going on, a call neither settles nor reports anything. -/
theorem owed?_of_resume {c : Call} {answer : c.request.Answer} :
    (next? (c.resume env answer)).bind owed? = (answered c answer).owed? := by
  have hquiet {σ α : Type} {call : σ → Call} {result : α → CallResult} (progress : Progress σ α)
      (hcall : ∀ x, (asking (call x)).owed? = none) :
      (next? (progress.map call result)).bind owed? = none := by
    cases progress with
    | waiting x => exact hcall x
    | ended result => cases result <;> rfl
  cases c with
  | run r =>
    change (next? ((r.resume env answer).map Call.run CallResult.left)).bind owed? =
      (RunStage.answered r answer).settled?
    cases hresume : r.resume env answer with
    | waiting r' => exact Run.report?_of_resume hresume
    | ended result =>
      rw [Run.settled?_of_ended hresume]
      cases result <;> rfl
  | pass p =>
    cases p with
    | polling worker poll =>
      change (next? ((Pass.resume env (.polling worker poll) answer).map Call.pass
        CallResult.claimed)).bind owed? = none
      simp only [Pass.resume]
      split
      · rfl
      · exact owed?_of_pass worker _ _
      · rfl
    | running worker r rest claimed =>
      change (next? ((Pass.resume env (.running worker r rest claimed) answer).map Call.pass
        CallResult.claimed)).bind owed? = (RunStage.answered r answer).settled?
      simp only [Pass.resume]
      split
      · next r' hresume => exact Run.report?_of_resume hresume
      · next hresume =>
        rw [Run.settled?_of_ended hresume]
        exact owed?_of_pass worker rest claimed
  | emit | dispatch | poll | sweep | cancel => exact hquiet _ fun _ => rfl

/-- What a call that is served owed it reports, and what it settles it owes. -/
theorem owed?_of_served {m : Moment} {c : Call} {answer : c.request.Answer}
    (hserved : m.incident = .served c answer) :
    m.reported? = (asking c).owed? ∧ m.settled? = (answered c answer).owed? := by
  have hrun : m.run? = (answered c answer).run? := by rw [Moment.run?, hserved]
  rw [Moment.reported?, Moment.settled?, hrun]
  rcases run?_cases c answer with ⟨hasking, hanswered⟩ | ⟨r, answer', hruns⟩
  · simp [owed?, hasking, hanswered]
  · rw [owed?, owed?, hruns.asking, hruns.answered]
    exact ⟨rfl, rfl⟩

end Stage

/-- What a call has settled it has reported, but for what it owes. A call that was dropped owes it
for ever. -/
def Balanced (h : List Moment) (n : Nat) : Option Stage → Prop
  | some stage =>
    ofCall Moment.settled? n h = ofCall Moment.reported? n h ++ stage.owed?.toList
  | none => ofCall Moment.reported? n h <+: ofCall Moment.settled? n h

section
variable {h : List Moment} {m : Moment} {n : Nat} {stage : Option Stage}

theorem Balanced.reported_isPrefix (hn : Balanced h n stage) :
    ofCall Moment.reported? n h <+: ofCall Moment.settled? n h := by
  cases stage with
  | some stage => exact ⟨_, hn.symm⟩
  | none => exact hn

/-- What happens to a call without anything being settled or reported changes nothing. -/
theorem Balanced.append (hn : Balanced h n stage)
    (hsettled : ofCall Moment.settled? n [m] = [])
    (hreported : ofCall Moment.reported? n [m] = []) : Balanced (h ++ [m]) n stage := by
  have hsame (f : Moment → Option AuditEntry) (hm : ofCall f n [m] = []) :
      ofCall f n (h ++ [m]) = ofCall f n h := by
    rw [ofCall_append, hm, List.append_nil]
  cases stage <;> rw [Balanced, hsame _ hsettled, hsame _ hreported] <;> exact hn

theorem Balanced.of_stage (hn : ofCall Moment.settled? n h =
    ofCall Moment.reported? n h ++ (stage.bind Stage.owed?).toList) : Balanced h n stage := by
  cases stage with
  | some stage => exact hn
  | none => exact ⟨[], hn.symm⟩

end

namespace System

variable {config : EngineConfig} {s s₀ s₁ : System} {m : Moment} {n : Nat}

theorem Reachable.balanced (hs : Reachable config s) (n : Nat) :
    Balanced s.history n (s.calls n) := by
  induction hs with
  | fresh => exact .of_stage rfl
  | @step s s' hs hstep ih =>
    have hother {k : Nat} {stage : Option Stage} {incident : Incident} {e : Engine} (hne : n ≠ k) :
        Balanced (s.turn k stage incident e).history n ((s.turn k stage incident e).calls n) := by
      have hcall : some k ≠ some n := fun h => hne (Option.some.inj h).symm
      have hsame : (s.turn k stage incident e).calls n = s.calls n :=
        Function.update_of_ne hne _ _
      rw [hsame]
      exact ih.append (ofCall_of_ne hcall) (ofCall_of_ne hcall)
    have hself {stage : Option Stage} {incident : Incident} {e : Engine}
        (hn : Balanced (s.history ++ [⟨some n, incident, e⟩]) n stage) :
        Balanced (s.turn n stage incident e).history n ((s.turn n stage incident e).calls n) := by
      have hnew : (s.turn n stage incident e).calls n = stage := Function.update_self _ _ _
      rwa [hnew]
    cases hstep with
    | start o =>
      by_cases hk : n = s.begun
      · subst hk
        -- Before it begins, a call can only be dropped.
        have hnothing (f : RunStage → Option AuditEntry) :
            ofCall (fun m => m.run?.bind f) s.begun s.history = [] :=
          ofCall_eq_nil fun m hm hcall => by
            simp [Moment.run?, hs.crashed_of_unbegun hm hcall]
        have hsettled : ofCall Moment.settled? s.begun s.history = [] := hnothing _
        have hreported : ofCall Moment.reported? s.begun s.history = [] := hnothing _
        refine hself (.of_stage ?_)
        rw [Stage.owed?_of_start, ofCall_append, ofCall_append, hsettled, hreported,
          ofCall_of_none rfl, ofCall_of_none rfl]
        rfl
      · exact hother hk
    | @serve k c answer e hasks hanswer =>
      by_cases hk : n = k
      · subst hk
        rw [hasks] at ih
        obtain ⟨hreported, hsettled⟩ :=
          Stage.owed?_of_served
            (show (Moment.mk (some n) (.served c answer) e).incident = _ from rfl)
        refine hself ?_
        change ofCall _ n _ = ofCall _ n _ ++ _
        rw [ofCall_append, ofCall_append, ofCall_self rfl, ofCall_self rfl, hreported, hsettled]
        exact congrArg (· ++ _) ih
      · exact hother hk
    | @resume k c answer hanswered =>
      by_cases hk : n = k
      · subst hk
        rw [hanswered] at ih
        refine hself (.of_stage ?_)
        rw [Stage.owed?_of_resume, ofCall_append, ofCall_append, ofCall_of_none rfl,
          ofCall_of_none rfl, List.append_nil, List.append_nil]
        exact ih
      · exact hother hk
    | crash k =>
      by_cases hk : n = k
      · subst hk
        have hdropped : Balanced s.history n none := ih.reported_isPrefix
        exact hself (hdropped.append (ofCall_of_none rfl) (ofCall_of_none rfl))
      · exact hother hk
    | register | unregister | tick => exact ih.append (ofCall_of_none rfl) (ofCall_of_none rfl)

end System

/-! ## What is appended -/

/-- What is refused although an action was invoked for it is the outcome of an invocation. -/
def Phase.IsReported : Phase → Prop
  | refused step => step.invoked = true → ∃ v : Invocation, v.Reports step.entry
  | reloaded step current =>
    (∃ v : Invocation, v.Reports step.entry) ∧ current.id = step.entry.instanceId
  | _ => True

theorem Course.isReported {config : EngineConfig} {p q : Phase} {ds : List Deed}
    (h : Course config p ds q) (hp : p.IsReported) : q.IsReported := by
  induction h with
  | nil => exact hp
  | cons hnext _ ih =>
    refine ih ?_
    cases hnext with
    | refused hplain =>
      intro hinvoked
      rw [hplain.uninvoked] at hinvoked
      cases hinvoked
    | rejected hstep => exact fun _ => ⟨_, hstep.reports.2⟩
    | discarded hinvoked hid => exact ⟨hp hinvoked, hid⟩
    | loaded | stored | invoked | concluded | recorded | reloaded | dropped | failed | reported =>
      trivial

theorem Moment.appended?_of_reported {m : Moment} {entry : AuditEntry}
    (hreported : m.reported? = some entry) : m.appended? = some entry := by
  obtain ⟨stage, hrun, hstage⟩ := Option.bind_eq_some_iff.mp hreported
  unfold run? at hrun
  split at hrun
  · next c answer hserved =>
    obtain ⟨r, answer', rfl, hruns⟩ := Stage.runs_of_answered hrun
    have hrequest : c.request.appended? = r.request.appended? := by cases hruns <;> rfl
    rw [appended?, hserved]
    refine hrequest.trans ?_
    cases r with
    | recording | recordingFailure => exact hstage
    | loading | saving | invoking | reloading | recordingDropped | failing => cases hstage
  · cases hrun

namespace System

variable {config : EngineConfig} {s s₀ s₁ : System} {m : Moment} {n : Nat} {entry : AuditEntry}

/-- What is recorded of a step that was dropped is the outcome of an invocation, and is marked. -/
theorem Reachable.of_dropped (hs : Reachable config s)
    (hcolumn : s.engine.store.isTable = true → TableStore.fits s.history.length) {stage : Stage}
    (hn : s.calls n = some stage) {current : Instance}
    (hrun : stage.run? = some (.asking (.recordingDropped current entry))) :
    entry.outcome.isResult = true ∧ entry.detail.lookup "discarded" ≠ none := by
  obtain ⟨p, hcourse, hp⟩ := hs.course_of_stage hcolumn hn
  rw [Stage.At, hrun] at hp
  obtain ⟨step, now, rfl, rfl⟩ := hp
  have hreported : (Phase.reloaded step current).IsReported := hcourse.isReported trivial
  obtain ⟨⟨v, hv⟩, hid⟩ := hreported
  obtain ⟨-, -, hmarked, hresult, -⟩ := Step.droppedEntry_spec now hv hid
  exact ⟨hresult, hmarked⟩

/-- Whatever is appended is reported of what was stored, or says that the instance was cancelled, or
is the outcome of an invocation that came to nothing. -/
theorem Along.of_appended (hm : Along config s s₀ s₁ m)
    (hcolumn : s.engine.store.isTable = true → TableStore.fits s.history.length)
    (happended : m.appended? = some entry) :
    m.reported? = some entry ∨ entry.outcome = .cancelled ∨
      entry.outcome.isResult = true ∧ entry.detail.lookup "discarded" ≠ none := by
  unfold Moment.appended? at happended
  split at happended
  · next c answer hserved =>
    obtain ⟨n, -, hasks, -⟩ := hm.step.of_served hm.history hserved
    have hreported : m.reported? = (Stage.asking c).owed? := (Stage.owed?_of_served hserved).1
    rw [hreported]
    clear hserved hreported
    have hrun {r : Run} (hr : (Stage.asking c).run? = some (.asking r))
        (hentry : r.request.appended? = some entry) :
        (Stage.asking c).owed? = some entry ∨ entry.outcome = .cancelled ∨
          entry.outcome.isResult = true ∧ entry.detail.lookup "discarded" ≠ none := by
      rw [Stage.owed?, hr]
      cases r with
      | recording | recordingFailure => exact .inl hentry
      | recordingDropped current entry' =>
        obtain rfl := Option.some.inj hentry
        exact .inr (.inr (hm.reachable.of_dropped (hm.column hcolumn) hasks hr))
      | loading | saving | invoking | reloading | failing => cases hentry
    cases c with
    | run r => exact hrun rfl happended
    | pass p =>
      cases p with
      | running worker r rest claimed => exact hrun rfl happended
      | polling worker poll => cases poll <;> cases happended
    | cancel c =>
      cases c with
      | recording stored entry' =>
        obtain rfl := Option.some.inj happended
        exact .inr (.inl (hm.reachable.outcome_of_cancel hasks))
      | loading | saving => cases happended
    | poll poll => cases poll <;> cases happended
    | sweep sweep => cases sweep <;> cases happended
    | emit | dispatch => cases happended
  · cases happended

/-! ## Runs in which every entry is recorded -/

section
variable {e e' : Engine} {c : Call}

/-- No call has been dropped, and the trail is what has been appended. The engine is known but for
the trail. -/
structure IsWhole (config : EngineConfig) (e : Engine) (s : System) : Prop where
  reachable : Reachable config s
  kept : ∀ m ∈ s.history, m.incident ≠ .crashed
  engine : s.engine = { e with trail := s.history.filterMap Moment.appended? }

theorem IsWhole.fresh (he : e.IsFresh config) (htrail : e.trail = []) :
    (System.fresh e).IsWhole config e where
  reachable := .fresh he
  kept := by simp [System.fresh]
  engine := congrArg (fun trail => { e with trail }) htrail

theorem IsWhole.trail_eq (hs : s.IsWhole config e) :
    s.engine.trail = s.history.filterMap Moment.appended? := by
  rw [hs.engine]

/-- Something has happened that is neither a loss nor the answer to a request. -/
theorem IsWhole.snoc (hs : s.IsWhole config e) {s' : System} (hstep : Step s s') {m : Moment}
    (hhistory : s'.history = s.history ++ [m]) (hkept : m.incident ≠ .crashed)
    (hunserved : ∀ c answer, m.incident ≠ .served c answer)
    (hengine : s'.engine = { e' with trail := s.engine.trail }) : s'.IsWhole config e' where
  reachable := hs.reachable.step hstep
  kept := by
    intro x hx
    rw [hhistory] at hx
    rcases List.mem_append.mp hx with hx | hx
    · exact hs.kept x hx
    · obtain rfl := List.mem_singleton.mp hx
      exact hkept
  engine := by
    rw [hengine, hs.trail_eq, hhistory, List.filterMap_append,
      List.filterMap_cons_none (Moment.appended?_of_unserved hunserved), List.filterMap_nil,
      List.append_nil]

theorem IsWhole.begins (hs : s.IsWhole config e) {o : Opening}
    (hstart : o.start e.env = .waiting c) :
    ∃ s' : System, s'.IsWhole config e ∧ s'.begun = s.begun + 1 ∧
      s'.calls = Function.update s.calls s.begun (some (.asking c)) := by
  have hstart : o.start s.engine.env = .waiting c := by
    rw [hs.engine]
    exact hstart
  refine ⟨_, hs.snoc (.start s o) rfl (by simp) (by simp) ?_, rfl, ?_⟩
  · rw [turn, hs.engine]
  · rw [hstart]
    rfl

/-- A call is served and goes on at once. -/
theorem IsWhole.served_resumed (hs : s.IsWhole config e) (hasks : s.calls n = some (.asking c))
    {answer : c.request.Answer} (hanswer : e.Answers c.request answer e') :
    ∃ s' : System, s'.IsWhole config e' ∧ s'.begun = s.begun ∧
      s'.calls = Function.update s.calls n (Stage.next? (c.resume e'.env answer)) ∧
      ∃ trail, s'.history = s.history ++ [⟨some n, .served c answer, { e' with trail }⟩] ++
        [⟨some n, .resumed (c.resume e'.env answer), { e' with trail }⟩] := by
  obtain ⟨trail, hanswer', hrecorded⟩ :=
    hanswer.recorded (s.history.filterMap Moment.appended?)
  rw [← hs.engine] at hanswer'
  have hserves : Step s _ := .serve hasks hanswer'
  have hwhole : (s.turn n (some (.answered c answer)) (.served c answer)
      { e' with trail }).IsWhole config e' := by
    refine ⟨hs.reachable.step hserves, fun x hx => ?_, ?_⟩
    · rcases List.mem_append.mp hx with hx | hx
      · exact hs.kept x hx
      · obtain rfl := List.mem_singleton.mp hx
        simp
    · change { e' with trail } = _
      rw [turn, List.filterMap_append]
      cases happended : c.request.appended? with
      | none =>
        have hsame := Engine.trail_of_answers hanswer' happended
        have hm : (Moment.mk (some n) (.served c answer) { e' with trail }).appended? = none :=
          happended
        rw [List.filterMap_cons_none hm, List.filterMap_nil, List.append_nil, ← hs.trail_eq,
          ← hsame]
      | some entry =>
        have hm : (Moment.mk (some n) (.served c answer) { e' with trail }).appended? =
            some entry := happended
        rw [List.filterMap_cons_some hm, List.filterMap_nil, hrecorded entry happended]
  have hresumes := Step.resume (s := s.turn n (some (.answered c answer)) (.served c answer)
    { e' with trail }) (n := n) (Function.update_self n _ _)
  refine ⟨_, hwhole.snoc hresumes rfl (by simp) (by simp) ?_, rfl, ?_, trail, rfl⟩
  · rfl
  · exact Function.update_idem _ _ _

end

end System

/-! ## Runs of which the books are kept -/

/-- A call is served and goes on at once, time and again, with what it settles and what it appends
meanwhile. -/
inductive Exchanges :
    Engine → Call → List AuditEntry → List AuditEntry → Engine → Option Call → Prop
  | waits (e : Engine) (c : Call) : Exchanges e c [] [] e (some c)
  | ends {e e' : Engine} {c : Call} {result : Outcome CallResult} {σ α : List AuditEntry}
      (answer : c.request.Answer) (hanswer : e.Answers c.request answer e')
      (hresume : c.resume e'.env answer = .ended result)
      (hsettled : σ = (Stage.answered c answer).owed?.toList)
      (happended : α = c.request.appended?.toList) : Exchanges e c σ α e' none
  | goesOn {e e' e'' : Engine} {c c' : Call} {next : Option Call} {σ σ' α α' : List AuditEntry}
      (answer : c.request.Answer) (hanswer : e.Answers c.request answer e')
      (hresume : c.resume e'.env answer = .waiting c')
      (hsettled : σ = (Stage.answered c answer).owed?.toList ++ σ')
      (happended : α = c.request.appended?.toList ++ α') (hrest : Exchanges e' c' σ' α' e'' next) :
      Exchanges e c σ α e'' next

theorem Exchanges.trans {e e' e'' : Engine} {c c' : Call} {next : Option Call}
    {σ σ' α α' : List AuditEntry} (h : Exchanges e c σ α e' (some c'))
    (h' : Exchanges e' c' σ' α' e'' next) : Exchanges e c (σ ++ σ') (α ++ α') e'' next := by
  generalize hwaits : some c' = waits at h
  induction h with
  | waits e c =>
    obtain rfl := Option.some.inj hwaits
    exact h'
  | ends => cases hwaits
  | goesOn answer hanswer hresume hsettled happended _ ih =>
    exact .goesOn answer hanswer hresume (by rw [hsettled, List.append_assoc])
      (by rw [happended, List.append_assoc]) (ih h' hwaits)

namespace System

/-- A run in which every entry is recorded and no plan is removed, with what was settled and what
was appended. -/
structure IsBooked (config : EngineConfig) (e : Engine) (settled appended : List AuditEntry)
    (s : System) : Prop extends IsWhole config e s where
  keeps : Keeps s.history
  settled : s.history.filterMap Moment.settled? = settled
  appended : s.history.filterMap Moment.appended? = appended

section
variable {config : EngineConfig} {s : System} {e e' : Engine} {c : Call} {n : Nat}
  {next : Option Call} {σ α σ' α' : List AuditEntry}

theorem IsBooked.fresh (he : e.IsFresh config) (htrail : e.trail = []) :
    (System.fresh e).IsBooked config e [] [] :=
  ⟨.fresh he htrail, by simp [System.fresh, Keeps], rfl, rfl⟩

theorem IsBooked.snoc (hs : s.IsBooked config e σ α) {s' : System} (hstep : Step s s') {m : Moment}
    (hhistory : s'.history = s.history ++ [m]) (hkept : m.incident ≠ .crashed)
    (hunserved : ∀ c answer, m.incident ≠ .served c answer)
    (hkeeps : ∀ graphId, m.incident ≠ .unregistered graphId)
    (hengine : s'.engine = { e' with trail := s.engine.trail }) : s'.IsBooked config e' σ α := by
  have hsettled : m.settled? = none := by
    rw [Moment.settled?, Moment.run?_of_unserved hunserved, Option.bind_none]
  have happended : m.appended? = none := Moment.appended?_of_unserved hunserved
  refine ⟨hs.toIsWhole.snoc hstep hhistory hkept hunserved hengine, fun x hx => ?_, ?_, ?_⟩
  · rw [hhistory] at hx
    rcases List.mem_append.mp hx with hx | hx
    · exact hs.keeps x hx
    · obtain rfl := List.mem_singleton.mp hx
      exact hkeeps
  · rw [hhistory, List.filterMap_append, hs.settled, List.filterMap_cons_none hsettled,
      List.filterMap_nil, List.append_nil]
  · rw [hhistory, List.filterMap_append, hs.appended, List.filterMap_cons_none happended,
      List.filterMap_nil, List.append_nil]

theorem IsBooked.turn (hs : s.IsBooked config e σ α) (hasks : s.calls n = some (.asking c))
    {answer : c.request.Answer} (hanswer : e.Answers c.request answer e') :
    ∃ s' : System, s'.IsBooked config e' (σ ++ (Stage.answered c answer).owed?.toList)
        (α ++ c.request.appended?.toList) ∧ s'.begun = s.begun ∧
      s'.calls = Function.update s.calls n (Stage.next? (c.resume e'.env answer)) := by
  obtain ⟨s', hs', hbegun, hcalls, trail, hhistory⟩ := hs.served_resumed hasks hanswer
  have hone (f : Moment → Option AuditEntry) (m : Moment) : [m].filterMap f = (f m).toList := by
    cases hfm : f m <;> simp [hfm]
  refine ⟨s', ⟨hs', ?_, ?_, ?_⟩, hbegun, hcalls⟩
  · rw [hhistory]
    intro x hx
    simp only [List.mem_append, List.mem_singleton] at hx
    rcases hx with (hx | rfl) | rfl
    · exact hs.keeps x hx
    · simp
    · simp
  · have hserved : (Moment.mk (some n) (.served c answer) { e' with trail }).settled? =
        (Stage.answered c answer).owed? := (Stage.owed?_of_served rfl).2
    rw [hhistory, List.filterMap_append, List.filterMap_append, hs.settled, hone, hone, hserved]
    exact List.append_nil _
  · rw [hhistory, List.filterMap_append, List.filterMap_append, hs.appended, hone, hone]
    exact List.append_nil _

theorem IsBooked.exchanges (hs : s.IsBooked config e σ α) (hasks : s.calls n = some (.asking c))
    (h : Exchanges e c σ' α' e' next) :
    ∃ s' : System, s'.IsBooked config e' (σ ++ σ') (α ++ α') ∧ s'.begun = s.begun ∧
      s'.calls = Function.update s.calls n (next.map Stage.asking) := by
  induction h generalizing s σ α with
  | waits e c =>
    refine ⟨s, by simpa using hs, rfl, ?_⟩
    rw [Option.map_some, ← hasks, Function.update_eq_self]
  | ends answer hanswer hresume hsettled happended =>
    subst hsettled happended
    obtain ⟨s', hs', hbegun, hcalls⟩ := hs.turn hasks hanswer
    rw [hresume] at hcalls
    exact ⟨s', hs', hbegun, hcalls⟩
  | goesOn answer hanswer hresume hsettled happended _ ih =>
    subst hsettled happended
    obtain ⟨s', hs', hbegun, hcalls⟩ := hs.turn hasks hanswer
    rw [hresume] at hcalls
    obtain ⟨s'', hs'', hbegun', hcalls'⟩ := ih hs' (hcalls ▸ Function.update_self n _ _)
    refine ⟨s'', by simpa using hs'', hbegun'.trans hbegun, ?_⟩
    rw [hcalls', hcalls, Function.update_idem]

theorem IsBooked.calls (hs : s.IsBooked config e σ α) {o : Opening}
    (hstart : o.start e.env = .waiting c) (h : Exchanges e c σ' α' e' next) :
    ∃ s' : System, s'.IsBooked config e' (σ ++ σ') (α ++ α') ∧ s'.begun = s.begun + 1 ∧
      s'.calls = Function.update s.calls s.begun (next.map Stage.asking) := by
  have hstart : o.start s.engine.env = .waiting c := by
    rw [hs.engine]
    exact hstart
  have hbegins : IsBooked config e σ α _ :=
    hs.snoc (.start s o) rfl (by simp) (by simp) (by simp) (by rw [System.turn, hs.engine])
  obtain ⟨s', hs', hbegun, hcalls⟩ := hbegins.exchanges (n := s.begun)
    (by rw [hstart]; exact Function.update_self s.begun _ _) h
  refine ⟨s', hs', hbegun, ?_⟩
  rw [hcalls]
  exact Function.update_idem _ _ _

/-- A call begins and is served to its end while the others wait. -/
theorem IsBooked.called (hs : s.IsBooked config e σ α) {o : Opening}
    (hstart : o.start e.env = .waiting c) (h : Exchanges e c σ' α' e' none) :
    ∃ s' : System, s'.IsBooked config e' (σ ++ σ') (α ++ α') ∧ s'.calls = s.calls := by
  obtain ⟨s', hs', -, hcalls⟩ := hs.calls hstart h
  refine ⟨s', hs', hcalls.trans ?_⟩
  rw [Option.map_none, ← hs.reachable.calls_begun, Function.update_eq_self]

theorem IsBooked.tick (hs : s.IsBooked config e σ α) (now : Instant) :
    ∃ s' : System, s'.IsBooked config { e with now } σ α ∧ s'.calls = s.calls := by
  refine ⟨_, hs.snoc (.tick s now) rfl (by simp) (by simp) (by simp) ?_, rfl⟩
  rw [aside, hs.engine]

end

end System
end WorkflowEngine

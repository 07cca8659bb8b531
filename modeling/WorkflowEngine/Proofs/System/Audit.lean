import WorkflowEngine.Proofs.System.Deeds
import WorkflowEngine.Proofs.System.Undisturbed

/-!
# The audit trail

Every invocation of an action is recorded with its outcome, once, whether the outcome could be
stored or not, and every stored step is recorded once.
-/
namespace WorkflowEngine

namespace Deed

def entry? : Deed → Option AuditEntry
  | appended entry => some entry
  | _ => none

/-- The entry for the outcome of an invocation. -/
def result? (d : Deed) : Option AuditEntry := d.entry?.filter (·.outcome.isResult)

def isInvocation : Deed → Bool
  | invoked _ _ => true
  | _ => false

/-- Whether something is done because of what was done before it. -/
def isAftermath : Deed → Bool
  | appended _ | reloaded _ => true
  | _ => false

end Deed

/-- The entries that are appended before a call does anything else. -/
def entriesAfter (ds : List Deed) : List AuditEntry :=
  (ds.takeWhile Deed.isAftermath).filterMap Deed.entry?

/-- The entries for the outcomes of invocations that are appended before the next invocation. -/
def resultsAfter (ds : List Deed) : List AuditEntry :=
  (ds.takeWhile (!·.isInvocation)).filterMap Deed.result?

section
variable {d : Deed} {ds : List Deed} {entry : AuditEntry}

@[simp] theorem entriesAfter_appended :
    entriesAfter (.appended entry :: ds) = entry :: entriesAfter ds := rfl

@[simp] theorem entriesAfter_reloaded {current : Instance} :
    entriesAfter (.reloaded current :: ds) = entriesAfter ds := rfl

theorem Deed.result?_appended (hresult : entry.outcome.isResult = true) :
    (Deed.appended entry).result? = some entry := by
  simp [result?, entry?, hresult]

theorem resultsAfter_appended (hresult : entry.outcome.isResult = true) :
    resultsAfter (.appended entry :: ds) = entry :: resultsAfter ds := by
  rw [resultsAfter, List.takeWhile_cons_of_pos rfl,
    List.filterMap_cons_some (Deed.result?_appended hresult)]
  rfl

theorem resultsAfter_of_none (hcalm : d.isInvocation = false) (hnone : d.result? = none) :
    resultsAfter (d :: ds) = resultsAfter ds := by
  rw [resultsAfter, List.takeWhile_cons_of_pos (by simp [hcalm]), List.filterMap_cons_none hnone]
  rfl

end

/-- What is appended for the deeds of a call that has nothing left to do. -/
structure Audited (config : EngineConfig) (ds : List Deed) : Prop where
  /-- Only a reply that is no result goes unrecorded. -/
  invoked : ∀ before v reply after, ds = before ++ .invoked v reply :: after →
    (∀ value, reply ≠ .strange value) → ∃ step entry, v.Concludes config reply step ∧
      resultsAfter after = [entry] ∧ entry.instanceId = v.base.id ∧ entry.node = some v.node ∧
      (entry.detail.lookup "discarded" = none ↔ ∃ rest, after = .stored step :: rest) ∧
      (entry.outcome = .cancelledPostHoc ↔ ∃ current rest,
        after = .refused step :: .reloaded current :: rest ∧ current.status = .cancelled)
  stored : ∀ before step after, ds = before ++ .stored step :: after →
    entriesAfter after = [step.entry]
  refused : ∀ before step after, ds = before ++ .refused step :: after →
    if step.invoked then ∃ entry, entriesAfter after = [entry] else entriesAfter after = []
  failed : ∀ before i after, ds = before ++ .failed i :: after →
    ∃ entry, entriesAfter after = [entry] ∧ entry.instanceId = i.id ∧ entry.outcome = .failed

section
variable {config : EngineConfig} {v : Invocation} {reply : Reply} {step : Step} {ds : List Deed}
  {p q : Phase} {d : Deed}

/-- No outcome of an invocation is still to be recorded. -/
def Phase.IsQuiet : Phase → Prop
  | idle | ready | failed _ => True
  | stored step => step.entry.outcome.isResult = false
  | refused step => step.invoked = false
  | invoked _ _ | reloaded _ _ => False

theorem Phase.Next.isQuiet (hnext : p.Next config d q) (hp : p.IsQuiet) :
    d.isInvocation = true ∨ d.result? = none ∧ q.IsQuiet := by
  cases hnext with
  | loaded => exact .inr ⟨rfl, trivial⟩
  | stored hplain => exact .inr ⟨rfl, hplain.outcome⟩
  | refused hplain => exact .inr ⟨rfl, hplain.uninvoked⟩
  | invoked => exact .inl rfl
  | concluded | rejected | dropped => exact hp.elim
  | recorded step =>
    have houtcome : step.entry.outcome.isResult = false := hp
    exact .inr ⟨by simp [Deed.result?, Deed.entry?, houtcome], trivial⟩
  | reloaded => exact .inr ⟨rfl, trivial⟩
  | @discarded step _ hinvoked =>
    have huninvoked : step.invoked = false := hp
    rw [hinvoked] at huninvoked
    cases huninvoked
  | failed => exact .inr ⟨rfl, trivial⟩
  | reported _ houtcome =>
    exact .inr ⟨by simp [Deed.result?, Deed.entry?, houtcome, AuditOutcome.isResult], trivial⟩

namespace Course

/-- Before the next invocation no outcome of an invocation is recorded. -/
theorem resultsAfter_eq_nil (h : Course config p ds q) (hp : p.IsQuiet) : resultsAfter ds = [] := by
  induction h with
  | nil => rfl
  | @cons p q r d ds hnext _ ih =>
    rcases hnext.isQuiet hp with hinvocation | ⟨hnone, hq⟩
    · simp [resultsAfter, hinvocation]
    · cases hinvocation : d.isInvocation with
      | true => simp [resultsAfter, hinvocation]
      | false => exact (resultsAfter_of_none hinvocation hnone).trans (ih hq)

theorem entriesAfter_eq_nil (h : Course config p ds q) (hp : p = .idle ∨ p = .ready) :
    entriesAfter ds = [] := by
  cases h with
  | nil => rfl
  | cons hnext _ =>
    rcases hp with rfl | rfl <;> cases hnext <;> rfl

theorem of_stored (h : Course config (.stored step) ds p) (hrests : p.Rests config) :
    ∃ rest, ds = .appended step.entry :: rest ∧ Course config .ready rest p := by
  cases h with
  | nil => cases hrests
  | @cons _ _ _ _ rest hnext hrest =>
    cases hnext with
    | loaded hstored => cases hstored
    | recorded => exact ⟨rest, rfl, hrest⟩

theorem of_failed {i : Instance} (h : Course config (.failed i) ds p) (hrests : p.Rests config) :
    ∃ entry rest, ds = .appended entry :: rest ∧ entry.instanceId = i.id ∧
      entry.outcome = .failed ∧ Course config .idle rest p := by
  cases h with
  | nil => cases hrests
  | @cons _ _ _ _ rest hnext hrest =>
    cases hnext with
    | loaded hfailed => cases hfailed
    | reported hid houtcome => exact ⟨_, rest, rfl, hid, houtcome, hrest⟩

/-- What was refused is read again, and recorded if an action was invoked for it. -/
theorem of_refused (h : Course config (.refused step) ds p) (hrests : p.Rests config) :
    step.invoked = false ∧ (∃ current rest, ds = .reloaded current :: rest ∧
        Course config .idle rest p) ∨
      step.invoked = true ∧ ∃ current now rest,
        ds = .reloaded current :: .appended (step.droppedEntry current now) :: rest ∧
        current.id = step.entry.instanceId ∧ Course config .idle rest p := by
  cases h with
  | nil => cases hrests
  | @cons _ _ _ _ rest hnext hrest =>
    cases hnext with
    | loaded hrefused => cases hrefused
    | reloaded huninvoked current => exact .inl ⟨huninvoked, current, rest, rfl, hrest⟩
    | @discarded _ current hinvoked hid =>
      cases hrest with
      | nil => cases hrests
      | @cons _ _ _ _ rest hnext hrest =>
        cases hnext with
        | loaded hreloaded => cases hreloaded
        | dropped _ _ now => exact .inr ⟨hinvoked, current, now, rest, rfl, hid, hrest⟩

theorem of_invoked (h : Course config (.invoked v reply) ds p) (hrests : p.Rests config)
    (hcalm : ¬ v.Stumps config reply) :
    ∃ step, v.Concludes config reply step ∧
      ((∃ rest, ds = .stored step :: rest ∧ Course config (.stored step) rest p) ∨
        ∃ rest, ds = .refused step :: rest ∧ Course config (.refused step) rest p) := by
  cases h with
  | nil =>
    cases hrests with
    | stumped hstumps => exact absurd hstumps hcalm
  | @cons _ _ _ _ rest hnext hrest =>
    cases hnext with
    | loaded hinvoked =>
      cases hinvoked with
      | stumped hstumps => exact absurd hstumps hcalm
    | concluded hstep => exact ⟨_, hstep, .inl ⟨rest, rfl, hrest⟩⟩
    | rejected hstep => exact ⟨_, hstep, .inr ⟨rest, rfl, hrest⟩⟩

end Course

theorem Step.droppedEntry_spec {current : Instance} (now : Instant)
    (hreports : v.Reports step.entry) (hid : current.id = step.entry.instanceId) :
    (step.droppedEntry current now).instanceId = v.base.id ∧
      (step.droppedEntry current now).node = some v.node ∧
      (step.droppedEntry current now).detail.lookup "discarded" ≠ none ∧
      (step.droppedEntry current now).outcome.isResult = true ∧
      ((step.droppedEntry current now).outcome = .cancelledPostHoc ↔
        current.status = .cancelled) := by
  have hid : current.id = v.base.id := hid.trans hreports.instanceId
  by_cases hcancelled : current.status = .cancelled
  · simp [droppedEntry, hcancelled, hid, hreports.node, AuditOutcome.isResult]
  · have hmarked : (step.entry.detail ++ [("discarded", Value.bool true),
        ("stored_status", Choice.toValue current.status)]).lookup "discarded" ≠ none := by
      simp [List.lookup_append, hreports.unmarked]
    rcases hreports.outcome with houtcome | houtcome <;>
      simp [droppedEntry, hcancelled, hid, hreports.node, houtcome, AuditOutcome.isResult, hmarked]

theorem Course.resultsAfter_of_invoked {before after : List Deed}
    (h : Course config .idle (before ++ .invoked v reply :: after) p) (hrests : p.Rests config)
    (hcalm : ¬ v.Stumps config reply) :
    ∃ step entry, v.Concludes config reply step ∧ resultsAfter after = [entry] ∧
      entry.instanceId = v.base.id ∧ entry.node = some v.node ∧
      (entry.detail.lookup "discarded" = none ↔ ∃ rest, after = .stored step :: rest) ∧
      (entry.outcome = .cancelledPostHoc ↔ ∃ current rest,
        after = .refused step :: .reloaded current :: rest ∧ current.status = .cancelled) := by
  have hafter : Course config (.invoked v reply) after p := h.after_deed rfl
  obtain ⟨step, hstep, ⟨rest, rfl, hnext⟩ | ⟨rest, rfl, hnext⟩⟩ := hafter.of_invoked hrests hcalm
  · obtain ⟨hinvoked, hreports⟩ := hstep.reports
    obtain ⟨rest, rfl, hrest⟩ := hnext.of_stored hrests
    have hresult : step.entry.outcome.isResult = true := by
      rcases hreports.outcome with houtcome | houtcome <;> rw [houtcome] <;> rfl
    have hresults : resultsAfter (.stored step :: .appended step.entry :: rest) = [step.entry] := by
      rw [resultsAfter_of_none rfl rfl, resultsAfter_appended hresult,
        hrest.resultsAfter_eq_nil trivial]
    refine ⟨step, step.entry, hstep, hresults, hreports.instanceId, hreports.node, ?_, ?_⟩
    -- An outcome that is stored is recorded as it is.
    · exact iff_of_true hreports.unmarked ⟨_, rfl⟩
    · refine iff_of_false ?_ (by simp)
      rcases hreports.outcome with houtcome | houtcome <;> simp [houtcome]
  · obtain ⟨hinvoked, hreports⟩ := hstep.reports
    rcases hnext.of_refused hrests with ⟨huninvoked, -⟩ | ⟨-, current, now, rest, rfl, hid, hrest⟩
    · rw [hinvoked] at huninvoked
      cases huninvoked
    · obtain ⟨hinstance, hnode, hmarked, hresult, hcancelled⟩ :=
        Step.droppedEntry_spec now hreports hid
      have hresults : resultsAfter (.refused step :: .reloaded current ::
          .appended (step.droppedEntry current now) :: rest) = [step.droppedEntry current now] := by
        rw [resultsAfter_of_none rfl rfl, resultsAfter_of_none rfl rfl,
          resultsAfter_appended hresult, hrest.resultsAfter_eq_nil trivial]
      refine ⟨step, _, hstep, hresults, hinstance, hnode, iff_of_false hmarked (by simp), ?_⟩
      rw [hcancelled]
      simp

theorem Course.audited (h : Course config .idle ds p) (hrests : p.Rests config)
    (hnear : ∀ v reply, .invoked v reply ∈ ds → (v.retryTime? config).isSome) :
    Audited config ds where
  invoked := by
    rintro before v reply after rfl hresult
    refine h.resultsAfter_of_invoked hrests fun hstumps => ?_
    cases hstumps with
    | strange value => exact hresult value rfl
    | retry _ _ hfar =>
      have hnear := hnear v reply (by simp)
      rw [hfar] at hnear
      cases hnear
  stored := by
    rintro before step after rfl
    have hafter : Course config (.stored step) after p := h.after_deed rfl
    obtain ⟨rest, rfl, hrest⟩ := hafter.of_stored hrests
    rw [entriesAfter_appended, hrest.entriesAfter_eq_nil (.inr rfl)]
  refused := by
    rintro before step after rfl
    have hafter : Course config (.refused step) after p := h.after_deed rfl
    rcases hafter.of_refused hrests with ⟨huninvoked, current, rest, rfl, hrest⟩ |
      ⟨hinvoked, current, now, rest, rfl, -, hrest⟩
    · rw [huninvoked, entriesAfter_reloaded]
      exact hrest.entriesAfter_eq_nil (.inl rfl)
    · rw [if_pos hinvoked, entriesAfter_reloaded, entriesAfter_appended,
        hrest.entriesAfter_eq_nil (.inl rfl)]
      exact ⟨_, rfl⟩
  failed := by
    rintro before i after rfl
    have hafter : Course config (.failed i) after p := h.after_deed rfl
    obtain ⟨entry, rest, rfl, hid, houtcome, hrest⟩ := hafter.of_failed hrests
    rw [entriesAfter_appended, hrest.entriesAfter_eq_nil (.inl rfl)]
    exact ⟨entry, rfl, hid, houtcome⟩

/-- From every phase a call can come to rest without another invocation. -/
theorem Phase.exists_rests (config : EngineConfig) (p : Phase) :
    ∃ ds q, Course config p ds q ∧ q.Rests config ∧ ∀ v reply, .invoked v reply ∉ ds := by
  have hidle : Phase.idle.Rests config := .idle
  have hready : Phase.ready.Rests config := .ready
  cases p with
  | idle => exact ⟨[], .idle, .nil _, hidle, by simp⟩
  | ready => exact ⟨[], .ready, .nil _, hready, by simp⟩
  | stored step => exact ⟨[_], .ready, .cons (.recorded step) (.nil _), hready, by simp⟩
  | refused step =>
    let current : Instance := { step.next with id := step.entry.instanceId }
    cases hinvoked : step.invoked with
    | false => exact ⟨[_], .idle, .cons (.reloaded hinvoked current) (.nil _), hidle, by simp⟩
    | true =>
      exact ⟨[_, _], .idle, .cons (.discarded hinvoked rfl)
        (.cons (.dropped step current step.entry.time) (.nil _)), hidle, by simp⟩
  | reloaded step current =>
    exact ⟨[_], .idle, .cons (.dropped step current step.entry.time) (.nil _), hidle, by simp⟩
  | failed i =>
    exact ⟨[.appended ⟨i.id, none, .failed, [], i.updatedAt⟩], .idle, .cons (.reported rfl rfl)
      (.nil _), hidle, by simp⟩
  | invoked v reply =>
    -- What an invocation leads to may always be stored, if it leads to anything.
    by_cases hstumps : v.Stumps config reply
    · exact ⟨[], _, .nil _, .stumped hstumps, by simp⟩
    · cases hconclude : reply.settle.toOutcome.bind (v.conclude config) with
      | error e => exact absurd (Invocation.stumps_iff.mpr ⟨e, hconclude⟩) hstumps
      | ok step =>
        exact ⟨[_, _], .ready, .cons (.concluded hconclude) (.cons (.recorded step) (.nil _)),
          hready, by simp⟩

end

def Moment.appended? (m : Moment) : Option AuditEntry :=
  match m.incident with
  | .served c _ => c.request.appended?
  | _ => none

theorem RunStage.deed?_eq_appended {r : Run} {answer : r.request.Answer} {entry : AuditEntry} :
    (answered r answer).deed? = some (.appended entry) ↔ r.request.appended? = some entry := by
  cases r with
  | loading | invoking => simp [deed?, Run.request, Request.appended?]
  | saving | reloading | failing => cases answer <;> simp [deed?, Run.request, Request.appended?]
  | recording | recordingDropped | recordingFailure =>
    simp [deed?, Run.request, Request.appended?]

/-- In a run nothing goes wrong: no call is dropped, every entry reaches the trail, and the time of
every further attempt can be represented. -/
structure Smooth (config : EngineConfig) (h : List Moment) : Prop where
  kept : ∀ m ∈ h, m.incident ≠ .crashed
  recorded : ∀ before x m after entry, h = before ++ x :: m :: after →
    m.appended? = some entry → m.engine.trail = x.engine.trail ++ [entry]
  near : ∀ m ∈ h, ∀ v, m.invocation? = some v → (v.retryTime? config).isSome

theorem Smooth.of_append {config : EngineConfig} {h h' : List Moment}
    (hsmooth : Smooth config (h ++ h')) : Smooth config h where
  kept := fun m hm => hsmooth.kept m (List.mem_append_left _ hm)
  recorded := by
    rintro before x m after entry rfl
    exact hsmooth.recorded before x m (after ++ h') entry (by simp)
  near := fun m hm => hsmooth.near m (List.mem_append_left _ hm)

theorem Smooth.snoc {config : EngineConfig} {h : List Moment} {m : Moment}
    (hsmooth : Smooth config h) (hkept : m.incident ≠ .crashed)
    (hrecorded : ∀ before x entry, h = before ++ [x] → m.appended? = some entry →
      m.engine.trail = x.engine.trail ++ [entry])
    (hnear : ∀ v, m.invocation? = some v → (v.retryTime? config).isSome) :
    Smooth config (h ++ [m]) where
  kept := by
    intro x hx
    rcases List.mem_append.mp hx with hx | hx
    · exact hsmooth.kept x hx
    · obtain rfl := List.mem_singleton.mp hx
      exact hkept
  recorded := by
    intro before x y after entry hsplit happended
    have hsplit' : h ++ [m] = (before ++ [x]) ++ y :: after := by simpa using hsplit
    rcases last_or_before hsplit' with ⟨hbefore, rfl, -⟩ | ⟨rest, hrest, -⟩
    · exact hrecorded before x entry hbefore happended
    · exact hsmooth.recorded before x y rest entry (by simpa using hrest) happended
  near := by
    intro x hx
    rcases List.mem_append.mp hx with hx | hx
    · exact hsmooth.near x hx
    · obtain rfl := List.mem_singleton.mp hx
      exact hnear

theorem Moment.run?_of_unserved {m : Moment}
    (hunserved : ∀ c answer, m.incident ≠ .served c answer) : m.run? = none := by
  unfold run?
  split
  · next c answer hserved => exact absurd hserved (hunserved c answer)
  · rfl

theorem Moment.appended?_of_unserved {m : Moment}
    (hunserved : ∀ c answer, m.incident ≠ .served c answer) : m.appended? = none := by
  unfold appended?
  split
  · next c answer hserved => exact absurd hserved (hunserved c answer)
  · rfl

theorem Smooth.snoc_of_unserved {config : EngineConfig} {h : List Moment} {m : Moment}
    (hsmooth : Smooth config h) (hkept : m.incident ≠ .crashed)
    (hunserved : ∀ c answer, m.incident ≠ .served c answer) : Smooth config (h ++ [m]) := by
  refine hsmooth.snoc hkept (by simp [Moment.appended?_of_unserved hunserved]) ?_
  simp [Moment.invocation?, Moment.run?_of_unserved hunserved]

theorem Engine.trail_of_answers {e e' : Engine} {r : Request} {answer : r.Answer}
    (hanswer : e.Answers r answer e') (hnone : r.appended? = none) : e'.trail = e.trail := by
  cases r with
  | store r =>
    obtain ⟨-, rfl⟩ := Prod.mk.inj hanswer
    rfl
  | append entry => cases hnone
  | invoke =>
    obtain rfl : e' = e := hanswer
    rfl

/-- What the audit trail owes to the calls of a run. -/
structure KeepsAudit (config : EngineConfig) (s : System) : Prop where
  trail : ∃ earlier, s.engine.trail = earlier ++ s.history.filterMap Moment.appended?
  /-- Only runs append outcomes of invocations. -/
  results : ∀ m ∈ s.history, ∀ entry, entry.outcome.isResult = true →
    (m.appended? = some entry ↔ m.deed? = some (.appended entry))
  /-- A call that is not over may still have to append something. -/
  calls : ∀ n, ∃ pending, Audited config (deeds n s.history ++ pending) ∧
    (s.calls n = none → pending = [])

namespace System

variable {config : EngineConfig} {s : System}

theorem Reachable.engine_eq (hs : Reachable config s) {before : List Moment} {m : Moment}
    (hlast : s.history = before ++ [m]) : s.engine = m.engine := by
  cases hs with
  | fresh => simp [System.fresh] at hlast
  | step _ hstep =>
    obtain ⟨m', hhistory, hengine⟩ := hstep.history
    rw [hhistory] at hlast
    obtain rfl := List.singleton_inj.mp (List.append_inj' hlast rfl).2
    exact hengine.symm

theorem Reachable.history_ne_nil (hs : Reachable config s) {n : Nat} {stage : Stage}
    (hn : s.calls n = some stage) : s.history ≠ [] := by
  intro hnil
  rw [hs.calls_eq, hnil] at hn
  cases hn

/-- The trail consists of what was in it before the run, and of what the calls have appended. -/
theorem Reachable.trail_eq (hs : Reachable config s) (hsmooth : Smooth config s.history) :
    ∃ earlier, s.engine.trail = earlier ++ s.history.filterMap Moment.appended? := by
  induction hs with
  | @fresh e => exact ⟨e.trail, by simp [System.fresh]⟩
  | @step s s' hs hstep ih =>
    obtain ⟨m, hhistory, hengine⟩ := hstep.history
    obtain ⟨earlier, hearlier⟩ := ih (hhistory ▸ hsmooth).of_append
    refine ⟨earlier, ?_⟩
    have hsame (hnone : m.appended? = none) (htrail : s'.engine.trail = s.engine.trail) :
        s'.engine.trail = earlier ++ s'.history.filterMap Moment.appended? := by
      rw [htrail, hearlier, hhistory]
      simp [hnone]
    cases hstep with
    | @serve n c answer e hasks hanswer =>
      obtain rfl := List.singleton_inj.mp (List.append_inj' hhistory rfl).2
      have hm : (Moment.mk (some n) (.served c answer) e).appended? = c.request.appended? := rfl
      cases happended : c.request.appended? with
      | none => exact hsame (hm.trans happended) (Engine.trail_of_answers hanswer happended)
      | some entry =>
        rcases List.eq_nil_or_concat s.history with hnil | ⟨before, x, hlast⟩
        · exact absurd hnil (hs.history_ne_nil hasks)
        · rw [List.concat_eq_append] at hlast
          have hsplit : (s.turn n (some (.answered c answer)) (.served c answer) e).history =
              before ++ x :: ⟨some n, .served c answer, e⟩ :: [] := by
            rw [hhistory, hlast, List.append_assoc]
            rfl
          have hrecorded : e.trail = x.engine.trail ++ [entry] :=
            hsmooth.recorded before x _ [] entry hsplit (hm.trans happended)
          rw [← hs.engine_eq hlast, hearlier] at hrecorded
          rw [hhistory, List.filterMap_append, List.filterMap_cons_some (hm.trans happended),
            ← List.append_assoc]
          exact hrecorded
    | start | resume | crash | register | unregister | tick =>
      obtain rfl := List.singleton_inj.mp (List.append_inj' hhistory rfl).2
      exact hsame rfl rfl

theorem outcome_of_start {env : Env} {o : Opening} {stored : Instance} {entry : AuditEntry}
    (hstart : o.start env = .waiting (.cancel (.recording stored entry))) : False := by
  cases o with
  | emit | dispatch =>
    obtain ⟨_, -, hc⟩ := Progress.of_map_eq_waiting hstart
    cases hc
  | sweep =>
    simp only [Opening.start] at hstart
    split at hstart <;> cases hstart
  | poll | run | cancel | pass => cases hstart

/-- A cancellation appends nothing but that the instance was cancelled. -/
theorem Reachable.outcome_of_cancel (hs : Reachable config s) {n : Nat} {stored : Instance}
    {entry : AuditEntry} (hn : s.calls n = some (.asking (.cancel (.recording stored entry)))) :
    entry.outcome = .cancelled := by
  refine hs.of_stages (P := fun _ _ stage => ∀ stored entry,
    stage = .asking (.cancel (.recording stored entry)) → entry.outcome = .cancelled)
    ?_ ?_ ?_ ?_ n _ hn stored entry rfl
  · rintro s₀ s₁ m o c - - - hstart stored entry heq
    cases heq
    exact (outcome_of_start hstart).elim
  · rintro s₀ s₁ m n c answer - - - - - - stored entry heq
    cases heq
  · rintro s₀ s₁ m n c answer c' - - - - hresume - stored entry heq
    cases heq
    cases c with
    | cancel c =>
      obtain ⟨c', hnext, hc'⟩ := Progress.of_map_eq_waiting hresume
      cases hc'
      cases c with
      | loading =>
        simp only [Cancel.resume] at hnext
        split at hnext
        · split at hnext <;> cases hnext
        · cases hnext
      | saving =>
        simp only [Cancel.resume] at hnext
        split at hnext
        · cases hnext
          rfl
        · split at hnext <;> cases hnext
      | recording => cases hnext
    | emit | dispatch | poll | run | sweep | pass =>
      obtain ⟨_, -, hc'⟩ := Progress.of_map_eq_waiting hresume
      cases hc'
  · rintro s₀ s₁ m n stage - - - ih
    exact ih

theorem Reachable.appended?_iff (hs : Reachable config s) {m : Moment} (hm : m ∈ s.history)
    {entry : AuditEntry} (hresult : entry.outcome.isResult = true) :
    m.appended? = some entry ↔ m.deed? = some (.appended entry) := by
  obtain ⟨before, after, hhistory⟩ := List.append_of_mem hm
  obtain ⟨s₀, s₁, hm, -⟩ := hs.along hhistory
  have hneither : (none : Option AuditEntry) = some entry ↔
      (none : Option Deed) = some (.appended entry) :=
    iff_of_false (fun h => by cases h) (fun h => by cases h)
  cases hincident : m.incident with
  | served c answer =>
    obtain ⟨n, -, hasks, -⟩ := hm.step.of_served hm.history hincident
    simp only [Moment.appended?, Moment.deed?, Moment.run?, hincident]
    cases c with
    | run r => exact RunStage.deed?_eq_appended.symm
    | pass p =>
      cases p with
      | running worker r rest claimed => exact RunStage.deed?_eq_appended.symm
      | polling worker poll => cases poll <;> exact hneither
    | cancel c =>
      cases c with
      | loading | saving => exact hneither
      | recording stored entry' =>
        refine iff_of_false (fun happended => ?_) fun h => by cases h
        obtain rfl := Option.some.inj happended
        rw [hm.reachable.outcome_of_cancel hasks] at hresult
        cases hresult
    | emit | dispatch => exact hneither
    | poll poll => cases poll <;> exact hneither
    | sweep sweep => cases sweep <;> exact hneither
  | began | resumed | crashed | registered | unregistered | ticked =>
    simp [Moment.appended?, Moment.deed?, Moment.run?, hincident]

/-- In a run in which nothing goes wrong, every invocation and every stored step is recorded
once. -/
theorem Reachable.keepsAudit (hs : Reachable config s)
    (hcolumn : s.engine.store.isTable = true → TableStore.fits s.history.length)
    (hsmooth : Smooth config s.history) : KeepsAudit config s where
  trail := hs.trail_eq hsmooth
  results := fun m hm entry hresult => hs.appended?_iff hm hresult
  calls := by
    intro n
    have hnear (v : Invocation) (reply : Reply) (hmem : .invoked v reply ∈ deeds n s.history) :
        (v.retryTime? config).isSome := by
      obtain ⟨m, hm, hdeed⟩ := of_mem_deeds hmem
      exact hsmooth.near m hm v (Moment.deed?_eq_invoked.mp ⟨reply, hdeed⟩)
    cases hn : s.calls n with
    | none =>
      obtain ⟨p, hcourse, hrests⟩ :=
        hs.rests_of_over hcolumn hn fun m hm _ => hsmooth.kept m hm
      refine ⟨[], ?_, fun _ => rfl⟩
      rw [List.append_nil]
      exact hcourse.audited hrests hnear
    | some stage =>
      -- Nothing more is invoked on the way on which the call comes to rest first.
      obtain ⟨p, hcourse⟩ := hs.course hcolumn n
      obtain ⟨pending, q, hpending, hrests, hcalm⟩ := p.exists_rests config
      refine ⟨pending, (hcourse.append hpending).audited hrests fun v reply hmem => ?_, nofun⟩
      rcases List.mem_append.mp hmem with hmem | hmem
      · exact hnear v reply hmem
      · exact absurd hmem (hcalm v reply)

end System

/-- The time of the next attempt can be represented if an action has just been invoked. -/
def Stage.IsNear (config : EngineConfig) (stage : Stage) : Prop :=
  ∀ v, stage.run?.bind RunStage.invocation? = some v → (v.retryTime? config).isSome

theorem Stage.IsNear.of_none {config : EngineConfig} {stage : Stage}
    (hnone : stage.run?.bind RunStage.invocation? = none) : stage.IsNear config := by
  simp [IsNear, hnone]

/-- A call is served to its end, nothing else happens to the engine, and nothing goes wrong. -/
inductive Smoothly (config : EngineConfig) : Engine → Call → Engine → Prop where
  | ends {e e' : Engine} {c : Call} {result : Outcome CallResult} (answer : c.request.Answer)
      (hnear : (Stage.answered c answer).IsNear config)
      (hanswer : e.Answers c.request answer e') (hresume : c.resume e'.env answer = .ended result) :
      Smoothly config e c e'
  | goesOn {e e' e'' : Engine} {c c' : Call} (answer : c.request.Answer)
      (hnear : (Stage.answered c answer).IsNear config)
      (hanswer : e.Answers c.request answer e') (hresume : c.resume e'.env answer = .waiting c')
      (hrest : Smoothly config e' c' e'') : Smoothly config e c e''

theorem Engine.Answers.recorded {e e' : Engine} {r : Request} {answer : r.Answer}
    (hanswer : e.Answers r answer e') (trail : List AuditEntry) :
    ∃ trail', Engine.Answers { e with trail } r answer { e' with trail := trail' } ∧
      ∀ entry, r.appended? = some entry → trail' = trail ++ [entry] := by
  cases r with
  | store r =>
    obtain ⟨rfl, rfl⟩ := Prod.mk.inj hanswer
    exact ⟨trail, rfl, nofun⟩
  | append entry =>
    refine ⟨trail ++ [entry], .inr ?_, fun _ hsame => by rw [Option.some.inj hsame]⟩
    rcases hanswer with rfl | rfl <;> rfl
  | invoke =>
    obtain rfl : e' = e := hanswer
    exact ⟨trail, rfl, nofun⟩

namespace System

variable {config : EngineConfig} {s : System} {e e' : Engine} {c : Call} {n : Nat}

/-- A system in a run in which nothing has gone wrong, with an engine that is known but for the
trail. -/
structure IsSmooth (config : EngineConfig) (e : Engine) (s : System) : Prop where
  reachable : Reachable config s
  smooth : Smooth config s.history
  engine : ∃ trail, s.engine = { e with trail }

theorem IsSmooth.served_resumed (hs : s.IsSmooth config e) (hasks : s.calls n = some (.asking c))
    {answer : c.request.Answer} (hnear : (Stage.answered c answer).IsNear config)
    (hanswer : e.Answers c.request answer e') :
    ∃ s' : System, s'.IsSmooth config e' ∧ s'.begun = s.begun ∧
      s'.calls n = Stage.next? (c.resume e'.env answer) := by
  obtain ⟨trail, htrail⟩ := hs.engine
  obtain ⟨trail', hanswer', hrecorded⟩ := hanswer.recorded trail
  obtain ⟨s', hs', he, hbegun, hnext, -, hhistory⟩ :=
    hs.reachable.served_resumed hasks (htrail ▸ hanswer')
  refine ⟨s', ⟨hs', ?_, trail', he⟩, hbegun, hnext⟩
  rw [hhistory]
  refine Smooth.snoc_of_unserved (hs.smooth.snoc (by simp) ?_ hnear) (by simp) (by simp)
  intro before x entry hlast happended
  rw [← hs.reachable.engine_eq hlast, htrail]
  exact hrecorded entry happended

theorem IsSmooth.served_alone (hs : s.IsSmooth config e) (hasks : s.calls n = some (.asking c))
    (halone : Smoothly config e c e') :
    ∃ s' : System, s'.IsSmooth config e' ∧ s'.begun = s.begun := by
  induction halone generalizing s with
  | ends _ hnear hanswer =>
    obtain ⟨s', hs', hbegun, -⟩ := hs.served_resumed hasks hnear hanswer
    exact ⟨s', hs', hbegun⟩
  | goesOn _ hnear hanswer hresume _ ih =>
    obtain ⟨s', hs', hbegun, hnext⟩ := hs.served_resumed hasks hnear hanswer
    rw [hresume] at hnext
    obtain ⟨s'', hs'', hbegun'⟩ := ih hs' hnext
    exact ⟨s'', hs'', hbegun'.trans hbegun⟩

theorem IsSmooth.alone (hs : s.IsSmooth config e) {o : Opening}
    (hstart : o.start e.env = .waiting c) (halone : Smoothly config e c e') :
    ∃ s' : System, s'.IsSmooth config e' := by
  obtain ⟨trail, htrail⟩ := hs.engine
  have hstart : o.start s.engine.env = .waiting c := by
    rw [htrail]
    exact hstart
  have hstarted := hs.reachable.step (.start s o)
  have hsmooth := hs.smooth.snoc_of_unserved
    (m := ⟨some s.begun, .began o (o.start s.engine.env), s.engine⟩) (by simp) (by simp)
  rw [hstart] at hstarted hsmooth
  obtain ⟨s', hs', -⟩ := IsSmooth.served_alone (n := s.begun)
    ⟨hstarted, hsmooth, trail, htrail⟩ (Function.update_self _ _ _) halone
  exact ⟨s', hs'⟩

end System

namespace Sample

theorem smoothly_emit :
    Smoothly default (engine 0 .empty) (.emit ⟨event.draft plan (clock 0)⟩) (keeping 0 created) :=
  .ends (.ok (created, true)) (.of_none rfl) rfl rfl

theorem smoothly_poll_created :
    Smoothly default (keeping 0 created) (.poll (.listing "w" (clock 0) 50))
      (keeping 0 (held created "w" 0)) :=
  .goesOn (.ok [created]) (.of_none rfl) (listDue_eq rfl rfl) rfl
    (.ends (.ok (some (held created "w" 0))) (.of_none rfl) rfl rfl)

theorem smoothly_run_created :
    Smoothly default (keeping 0 (held created "w" 0)) (.run (.loading "i1" "w"))
      (keeping 0 asleep) := by
  refine .goesOn (.ok (held created "w" 0)) (.of_none rfl) rfl
    (congrArg (Progress.map Call.run CallResult.left) (begin_created 0)) ?_
  refine .goesOn (.ok left) (.of_none rfl) rfl rfl ?_
  refine .goesOn () (.of_none rfl) (.inl rfl)
    (congrArg (Progress.map Call.run CallResult.left) proceed_left) ?_
  exact .goesOn (.ok asleep) (.of_none rfl) rfl rfl (.ends () (.of_none rfl) (.inl rfl) rfl)

theorem smoothly_poll_asleep :
    Smoothly default (keeping 60 asleep) (.poll (.listing "w" (clock 60) 50))
      (keeping 60 (held asleep "w" 60)) :=
  .goesOn (.ok [asleep]) (.of_none rfl) (listDue_eq rfl rfl) rfl
    (.ends (.ok (some (held asleep "w" 60))) (.of_none rfl) rfl rfl)

theorem smoothly_run_asleep :
    Smoothly default (keeping 60 (held asleep "w" 60)) (.run (.loading "i1" "w"))
      (keeping 60 retrying) := by
  refine .goesOn (.ok (held asleep "w" 60)) (.of_none rfl) rfl
    (congrArg (Progress.map Call.run CallResult.left) begin_asleep) ?_
  refine .goesOn (.ok intending) (.of_none rfl) rfl rfl ?_
  refine .goesOn () (.of_none rfl) (.inl rfl)
    (congrArg (Progress.map Call.run CallResult.left) proceed_intending) ?_
  refine .goesOn (.result (.failure "busy" false)) (fun v hv => ?_) rfl rfl ?_
  · obtain rfl := Option.some.inj hv
    rfl
  · exact .goesOn (.ok retrying) (.of_none rfl) rfl rfl (.ends () (.of_none rfl) (.inl rfl) rfl)

/-- In some run in which nothing goes wrong the action is invoked, fails, and is to be tried
again. -/
theorem exists_keepsAudit : ∃ s, System.Reachable default s ∧
    (s.engine.store.isTable = true → TableStore.fits s.history.length) ∧
    Smooth default s.history ∧ s.engine.store.find? "i1" = some retrying ∧
    KeepsAudit default s := by
  have hfresh : System.Reachable default
      (.fresh ⟨Registry.empty default, default, clock 0, .memory .empty, [], none⟩) :=
    .fresh ⟨rfl, rfl, .inl rfl⟩
  have hregistered := hfresh.step (.register register_graph)
  have hnothing : Smooth default [] := ⟨by simp, by simp, by simp⟩
  have hsmooth := hnothing.snoc_of_unserved
    (m := ⟨none, .registered plan, engine 0 .empty⟩) (by simp) (by simp)
  have hs₀ : System.IsSmooth default (engine 0 .empty) _ := ⟨hregistered, hsmooth, [], rfl⟩
  obtain ⟨s₁, hs₁⟩ := hs₀.alone (start_emit 0 .empty) smoothly_emit
  obtain ⟨s₂, hs₂⟩ := hs₁.alone (o := .poll "w" none none) rfl smoothly_poll_created
  obtain ⟨s₃, hs₃⟩ := hs₂.alone (o := .run "i1" "w") rfl smoothly_run_created
  have hs₄ : System.IsSmooth default (keeping 60 asleep) _ :=
    ⟨hs₃.reachable.step (.tick s₃ (clock 60)),
      hs₃.smooth.snoc_of_unserved (by simp) (by simp), ?_⟩
  · obtain ⟨s₅, hs₅⟩ := hs₄.alone (o := .poll "w" none none) rfl smoothly_poll_asleep
    obtain ⟨s₆, hs₆⟩ := hs₅.alone (o := .run "i1" "w") rfl smoothly_run_asleep
    obtain ⟨trail, htrail⟩ := hs₆.engine
    have hcolumn : s₆.engine.store.isTable = true → TableStore.fits s₆.history.length := by
      simp [htrail, keeping, engine, Store.isTable]
    refine ⟨s₆, hs₆.reachable, hcolumn, hs₆.smooth, ?_, hs₆.reachable.keepsAudit hcolumn hs₆.smooth⟩
    rw [htrail]
    rfl
  · obtain ⟨trail, htrail⟩ := hs₃.engine
    refine ⟨trail, ?_⟩
    simp only [System.aside, htrail]
    rfl

end Sample
end WorkflowEngine

import WorkflowEngine.Proofs.System.Calls

/-!
# Stages of calls

What holds of a call at every stage is shown once for each kind of moment: when the call begins,
when it is served, when it goes on, and when something else happens in the meantime.
-/
namespace WorkflowEngine

/-- How far the present request of a poll has come. -/
inductive PollStage where
  | asking (p : Poll)
  | answered (p : Poll) (answer : p.request.Answer)

/-- How far the present request of a cancellation has come. -/
inductive CancelStage where
  | asking (c : Cancel)
  | answered (c : Cancel) (answer : c.request.Answer)

/-- A run is served as a call of its own, or within a pass. -/
inductive Call.Runs : (c : Call) → c.request.Answer → (r : Run) → r.request.Answer → Prop
  | run (r : Run) (answer : r.request.Answer) : Runs (.run r) answer r answer
  | pass (worker : String) (r : Run) (rest : List InstanceId) (claimed : Nat)
      (answer : r.request.Answer) : Runs (.pass (.running worker r rest claimed)) answer r answer

namespace Call.Runs

variable {c : Call} {answer : c.request.Answer} {r : Run} {answer' : r.request.Answer}

theorem asking (h : c.Runs answer r answer') : (Stage.asking c).run? = some (.asking r) := by
  cases h <;> rfl

theorem answered (h : c.Runs answer r answer') :
    (Stage.answered c answer).run? = some (.answered r answer') := by
  cases h <;> rfl

theorem isSound (h : c.Runs answer r answer') {config : EngineConfig} {time : Instant → Instant}
    {before : List Moment} (hc : c.IsSound config time before) : r.IsSound config time before := by
  cases h <;> exact hc

theorem answers (h : c.Runs answer r answer') {e e' : Engine}
    (hanswer : e.Answers c.request answer e') : e.Answers r.request answer' e' := by
  cases h <;> exact hanswer

theorem answerSound (h : c.Runs answer r answer') {time : Instant → Instant}
    {before : List Moment} (hanswer : AnswerSound time before c.request answer) :
    AnswerSound time before r.request answer' := by
  cases h <;> exact hanswer

end Call.Runs

namespace Stage

/-- The poll that a call consists of, or that a pass begins with. -/
def poll? : Stage → Option PollStage
  | asking (.poll p) | asking (.pass (.polling _ p)) => some (.asking p)
  | answered (.poll p) answer | answered (.pass (.polling _ p)) answer => some (.answered p answer)
  | _ => none

def cancel? : Stage → Option CancelStage
  | asking (.cancel c) => some (.asking c)
  | answered (.cancel c) answer => some (.answered c answer)
  | _ => none

section
variable {env : Env} {o : Opening} {c c' : Call} {answer : c.request.Answer}

/-- A call begins with a poll, with the reading of an instance, or with something else. -/
theorem of_start (hstart : o.start env = .waiting c) :
    (∀ r, (asking c).run? = some r → ∃ id worker, r = .asking (.loading id worker)) ∧
      ∀ p, (asking c).poll? = some p →
        ∃ worker now limit, p = .asking (.listing worker now limit) := by
  cases o with
  | emit e graphId =>
    obtain ⟨c', -, rfl⟩ := Progress.of_map_eq_waiting hstart
    exact ⟨fun _ h => (by cases h), fun _ h => (by cases h)⟩
  | dispatch e =>
    obtain ⟨c', -, rfl⟩ := Progress.of_map_eq_waiting hstart
    exact ⟨fun _ h => (by cases h), fun _ h => (by cases h)⟩
  | poll worker now limit =>
    obtain rfl := Progress.waiting.inj hstart
    exact ⟨fun _ h => (by cases h), fun _ h => ⟨_, _, _, (Option.some.inj h).symm⟩⟩
  | run id worker =>
    obtain rfl := Progress.waiting.inj hstart
    exact ⟨fun _ h => ⟨_, _, (Option.some.inj h).symm⟩, fun _ h => (by cases h)⟩
  | sweep now grace =>
    simp only [Opening.start] at hstart
    split at hstart
    · obtain rfl := Progress.waiting.inj hstart
      exact ⟨fun _ h => (by cases h), fun _ h => (by cases h)⟩
    · cases hstart
  | cancel id reason =>
    obtain rfl := Progress.waiting.inj hstart
    exact ⟨fun _ h => (by cases h), fun _ h => (by cases h)⟩
  | pass worker now =>
    obtain rfl := Progress.waiting.inj hstart
    exact ⟨fun _ h => (by cases h), fun _ h => ⟨_, _, _, (Option.some.inj h).symm⟩⟩

/-- A pass runs instances one after another. -/
theorem run?_of_pass {worker : String} {ids : List InstanceId} {claimed : Nat} {p : Pass}
    (hproceed : Pass.proceed worker ids claimed = .waiting p) :
    (asking (.pass p)).poll? = none ∧
      ∃ id, (asking (.pass p)).run? = some (.asking (.loading id worker)) := by
  cases ids with
  | nil => cases hproceed
  | cons id rest =>
    obtain rfl := Progress.waiting.inj hproceed
    exact ⟨rfl, id, rfl⟩

/-- A run goes on from what it was answered, or it has just begun. -/
theorem run?_of_resume {r : RunStage} (hresume : c.resume env answer = .waiting c')
    (hr : (asking c').run? = some r) :
    (∃ r₀ answer₀ r₁, (answered c answer).run? = some (.answered r₀ answer₀) ∧
      r₀.resume env answer₀ = .waiting r₁ ∧ r = .asking r₁) ∨
      ∃ id worker, r = .asking (.loading id worker) := by
  cases c with
  | run r₀ =>
    obtain ⟨r₁, hnext, rfl⟩ := Progress.of_map_eq_waiting hresume
    exact .inl ⟨r₀, answer, r₁, rfl, hnext, (Option.some.inj hr).symm⟩
  | pass p =>
    obtain ⟨p', hnext, rfl⟩ := Progress.of_map_eq_waiting hresume
    cases p with
    | polling worker poll =>
      simp only [Pass.resume] at hnext
      split at hnext
      · obtain rfl := Progress.waiting.inj hnext
        cases hr
      · obtain ⟨-, id, hbegins⟩ := run?_of_pass hnext
        exact .inr ⟨id, worker, Option.some.inj (hr.symm.trans hbegins)⟩
      · cases hnext
    | running worker r₀ rest claimed =>
      simp only [Pass.resume] at hnext
      split at hnext
      · rename_i r₁ hrun
        obtain rfl := Progress.waiting.inj hnext
        exact .inl ⟨r₀, answer, r₁, rfl, hrun, (Option.some.inj hr).symm⟩
      · obtain ⟨-, id, hbegins⟩ := run?_of_pass hnext
        exact .inr ⟨id, worker, Option.some.inj (hr.symm.trans hbegins)⟩
  | emit | dispatch | poll | sweep | cancel =>
    obtain ⟨_, -, rfl⟩ := Progress.of_map_eq_waiting hresume
    cases hr

theorem run?_cases (c : Call) (answer : c.request.Answer) :
    (asking c).run? = none ∧ (answered c answer).run? = none ∨
      ∃ r answer', c.Runs answer r answer' := by
  cases c with
  | run r => exact .inr ⟨r, answer, .run r answer⟩
  | pass p =>
    cases p with
    | polling => exact .inl ⟨rfl, rfl⟩
    | running worker r rest claimed =>
      exact .inr ⟨r, answer, .pass worker r rest claimed answer⟩
  | emit | dispatch | poll | sweep | cancel => exact .inl ⟨rfl, rfl⟩

theorem runs_of_answered {r : RunStage} (hr : (answered c answer).run? = some r) :
    ∃ r₀ answer₀, r = .answered r₀ answer₀ ∧ c.Runs answer r₀ answer₀ := by
  rcases run?_cases c answer with ⟨-, hnone⟩ | ⟨r₀, answer₀, hruns⟩
  · rw [hnone] at hr
    cases hr
  · exact ⟨r₀, answer₀, Option.some.inj (hr.symm.trans hruns.answered), hruns⟩

theorem poll?_of_resume {p : PollStage} (hresume : c.resume env answer = .waiting c')
    (hp : (asking c').poll? = some p) :
    ∃ p₀ answer₀ p₁, (answered c answer).poll? = some (.answered p₀ answer₀) ∧
      p₀.resume answer₀ = .waiting p₁ ∧ p = .asking p₁ := by
  cases c with
  | poll p₀ =>
    obtain ⟨p₁, hnext, rfl⟩ := Progress.of_map_eq_waiting hresume
    exact ⟨p₀, answer, p₁, rfl, hnext, (Option.some.inj hp).symm⟩
  | pass pass =>
    obtain ⟨pass', hnext, rfl⟩ := Progress.of_map_eq_waiting hresume
    cases pass with
    | polling worker p₀ =>
      simp only [Pass.resume] at hnext
      split at hnext
      · rename_i p₁ hpoll
        obtain rfl := Progress.waiting.inj hnext
        exact ⟨p₀, answer, p₁, rfl, hpoll, (Option.some.inj hp).symm⟩
      · rw [(run?_of_pass hnext).1] at hp
        cases hp
      · cases hnext
    | running worker r rest claimed =>
      simp only [Pass.resume] at hnext
      split at hnext
      · obtain rfl := Progress.waiting.inj hnext
        cases hp
      · rw [(run?_of_pass hnext).1] at hp
        cases hp
  | emit | dispatch | run | sweep | cancel =>
    obtain ⟨_, -, rfl⟩ := Progress.of_map_eq_waiting hresume
    cases hp

theorem poll?_of_answered {p : PollStage} (hp : (answered c answer).poll? = some p) :
    ∃ p₀ answer₀, p = .answered p₀ answer₀ ∧ (asking c).poll? = some (.asking p₀) := by
  cases c with
  | poll p₀ => exact ⟨p₀, answer, (Option.some.inj hp).symm, rfl⟩
  | pass c =>
    cases c with
    | polling worker p₀ => exact ⟨p₀, answer, (Option.some.inj hp).symm, rfl⟩
    | running => cases hp
  | emit | dispatch | run | sweep | cancel => cases hp

end
end Stage

namespace System

variable {config : EngineConfig} {s s' : System}

theorem update_cases {f : Nat → Option Stage} {k n : Nat} {new stage : Option Stage}
    (h : Function.update f k new n = stage) :
    k = n ∧ new = stage ∨ some k ≠ some n ∧ f n = stage := by
  by_cases hk : n = k
  · subst hk
    rw [Function.update_self] at h
    exact .inl ⟨rfl, h⟩
  · rw [Function.update_of_ne hk] at h
    exact .inr ⟨fun hsame => hk (Option.some.inj hsame).symm, h⟩

/-- What holds of a call when it has begun, and stays when it is served, when it goes on and when
something else happens, holds of every call in every run. -/
theorem Reachable.of_stages {P : List Moment → Nat → Stage → Prop} (hs : Reachable config s)
    (hstart : ∀ s₀ s₁ m o c, Along config s s₀ s₁ m → m.call = some s₀.begun →
      m.incident = .began o (.waiting c) → o.start s₀.engine.env = .waiting c →
      P s₁.history s₀.begun (.asking c))
    (hserve : ∀ s₀ s₁ m n c answer, Along config s s₀ s₁ m → m.call = some n →
      m.incident = .served c answer → s₀.calls n = some (.asking c) →
      s₀.engine.Answers c.request answer s₁.engine → P s₀.history n (.asking c) →
      P s₁.history n (.answered c answer))
    (hresume : ∀ s₀ s₁ m n c answer c', Along config s s₀ s₁ m → m.call = some n →
      m.incident = .resumed (.waiting c') → s₀.calls n = some (.answered c answer) →
      c.resume s₀.engine.env answer = .waiting c' → P s₀.history n (.answered c answer) →
      P s₁.history n (.asking c'))
    (hframe : ∀ s₀ s₁ m n stage, Along config s s₀ s₁ m → m.call ≠ some n →
      s₀.calls n = some stage → P s₀.history n stage → P s₁.history n stage) :
    ∀ n stage, s.calls n = some stage → P s.history n stage := by
  suffices hall : ∀ s', Reachable config s' → Relation.ReflTransGen Step s' s →
      ∀ n stage, s'.calls n = some stage → P s'.history n stage from hall s hs .refl
  intro s' hs'
  induction hs' with
  | fresh => simp [System.fresh]
  | @step s₀ s₁ hs₀ hstep ih =>
    intro hleads n stage hn
    have ih := ih (.head hstep hleads)
    have hother (m : Moment) (hhistory : s₁.history = s₀.history ++ [m])
        (hengine : s₁.engine = m.engine) (hcall : m.call ≠ some n)
        (hold : s₀.calls n = some stage) : P s₁.history n stage :=
      hframe s₀ s₁ m n stage ⟨hs₀, hstep, hhistory, hengine, hleads⟩ hcall hold (ih n stage hold)
    cases hstep with
    | start o =>
      rcases update_cases hn with ⟨rfl, hnext⟩ | ⟨hcall, hold⟩
      · obtain ⟨c, hc, rfl⟩ := Stage.of_next?_eq_some hnext
        exact hstart s₀ _ _ o c ⟨hs₀, .start s₀ o, rfl, rfl, hleads⟩ rfl (by rw [hc]) hc
      · exact hother _ rfl rfl hcall hold
    | @serve k c answer e hasks hanswer =>
      rcases update_cases hn with ⟨rfl, hnext⟩ | ⟨hcall, hold⟩
      · obtain rfl := Option.some.inj hnext
        exact hserve s₀ _ _ k c answer ⟨hs₀, .serve hasks hanswer, rfl, rfl, hleads⟩ rfl rfl hasks
          hanswer (ih k _ hasks)
      · exact hother _ rfl rfl hcall hold
    | @resume k c answer hanswered =>
      rcases update_cases hn with ⟨rfl, hnext⟩ | ⟨hcall, hold⟩
      · obtain ⟨c', hc', rfl⟩ := Stage.of_next?_eq_some hnext
        exact hresume s₀ _ _ k c answer c' ⟨hs₀, .resume hanswered, rfl, rfl, hleads⟩ rfl
          (by rw [hc']) hanswered hc' (ih k _ hanswered)
      · exact hother _ rfl rfl hcall hold
    | crash k =>
      rcases update_cases hn with ⟨rfl, hnext⟩ | ⟨hcall, hold⟩
      · cases hnext
      · exact hother _ rfl rfl hcall hold
    | register | unregister | tick => exact hother _ rfl rfl (fun hcall => by cases hcall) hn

theorem Step.of_began (hstep : Step s s') {m : Moment} {o : Opening}
    {progress : Progress Call CallResult} (hhistory : s'.history = s.history ++ [m])
    (hbegan : m.incident = .began o progress) :
    m.call = some s.begun ∧ progress = o.start s.engine.env ∧ s'.engine = s.engine := by
  cases hstep with
  | start o' =>
    obtain rfl := List.singleton_inj.mp (List.append_inj' hhistory rfl).2
    cases hbegan
    exact ⟨rfl, rfl, rfl⟩
  | serve | resume | crash | register | unregister | tick =>
    obtain rfl := List.singleton_inj.mp (List.append_inj' hhistory rfl).2
    cases hbegan

/-- What happens to a call when it begins is the first that happens to it. -/
theorem Along.eq_of_begun {s₀ s₁ : System} {m b : Moment} (hm : Along config s s₀ s₁ m)
    (hb : b ∈ s₀.history ++ [m]) (hcall : b.call = some s₀.begun)
    (hcrashed : b.incident ≠ .crashed) : b = m := by
  rcases List.mem_append.mp hb with hb | hb
  · exact absurd (hm.reachable.crashed_of_unbegun hb hcall) hcrashed
  · exact List.mem_singleton.mp hb

theorem Step.of_served (hstep : Step s s') {m : Moment} {c : Call} {answer : c.request.Answer}
    (hhistory : s'.history = s.history ++ [m]) (hserved : m.incident = .served c answer) :
    ∃ n, m.call = some n ∧ s.calls n = some (.asking c) ∧
      s.engine.Answers c.request answer s'.engine := by
  cases hstep with
  | @serve n c' answer' e hasks hanswer =>
    obtain rfl := List.singleton_inj.mp (List.append_inj' hhistory rfl).2
    cases hserved
    exact ⟨n, rfl, hasks, hanswer⟩
  | start | resume | crash | register | unregister | tick =>
    obtain rfl := List.singleton_inj.mp (List.append_inj' hhistory rfl).2
    cases hserved

theorem Step.of_resumed (hstep : Step s s') {m : Moment} {progress : Progress Call CallResult}
    (hhistory : s'.history = s.history ++ [m]) (hresumed : m.incident = .resumed progress) :
    ∃ n c answer, m.call = some n ∧ s.calls n = some (.answered c answer) ∧
      progress = c.resume s.engine.env answer ∧ s'.engine = s.engine := by
  cases hstep with
  | @resume n c answer hanswered =>
    obtain rfl := List.singleton_inj.mp (List.append_inj' hhistory rfl).2
    cases hresumed
    exact ⟨n, c, answer, rfl, hanswered, rfl, rfl⟩
  | start | serve | crash | register | unregister | tick =>
    obtain rfl := List.singleton_inj.mp (List.append_inj' hhistory rfl).2
    cases hresumed

end System
end WorkflowEngine

import WorkflowEngine.Proofs.System.Passes

/-!
# What a pass leaves behind

When the pass of a worker is over and no other worker was at work, every instance that it has
claimed sleeps or has ended. The exception are those that have stumped the engine, for which nothing
is done: they are still running, and nobody but this worker may go on with them.
-/
namespace WorkflowEngine

/-- How a pass leaves an instance that it has claimed: at rest, or still held by its worker, and the
latter exactly if it has stumped the engine. -/
structure LeftBy (h : List Moment) (n : Nat) (worker : String) (i : Instance) : Prop where
  held_or_rests : i.status = .running ∧ i.owner = some worker ∨ i.Rests
  held_iff : i.status = .running ∧ i.owner = some worker ↔
    i.status ≠ .cancelled ∧ WasStumped h n i.id
  reported : i.status = .failed → ∃ entry, Appended h n entry ∧ entry.Reports i.id

theorem LeftBehind.leftBy {time : Instant → Instant} {h : List Moment} {n : Nat} {worker : String}
    {id : InstanceId} (hid : LeftBehind time h n worker id (WasStumped h n id)) :
    ∃ i, lastStored id h = some i ∧ LeftBy h n worker i := by
  have hgone (hgone : Gone h id) : ∃ i, lastStored id h = some i ∧ LeftBy h n worker i := by
    obtain ⟨i, hi, hcancelled, howner⟩ := hgone
    refine ⟨i, hi, .inr ⟨howner, .inr ?_⟩, ⟨fun hheld => ?_, fun hheld => ?_⟩, fun hfailed => ?_⟩
    · rw [Instance.isTerminal, hcancelled]
      rfl
    · rw [hcancelled] at hheld
      cases hheld.1
    · exact absurd hcancelled hheld.1
    · rw [hcancelled] at hfailed
      cases hfailed
  rcases hid with hid | ⟨i, rfl, hstored | hid, hleft⟩
  · exact hgone hid
  · refine ⟨i.kept time, hstored, ?_⟩
    rcases hleft with ⟨hstumped, hrunning, howner⟩ | ⟨hcalm, hrests, hreported⟩
    · have hstatus : (i.kept time).status ≠ .cancelled := by
        change i.status ≠ .cancelled
        simp [hrunning]
      refine ⟨.inl ⟨hrunning, howner⟩, ⟨fun _ => ⟨hstatus, hstumped⟩, fun _ => ⟨hrunning, howner⟩⟩,
        fun hfailed => ?_⟩
      have hfailed : i.status = .failed := hfailed
      rw [hrunning] at hfailed
      cases hfailed
    · refine ⟨.inr hrests, ⟨fun hheld => ?_, fun hheld => absurd hheld.2 hcalm⟩, hreported⟩
      have howner : i.owner = some worker := hheld.2
      rw [hrests.1] at howner
      cases howner
  · exact hgone hid

namespace System

variable {config : EngineConfig} {s : System}

/-- When the pass of a worker that works alone is over, every instance that it has claimed sleeps or
has ended, and a failure has been recorded, unless the instance has stumped the engine: it is then
still running, and held by the worker. -/
theorem Reachable.left_by_pass (hs : Reachable config s)
    (hcolumn : s.engine.store.isTable = true → TableStore.fits s.history.length)
    {before between : List Moment} {b f : Moment} {n : Nat} {worker : String}
    {time : Option Instant} {progress : Progress Call CallResult} {result : CallResult}
    (hhistory : s.history = before ++ b :: between ++ [f]) (hbcall : b.call = some n)
    (hpass : b.incident = .began (.pass worker time) progress)
    (halone : ∀ m ∈ between, m.call ≠ some n → m.isWork = false) (hfcall : f.call = some n)
    (hended : f.incident = .resumed (.ended (.ok result))) {id : InstanceId}
    (hclaimed : ClaimedBy s.history n id) :
    ∃ i, s.engine.store.find? id = some i ∧ LeftBy s.history n worker i := by
  obtain ⟨s₀, s₁, hm, hbefore⟩ := hs.along hhistory
  obtain ⟨k, c, answer, hk, hanswered, hresume, -⟩ := hm.step.of_resumed hm.history hended
  obtain rfl : k = n := Option.some.inj (hk.symm.trans hfcall)
  have hlast : s₁.history = s.history := by rw [hm.history, hbefore, hhistory]
  have hc : (Stage.answered c answer).Works s.engine.store.time s₀.history k worker := by
    rw [← hm.time_eq]
    exact hm.reachable.works (hm.column hcolumn) hanswered
      ⟨before, b, between, time, progress, hbefore, hbcall, hpass, halone⟩
  cases c with
  | pass p =>
    have hfares := hm.fares_of_resume (hs.counts hcolumn) hfcall hended hanswered hc
    rw [hlast] at hfares
    rw [hs.find?_eq_lastStored]
    cases hp : p.resume s₀.engine.env answer with
    | waiting p' => simp [Call.resume, hp, Progress.map] at hresume
    | ended outcome =>
      cases outcome with
      | error e => simp [Call.resume, hp, Progress.map] at hresume
      | ok count =>
        rw [hp] at hfares
        exact (hfares id hclaimed).leftBy
  | emit | dispatch | poll | run | sweep | cancel => cases hc

end System

section
variable {env : Env} {r r' : Run} {answer : r.request.Answer} {worker : String}
  {rest : List InstanceId} {count : Nat}

theorem Pass.resume_of_waiting (hresume : r.resume env answer = .waiting r') :
    (Call.pass (.running worker r rest count)).resume env answer =
      .waiting (.pass (.running worker r' rest count)) := by
  simp only [Call.resume, resume, hresume]
  rfl

theorem Pass.resume_of_ended {result : Outcome Instance}
    (hresume : r.resume env answer = .ended result) :
    (Call.pass (.running worker r [] count)).resume env answer = .ended (.ok (.claimed count)) := by
  simp only [Call.resume, resume, hresume]
  rfl

end

namespace Sample

/-- The last second that a clock can show. -/
def late : Int := 253402300799

/-- The instance at a delay of which no clock can show the end. -/
def stuck : Instance := { held created "w" late with cursor := "d", version := .count 2 }

def passing : AuditEntry :=
  ⟨"i1", some "t", .triggered,
    [("trigger", Choice.toValue TriggerKind.manual), ("next", .text "d")], clock late⟩

def claiming : Call := .pass (.polling "w" (.claiming "w" created [] []))

theorem exists_late : ∃ s, System.Reachable default s ∧ s.engine = keeping late created := by
  have hfresh : System.Reachable default
      (.fresh ⟨Registry.empty default, default, clock 0, .memory .empty, [], none⟩) :=
    .fresh ⟨rfl, rfl, .inl rfl⟩
  obtain ⟨s, hs, he, -, -⟩ :=
    (hfresh.step (.register register_graph)).alone (start_emit 0 .empty) alone_emit
  refine ⟨_, hs.step (.tick s (clock late)), ?_⟩
  simp only [System.aside, he]
  rfl

/-- A pass of a worker that works alone, moment by moment. -/
theorem exists_late_pass : ∃ s before b between f n progress, System.Reachable default s ∧
    s.engine = keeping late stuck ∧ s.history = before ++ b :: between ++ [f] ∧
    b.call = some n ∧ b.incident = .began (.pass "w" none) progress ∧
    (∀ m ∈ between, m.call = some n) ∧ f.call = some n ∧
    f.incident = .resumed (.ended (.ok (.claimed 1))) ∧ ClaimedBy s.history n "i1" := by
  obtain ⟨s, hs, he⟩ := exists_late
  have hstart : (Opening.pass "w" none).start s.engine.env =
      .waiting (.pass (.polling "w" (.listing "w" (clock late) 50))) := by
    rw [he]
    rfl
  have hstarted := hs.step (.start s (.pass "w" none))
  rw [hstart] at hstarted
  have hlists : s.engine.Answers (.store (.listDue (clock late) 50)) (.ok [created])
      (keeping late created) := he ▸ listDue_eq rfl rfl
  obtain ⟨s₁, hs₁, he₁, -, hasks₁, -, hh₁⟩ :=
    hstarted.served_resumed (c := .pass (.polling "w" (.listing "w" (clock late) 50)))
      (Function.update_self s.begun _ _) hlists
  have hclaims : s₁.engine.Answers
      (.store (.claim "i1" .running .running (some "w"))) (.ok (some (held created "w" late)))
      (keeping late (held created "w" late)) := by
    rw [he₁]
    rfl
  obtain ⟨s₂, hs₂, he₂, -, hasks₂, -, hh₂⟩ := hs₁.served_resumed (c := claiming) hasks₁ hclaims
  have hloads : s₂.engine.Answers (.store (.load "i1")) (.ok (held created "w" late))
      (keeping late (held created "w" late)) := by
    rw [he₂]
    rfl
  obtain ⟨s₃, hs₃, he₃, -, hasks₃, -, hh₃⟩ :=
    hs₂.served_resumed (c := .pass (.running "w" (.loading "i1" "w") [] 1)) hasks₂ hloads
  have hbegins : (Run.loading "i1" "w").resume (keeping late (held created "w" late)).env
      (.ok (held created "w" late)) =
        Run.begin (keeping late (held created "w" late)).env (held created "w" late) := rfl
  rw [Pass.resume_of_waiting (hbegins.trans (begin_created late))] at hasks₃
  have hsaves : s₃.engine.Answers
      (.store (.save { held created "w" late with cursor := "d" } (.count 1))) (.ok stuck)
      (keeping late stuck) := by
    rw [he₃]
    rfl
  obtain ⟨s₄, hs₄, he₄, -, hasks₄, -, hh₄⟩ := hs₃.served_resumed hasks₃ hsaves
  have happends : s₄.engine.Answers (.append passing) () (keeping late stuck) := by
    rw [he₄]
    exact .inl rfl
  obtain ⟨s₅, hs₅, he₅, -, -, -, hh₅⟩ :=
    hs₄.served_resumed (c := .pass (.running "w" (.recording stuck passing) [] 1)) hasks₄ happends
  have hends : (Run.recording stuck passing).resume (keeping late stuck).env () =
      .ended (.error .outOfRange) := by
    change Run.proceed (keeping late stuck).env stuck = _
    rw [Run.proceed, visit, keeping, planNode_eq rfl rfl]
    rfl
  rw [Pass.resume_of_ended hends, hh₄, hh₃, hh₂, hh₁] at hh₅
  have hsplit (h : List Moment) (a b c d e f g i j k l : Moment) :
      h ++ [a] ++ [b] ++ [c] ++ [d] ++ [e] ++ [f] ++ [g] ++ [i] ++ [j] ++ [k] ++ [l] =
        h ++ a :: [b, c, d, e, f, g, i, j, k] ++ [l] := by
    simp
  have hhistory := hh₅.trans (hsplit s.history _ _ _ _ _ _ _ _ _ _ _)
  refine ⟨s₅, _, _, _, _, _, _, hs₅, he₅, hhistory, rfl, rfl, by simp, rfl, rfl, ?_⟩
  rw [hhistory]
  exact ⟨⟨some s.begun, .served claiming (.ok (some (held created "w" late))),
    keeping late (held created "w" late)⟩, by simp, rfl, rfl⟩

/-- After its pass a worker that works alone still holds an instance, and does no more about it. -/
theorem exists_stuck : ∃ s before b between f n progress, System.Reachable default s ∧
    (s.engine.store.isTable = true → TableStore.fits s.history.length) ∧
    s.history = before ++ b :: between ++ [f] ∧ b.call = some n ∧
    b.incident = .began (.pass "w" none) progress ∧
    (∀ m ∈ between, m.call ≠ some n → m.isWork = false) ∧ f.call = some n ∧
    f.incident = .resumed (.ended (.ok (.claimed 1))) ∧ ClaimedBy s.history n "i1" ∧
    s.engine.store.find? "i1" = some stuck ∧ LeftBy s.history n "w" stuck ∧
    stuck.status = .running ∧ stuck.owner = some "w" := by
  obtain ⟨s, before, b, between, f, n, progress, hs, he, hhistory, hbcall, hpass, hown, hfcall,
    hended, hclaimed⟩ := exists_late_pass
  have hcolumn : s.engine.store.isTable = true → TableStore.fits s.history.length := by
    rw [he]
    exact nofun
  have halone (m : Moment) (hm : m ∈ between) (hcall : m.call ≠ some n) : m.isWork = false :=
    absurd (hown m hm) hcall
  obtain ⟨i, hi, hleft⟩ :=
    hs.left_by_pass hcolumn hhistory hbcall hpass halone hfcall hended hclaimed
  have hstuck : s.engine.store.find? "i1" = some stuck := by
    rw [he]
    rfl
  obtain rfl := Option.some.inj (hi.symm.trans hstuck)
  exact ⟨s, before, b, between, f, n, progress, hs, hcolumn, hhistory, hbcall, hpass, halone,
    hfcall, hended, hclaimed, hstuck, hleft, rfl, rfl⟩

end Sample
end WorkflowEngine

import WorkflowEngine.Proofs.System.Writes

/-!
# What stays as it is

While one worker is at work and no other, what it does not write itself stays as it is stored, or is
cancelled. How far a call has come can be told from what has happened to it last.
-/
namespace WorkflowEngine

/-- How far a call has come after something has happened to it. -/
def Moment.stage? (m : Moment) : Option Stage :=
  match m.incident with
  | .began _ progress | .resumed progress => Stage.next? progress
  | .served c answer => some (.answered c answer)
  | _ => none

def stageOf (n : Nat) (h : List Moment) : Option Stage :=
  (h.filter (·.call = some n)).getLast?.bind Moment.stage?

theorem stageOf_append_self {n : Nat} {h : List Moment} {m : Moment} (hm : m.call = some n) :
    stageOf n (h ++ [m]) = m.stage? := by
  simp [stageOf, List.filter_append, hm]

theorem stageOf_append_of_ne {n : Nat} {h : List Moment} {m : Moment} (hm : m.call ≠ some n) :
    stageOf n (h ++ [m]) = stageOf n h := by
  simp [stageOf, List.filter_append, hm]

theorem System.Reachable.calls_eq {config : EngineConfig} {s : System} (hs : Reachable config s)
    (n : Nat) : s.calls n = stageOf n s.history := by
  induction hs with
  | fresh => rfl
  | @step s s' hs hstep ih =>
    have hturn {k : Nat} {stage : Option Stage} {incident : Incident} {e : Engine}
        (hstage : (Moment.mk (some k) incident e).stage? = stage) :
        (s.turn k stage incident e).calls n = stageOf n (s.turn k stage incident e).history := by
      by_cases hk : k = n
      · subst hk
        rw [turn, stageOf_append_self rfl, hstage]
        exact Function.update_self k stage s.calls
      · have hne : n ≠ k := fun h => hk h.symm
        rw [turn, stageOf_append_of_ne (by simpa using hk), ← ih]
        exact Function.update_of_ne hne stage s.calls
    have haside {incident : Incident} {e : Engine} :
        (s.aside incident e).calls n = stageOf n (s.aside incident e).history := by
      rw [aside, stageOf_append_of_ne (by simp)]
      exact ih
    cases hstep with
    | start | serve | resume | crash => exact hturn rfl
    | register | unregister | tick => exact haside

/-- Polls, runs, sweeps and passes are the work of workers. -/
def Call.isWork : Call → Bool
  | poll _ | run _ | sweep _ | pass _ => true
  | emit _ | dispatch _ | cancel _ => false

def Moment.isWork (m : Moment) : Bool :=
  match m.incident with
  | .served c _ => c.isWork
  | _ => false

/-- An instance was cancelled, and nobody holds it. -/
def Gone (h : List Moment) (id : InstanceId) : Prop :=
  ∃ i, lastStored id h = some i ∧ i.status = .cancelled ∧ i.owner = none

/-- An instance is stored as it is, or has been cancelled since. -/
def Stands (time : Instant → Instant) (h : List Moment) (i : Instance) : Prop :=
  lastStored i.id h = some (i.kept time) ∨ Gone h i.id

/-- Nothing happens to an instance from one history to another, except that it is cancelled. -/
def Stays (h h' : List Moment) (id : InstanceId) : Prop :=
  ∀ i, lastStored id h = some i → lastStored id h' = some i ∨ Gone h' id

section
variable {time : Instant → Instant} {h h' : List Moment} {id : InstanceId} {i : Instance}

theorem Gone.of_stays (hgone : Gone h id) (hstays : Stays h h' id) : Gone h' id := by
  obtain ⟨i, hi, hcancelled⟩ := hgone
  rcases hstays i hi with hsame | hgone
  · exact ⟨i, hsame, hcancelled⟩
  · exact hgone

theorem Stands.of_stays (hstands : Stands time h i) (hstays : Stays h h' i.id) :
    Stands time h' i := by
  rcases hstands with hstored | hgone
  · exact hstays _ hstored
  · exact .inr (hgone.of_stays hstays)

end

theorem Store.find?_of_create {s s' : Store} {now : Instant} {d : Draft} {i : Instance}
    (hwellFormed : s.WellFormed) (hperform : s.perform now (.create d) = (.ok (i, true), s')) :
    s.find? i.id = none := by
  simp only [Store.perform] at hperform
  split at hperform
  · rename_i result s'' hresult
    obtain ⟨hok, rfl⟩ := Prod.mk.inj hperform
    obtain rfl := Except.ok.inj hok
    rcases Store.create_cases hwellFormed hresult with ⟨hold, -⟩ | ⟨-, -, hnone, -⟩
    · cases hold
    · exact hnone
  · cases (Prod.mk.inj hperform).1

namespace System

variable {config : EngineConfig} {s s₀ s₁ : System} {m : Moment} {id : InstanceId} {w : Instance}

theorem Along.stays (hm : Along config s s₀ s₁ m) (hcounts : Counts s.history)
    (hothers : ∀ w, m.written? = some w → w.id = id → w.status = .cancelled ∧ w.owner = none) :
    Stays s₀.history s₁.history id := by
  intro i hi
  rw [hm.history, Gone, lastStored_append]
  by_cases hwrites : ∃ w, m.written? = some w ∧ w.id = id
  · obtain ⟨w, hw, rfl⟩ := hwrites
    exact .inr ⟨_, ((hm.written hcounts).1 w hw).2, hothers w hw rfl⟩
  · left
    rw [← hi]
    exact (hm.written hcounts).2 id fun w hw hid => hwrites ⟨w, hw, hid⟩

theorem Along.stays_of_unwritten (hm : Along config s s₀ s₁ m) (hcounts : Counts s.history)
    (hquiet : m.written? = none) (id : InstanceId) : Stays s₀.history s₁.history id := by
  refine hm.stays hcounts fun w hw => ?_
  rw [hquiet] at hw
  cases hw

theorem Along.stays_elsewhere (hm : Along config s s₀ s₁ m) (hcounts : Counts s.history)
    (hw : m.written? = some w) (hne : id ≠ w.id) : Stays s₀.history s₁.history id := by
  refine hm.stays hcounts fun w' hw' hid => ?_
  obtain rfl := Option.some.inj (hw.symm.trans hw')
  exact absurd hid.symm hne

/-- Without work, an instance that is stored can only be cancelled. -/
theorem Along.cancelled_of_idle (hm : Along config s s₀ s₁ m) (hcounts : Counts s.history)
    (hidle : m.isWork = false) (hw : m.written? = some w)
    (hborn : (lastStored w.id s₀.history).isSome) : w.status = .cancelled ∧ w.owner = none := by
  have hcounts₀ := (hm.counts hcounts).1
  have hsound := hm.reachable.isSound hcounts₀
  have hcreates {d : Draft} {answer : Outcome (Instance × Bool)}
      (hanswer : s₀.engine.Answers (.store (.create d)) answer s₁.engine)
      (hwritten : (Request.store (.create d)).written? answer = some w) :
      w.status = .cancelled ∧ w.owner = none := by
    have hnone : s₀.engine.store.find? w.id = none := by
      have hperform := Engine.perform_of_answers hanswer
      cases answer with
      | error => cases hwritten
      | ok result =>
        obtain ⟨i, isNew⟩ := result
        cases isNew with
        | false => cases hwritten
        | true =>
          obtain rfl : i = w := Option.some.inj hwritten
          exact Store.find?_of_create hsound.lives.wellFormed hperform
    rw [← hm.reachable.find?_eq_lastStored, hnone] at hborn
    cases hborn
  cases hincident : m.incident with
  | served c answer =>
    obtain ⟨n, -, hasks, hanswer⟩ := hm.step.of_served hm.history hincident
    have hwritten : c.request.written? answer = some w := by
      rw [Moment.written?, hincident] at hw
      exact hw
    rw [Moment.isWork, hincident] at hidle
    cases c with
    | emit c => exact hcreates hanswer hwritten
    | dispatch c => exact hcreates hanswer hwritten
    | cancel c =>
      cases c with
      | loading | recording => cases hwritten
      | saving current reason time =>
        have hcurrent : Cancel.IsSound s₀.engine.store.time s₀.history
            (.saving current reason time) := hsound.calls n _ hasks
        cases answer with
        | error => cases hwritten
        | ok stored =>
          obtain rfl : stored = w := Option.some.inj hwritten
          obtain ⟨-, rfl, -⟩ := hsound.lives.of_save hcounts₀ hcurrent.1 (.cancelled hcurrent.2)
            (Engine.perform_of_answers hanswer)
          exact ⟨rfl, rfl⟩
    | poll | run | sweep | pass => cases hidle
  | began | resumed | crashed | registered | unregistered | ticked =>
    simp [Moment.written?, hincident] at hw

/-- Without work, an instance that is stored stays, or is cancelled. -/
theorem Along.stays_of_idle (hm : Along config s s₀ s₁ m) (hcounts : Counts s.history)
    (hidle : m.isWork = false) (id : InstanceId) : Stays s₀.history s₁.history id := by
  intro i hi
  refine hm.stays hcounts (fun w hw hid => ?_) i hi
  subst hid
  exact hm.cancelled_of_idle hcounts hidle hw (by rw [hi]; rfl)

end System
end WorkflowEngine

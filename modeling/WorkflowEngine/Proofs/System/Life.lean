import WorkflowEngine.Proofs.Store.Effect
import WorkflowEngine.Proofs.System
import WorkflowEngine.Proofs.Visit.Stepped

/-!
# Lives of instances

The life of an instance is a run as seen from one identifier: until the instance is created, and
from one change to the next. A change says what a single write can do to the stored instance.
-/
namespace WorkflowEngine

namespace Instance

def IsHeld (i : Instance) : Prop := i.status = .running ∧ i.owner.isSome

/-- The instance after a failure to find its plan or its node. -/
def unrunnable (i : Instance) (error : String) (now : Instant) : Instance :=
  { i with
    status := .failed
    dispatching := none
    owner := none
    resumeAt := none
    error := some error
    completedAt := some now }

end Instance

def Made (h : List Moment) (v : Invocation) : Prop := ∃ m ∈ h, m.invocation? = some v

/-- What a write can do to the instance that it replaces, and the step that it stores if any. -/
inductive Change (config : EngineConfig) (h : List Moment) (i : Instance) :
    Option Step → Instance → Prop where
  | stepped {p : Plan} {step : Step} (hbound : BoundTo h p i) (hheld : i.IsHeld)
      (hstep : Stepped config p (Made h) i step) : Change config h i (some step) step.next
  | failed {error : String} {now : Instant} (hheld : i.IsHeld) :
      Change config h i none (i.unrunnable error now)
  | released (hheld : i.IsHeld) : Change config h i none i.released
  | cancelled {reason : Option String} {now : Instant} (hlive : i.isTerminal = false) :
      Change config h i none (Cancel.cancelled i reason now)
  | claimed {worker : String} (hlive : i.isTerminal = false) (hfree : i.owner = none) :
      Change config h i none (i.claimed .running (some worker))

/-- No instance with an identifier was stored so far. -/
def Unborn (id : InstanceId) (h : List Moment) : Prop :=
  ∀ m ∈ h, m.find? id = none ∧ ∀ step, m.stored? = some step → step.next.id ≠ id

/-- How often a step with an outcome was stored for a node of an instance. -/
def timesStored (id : InstanceId) (node : String) (outcome : AuditOutcome) (h : List Moment) :
    Nat :=
  h.countP (Moment.stores id node outcome)

theorem timesStored_append {id : InstanceId} {node : String} {outcome : AuditOutcome}
    {h : List Moment} {m : Moment} :
    timesStored id node outcome (h ++ [m]) =
      timesStored id node outcome h + if m.stores id node outcome then 1 else 0 := by
  rw [timesStored, List.countP_append, List.countP_singleton]
  rfl

theorem timesStored_eq_zero {id : InstanceId} {h : List Moment}
    (hquiet : ∀ m ∈ h, ∀ step, m.stored? = some step → step.next.id ≠ id) (node : String)
    (outcome : AuditOutcome) : timesStored id node outcome h = 0 := by
  refine List.countP_eq_zero.mpr fun m hm => ?_
  rw [Moment.stores_eq_false fun s hs hid => absurd hid (hquiet m hm s hs)]
  exact Bool.false_ne_true

theorem Unborn.stored_append {id : InstanceId} {h : List Moment} {m : Moment}
    (hunborn : Unborn id h) (hstored : m.stored? = none) :
    ∀ m' ∈ h ++ [m], ∀ step, m'.stored? = some step → step.next.id ≠ id := by
  intro m' hm' step hstep
  rcases List.mem_append.mp hm' with hm' | hm'
  · exact (hunborn m' hm').2 step hstep
  · obtain rfl := List.mem_singleton.mp hm'
    rw [hstored] at hstep
    cases hstep

/-- The life of an instance: a history, and the instance as it is stored at its end. -/
inductive Life (config : EngineConfig) (time : Instant → Instant) (id : InstanceId) :
    List Moment → Instance → Prop where
  | born {h : List Moment} {m : Moment} {p : Plan} {e : Event} {i : Instance} {now : Instant}
      (hunborn : Unborn id h) (hbound : BoundTo h p i) (hdraft : i.toDraft = e.draft p now)
      (hid : i.id = id) (hstored : m.stored? = none) (hfound : m.find? id = some (i.kept time)) :
      Life config time id (h ++ [m]) (i.kept time)
  | idle {h : List Moment} {m : Moment} {i : Instance} (hlife : Life config time id h i)
      (hstored : ∀ step, m.stored? = some step → step.next.id ≠ id)
      (hfound : m.find? id = some i) : Life config time id (h ++ [m]) i
  | changed {h : List Moment} {m : Moment} {i next : Instance} {step : Option Step}
      {now : Instant} (hlife : Life config time id h (i.kept time)) (hid : i.id = id)
      (hchange : Change config h i step next) (hstored : m.stored? = step)
      (hfound : m.find? id = some ((next.stamped i.version.next now).kept time)) :
      Life config time id (h ++ [m]) ((next.stamped i.version.next now).kept time)

/-- No instance has been written so often that its writes are not counted any more. -/
def Counts (h : List Moment) : Prop :=
  ∀ m ∈ h, ∀ i ∈ m.engine.store.instances, i.version ≠ .uncounted

theorem Counts.of_append {h₁ h₂ : List Moment} (hcounts : Counts (h₁ ++ h₂)) : Counts h₁ :=
  fun m hm => hcounts m (List.mem_append_left _ hm)

theorem Counts.count {h : List Moment} (hcounts : Counts h) {m : Moment} (hm : m ∈ h)
    {id : InstanceId} {i : Instance} (hi : m.find? id = some i) : ∃ n, i.version = .count n := by
  cases hversion : i.version with
  | count n => exact ⟨n, rfl⟩
  | uncounted => exact absurd hversion (hcounts m hm i (Instance.mem_of_find? hi))

namespace Version

def Before : Version → Version → Prop
  | count m, count n => m < n
  | _, _ => False

theorem not_before_self (v : Version) : ¬ v.Before v := by
  cases v <;> simp [Before]

theorem Before.trans {u v w : Version} (huv : u.Before v) (hvw : v.Before w) : u.Before w := by
  cases u <;> cases v <;> cases w <;> simp only [Before] at *
  omega

theorem before_next (n : Int) : (count n).Before (count n).next := by
  rw [next, Before]
  omega

end Version

namespace Stepped

variable {config : EngineConfig} {p : Plan} {made : Invocation → Prop} {i : Instance}
  {step : Step}

/-- A step leaves as it is what the instance was created with, and does not count itself. -/
theorem next_eq (h : Stepped config p made i step) :
    step.next.id = i.id ∧ step.next.origin = i.origin ∧ step.next.version = i.version := by
  cases h with
  | @passed _ exit => cases exit <;> exact ⟨rfl, rfl, rfl⟩
  | intended => exact ⟨rfl, rfl, rfl⟩
  | slept => exact ⟨rfl, rfl, rfl⟩
  | @succeeded v _ hv =>
    obtain rfl := hv.base
    unfold Step.advance
    cases v.exit <;> exact ⟨rfl, rfl, rfl⟩
  | gaveUp hv =>
    obtain rfl := hv.base
    exact ⟨rfl, rfl, rfl⟩
  | retried hv =>
    obtain rfl := hv.base
    exact ⟨rfl, rfl, rfl⟩
  | recovered => exact ⟨rfl, rfl, rfl⟩
  | abandoned => exact ⟨rfl, rfl, rfl⟩

/-- A worker keeps an instance that goes on. -/
theorem owner_eq (h : Stepped config p made i step) (hrunning : step.next.status = .running) :
    step.next.owner = i.owner := by
  cases h with
  | @passed _ exit =>
    cases exit with
    | none => cases hrunning
    | some target => rfl
  | intended => rfl
  | slept => cases hrunning
  | @succeeded v _ hv =>
    obtain rfl := hv.base
    revert hrunning
    unfold Step.advance
    cases v.exit with
    | none => intro hrunning; cases hrunning
    | some target => exact fun _ => rfl
  | gaveUp => cases hrunning
  | retried => cases hrunning
  | recovered => rfl
  | abandoned => cases hrunning

theorem isHeld_next (h : Stepped config p made i step) (hheld : i.IsHeld)
    (hrunning : step.next.status = .running) : step.next.IsHeld :=
  ⟨hrunning, h.owner_eq hrunning ▸ hheld.2⟩

end Stepped

namespace Change

variable {config : EngineConfig} {h : List Moment} {i next : Instance} {step : Option Step}

/-- A change leaves as it is what the instance was created with. -/
theorem next_eq (hchange : Change config h i step next) :
    next.id = i.id ∧ next.origin = i.origin := by
  cases hchange with
  | stepped _ _ hstep => exact ⟨hstep.next_eq.1, hstep.next_eq.2.1⟩
  | failed => exact ⟨rfl, rfl⟩
  | released => exact ⟨rfl, rfl⟩
  | cancelled => exact ⟨rfl, rfl⟩
  | claimed => exact ⟨rfl, rfl⟩

theorem stored_id {step : Step} (hchange : Change config h i (some step) next) :
    step.next.id = next.id := by
  cases hchange
  rfl

/-- An instance that has ended is not written again. -/
theorem isTerminal_eq_false (hchange : Change config h i step next) : i.isTerminal = false := by
  cases hchange with
  | stepped _ hheld => simp [Instance.isTerminal, hheld.1, Status.isTerminal]
  | failed hheld => simp [Instance.isTerminal, hheld.1, Status.isTerminal]
  | released hheld => simp [Instance.isTerminal, hheld.1, Status.isTerminal]
  | cancelled hlive => exact hlive
  | claimed hlive => exact hlive

end Change

namespace Life

variable {config : EngineConfig} {time : Instant → Instant} {id : InstanceId}
  {h : List Moment} {i : Instance}

theorem id_eq (hlife : Life config time id h i) : i.id = id := by
  induction hlife with
  | born _ _ _ hid => exact hid
  | idle _ _ _ ih => exact ih
  | changed _ hid hchange => exact hchange.next_eq.1.trans hid

/-- A stored instance was stored at the end of the history. -/
theorem exists_find? (hlife : Life config time id h i) : ∃ m ∈ h, m.find? id = some i := by
  cases hlife with
  | born _ _ _ _ _ hfound => exact ⟨_, by simp, hfound⟩
  | idle _ _ hfound => exact ⟨_, by simp, hfound⟩
  | changed _ _ _ _ hfound => exact ⟨_, by simp, hfound⟩

/-- What a moment stores at the end of a history, and what was stored before. -/
theorem find?_cases {m m' : Moment} {i j : Instance} (hm : m ∈ h ++ [m'])
    (hi : m'.find? id = some i) (hj : m.find? id = some j) : m ∈ h ∨ j = i := by
  rcases List.mem_append.mp hm with hm | hm
  · exact .inl hm
  · obtain rfl := List.mem_singleton.mp hm
    exact .inr (Option.some.inj (hj.symm.trans hi))

/-- One more write counts, as long as writes are counted. -/
theorem before_next (hlife : Life config time id h i) (hcounts : Counts h) :
    i.version.Before i.version.next := by
  obtain ⟨m, hm, hfound⟩ := hlife.exists_find?
  obtain ⟨n, hn⟩ := hcounts.count hm hfound
  rw [hn]
  exact Version.before_next n

/-- Whatever was stored earlier counts fewer writes, unless nothing was written since. -/
theorem eq_or_before (hlife : Life config time id h i) (hcounts : Counts h) {m : Moment}
    (hm : m ∈ h) {j : Instance} (hj : m.find? id = some j) :
    j = i ∨ j.version.Before i.version := by
  induction hlife with
  | born hunborn _ _ _ _ hfound =>
    rcases find?_cases hm hfound hj with hm | rfl
    · simp [(hunborn m hm).1] at hj
    · exact .inl rfl
  | idle _ _ hfound ih =>
    rcases find?_cases hm hfound hj with hm | rfl
    · exact ih hcounts.of_append hm
    · exact .inl rfl
  | @changed _ _ base _ _ _ hlife _ _ _ hfound ih =>
    rcases find?_cases hm hfound hj with hm | rfl
    · have hnext : base.version.Before base.version.next := hlife.before_next hcounts.of_append
      rcases ih hcounts.of_append hm with rfl | hbefore
      · exact .inr hnext
      · exact .inr (hbefore.trans hnext)
    · exact .inl rfl

/-- What an instance was created with stays as it is. -/
theorem origin_eq (hlife : Life config time id h i) {m : Moment} (hm : m ∈ h) {j : Instance}
    (hj : m.find? id = some j) : j.origin = i.origin := by
  induction hlife with
  | born hunborn _ _ _ _ hfound =>
    rcases find?_cases hm hfound hj with hm | rfl
    · simp [(hunborn m hm).1] at hj
    · rfl
  | idle _ _ hfound ih =>
    rcases find?_cases hm hfound hj with hm | rfl
    · exact ih hm
    · rfl
  | changed _ _ hchange _ hfound ih =>
    rcases find?_cases hm hfound hj with hm | rfl
    · have horigin := hchange.next_eq.2
      simp only [Instance.origin, Prod.mk.injEq] at horigin
      obtain ⟨hgraph, hversion, hcontext, hkey, hcreated⟩ := horigin
      rw [ih hm]
      simp only [Instance.origin, Instance.kept, Instance.stamped, hgraph, hversion, hcontext,
        hkey, hcreated]
    · rfl

end Life
end WorkflowEngine

import Mathlib.Logic.Function.Basic
import Mathlib.Logic.Relation
import WorkflowEngine.Engine

/-!
# Runs of the system

Calls take turns at each of their requests: a call asks, is served, and goes on. In between, other
calls are served, calls are dropped for good, plans come and go, and the clock is set. A system
remembers every moment of its run.
-/
namespace WorkflowEngine

/-- One element of a list is the last one, or comes before it. -/
theorem last_or_before {α : Type} {l before after : List α} {a x : α}
    (h : l ++ [a] = before ++ x :: after) :
    l = before ∧ a = x ∧ after = [] ∨ ∃ rest, l = before ++ x :: rest ∧ after = rest ++ [a] := by
  rcases List.eq_nil_or_concat after with rfl | ⟨rest, y, rfl⟩
  · obtain ⟨hbefore, hx⟩ := List.append_inj' h rfl
    exact .inl ⟨hbefore, List.singleton_inj.mp hx, rfl⟩
  · rw [List.concat_eq_append, ← List.cons_append, ← List.append_assoc] at h
    obtain ⟨hbefore, hy⟩ := List.append_inj' h rfl
    rw [List.concat_eq_append, List.singleton_inj.mp hy]
    exact .inr ⟨rest, hbefore, rfl⟩

inductive Opening where
  | emit (e : Event) (graphId : String)
  | dispatch (e : Event)
  | poll (worker : String) (time : Option Instant) (limit : Option Int)
  | run (id : InstanceId) (worker : String)
  | sweep (time : Option Instant) (grace : Option Int)
  | cancel (id : InstanceId) (reason : Option String)
  | pass (worker : String) (time : Option Instant)
  deriving DecidableEq, Repr

def Opening.start (env : Env) : Opening → Progress Call CallResult
  | emit e graphId => Call.startEmit env e graphId
  | dispatch e => Call.startDispatch env e
  | poll worker time limit => .waiting (.poll (Poll.start env worker time limit))
  | run id worker => .waiting (.run (Run.start id worker))
  | sweep time grace =>
    match Sweep.start env time grace with
    | .ok s => .waiting (.sweep s)
    | .error e => .ended (.error e)
  | cancel id reason => .waiting (.cancel (Cancel.start id reason))
  | pass worker time => .waiting (.pass (Pass.start env worker time))

/-- How far the present request of a call has come. -/
inductive Stage where
  | asking (c : Call)
  | answered (c : Call) (answer : c.request.Answer)

/-- How far the present request of a run has come. -/
inductive RunStage where
  | asking (r : Run)
  | answered (r : Run) (answer : r.request.Answer)

namespace RunStage

/-- The step that has just been stored. -/
def stored? : RunStage → Option Step
  | answered (.saving _ step) (.ok _) => some step
  | _ => none

/-- The invocation that has just been made. -/
def invocation? : RunStage → Option Invocation
  | answered (.invoking v) _ => some v
  | _ => none

end RunStage

namespace Stage

/-- A call that goes on asks next; one that has ended is gone. -/
def next? : Progress Call CallResult → Option Stage
  | .waiting c => some (asking c)
  | .ended _ => none

theorem of_next?_eq_some {progress : Progress Call CallResult} {stage : Stage}
    (hnext : next? progress = some stage) :
    ∃ c, progress = .waiting c ∧ stage = asking c := by
  cases progress with
  | waiting c => exact ⟨c, rfl, (Option.some.inj hnext).symm⟩
  | ended => cases hnext

/-- The run that a call consists of, or that a pass is at. -/
def run? : Stage → Option RunStage
  | asking (.run r) | asking (.pass (.running _ r _ _)) => some (.asking r)
  | answered (.run r) answer | answered (.pass (.running _ r _ _)) answer =>
    some (.answered r answer)
  | _ => none

end Stage

inductive Incident where
  | began (o : Opening) (progress : Progress Call CallResult)
  | served (c : Call) (answer : c.request.Answer)
  | resumed (progress : Progress Call CallResult)
  | crashed
  | registered (p : Plan)
  | unregistered (graphId : String)
  | ticked

/-- What happened at one time, to which call, and the engine thereafter. -/
structure Moment where
  call : Option Nat
  incident : Incident
  engine : Engine

namespace Moment

def run? (m : Moment) : Option RunStage :=
  match m.incident with
  | .served c answer => (Stage.answered c answer).run?
  | _ => none

def stored? (m : Moment) : Option Step := m.run?.bind RunStage.stored?

def invocation? (m : Moment) : Option Invocation := m.run?.bind RunStage.invocation?

/-- The instance as it is stored thereafter. -/
def find? (m : Moment) (id : InstanceId) : Option Instance :=
  Instance.find? m.engine.store.instances id

/-- Whether a step with an outcome was stored for a node of an instance. -/
def stores (id : InstanceId) (node : String) (outcome : AuditOutcome) (m : Moment) : Bool :=
  m.stored?.any fun step =>
    step.next.id == id && step.entry.node == some node && step.entry.outcome == outcome

theorem stores_eq_false {id : InstanceId} {node : String} {outcome : AuditOutcome}
    {m : Moment} (h : ∀ s, m.stored? = some s → s.next.id = id → s.entry.outcome ≠ outcome) :
    m.stores id node outcome = false := by
  unfold stores
  cases hstored : m.stored? with
  | none => rfl
  | some s =>
    by_cases hid : s.next.id = id
    · simp [h s hstored hid]
    · simp [hid]

theorem stores_iff {id : InstanceId} {node : String} {outcome : AuditOutcome} {m : Moment}
    {s : Step} (hstored : m.stored? = some s) (hid : s.next.id = id) :
    m.stores id node outcome = true ↔ s.entry.node = some node ∧ s.entry.outcome = outcome := by
  simp [stores, hstored, hid]

/-- Whether an action of an instance was invoked. -/
def invokes (id : InstanceId) (node : String) (m : Moment) : Bool :=
  m.invocation?.any fun v => v.base.id == id && v.node == node

end Moment

/-- A plan was registered, or found to be registered. -/
def Registered (h : List Moment) (p : Plan) : Prop := ∃ m ∈ h, m.incident = .registered p

/-- The plan to which an instance is bound. -/
structure BoundTo (h : List Moment) (p : Plan) (i : Instance) : Prop where
  registered : Registered h p
  graphId : p.graphId = i.graphId
  version : p.version = i.planVersion

structure System where
  engine : Engine
  /-- The calls that go on, by their numbers. -/
  calls : Nat → Option Stage
  /-- The number of calls that have begun. -/
  begun : Nat
  history : List Moment

/-- What a request is answered, and the engine thereafter. An entry may be lost, and an action may
reply anything. -/
def Engine.Answers (e : Engine) : (r : Request) → r.Answer → Engine → Prop
  | .store r, answer, e' => (answer, e') = e.perform r
  | .append entry, _, e' => e' = e ∨ e' = e.append entry
  | .invoke _ _ _, _, e' => e' = e

structure Engine.IsFresh (config : EngineConfig) (e : Engine) : Prop where
  registry : e.registry = Registry.empty config
  config : e.config = config
  store : e.store = .memory MemoryStore.empty ∨ e.store = .table TableStore.empty

namespace System

def fresh (e : Engine) : System := ⟨e, fun _ => none, 0, []⟩

/-- The system after a moment of a call that leaves it at a stage. -/
def turn (s : System) (n : Nat) (stage : Option Stage) (incident : Incident) (e : Engine) :
    System :=
  { s with
    engine := e
    calls := Function.update s.calls n stage
    history := s.history ++ [⟨some n, incident, e⟩] }

/-- The system after a moment without a call. -/
def aside (s : System) (incident : Incident) (e : Engine) : System :=
  { s with engine := e, history := s.history ++ [⟨none, incident, e⟩] }

inductive Step : System → System → Prop where
  | start (s : System) (o : Opening) :
      Step s { s.turn s.begun (Stage.next? (o.start s.engine.env))
        (.began o (o.start s.engine.env)) s.engine with begun := s.begun + 1 }
  | serve {s : System} {n : Nat} {c : Call} {answer : c.request.Answer} {e : Engine}
      (hasks : s.calls n = some (.asking c)) (hanswer : s.engine.Answers c.request answer e) :
      Step s (s.turn n (some (.answered c answer)) (.served c answer) e)
  | resume {s : System} {n : Nat} {c : Call} {answer : c.request.Answer}
      (hanswered : s.calls n = some (.answered c answer)) :
      Step s (s.turn n (Stage.next? (c.resume s.engine.env answer))
        (.resumed (c.resume s.engine.env answer)) s.engine)
  | crash (s : System) (n : Nat) : Step s (s.turn n none .crashed s.engine)
  | register {s : System} {g : Graph} {p : Plan} {r : Registry}
      (hregister : s.engine.registry.register g = .ok (p, r)) :
      Step s (s.aside (.registered p) { s.engine with registry := r })
  | unregister (s : System) (graphId : String) :
      Step s (s.aside (.unregistered graphId)
        { s.engine with registry := s.engine.registry.unregister graphId })
  | tick (s : System) (now : Instant) : Step s (s.aside .ticked { s.engine with now })

/-- The systems that a run leads to, under one configuration. -/
inductive Reachable (config : EngineConfig) : System → Prop where
  | fresh {e : Engine} (h : e.IsFresh config) : Reachable config (System.fresh e)
  | step {s s' : System} (hs : Reachable config s) (h : Step s s') : Reachable config s'

theorem Step.history {s s' : System} (h : Step s s') :
    ∃ m, s'.history = s.history ++ [m] ∧ m.engine = s'.engine := by
  cases h <;> exact ⟨_, rfl, rfl⟩

/-- A moment of a run that leads on to a system, between two systems of the run. -/
structure Along (config : EngineConfig) (s s₀ s₁ : System) (m : Moment) : Prop where
  reachable : Reachable config s₀
  step : Step s₀ s₁
  history : s₁.history = s₀.history ++ [m]
  engine : s₁.engine = m.engine
  leads : Relation.ReflTransGen Step s₁ s

theorem history_of_leads {s s' : System} (h : Relation.ReflTransGen Step s s') :
    ∃ later, s'.history = s.history ++ later := by
  induction h with
  | refl => exact ⟨[], by simp⟩
  | tail _ hstep ih =>
    obtain ⟨later, hlater⟩ := ih
    obtain ⟨m, hm, -⟩ := hstep.history
    exact ⟨later ++ [m], by simp [hm, hlater]⟩

/-- Every moment of a run is a step between two reachable systems. -/
theorem Reachable.along {config : EngineConfig} {s : System} (hs : Reachable config s)
    {before after : List Moment} {m : Moment} (h : s.history = before ++ m :: after) :
    ∃ s₀ s₁, Along config s s₀ s₁ m ∧ s₀.history = before := by
  induction hs generalizing after with
  | fresh => simp [System.fresh] at h
  | @step s s' hs hstep ih =>
    obtain ⟨last, hlast, hengine⟩ := hstep.history
    rcases last_or_before (hlast.symm.trans h) with ⟨hbefore, rfl, -⟩ | ⟨rest, hrest, -⟩
    · exact ⟨s, s', ⟨hs, hstep, hlast, hengine.symm, .refl⟩, hbefore⟩
    · obtain ⟨s₀, s₁, halong, hbefore⟩ := ih hrest
      exact ⟨s₀, s₁, ⟨halong.reachable, halong.step, halong.history, halong.engine,
        halong.leads.tail hstep⟩, hbefore⟩

theorem Reachable.step_of_history {config : EngineConfig} {s : System} (hs : Reachable config s)
    {before after : List Moment} {m : Moment} (h : s.history = before ++ m :: after) :
    ∃ s₀ s₁, Reachable config s₀ ∧ Step s₀ s₁ ∧ s₀.history = before ∧
      s₁.history = before ++ [m] := by
  obtain ⟨s₀, s₁, hm, rfl⟩ := hs.along h
  exact ⟨s₀, s₁, hm.reachable, hm.step, rfl, hm.history⟩

theorem lt_of_update {f : Nat → Option Stage} {begun n k : Nat} {stage : Option Stage}
    {stage' : Stage} (hf : ∀ n stage, f n = some stage → n < begun)
    (hk : stage.isSome → k < begun) (hn : Function.update f k stage n = some stage') :
    n < begun := by
  by_cases hnk : n = k
  · subst hnk
    rw [Function.update_self] at hn
    exact hk (by simp [hn])
  · rw [Function.update_of_ne hnk] at hn
    exact hf n _ hn

theorem Reachable.lt_begun {config : EngineConfig} {s : System} (hs : Reachable config s) :
    ∀ n stage, s.calls n = some stage → n < s.begun := by
  induction hs with
  | fresh => simp [System.fresh]
  | step _ hstep ih =>
    intro n stage hn
    cases hstep with
    | start =>
      exact lt_of_update (fun n stage hn => Nat.lt_succ_of_lt (ih n stage hn))
        (fun _ => Nat.lt_succ_self _) hn
    | serve hasks => exact lt_of_update ih (fun _ => ih _ _ hasks) hn
    | resume hanswered => exact lt_of_update ih (fun _ => ih _ _ hanswered) hn
    | crash => exact lt_of_update ih (by simp) hn
    | register | unregister | tick => exact ih n stage hn

/-- A call of which anything is known has begun. -/
theorem Reachable.calls_begun {config : EngineConfig} {s : System} (hs : Reachable config s) :
    s.calls s.begun = none :=
  Option.eq_none_iff_forall_ne_some.mpr fun stage hstage =>
    Nat.lt_irrefl _ (hs.lt_begun _ stage hstage)

theorem Reachable.lt_begun_of_mem {config : EngineConfig} {s : System} (hs : Reachable config s)
    {m : Moment} (hm : m ∈ s.history) {n : Nat} (hcall : m.call = some n)
    (hcrashed : m.incident ≠ .crashed) : n < s.begun := by
  induction hs with
  | fresh => cases hm
  | @step s s' hs hstep ih =>
    cases hstep with
    | start o =>
      rcases List.mem_append.mp hm with hm | hm
      · exact Nat.lt_succ_of_lt (ih hm)
      · obtain rfl := List.mem_singleton.mp hm
        obtain rfl := Option.some.inj hcall
        exact Nat.lt_succ_self _
    | serve hasks =>
      rcases List.mem_append.mp hm with hm | hm
      · exact ih hm
      · obtain rfl := List.mem_singleton.mp hm
        obtain rfl := Option.some.inj hcall
        exact hs.lt_begun _ _ hasks
    | resume hanswered =>
      rcases List.mem_append.mp hm with hm | hm
      · exact ih hm
      · obtain rfl := List.mem_singleton.mp hm
        obtain rfl := Option.some.inj hcall
        exact hs.lt_begun _ _ hanswered
    | crash =>
      rcases List.mem_append.mp hm with hm | hm
      · exact ih hm
      · obtain rfl := List.mem_singleton.mp hm
        exact absurd rfl hcrashed
    | register | unregister | tick =>
      rcases List.mem_append.mp hm with hm | hm
      · exact ih hm
      · obtain rfl := List.mem_singleton.mp hm
        cases hcall

/-- Before a call begins, nothing happens to it except that it is dropped. -/
theorem Reachable.crashed_of_unbegun {config : EngineConfig} {s : System} (hs : Reachable config s)
    {m : Moment} (hm : m ∈ s.history) (hcall : m.call = some s.begun) : m.incident = .crashed := by
  by_contra hcrashed
  exact Nat.lt_irrefl _ (hs.lt_begun_of_mem hm hcall hcrashed)

end System
end WorkflowEngine

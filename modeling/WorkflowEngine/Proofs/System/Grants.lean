import Mathlib.Algebra.BigOperators.Group.Finset.Piecewise
import Mathlib.Algebra.Order.BigOperators.Group.Finset
import WorkflowEngine.Proofs.System.Premises
import WorkflowEngine.Proofs.System.Stages

/-!
# Grants of invocations

A run invokes an action only right after it has stored an intent, or has taken up one that was left
behind. So there are no more invocations than such steps, even if all the runs that may still invoke
the action are counted in.
-/
namespace WorkflowEngine

/-- Each call that goes on adds its weight. -/
theorem sum_update_add {α : Type} (f : Nat → α) (weight : α → Nat) {begun n : Nat} (hn : n < begun)
    (a : α) :
    (∑ k ∈ Finset.range begun, weight (Function.update f n a k)) + weight (f n) =
      (∑ k ∈ Finset.range begun, weight (f k)) + weight a := by
  have hmem : n ∈ Finset.range begun := Finset.mem_range.mpr hn
  have hnew := Finset.add_sum_erase _ (fun k => weight (Function.update f n a k)) hmem
  have hold := Finset.add_sum_erase _ (fun k => weight (f k)) hmem
  have hothers : ∑ k ∈ (Finset.range begun).erase n, weight (Function.update f n a k) =
      ∑ k ∈ (Finset.range begun).erase n, weight (f k) :=
    Finset.sum_congr rfl fun k hk => by rw [Function.update_of_ne (Finset.ne_of_mem_erase hk)]
  simp only [Function.update_self] at hnew
  omega

/-- Whether an instance is at an action that is about to be invoked. -/
def Instance.intends (id : InstanceId) (node : String) (i : Instance) : Bool :=
  i.id == id && i.cursor == node && i.dispatching == some node

theorem Instance.intends_iff {id : InstanceId} {node : String} {i : Instance} :
    i.intends id node = true ↔ i.id = id ∧ i.cursor = node ∧ i.dispatching = some node := by
  simp only [intends, Bool.and_eq_true, beq_iff_eq, and_assoc]

/-- The instance as the run has just stored it, for which it may go on to invoke an action. -/
def RunStage.ready? : RunStage → Option Instance
  | answered (.saving _ _) (.ok stored) => some stored
  | asking (.recording stored _) | answered (.recording stored _) _ => some stored
  | asking (.invoking v) => some v.base
  | _ => none

/-- Whether a call may go on to invoke an action of an instance. -/
def Stage.isReady (id : InstanceId) (node : String) (stage : Stage) : Bool :=
  stage.run?.any fun r => r.ready?.any (Instance.intends id node)

/-- Whether an intent was stored, or taken up again, for an action of an instance. -/
def Moment.grants (id : InstanceId) (node : String) (m : Moment) : Bool :=
  m.stores id node .actionDispatched || m.stores id node .recovered

/-- An instance that intends to invoke an action after a step has just been granted that. -/
theorem Stepped.grants {config : EngineConfig} {p : Plan} {made : Invocation → Prop} {i : Instance}
    {step : Step} (hi : i.Consistent p) (hstep : Stepped config p made i step)
    (hintent : step.next.dispatching = some step.next.cursor) :
    step.entry.node = some step.next.cursor ∧
      (step.entry.outcome = .actionDispatched ∨ step.entry.outcome = .recovered) := by
  cases hstep with
  | @passed n exit _ _ _ hnode hkind =>
    have hnone := hi.dispatching_eq_none hnode hkind
    simp [hnone] at hintent
  | intended => exact ⟨rfl, .inl rfl⟩
  | slept hnode hdelay =>
    have hnone := hi.dispatching_eq_none hnode (by rw [hdelay]; rfl)
    simp [hnone] at hintent
  | succeeded => simp [Invocation.counted] at hintent
  | gaveUp => simp [Invocation.giveUp, Invocation.counted] at hintent
  | retried => simp [Invocation.retry, Invocation.counted] at hintent
  | recovered => exact ⟨rfl, .inr rfl⟩
  | abandoned => simp at hintent

namespace Run

variable {env : Env} {id : InstanceId} {node : String} {i : Instance} {r r' : Run}

theorem ready?_of_fail {e : Error} (hfail : fail env i e = .waiting r) :
    (RunStage.asking r).ready? = none := by
  unfold fail at hfail
  split at hfail
  · cases hfail
  · obtain rfl := Progress.waiting.inj hfail
    rfl

theorem ready?_of_proceed {j : Instance} (hproceed : proceed env i = .waiting r)
    (hready : (RunStage.asking r).ready? = some j) : j = i ∧ i.dispatching = some i.cursor := by
  unfold proceed at hproceed
  split at hproceed
  · split at hproceed
    · obtain rfl := Progress.waiting.inj hproceed
      cases hready
    · rename_i v hvisit
      obtain rfl := Progress.waiting.inj hproceed
      obtain ⟨p, -, hv⟩ := isFor_of_visit hvisit
      exact ⟨(Option.some.inj hready).symm.trans hv.base, hv.intent⟩
    · rw [ready?_of_fail hproceed] at hready
      cases hready
  · cases hproceed

theorem ready?_of_begin (hbegin : begin env i = .waiting r) :
    (RunStage.asking r).ready? = none := by
  unfold begin at hbegin
  split at hbegin
  · obtain rfl := Progress.waiting.inj hbegin
    rfl
  · rename_i hrecover
    cases hready : (RunStage.asking r).ready? with
    | none => rfl
    | some j =>
      obtain ⟨-, hintent⟩ := ready?_of_proceed hbegin hready
      rw [recover, hintent] at hrecover
      obtain ⟨n, -, hsome⟩ := of_bind_eq_ok hrecover
      cases hsome
  · exact ready?_of_fail hbegin

/-- A run does not become ready by going on. -/
theorem ready?_of_resume {j : Instance} {answer : r.request.Answer}
    (hresume : r.resume env answer = .waiting r') (hready : (RunStage.asking r').ready? = some j) :
    (RunStage.answered r answer).ready? = some j := by
  cases goesOn_of_resume hresume with
  | begun _ _ hbegin =>
    rw [ready?_of_begin hbegin] at hready
    cases hready
  | stored => exact hready
  | recorded hproceed =>
    obtain ⟨rfl, -⟩ := ready?_of_proceed hproceed hready
    rfl
  | refused | concluded | reloaded | failed => cases hready

end Run

namespace Stage

variable {env : Env} {id : InstanceId} {node : String} {c c' : Call}

theorem isReady_of_start {o : Opening} (hstart : o.start env = .waiting c) :
    (asking c).isReady id node = false := by
  unfold isReady
  cases hr : (asking c).run? with
  | none => rfl
  | some r =>
    obtain ⟨id, worker, rfl⟩ := (of_start hstart).1 r hr
    rfl

theorem isReady_of_resume {answer : c.request.Answer} (hresume : c.resume env answer = .waiting c')
    (hready : (asking c').isReady id node = true) : (answered c answer).isReady id node = true := by
  obtain ⟨r, hr, hready⟩ := (Option.any_eq_true _ _).mp hready
  obtain ⟨j, hj, hintends⟩ := (Option.any_eq_true _ _).mp hready
  rcases run?_of_resume hresume hr with ⟨r₀, answer₀, r₁, hanswered, hnext, rfl⟩ | ⟨_, _, rfl⟩
  · rw [isReady, hanswered, Option.any_some, Run.ready?_of_resume hnext hj]
    exact hintends
  · cases hj

end Stage

section
variable {config : EngineConfig} {time : Instant → Instant} {h : List Moment} {m : Moment}
  {id : InstanceId} {node : String} {e e' : Engine}

/-- An instance that intends to invoke an action after it was stored has just been granted that. -/
theorem Run.grants_of_saved {base stored : Instance} {step : Step}
    (hlives : e.store.Lives config time h) (hcounts : Counts h)
    (hconsistent : ∀ p i, BoundTo h p i → e.store.find? i.id = some i → i.Consistent p)
    (hr : (Run.saving base step).IsSound config time h)
    (hanswer : e.Answers (Run.saving base step).request (.ok stored) e')
    (hm : m.stored? = some step) (hintends : stored.intends id node = true) :
    m.grants id node = true := by
  obtain ⟨hseen, hheld, p, hbound, hstep⟩ := hr
  obtain ⟨hfound, rfl, -⟩ := hlives.of_save hcounts hseen (.stepped hbound hheld hstep)
    (Engine.perform_of_answers hanswer)
  obtain ⟨hid, hcursor, hintent⟩ := Instance.intends_iff.mp hintends
  have hcursor : step.next.cursor = node := hcursor
  have hintent : step.next.dispatching = some node := hintent
  have hi := (hconsistent p _ (boundTo_kept.mpr hbound) hfound).of_kept
  obtain ⟨hnode, houtcome⟩ := hstep.grants hi (hintent.trans (congrArg some hcursor.symm))
  rw [hcursor] at hnode
  rw [Moment.grants, Bool.or_eq_true, Moment.stores_iff hm hid, Moment.stores_iff hm hid]
  exact houtcome.imp (⟨hnode, ·⟩) (⟨hnode, ·⟩)

/-- What a run gains when it is served, it was granted. -/
theorem Run.ready_of_served {r : Run} {answer : r.request.Answer}
    (hlives : e.store.Lives config time h) (hcounts : Counts h)
    (hconsistent : ∀ p i, BoundTo h p i → e.store.find? i.id = some i → i.Consistent p)
    (hr : r.IsSound config time h) (hanswer : e.Answers r.request answer e')
    (hm : m.run? = some (.answered r answer)) :
    (m.invokes id node).toNat +
        ((RunStage.answered r answer).ready?.any (Instance.intends id node)).toNat ≤
      ((RunStage.asking r).ready?.any (Instance.intends id node)).toNat +
        (m.grants id node).toNat := by
  have hstored : m.stored? = (RunStage.answered r answer).stored? := by rw [Moment.stored?, hm]; rfl
  have hinvocation : m.invocation? = (RunStage.answered r answer).invocation? := by
    rw [Moment.invocation?, hm]; rfl
  cases r with
  | saving base step =>
    have hnot : m.invokes id node = false := by rw [Moment.invokes, hinvocation]; rfl
    cases answer with
    | error e => simp [hnot, RunStage.ready?]
    | ok stored =>
      by_cases hintends : stored.intends id node = true
      · simp [hnot, RunStage.ready?, hintends,
          Run.grants_of_saved hlives hcounts hconsistent hr hanswer hstored hintends]
      · simp [hnot, RunStage.ready?, hintends]
  | invoking v =>
    obtain ⟨-, -, p, -, hv⟩ := hr
    have hinvokes : m.invokes id node = v.base.intends id node := by
      rw [Moment.invokes, hinvocation, Instance.intends, hv.intent]
      simp [RunStage.invocation?, hv.node]
    simp [hinvokes, RunStage.ready?]
  | recording stored entry =>
    have hnot : m.invokes id node = false := by rw [Moment.invokes, hinvocation]; rfl
    simp [hnot, RunStage.ready?]
  | loading | reloading | recordingDropped | failing | recordingFailure =>
    have hnot : m.invokes id node = false := by rw [Moment.invokes, hinvocation]; rfl
    simp [hnot, RunStage.ready?]

theorem Call.ready_of_served (id : InstanceId) (node : String) {c : Call}
    {answer : c.request.Answer}
    (hlives : e.store.Lives config time h) (hcounts : Counts h)
    (hconsistent : ∀ p i, BoundTo h p i → e.store.find? i.id = some i → i.Consistent p)
    (hc : c.IsSound config time h) (hanswer : e.Answers c.request answer e')
    (hm : m.incident = .served c answer) :
    (m.invokes id node).toNat + ((Stage.answered c answer).isReady id node).toNat ≤
      ((Stage.asking c).isReady id node).toNat + (m.grants id node).toNat := by
  have hrun : m.run? = (Stage.answered c answer).run? := by rw [Moment.run?, hm]
  have hidle (hasking : (Stage.asking c).isReady id node = false)
      (hnone : (Stage.answered c answer).run? = none) :
      (m.invokes id node).toNat + ((Stage.answered c answer).isReady id node).toNat ≤
        ((Stage.asking c).isReady id node).toNat + (m.grants id node).toNat := by
    have hinvokes : m.invokes id node = false := by
      rw [Moment.invokes, Moment.invocation?, hrun, hnone]
      rfl
    have hready : (Stage.answered c answer).isReady id node = false := by
      rw [Stage.isReady, hnone]
      rfl
    simp [hinvokes, hready]
  cases c with
  | run r => exact Run.ready_of_served hlives hcounts hconsistent hc hanswer hrun
  | pass c =>
    cases c with
    | polling => exact hidle rfl rfl
    | running => exact Run.ready_of_served hlives hcounts hconsistent hc hanswer hrun
  | emit | dispatch | poll | sweep | cancel => exact hidle rfl rfl

end

namespace System

variable {config : EngineConfig} {time : Instant → Instant} {s s' : System} {id : InstanceId}
  {node : String}

/-- The number of calls that may go on to invoke an action of an instance. -/
def ready (id : InstanceId) (node : String) (s : System) : Nat :=
  ∑ k ∈ Finset.range s.begun, ((s.calls k).any (Stage.isReady id node)).toNat

theorem ready_turn (id : InstanceId) (node : String) {n : Nat} (hn : n < s.begun)
    (stage : Option Stage) (incident : Incident) (e : Engine) :
    (s.turn n stage incident e).ready id node +
        ((s.calls n).any (Stage.isReady id node)).toNat =
      s.ready id node + (stage.any (Stage.isReady id node)).toNat :=
  sum_update_add s.calls (fun stage => (stage.any (Stage.isReady id node)).toNat) hn stage

theorem any_isReady_of_start {env : Env} {o : Opening} :
    (Stage.next? (o.start env)).any (Stage.isReady id node) = false := by
  cases hnext : Stage.next? (o.start env) with
  | none => rfl
  | some stage =>
    obtain ⟨c, hc, rfl⟩ := Stage.of_next?_eq_some hnext
    exact Stage.isReady_of_start hc

theorem any_isReady_of_resume {env : Env} {c : Call} {answer : c.request.Answer}
    (hready : (Stage.next? (c.resume env answer)).any (Stage.isReady id node) = true) :
    (Stage.answered c answer).isReady id node = true := by
  obtain ⟨stage, hnext, hready⟩ := (Option.any_eq_true _ _).mp hready
  obtain ⟨c', hc', rfl⟩ := Stage.of_next?_eq_some hnext
  exact Stage.isReady_of_resume hc' hready

/-- What the calls gain in a step, they are granted. -/
theorem Step.ready_le (id : InstanceId) (node : String) (hs : Reachable config s)
    (hcounts : Counts s.history) (hnamed : WellNamed s.history) (hstep : Step s s') :
    ∃ m, s'.history = s.history ++ [m] ∧
      (m.invokes id node).toNat + s'.ready id node ≤
        s.ready id node + (m.grants id node).toNat := by
  cases hstep with
  | start o =>
    refine ⟨_, rfl, ?_⟩
    have hsame : ({ s.turn s.begun (Stage.next? (o.start s.engine.env))
        (.began o (o.start s.engine.env)) s.engine with begun := s.begun + 1 } : System).ready
          id node = s.ready id node := by
      rw [ready, Finset.sum_range_succ, ready]
      simp only [turn, Function.update_self, any_isReady_of_start, Bool.toNat_false, Nat.add_zero]
      exact Finset.sum_congr rfl fun k hk => by
        rw [Function.update_of_ne (Finset.mem_range.mp hk).ne]
    rw [hsame]
    simp [Moment.invokes, Moment.invocation?, Moment.run?]
  | @serve n c answer e hasks hanswer =>
    refine ⟨_, rfl, ?_⟩
    have hsound := hs.isSound hcounts
    have hturn := ready_turn id node (hs.lt_begun n _ hasks)
      (some (.answered c answer)) (.served c answer) e
    have hserved := Call.ready_of_served id node (m := ⟨some n, .served c answer, e⟩)
      hsound.lives hcounts (fun p i hp hi => hs.consistent hcounts hnamed hi hp)
      (hsound.calls n _ hasks) hanswer rfl
    rw [hasks] at hturn
    simp only [Option.any_some] at hturn
    omega
  | @resume n c answer hanswered =>
    refine ⟨_, rfl, ?_⟩
    have hturn := ready_turn id node (hs.lt_begun n _ hanswered)
      (Stage.next? (c.resume s.engine.env answer)) (.resumed (c.resume s.engine.env answer))
      s.engine
    rw [hanswered] at hturn
    have hle : ((Stage.next? (c.resume s.engine.env answer)).any (Stage.isReady id node)).toNat ≤
        ((Stage.answered c answer).isReady id node).toNat :=
      Bool.toNat_le_toNat any_isReady_of_resume
    simp only [Option.any_some] at hturn
    simp [Moment.invokes, Moment.invocation?, Moment.run?]
    omega
  | crash n =>
    refine ⟨_, rfl, ?_⟩
    have hle : (s.turn n none .crashed s.engine).ready id node ≤ s.ready id node := by
      by_cases hn : n < s.begun
      · have hturn := ready_turn id node hn none .crashed s.engine
        simp only [Option.any_none, Bool.toNat_false, Nat.add_zero] at hturn
        omega
      · refine Finset.sum_le_sum fun k hk => ?_
        have hne : k ≠ n := fun heq => hn (heq ▸ Finset.mem_range.mp hk)
        have hsame : (s.turn n none .crashed s.engine).calls k = s.calls k :=
          Function.update_of_ne hne _ _
        rw [hsame]
    simpa [Moment.invokes, Moment.invocation?, Moment.run?] using Nat.le_add_right_of_le hle
  | register | unregister | tick =>
    exact ⟨_, rfl, by simp [Moment.invokes, Moment.invocation?, Moment.run?, ready, aside]⟩

/-- There are no more invocations than grants, even if each call that may still invoke the action
does so. -/
theorem Reachable.invokes_le (id : InstanceId) (node : String) (hs : Reachable config s)
    (hcounts : Counts s.history) (hnamed : WellNamed s.history) :
    s.history.countP (Moment.invokes id node) + s.ready id node ≤
      s.history.countP (Moment.grants id node) := by
  induction hs with
  | fresh => simp [System.fresh, ready]
  | @step s s' hs hstep ih =>
    obtain ⟨m, hhistory, -⟩ := hstep.history
    have hnamed : WellNamed s.history := (hhistory ▸ hnamed).of_append
    have hcounts := hcounts.of_history hstep
    have ih := ih hcounts hnamed
    obtain ⟨m', hm', hle⟩ := hstep.ready_le id node hs hcounts hnamed
    simp only [hm', List.countP_append, List.countP_singleton]
    cases hinvokes : m'.invokes id node <;> cases hgrants : m'.grants id node <;>
      simp [hinvokes, hgrants] at hle ⊢ <;> omega

end System
end WorkflowEngine

import WorkflowEngine.Proofs.System.LastWrites
import WorkflowEngine.Proofs.System.Tries

/-!
# The tries of an action follow on each other

While one worker tends an instance, each try of an action has been concluded before the next one is
made, and the instance tells from its attempts how many there were. A failure is followed by another
try until one is permanent or there are no attempts left.
-/
namespace WorkflowEngine

/-- How an instance has gone on from the last try of an action. -/
inductive Settles (p : Plan) (node : String) (reply : Reply) (i : Instance) : Prop
  | failed {reason : String} {isPermanent : Bool}
      (hreply : reply.settle = .ok (.failure reason isPermanent)) (hstatus : i.status = .failed)
      (herror : i.error = some reason)
  | succeeded {result : Record} (hreply : reply.settle = .ok (.success result))
      (hadvanced : p.Passed node i ∨ i.status = .succeeded)

/-- How an instance stands with its tries of an action, if each of them has been concluded. -/
inductive Concluded (config : EngineConfig) (p : Plan) (time : Instant → Instant) (node : String)
    (h : List Moment) (i : Instance) : List (Invocation × Reply) → Prop
  | untried (hattempts : i.attemptsFor node = 0)
      (hvisited : Visited h i.id node → i.cursor = node ∧ i.isTerminal = false) :
      Concluded config p time node h i []
  | retrying {ts : List (Invocation × Reply)} {v : Invocation} {reply : Reply}
      (hfailures : Failures config h i.id (ts ++ [(v, reply)]))
      (hattempts : i.attemptsFor node = ts.length + 1) (hcursor : i.cursor = node)
      (hlive : i.isTerminal = false) (hwaits : i.owner = none → i.Awaits config v) :
      Concluded config p time node h i (ts ++ [(v, reply)])
  | settled {ts : List (Invocation × Reply)} {v : Invocation} {reply : Reply}
      (hfailures : Failures config h i.id ts) (hnumber : v.attempt = ts.length + 1)
      (hlast : reply.isTransient = false ∨ config.maxAttempts ≤ ts.length + 1)
      (hattempts : i.attemptsFor node = ts.length + 1) (hsettles : Settles p node reply i) :
      Concluded config p time node h i (ts ++ [(v, reply)])

/-- A run is at the last try of an action. -/
inductive Underway (config : EngineConfig) (p : Plan) (time : Instant → Instant) (node : String)
    (h : List Moment) (i : Instance) : List (Invocation × Reply) → Prop
  | intro {ts : List (Invocation × Reply)} {v : Invocation} {reply : Reply} {n : Nat}
      {r : RunStage} (hfailures : Failures config h i.id ts)
      (hnumber : v.attempt = ts.length + 1) (hnode : v.node = node) (hi : i = v.base.kept time)
      (hheld : v.base.IsHeld) (hfor : v.IsFor p v.base)
      (hr : (stageOf n h).bind Stage.run? = some r) (hconcludes : r.Concludes config v reply) :
      Underway config p time node h i (ts ++ [(v, reply)])

section
variable {config : EngineConfig} {p : Plan} {made : Invocation → Prop} {i : Instance} {step : Step}
  {node : String}

/-- A step that takes up no intent leaves the cursor, or leads on. -/
theorem Stepped.cursor_eq_or_leads (hstep : Stepped config p made i step)
    (hfresh : step.entry.outcome.isRecovery = false) :
    step.next.cursor = i.cursor ∨ p.Leads i.cursor step.next.cursor := by
  cases hstep with
  | @passed n exit _ _ _ hnode _ _ hexit =>
    cases exit with
    | none => exact .inl rfl
    | some target => exact .inr ⟨n, hnode, PlanStep.mem_successors hexit⟩
  | @slept n seconds target _ _ _ hnode hdelay =>
    have hmem : target ∈ n.successors := by
      simp [hdelay, PlanNode.successors, PlanStep.successors, PlanStep.exits]
    exact .inr ⟨n, hnode, hmem⟩
  | @succeeded v _ hv =>
    obtain rfl := hv.base
    cases hexit : v.exit with
    | none => exact .inl rfl
    | some target => exact .inr (hv.leads hexit)
  | @gaveUp v _ _ hv | @retried v _ _ hv =>
    obtain rfl := hv.base
    exact .inl rfl
  | intended => exact .inl rfl
  | recovered | abandoned => cases hfresh

/-- An instance ends where it is. -/
theorem Stepped.cursor_eq_of_ended (hstep : Stepped config p made i step) (hheld : i.IsHeld)
    (hended : step.next.isTerminal = true) : step.next.cursor = i.cursor := by
  have hlive {next : Instance} (hstatus : next.status = i.status) : next.isTerminal ≠ true := by
    rw [Instance.isTerminal, hstatus]
    simpa [Instance.isTerminal] using hheld.isTerminal
  cases hstep with
  | @passed n exit =>
    cases exit with
    | none => rfl
    | some target => exact absurd hended (hlive rfl)
  | @succeeded v _ hv =>
    obtain rfl := hv.base
    revert hended
    simp only [Step.advance]
    cases hexit : v.exit with
    | none => exact fun _ => rfl
    | some target => exact fun hended => absurd hended (hlive rfl)
  | @gaveUp v _ _ hv | @retried v _ _ hv =>
    obtain rfl := hv.base
    rfl
  | slept => cases hended
  | intended | abandoned => rfl
  | recovered => exact absurd hended (hlive rfl)

/-- Elsewhere nothing is counted for an action. -/
theorem Stepped.attemptsFor_eq (hstep : Stepped config p made i step) (hne : i.cursor ≠ node) :
    step.next.attemptsFor node = i.attemptsFor node := by
  cases hstep with
  | @passed n exit => cases exit <;> rfl
  | @succeeded v _ hv =>
    obtain rfl := hv.base
    have hcounted := v.attemptsFor_counted_of_ne (hv.node ▸ hne.symm)
    cases hexit : v.exit <;> exact hcounted
  | @gaveUp v _ _ hv | @retried v _ _ hv =>
    obtain rfl := hv.base
    exact v.attemptsFor_counted_of_ne (hv.node ▸ hne.symm)
  | slept | intended | recovered | abandoned => rfl

/-- At an action an intent is stored, or the step follows from an invocation of it. -/
theorem Stepped.intended_or_made (hstep : Stepped config p made i step)
    (haction : ∃ kind, p.IsAction i.cursor kind)
    (hfresh : step.entry.outcome.isRecovery = false) :
    (∃ kind now, step = Step.intend i i.cursor kind now) ∨ ∃ v, v.IsFor p i ∧ made v := by
  obtain ⟨kind, n', hn', hkind'⟩ := haction
  cases hstep with
  | @passed n _ _ _ _ hnode hkind =>
    obtain rfl := Option.some.inj (hnode.symm.trans hn')
    rw [hkind] at hkind'
    cases hkind'
  | @slept n _ _ _ _ _ hnode hdelay =>
    obtain rfl := Option.some.inj (hnode.symm.trans hn')
    rw [hdelay] at hkind'
    cases hkind'
  | intended => exact .inl ⟨_, _, rfl⟩
  | succeeded hv hmade | gaveUp hv hmade => exact .inr ⟨_, hv, hmade⟩
  | retried hv hmade => exact .inr ⟨_, hv, hmade⟩
  | recovered | abandoned => cases hfresh

end

namespace Concluded

variable {config : EngineConfig} {p : Plan} {time : Instant → Instant} {node : String}
  {h : List Moment} {m : Moment} {i : Instance} {ts : List (Invocation × Reply)}
  {version : Version} {now : Instant}

/-- The step that follows from the last try counts it, and the instance waits or has settled. -/
theorem of_concludes {v : Invocation} {reply : Reply} {step : Step}
    (hfailures : Failures config h v.base.id ts) (hnumber : v.attempt = ts.length + 1)
    (hnode : v.node = node) (hfor : v.IsFor p v.base) (hconcludes : v.Concludes config reply step)
    (htime : ∀ t, (time t).micros = t.micros)
    (hthere : m.find? v.base.id = some ((step.next.stamped version now).kept time)) :
    Concluded config p time node (h ++ [m]) ((step.next.stamped version now).kept time)
      (ts ++ [(v, reply)]) := by
  subst hnode
  have hcounted : v.counted.attemptsFor v.node = ts.length + 1 :=
    v.attemptsFor_counted.trans hnumber
  obtain ⟨result, hresult, hconclude⟩ := of_bind_eq_ok hconcludes
  have hsettle := Shaped.of_toOutcome_eq_ok hresult
  cases result with
  | success result =>
    obtain rfl := Except.ok.inj hconclude
    have hlast := Reply.isTransient_of_success hsettle
    cases hexit : v.exit with
    | none =>
      exact .settled (hfailures.append m) hnumber (.inl hlast) hcounted
        (.succeeded hsettle (.inr rfl))
    | some target =>
      exact .settled (hfailures.append m) hnumber (.inl hlast) hcounted
        (.succeeded hsettle (.inl (.single (hfor.node ▸ hfor.leads hexit))))
  | failure reason isPermanent =>
    have htransient := Reply.isTransient_of_settle hsettle
    simp only [Invocation.conclude] at hconclude
    split at hconclude
    · rename_i hlast
      obtain rfl := Except.ok.inj hconclude
      refine .settled (hfailures.append m) hnumber ?_ hcounted (.failed hsettle rfl rfl)
      refine hlast.imp (fun hpermanent => ?_) fun hmost => ?_
      · rw [htransient, hpermanent]
        rfl
      · rw [hnumber] at hmost
        exact_mod_cast hmost
    · rename_i hmore
      split at hconclude
      · rename_i wakeAt hwake
        obtain rfl := Except.ok.inj hconclude
        have hfewer : ts.length + 1 < config.maxAttempts := by
          rw [hnumber] at hmore
          omega
        have hretry : reply.isTransient = true := by
          rw [htransient]
          simpa using fun hpermanent => hmore (.inl hpermanent)
        have hwaits := v.awaits_retry hfor.node.symm hwake htime reason version now
        exact .retrying (hfailures.snoc hnumber hretry hfewer hthere hwaits) hcounted hfor.node.symm
          rfl fun _ => hwaits
      · cases hconclude

/-- Any other step leaves the tries of the action as they are. -/
theorem of_stepped {base : Instance} {step : Step} {made : Invocation → Prop}
    (hp : p.IsRunnable) (haction : ∃ kind, p.IsAction node kind)
    (hdone : Concluded config p time node h (base.kept time) ts) (hheld : base.IsHeld)
    (hstep : Stepped config p made base step) (hfresh : step.entry.outcome.isRecovery = false)
    (hmade : ∀ v, made v → v.base.id = base.id → v.node = node → ∃ reply, (v, reply) ∈ ts)
    (hthere : m.find? base.id = some ((step.next.stamped version now).kept time)) :
    Concluded config p time node (h ++ [m]) ((step.next.stamped version now).kept time) ts := by
  have hlive := hheld.isTerminal
  have hid : step.next.id = base.id := hstep.next_eq.1
  cases hdone with
  | untried hattempts hbegun =>
    have hattempts : base.attemptsFor node = 0 := hattempts
    by_cases hcursor : base.cursor = node
    · rcases hstep.intended_or_made (hcursor ▸ haction) hfresh with
        ⟨kind, now, rfl⟩ | ⟨v, hv, hmakes⟩
      · exact .untried hattempts fun _ => ⟨hcursor, hlive⟩
      · obtain ⟨reply, hmem⟩ := hmade v hmakes (by rw [hv.base]) (hv.node.trans hcursor)
        cases hmem
    · refine .untried ((hstep.attemptsFor_eq hcursor).trans hattempts) fun hvisits => ?_
      rcases (hid ▸ hvisits : Visited _ base.id node).of_append hthere with hbefore | hnow
      · exact absurd (hbegun hbefore).1 hcursor
      · refine ⟨hnow, Bool.eq_false_iff.mpr fun hended => hcursor ?_⟩
        exact (hstep.cursor_eq_of_ended hheld hended).symm.trans hnow
  | @retrying ts v reply hfailures hattempts hcursor _ hwaits =>
    have hattempts : base.attemptsFor node = ts.length + 1 := hattempts
    have hcursor : base.cursor = node := hcursor
    rcases hstep.intended_or_made (hcursor ▸ haction) hfresh with
      ⟨kind, now, rfl⟩ | ⟨w, hw, hmakes⟩
    · refine .retrying (hfailures.append m) hattempts hcursor hlive fun hfree => ?_
      have hfree : base.owner = none := hfree
      simpa [hfree] using hheld.2
    · -- The invocation would have been made before, with the number of the next one.
      obtain ⟨reply', hmem⟩ := hmade w hmakes (by rw [hw.base]) (hw.node.trans hcursor)
      obtain ⟨j, hj⟩ := List.mem_iff_getElem?.mp hmem
      have hnumber := hfailures.numbered j _ hj
      have hlength := (List.getElem?_eq_some_iff.mp hj).1
      rw [List.length_append, List.length_singleton] at hlength
      have hnext : w.attempt = ts.length + 1 + 1 := by
        rw [Invocation.attempt, hw.base, hw.node.trans hcursor, hattempts]
      simp only at hnumber
      omega
  | @settled ts v reply hfailures hnumber hlast hattempts hsettles =>
    have hattempts : base.attemptsFor node = ts.length + 1 := hattempts
    have hrunning : base.status = .running := hheld.1
    cases hsettles with
    | failed _ hstatus =>
      have hstatus : base.status = .failed := hstatus
      rw [hrunning] at hstatus
      cases hstatus
    | succeeded hreply hadvanced =>
      rcases hadvanced with hpassed | hstatus
      · have hpassed : p.Passed node base := hpassed
        have hne : base.cursor ≠ node := by
          rintro rfl
          exact hp.not_transGen_self _ hpassed
        have hfailures : Failures config (h ++ [m]) step.next.id ts :=
          hid ▸ hfailures.append m
        refine .settled hfailures hnumber hlast ((hstep.attemptsFor_eq hne).trans hattempts)
          (.succeeded hreply (.inl ?_))
        change Relation.TransGen p.Leads node step.next.cursor
        rcases hstep.cursor_eq_or_leads hfresh with hsame | hleads
        · rw [hsame]
          exact hpassed
        · exact hpassed.tail hleads
      · have hstatus : base.status = .succeeded := hstatus
        rw [hrunning] at hstatus
        cases hstatus

/-- Nothing changes when the instance is claimed. -/
theorem of_claimed {worker : String} (hdone : Concluded config p time node h i ts)
    (hlive : i.isTerminal = false) (hthere : m.find? i.id =
      some (((i.claimed .running (some worker)).stamped version now).kept time)) :
    Concluded config p time node (h ++ [m])
      (((i.claimed .running (some worker)).stamped version now).kept time) ts := by
  cases hdone with
  | untried hattempts hbegun =>
    refine .untried hattempts fun hvisits => ⟨?_, rfl⟩
    rcases Visited.of_append hvisits hthere with hbefore | hnow
    · exact (hbegun hbefore).1
    · exact hnow
  | retrying hfailures hattempts hcursor =>
    exact .retrying (hfailures.append m) hattempts hcursor rfl fun hfree => by cases hfree
  | settled hfailures hnumber hlast hattempts hsettles =>
    refine .settled (hfailures.append m) hnumber hlast hattempts ?_
    cases hsettles with
    | failed _ hstatus =>
      rw [Instance.isTerminal, hstatus] at hlive
      cases hlive
    | succeeded hreply hadvanced =>
      refine .succeeded hreply (.inl (hadvanced.resolve_right fun hstatus => ?_))
      rw [Instance.isTerminal, hstatus] at hlive
      cases hlive

theorem stays (hdone : Concluded config p time node h i ts) (hstored : lastStored i.id h = some i)
    (hthere : m.find? i.id = some i) : Concluded config p time node (h ++ [m]) i ts := by
  cases hdone with
  | untried hattempts hbegun =>
    refine .untried hattempts fun hvisits => ?_
    rcases hvisits.of_append hthere with hbefore | hnow
    · exact hbegun hbefore
    · exact hbegun (hnow ▸ visited_of_lastStored hstored)
  | retrying hfailures hattempts hcursor hlive hwaits =>
    exact .retrying (hfailures.append m) hattempts hcursor hlive hwaits
  | settled hfailures hnumber hlast hattempts hsettles =>
    exact .settled (hfailures.append m) hnumber hlast hattempts hsettles

/-- An action that an instance is about to invoke has been tried as often as the instance says. -/
theorem failures_of_held {v : Invocation} (hp : p.IsRunnable)
    (hdone : Concluded config p time node h (v.base.kept time) ts) (hheld : v.base.IsHeld)
    (hfor : v.IsFor p v.base) (hnode : v.node = node) :
    Failures config h v.base.id ts ∧ v.attempt = ts.length + 1 := by
  have hattempt {k : Int} (hattempts : (v.base.kept time).attemptsFor node = k) :
      v.attempt = k + 1 := by
    rw [Invocation.attempt, hnode]
    exact congrArg (· + 1) hattempts
  cases hdone with
  | untried hattempts =>
    exact ⟨.nil, hattempt hattempts⟩
  | retrying hfailures hattempts =>
    refine ⟨hfailures, ?_⟩
    rw [hattempt hattempts, List.length_append, List.length_singleton]
    rfl
  | settled _ _ _ _ hsettles =>
    have hrunning : (v.base.kept time).status = .running := hheld.1
    cases hsettles with
    | failed _ hstatus =>
      rw [hrunning] at hstatus
      cases hstatus
    | succeeded _ hadvanced =>
      rcases hadvanced with hpassed | hstatus
      · have hcursor : (v.base.kept time).cursor = node := hfor.node.symm.trans hnode
        rw [Plan.Passed, hcursor] at hpassed
        exact (hp.not_transGen_self node hpassed).elim
      · rw [hrunning] at hstatus
        cases hstatus

end Concluded

theorem Moment.run?_of_tried? {m : Moment} {v : Invocation} {reply : Reply}
    (htry : m.tried? = some (v, reply)) : m.run? = some (.answered (.invoking v) reply) := by
  obtain ⟨stage, hrun, htry⟩ := Option.bind_eq_some_iff.mp htry
  cases stage with
  | asking => cases htry
  | answered r answer =>
    cases r with
    | invoking w =>
      cases htry
      exact hrun
    | _ => cases htry

/-- Each try of an action has been concluded, but for one at which a run may be. -/
def Tallied (config : EngineConfig) (p : Plan) (time : Instant → Instant) (node : String)
    (h : List Moment) (i : Instance) : Prop :=
  Concluded config p time node h i (tries i.id node h) ∨
    Underway config p time node h i (tries i.id node h)

/-- A run that is at a try holds the instance. -/
theorem Underway.owner_ne_none {config : EngineConfig} {p : Plan} {time : Instant → Instant}
    {node : String} {h : List Moment} {i : Instance} {ts : List (Invocation × Reply)}
    (hunderway : Underway config p time node h i ts) : i.owner ≠ none := by
  intro hfree
  cases hunderway with
  | @intro _ v _ _ _ _ _ _ hi hheld =>
    have hfree : v.base.owner = none := by rw [← hfree, hi]; rfl
    simpa [hfree] using hheld.2

/-- If only one run goes by an instance, it is the run that is at the last try. -/
theorem Underway.of_run {config : EngineConfig} {p : Plan} {time : Instant → Instant}
    {node : String} {h : List Moment} {worker : String} {base : Instance}
    {ts : List (Invocation × Reply)} {n : Nat} {r : RunStage}
    (hunderway : Underway config p time node h (base.kept time) ts)
    (hsole : System.Sole time h base.id worker) (hr : (stageOf n h).bind Stage.run? = some r)
    (hbase : r.base? = some base) (hheld : base.IsHeld) :
    ∃ (first : List (Invocation × Reply)) (v : Invocation) (reply : Reply),
      ts = first ++ [(v, reply)] ∧ v.base = base ∧ v.node = node ∧ v.IsFor p base ∧
      v.attempt = first.length + 1 ∧ Failures config h base.id first ∧
      r.Concludes config v reply := by
  cases hunderway with
  | @intro first v reply n' r' hfailures hnumber hnode hi hheld' hfor hr' hconcludes =>
    have hid : v.base.id = base.id := (congrArg (·.id) hi).symm
    obtain rfl := hsole.unique n' n v.base base ⟨r', hr', hconcludes.base?, hheld'⟩
      ⟨r, hr, hbase, hheld⟩ hid rfl
    obtain rfl := Option.some.inj (hr.symm.trans hr')
    obtain rfl := Option.some.inj (hbase.symm.trans hconcludes.base?)
    exact ⟨first, v, reply, rfl, rfl, hnode, hfor, hnumber, hfailures, hconcludes⟩

namespace System

variable {config : EngineConfig} {s s₀ s₁ : System} {m : Moment} {n : Nat} {id : InstanceId}
  {worker : String} {i : Instance} {p : Plan} {node : String}

theorem Reachable.tries_eq_nil (hs : Reachable config s) (hcounts : Counts s.history)
    (hnone : lastStored id s.history = none) (node : String) : tries id node s.history = [] := by
  have hunborn := (hs.isSound hcounts).lives.unborn id ((hs.find?_eq_lastStored id).trans hnone)
  refine List.filterMap_eq_nil_iff.mpr fun m hm => Option.filter_eq_none_iff.mpr fun t htry ht => ?_
  obtain ⟨before, after, hsplit⟩ := List.append_of_mem hm
  obtain ⟨s₀, s₁, halong, rfl⟩ := hs.along hsplit
  have hrun : m.run? = some (.answered (.invoking t.1) t.2) := Moment.run?_of_tried? htry
  obtain ⟨n, -, -, ⟨⟨x, hx, hfound⟩, -⟩, -⟩ := halong.exists_asking hcounts hrun
  simp only [Bool.and_eq_true, beq_iff_eq] at ht
  rw [ht.1, (hunborn x (by simp [hsplit, hx])).1] at hfound
  cases hfound

/-- A run that stores a step of what is tended, as it is stored, does so. -/
theorem Along.written_of_saving (hm : Along config s s₀ s₁ m) (hcounts : Counts s.history)
    (hcolumn : s.engine.store.isTable = true → TableStore.fits s.history.length)
    {base : Instance} {step : WorkflowEngine.Step} {answer : Outcome Instance}
    (htended : Tended s₁.history base.id worker)
    (hstored : lastStored base.id s₀.history = some (base.kept s.engine.store.time))
    (hrun : m.run? = some (.answered (.saving base step) answer)) :
    ∃ w, m.written? = some w ∧ w.id = base.id := by
  obtain ⟨-, -, -, hsound, hanswer⟩ := hm.exists_asking hcounts hrun
  rw [hm.time_eq] at hsound
  obtain ⟨hseen, hheld, q, hbound, hstep⟩ := hsound
  obtain ⟨hok, herror, -⟩ := hm.saved hcounts hcolumn (.inl hstored) rfl rfl hseen
    (.stepped hbound hheld hstep) (Engine.perform_of_answers hanswer) (Moment.written?_of_run? hrun)
  cases answer with
  | ok w =>
    obtain ⟨-, version, now, rfl⟩ := hok w rfl
    exact ⟨_, Moment.written?_of_run? hrun, hstep.next_eq.1⟩
  | error e =>
    obtain ⟨i, hi, hcancelled, -⟩ := herror e rfl
    rw [hm.history, lastStored_append] at hi
    exact absurd hcancelled (htended.uncancelled m (by simp [hm.history]) i hi)

/-- A run at a try goes on with it until it has tried to store what follows from it. -/
theorem Along.concludes_or_saves (hm : Along config s s₀ s₁ m) (hcounts : Counts s.history)
    {v : Invocation} {reply : Reply} (hkept : m.call = some n → m.incident ≠ .crashed)
    (hcalm : ¬ v.Stumps config reply) {r : RunStage}
    (hr : (stageOf n s₀.history).bind Stage.run? = some r)
    (hconcludes : r.Concludes config v reply) :
    (∃ r', (stageOf n s₁.history).bind Stage.run? = some r' ∧ r'.Concludes config v reply) ∨
      m.call = some n ∧ ∃ step answer, v.Concludes config reply step ∧
        m.run? = some (.answered (.saving v.base step) answer) := by
  by_cases hcall : m.call = some n
  · obtain ⟨stage, hn, hr⟩ := Option.bind_eq_some_iff.mp hr
    have hcalls : s₀.calls n = some stage := hm.reachable.calls_eq n ▸ hn
    rcases hm.served_or_resumed hcall hcalls (hkept hcall) with
      ⟨c, answer, rfl, hserved, -⟩ | ⟨c, answer, rfl, hresumed⟩
    · rcases Stage.run?_cases c answer with ⟨hnone, -⟩ | ⟨r₀, answer', hruns⟩
      · rw [hnone] at hr
        cases hr
      · obtain rfl := Option.some.inj (hruns.asking.symm.trans hr)
        cases r₀ with
        | saving base step =>
          obtain ⟨rfl, hstep⟩ := hconcludes
          refine .inr ⟨hcall, step, answer', hstep, ?_⟩
          rw [Moment.run?, hserved]
          exact hruns.answered
        | _ => exact hconcludes.elim
    · obtain ⟨r₀, answer', rfl, hruns⟩ := Stage.runs_of_answered hr
      cases r₀ with
      | invoking w =>
        obtain ⟨rfl, rfl⟩ := hconcludes
        have hconfig : s₀.engine.env.config = config :=
          (hm.reachable.isSound (hm.counts hcounts).1).config_eq
        cases hstep : answer'.settle.toOutcome.bind (w.conclude config) with
        | ok step =>
          have hresume : (Run.invoking w).resume s₀.engine.env answer' =
              .waiting (.saving w.base step) := by
            simp only [Run.resume, hconfig, hstep]
          obtain ⟨c', hgoes, hrun⟩ := hruns.resume_of_waiting hresume
          refine .inl ⟨.asking (.saving w.base step), ?_, rfl, hstep⟩
          rw [hm.history, stageOf_append_self hcall, Moment.stage?, hresumed, hgoes]
          exact hrun
        | error e => exact absurd (Invocation.stumps_iff.mpr ⟨e, hstep⟩) hcalm
      | _ => exact hconcludes.elim
  · exact .inl ⟨r, by rw [hm.history, stageOf_append_of_ne hcall, hr], hconcludes⟩

/-- A run at a try of what is tended goes on with it until it writes the instance. -/
theorem Along.concludes (hm : Along config s s₀ s₁ m) (hcounts : Counts s.history)
    (hcolumn : s.engine.store.isTable = true → TableStore.fits s.history.length)
    {v : Invocation} {reply : Reply} (htended : Tended s₁.history v.base.id worker)
    (hcalm : ¬ v.Stumps config reply)
    (hstored : lastStored v.base.id s₀.history = some (v.base.kept s.engine.store.time))
    (hunwritten : ∀ w, m.written? = some w → w.id ≠ v.base.id) {r : RunStage}
    (hr : (stageOf n s₀.history).bind Stage.run? = some r)
    (hconcludes : r.Concludes config v reply) :
    ∃ r', (stageOf n s₁.history).bind Stage.run? = some r' ∧ r'.Concludes config v reply := by
  have hkept : m.incident ≠ .crashed := htended.kept m (by simp [hm.history])
  rcases hm.concludes_or_saves hcounts (fun _ => hkept) hcalm hr hconcludes with
    hgoes | ⟨-, step, answer, -, hrun⟩
  · exact hgoes
  · obtain ⟨w, hw, hid⟩ := hm.written_of_saving hcounts hcolumn htended hstored hrun
    exact absurd hid (hunwritten w hw)

/-- In a run that removes no plan, whatever an instance was bound to is its plan. -/
theorem Along.eq_of_boundTo (hs : Reachable config s) (hm : Along config s s₀ s₁ m)
    (hplans : Keeps s.history) (hp : BoundTo s.history p i) {q : Plan}
    (hq : BoundTo s₀.history q i) : q = p := by
  obtain ⟨later, hlater⟩ := history_of_leads hm.leads
  have hq : BoundTo s.history q i := by
    rw [hlater, hm.history, List.append_assoc]
    exact hq.append _
  exact hs.eq_of_registered hplans hq.registered hp.registered (hq.graphId.trans hp.graphId.symm)
    (hq.version.trans hp.version.symm)

/-- The next try begins when the last one has been concluded. -/
theorem Along.tallied_of_try (hs : Reachable config s) (hm : Along config s s₀ s₁ m)
    (hcounts : Counts s.history) (hplans : Keeps s.history)
    (hsole : Sole s.engine.store.time s₀.history id worker) (hrunnable : p.IsRunnable)
    {v : Invocation} {reply : Reply} (htry : m.tried? = some (v, reply)) (hid : v.base.id = id)
    (hnode : v.node = node)
    (hbefore : ∀ i, lastStored id s₀.history = some i → BoundTo s.history p i →
      Tallied config p s.engine.store.time node s₀.history i)
    (hi : lastStored id s₁.history = some i) (hp : BoundTo s.history p i) :
    Tallied config p s.engine.store.time node s₁.history i := by
  subst hid
  have hrun := Moment.run?_of_tried? htry
  obtain ⟨n, hcall, hr, ⟨-, hheld, q, hq, hfor⟩, -⟩ := hm.exists_asking hcounts hrun
  have hworks : Works s₀.history n v.base := ⟨_, hr, rfl, hheld⟩
  have hstored := hsole.current n v.base hworks rfl
  have hquiet : m.written? = none := Moment.written?_of_run? hrun
  have hsame := (hm.written hcounts).2 v.base.id fun w hw => by
    rw [hquiet] at hw
    cases hw
  rw [hm.history, lastStored_append, hsame, hstored] at hi
  obtain rfl := Option.some.inj hi
  have hp' : BoundTo s.history p v.base := boundTo_kept.mp hp
  obtain rfl := hm.eq_of_boundTo hs hplans hp' hq
  have hr₁ : (stageOf n s₁.history).bind Stage.run? = some (.answered (.invoking v) reply) := by
    rw [hm.history, stageOf_append_self hcall, Moment.stage?_of_run? hrun]
  rw [Tallied, hm.history]
  rw [hm.history] at hr₁
  rw [show tries (v.base.kept s.engine.store.time).id node (s₀.history ++ [m]) = _ from
    tries_append_self htry rfl hnode]
  rcases hbefore _ hstored hp with hdone | hunderway
  · obtain ⟨hfailures, hnumber⟩ := hdone.failures_of_held hrunnable hheld hfor hnode
    exact .inr (.intro (hfailures.append m) hnumber hnode rfl hheld hfor hr₁ ⟨rfl, rfl⟩)
  · obtain ⟨_, _, _, -, -, -, -, -, -, hconcludes⟩ := hunderway.of_run hsole hr rfl hheld
    exact hconcludes.elim

theorem Along.tallied_of_unwritten (hm : Along config s s₀ s₁ m) (hcounts : Counts s.history)
    (hcolumn : s.engine.store.isTable = true → TableStore.fits s.history.length)
    (htended : Tended s₁.history id worker)
    (hcalm : ∀ t ∈ tries id node s₀.history, ¬ t.1.Stumps config t.2)
    (huntried : ∀ v reply, m.tried? = some (v, reply) → v.base.id = id → v.node ≠ node)
    (hunwritten : ∀ w, m.written? = some w → w.id ≠ id)
    (hi : lastStored id s₀.history = some i)
    (hbefore : Tallied config p s.engine.store.time node s₀.history i) :
    Tallied config p s.engine.store.time node s₁.history i := by
  have hsame := (hm.written hcounts).2 id hunwritten
  have hfound := (hm.reachable.find?_eq_lastStored id).trans hi
  obtain rfl : i.id = id := Instance.find?_id hfound
  rw [Tallied, hm.history, tries_append_of_ne huntried]
  rcases hbefore with hdone | hunderway
  · exact .inl (hdone.stays hi (hsame.trans hi))
  · right
    generalize tries i.id node s₀.history = ts at hunderway hcalm
    cases hunderway with
    | @intro ts v reply _ _ hfailures hnumber hnode hbase hheld hfor hr hconcludes =>
      subst hbase
      have hcalm : ¬ v.Stumps config reply := hcalm (v, reply) (by simp)
      obtain ⟨r', hr', hconcludes'⟩ :=
        hm.concludes hcounts hcolumn htended hcalm hi hunwritten hr hconcludes
      rw [hm.history] at hr'
      exact .intro (hfailures.append m) hnumber hnode rfl hheld hfor hr' hconcludes'

/-- An instance that has just been created has not tried anything. -/
theorem Along.concluded_of_created (hm : Along config s s₀ s₁ m) (hcounts : Counts s.history)
    {w : Instance} {q : Plan} {e : Event} {now : Instant} {time : Instant → Instant}
    (hnone : lastStored w.id s₀.history = none) (hdraft : w.toDraft = e.draft q now)
    (hthere : m.find? w.id = some (w.kept time)) :
    Concluded config p time node (s₀.history ++ [m]) (w.kept time) [] := by
  have hattempts : w.attempts = [] := congrArg Draft.attempts hdraft
  have hlive : w.isTerminal = false := by
    rw [Instance.isTerminal, congrArg Draft.status hdraft]
    rfl
  have hunborn := (hm.reachable.isSound (hm.counts hcounts).1).lives.unborn w.id
    ((hm.reachable.find?_eq_lastStored w.id).trans hnone)
  refine .untried (by simp [Instance.attemptsFor, Instance.kept, hattempts]) fun hvisits => ?_
  rcases Visited.of_append hvisits hthere with ⟨x, hx, j, hj, -⟩ | hcursor
  · cases (hunborn x hx).1.symm.trans hj
  · exact ⟨hcursor, hlive⟩

/-- A run that stores a step goes by the last try, or leaves the tries as they are. -/
theorem Along.concluded_of_saved (hm : Along config s s₀ s₁ m) (hcounts : Counts s.history)
    {base : Instance} {step : WorkflowEngine.Step} {answer : Outcome Instance} {version : Version}
    {now : Instant} (hsole : Sole s.engine.store.time s₀.history base.id worker)
    (hfree : Unrecovered s₀.history base.id worker) (hrunnable : p.IsRunnable)
    (haction : ∃ kind, p.IsAction node kind)
    (hrun : m.run? = some (.answered (.saving base step) answer)) (hheld : base.IsHeld)
    (hstep : Stepped config p (Made s₀.history) base step)
    (hthere : m.find? base.id =
      some ((step.next.stamped version now).kept s.engine.store.time))
    (hbefore : Tallied config p s.engine.store.time node s₀.history
      (base.kept s.engine.store.time)) :
    Concluded config p s.engine.store.time node (s₀.history ++ [m])
      ((step.next.stamped version now).kept s.engine.store.time) (tries base.id node s₀.history) := by
  obtain ⟨n, -, hr, -⟩ := hm.exists_asking hcounts hrun
  rcases hbefore with hdone | hunderway
  · exact hdone.of_stepped hrunnable haction hheld hstep (hfree.saving n base step hr rfl)
      (fun v hmade hv hnode => exists_mem_tries hmade hv hnode) hthere
  · obtain ⟨first, v, reply, htries, rfl, hnode, hfor, hnumber, hfailures, -, hconcludes⟩ :=
      hunderway.of_run hsole hr rfl hheld
    rw [show tries v.base.id node s₀.history = _ from htries]
    exact .of_concludes hfailures hnumber hnode hfor hconcludes s.engine.store.micros_time hthere

/-- Whoever writes the instance goes by the last try, or leaves the tries as they are. -/
theorem Along.tallied_of_written (hs : Reachable config s) (hm : Along config s s₀ s₁ m)
    (hcounts : Counts s.history) (hplans : Keeps s.history) {w : Instance}
    (htended : Tended s₁.history w.id worker)
    (hsole : Sole s.engine.store.time s₀.history w.id worker)
    (hfree : Unrecovered s₀.history w.id worker) (hrunnable : p.IsRunnable)
    (haction : ∃ kind, p.IsAction node kind)
    (huntried : ∀ v reply, m.tried? = some (v, reply) → v.base.id = w.id → v.node ≠ node)
    (hw : m.written? = some w) (hp : BoundTo s.history p (w.kept s.engine.store.time))
    (hbefore : ∀ i, lastStored w.id s₀.history = some i → BoundTo s.history p i →
      Tallied config p s.engine.store.time node s₀.history i) :
    Tallied config p s.engine.store.time node s₁.history (w.kept s.engine.store.time) := by
  obtain ⟨hreplaces, hthere⟩ := (hm.written hcounts).1 w hw
  rw [Tallied, hm.history, show tries (w.kept s.engine.store.time).id node (s₀.history ++ [m]) =
    tries w.id node s₀.history from tries_append_of_ne huntried]
  left
  cases hcur : lastStored w.id s₀.history with
  | none =>
    rw [hcur] at hreplaces
    cases hreplaces with
    | created _ hdraft =>
      rw [hm.reachable.tries_eq_nil (hm.counts hcounts).1 hcur]
      exact hm.concluded_of_created hcounts hcur hdraft hthere
  | some cur =>
    cases hm.writer_of_tended hcounts htended hw (by rw [hcur]; rfl) with
    | @claim cur' worker' version now hclaims hcur' hunowned hsaved =>
      obtain ⟨_, -, hcur'', -, hlive, -⟩ := hm.of_claims hcounts hclaims
      obtain rfl := Option.some.inj (hcur'.symm.trans hcur'')
      rw [hm.reachable.find?_eq_lastStored] at hcur'
      obtain rfl := Option.some.inj (hcur.symm.trans hcur')
      subst hsaved
      have hp' : BoundTo s.history p cur := ⟨hp.registered, hp.graphId, hp.version⟩
      rcases hbefore cur hcur hp' with hdone | hunderway
      · exact hdone.of_claimed hlive hthere
      · exact (hunderway.owner_ne_none hunowned).elim
    | @save base step hrun hsound hcur' hsaved =>
      obtain ⟨-, hheld, q, hq, hstep⟩ := hsound
      have hid : base.id = w.id := by
        rw [hsaved]
        exact hstep.next_eq.1.symm
      rw [hm.reachable.find?_eq_lastStored, hm.time_eq] at hcur'
      have hp' : BoundTo s.history p base := by
        rw [hsaved] at hp
        exact boundTo_kept.mp ((Change.stepped hq hheld hstep).boundTo_iff.mp hp)
      obtain rfl := hm.eq_of_boundTo hs hplans hp' hq
      have htallied := hbefore _ hcur' (boundTo_kept.mpr hp')
      rw [← hid] at hthere hsole hfree ⊢
      subst hsaved
      exact hm.concluded_of_saved hcounts hsole hfree hrunnable haction hrun hheld hstep hthere
        htallied
    | @fail failed entry cause hrun hid =>
      obtain ⟨k, -, hr, -⟩ := hm.exists_asking hcounts hrun
      exact absurd hid (hsole.unfailing k failed entry cause hr)

theorem Along.tallied (hs : Reachable config s) (hm : Along config s s₀ s₁ m)
    (hcounts : Counts s.history)
    (hcolumn : s.engine.store.isTable = true → TableStore.fits s.history.length)
    (hplans : Keeps s.history) (htended : Tended s₁.history id worker)
    (hsole : Sole s.engine.store.time s₀.history id worker)
    (hfree : Unrecovered s₀.history id worker) (hrunnable : p.IsRunnable)
    (haction : ∃ kind, p.IsAction node kind)
    (hcalm : ∀ t ∈ tries id node s₀.history, ¬ t.1.Stumps config t.2)
    (hbefore : ∀ i, lastStored id s₀.history = some i → BoundTo s.history p i →
      Tallied config p s.engine.store.time node s₀.history i)
    (hi : lastStored id s₁.history = some i) (hp : BoundTo s.history p i) :
    Tallied config p s.engine.store.time node s₁.history i := by
  by_cases htry : ∃ v reply, m.tried? = some (v, reply) ∧ v.base.id = id ∧ v.node = node
  · obtain ⟨v, reply, htry, hid, hnode⟩ := htry
    exact hm.tallied_of_try hs hcounts hplans hsole hrunnable htry hid hnode hbefore hi hp
  · have huntried : ∀ v reply, m.tried? = some (v, reply) → v.base.id = id → v.node ≠ node :=
      fun v reply hv hid hnode => htry ⟨v, reply, hv, hid, hnode⟩
    by_cases hwrites : ∃ w, m.written? = some w ∧ w.id = id
    · obtain ⟨w, hw, rfl⟩ := hwrites
      obtain ⟨-, hthere⟩ := (hm.written hcounts).1 w hw
      rw [hm.history, lastStored_append, hthere] at hi
      obtain rfl := Option.some.inj hi
      exact hm.tallied_of_written hs hcounts hplans htended hsole hfree hrunnable haction huntried
        hw hp hbefore
    · have hunwritten : ∀ w, m.written? = some w → w.id ≠ id :=
        fun w hw hid => hwrites ⟨w, hw, hid⟩
      rw [hm.history, lastStored_append, (hm.written hcounts).2 id hunwritten] at hi
      exact hm.tallied_of_unwritten hcounts hcolumn htended hcalm huntried hunwritten hi
        (hbefore i hi hp)

/-- While one worker tends an instance, its tries of an action follow on each other. -/
theorem Reachable.tallied (hs : Reachable config s)
    (hcolumn : s.engine.store.isTable = true → TableStore.fits s.history.length)
    (htended : Tended s.history id worker) (hi : s.engine.store.find? id = some i)
    (hp : BoundTo s.history p i) (haction : ∃ kind, p.IsAction node kind)
    (hcalm : ∀ t ∈ tries id node s.history, ¬ t.1.Stumps config t.2) :
    Tallied config p s.engine.store.time node s.history i := by
  have hcounts := hs.counts hcolumn
  have hrunnable := hs.isRunnable hcounts hp.registered
  have hprefix (before : List Moment) : ∀ after, s.history = before ++ after →
      ∀ i, lastStored id before = some i → BoundTo s.history p i →
      Tallied config p s.engine.store.time node before i := by
    induction before using List.reverseRecOn with
    | nil =>
      intro _ _ i hi
      cases hi
    | append_singleton before m ih =>
      intro after hsplit i hi hp
      have hsplit' : s.history = before ++ m :: after := by simp [hsplit]
      obtain ⟨hsole, hfree⟩ := hs.sole_and_unrecovered hcounts htended hsplit'
      have hbefore := ih _ hsplit'
      obtain ⟨s₀, s₁, hm, rfl⟩ := hs.along hsplit'
      rw [← hm.history] at hi ⊢
      have htended₁ : Tended s₁.history id worker := by
        refine Tended.of_append (l := after) ?_
        rwa [hm.history, ← hsplit]
      refine hm.tallied hs hcounts hcolumn htended.plans htended₁ hsole hfree hrunnable haction
        (fun t ht => hcalm t ?_) hbefore hi hp
      rw [hsplit']
      exact mem_tries_append ht
  exact hprefix s.history [] (by simp) i ((hs.find?_eq_lastStored id).symm.trans hi) hp

end System
end WorkflowEngine

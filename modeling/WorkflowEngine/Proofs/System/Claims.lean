import Mathlib.Algebra.Order.BigOperators.Group.List
import Mathlib.Algebra.Order.Ring.Nat
import WorkflowEngine.Proofs.Plan.Walk
import WorkflowEngine.Proofs.System.Attempts
import WorkflowEngine.Proofs.System.Handover
import WorkflowEngine.Proofs.System.Standing

/-!
# Claims of an instance

Each claim of an instance is paid for. The first one is free; any other follows a delay on the walk,
or a failure of an action after which it is tried again. So as long as no sweep takes instances from
their workers, an instance is claimed only so many times in its life.
-/
namespace WorkflowEngine

namespace Plan

/-- The number of nodes of a kind on a way through a plan. -/
def countOn (p : Plan) (kind : NodeKind) (walk : List String) : Nat :=
  walk.countP fun id => (p.node? id).any (·.step.kind == kind)

theorem countOn_cons (p : Plan) (kind : NodeKind) (id : String) (walk : List String) :
    p.countOn kind (id :: walk) = p.countOn kind walk +
      if (p.node? id).any (·.step.kind == kind) then 1 else 0 := List.countP_cons

/-- How often an instance is claimed at most on a walk. -/
def claimBound (p : Plan) (config : EngineConfig) (walk : List String) : Nat :=
  1 + p.countOn .delay walk + (config.maxAttempts - 1) * p.countOn .action walk

/-- On a walk, where a node leads is where the walk goes on. -/
theorem IsWalk.suffix_of_goesOn {p : Plan} {context : Record} {walk rest : List String}
    {a b : String} (hw : p.IsWalk context walk) (hsuffix : a :: rest <:+ walk)
    (hgoes : p.GoesOn context a b) : ∃ rest', rest = b :: rest' ∧ b :: rest' <:+ walk := by
  obtain ⟨before, rfl⟩ := hsuffix
  cases rest with
  | nil => exact absurd hgoes (hw.last a (by simp) b)
  | cons c rest =>
    have hchain := (List.isChain_split.mp hw.chain).2
    obtain rfl := hgoes.unique (List.isChain_cons_cons.mp hchain).1
    exact ⟨rest, rfl, before ++ [a], by simp⟩

end Plan

namespace Instance

variable {config : EngineConfig} {p : Plan} {i j : Instance}

/-- How often an instance may still be put to sleep at a node. -/
def waitsAt (config : EngineConfig) (p : Plan) (i : Instance) (id : String) : Nat :=
  match p.node? id with
  | none => 0
  | some n =>
    match n.step.kind with
    | .delay => 1
    | .action => ((config.maxAttempts : Int) - 1 - i.attemptsFor id).toNat
    | .trigger | .condition => 0

/-- How often an instance may still be claimed with so much of its walk ahead. -/
def claimsLeft (config : EngineConfig) (p : Plan) (ahead : List String) (i : Instance) : Nat :=
  (if i.owner = none then 1 else 0) + (ahead.map (i.waitsAt config p)).sum

theorem claimsLeft_of_free (hfree : i.owner = none) (ahead : List String) :
    i.claimsLeft config p ahead = 1 + (ahead.map (i.waitsAt config p)).sum := by
  rw [claimsLeft, if_pos hfree]

theorem claimsLeft_of_owned (howned : i.owner ≠ none) (ahead : List String) :
    i.claimsLeft config p ahead = (ahead.map (i.waitsAt config p)).sum := by
  rw [claimsLeft, if_neg howned, Nat.zero_add]

theorem waitsAt_le (hmore : ∀ id, i.attemptsFor id ≤ j.attemptsFor id) (id : String) :
    j.waitsAt config p id ≤ i.waitsAt config p id := by
  have hid := hmore id
  unfold waitsAt
  split
  · exact Nat.le_refl _
  · split <;> omega

theorem sum_waitsAt_le (hmore : ∀ id, i.attemptsFor id ≤ j.attemptsFor id) (ahead : List String) :
    (ahead.map (j.waitsAt config p)).sum ≤ (ahead.map (i.waitsAt config p)).sum :=
  List.sum_le_sum fun id _ => waitsAt_le hmore id

/-- An instance that has tried nothing yet may be claimed as often as its walk allows. -/
theorem claimsLeft_of_untried (hfree : i.owner = none) (huntried : i.attempts = [])
    (walk : List String) : i.claimsLeft config p walk = p.claimBound config walk := by
  have hwaits : (walk.map (i.waitsAt config p)).sum =
      p.countOn .delay walk + (config.maxAttempts - 1) * p.countOn .action walk := by
    induction walk with
    | nil => rfl
    | cons id walk ih =>
      rw [List.map_cons, List.sum_cons, ih, Plan.countOn_cons, Plan.countOn_cons, waitsAt,
        attemptsFor, huntried]
      cases p.node? id with
      | none => simp
      | some n =>
        cases hkind : n.step.kind with
        | trigger | condition => simp [hkind]
        | action =>
          simp only [Option.any_some, hkind, beq_self_eq_true, if_true, List.lookup_nil,
            Option.getD_none, Nat.mul_add]
          rw [if_neg (by decide)]
          omega
        | delay =>
          simp [hkind]
          omega
  rw [claimsLeft_of_free hfree, hwaits, Plan.claimBound, Nat.add_assoc]

end Instance

theorem Invocation.attemptsFor_le_counted (v : Invocation) (id : String) :
    v.base.attemptsFor id ≤ v.counted.attemptsFor id := by
  by_cases hid : id = v.node
  · rw [hid, v.attemptsFor_counted]
    omega
  · rw [v.attemptsFor_counted_of_ne hid]

theorem Stepped.of_nodes_eq {config : EngineConfig} {p q : Plan} {made : Invocation → Prop}
    {i : Instance} {step : Step} (hnodes : q.nodes = p.nodes)
    (hstep : Stepped config q made i step) : Stepped config p made i step := by
  have hnode (id : String) : q.node? id = p.node? id := by rw [Plan.node?, hnodes, Plan.node?]
  have hfor {v : Invocation} (hv : v.IsFor q i) : v.IsFor p i :=
    ⟨hv.base, hv.node, hv.intent, hnode i.cursor ▸ hv.action⟩
  cases hstep with
  | passed hn hkind houtcome hexit => exact .passed (hnode _ ▸ hn) hkind houtcome hexit
  | intended hn hkind hintent => exact .intended (hnode _ ▸ hn) hkind hintent
  | slept hn hdelay => exact .slept (hnode _ ▸ hn) hdelay
  | succeeded hv hmade => exact .succeeded (hfor hv) hmade
  | gaveUp hv hmade => exact .gaveUp (hfor hv) hmade
  | retried hv hmade hmore => exact .retried (hfor hv) hmade hmore
  | recovered hintent hn hkind hidempotent =>
    exact .recovered hintent (hnode _ ▸ hn) hkind hidempotent
  | abandoned hintent hn hrisky => exact .abandoned hintent (hnode _ ▸ hn) hrisky

/-- Whoever lets an instance go that is to go on has paid for its next claim. -/
theorem Stepped.claimsLeft_le {config : EngineConfig} {p : Plan} {made : Invocation → Prop}
    {i : Instance} {step : Step} {walk rest : List String} (hw : p.IsWalk i.context walk)
    (hsuffix : i.cursor :: rest <:+ walk) (hi : i.Consistent p) (hheld : i.IsHeld)
    (hstep : Stepped config p made i step) (hlive : step.next.isTerminal = false) :
    ∃ rest', step.next.cursor :: rest' <:+ walk ∧
      step.next.claimsLeft config p (step.next.cursor :: rest') ≤
        i.claimsLeft config p (i.cursor :: rest) := by
  have howned : i.owner ≠ none := Option.isSome_iff_ne_none.mp hheld.2
  cases hstep with
  | @passed n exit _ _ _ hnode _ _ hexit =>
    cases exit with
    | none => cases hlive
    | some target =>
      obtain ⟨rest', rfl, hsuffix'⟩ := hw.suffix_of_goesOn hsuffix ⟨n, hnode, hexit⟩
      exact ⟨rest', hsuffix', Nat.add_le_add_left (Nat.le_add_left _ _) _⟩
  | intended => exact ⟨rest, hsuffix, Nat.le_refl _⟩
  | @slept n seconds target _ _ _ hnode hdelay =>
    obtain ⟨rest', rfl, hsuffix'⟩ :=
      hw.suffix_of_goesOn hsuffix ⟨n, hnode, by rw [hdelay]; rfl⟩
    refine ⟨rest', hsuffix', ?_⟩
    have hwait : i.waitsAt config p i.cursor = 1 := by
      simp [Instance.waitsAt, hnode, hdelay, PlanStep.kind]
    rw [Instance.claimsLeft_of_owned howned, List.map_cons, List.sum_cons, hwait]
    exact Nat.le_refl _
  | @succeeded v detail hv =>
    obtain rfl := hv.base
    obtain ⟨n, params, hnode, haction⟩ := hv.action
    revert hlive
    simp only [Step.advance]
    cases hexit : v.exit with
    | none => intro hlive; cases hlive
    | some target =>
      have hgoes : p.GoesOn v.base.context v.base.cursor target :=
        ⟨n, hnode, by rw [haction, hexit]; rfl⟩
      obtain ⟨rest', rfl, hsuffix'⟩ := hw.suffix_of_goesOn hsuffix hgoes
      refine fun _ => ⟨rest', hsuffix', Nat.add_le_add_left ?_ _⟩
      have hsum : ((target :: rest').map (v.counted.waitsAt config p)).sum ≤
          ((target :: rest').map (v.base.waitsAt config p)).sum :=
        Instance.sum_waitsAt_le v.attemptsFor_le_counted _
      exact hsum.trans (Nat.le_add_left _ _)
  | gaveUp => cases hlive
  | @retried v reason wakeAt hv hmade hmore =>
    obtain rfl := hv.base
    obtain ⟨n, params, hnode, haction⟩ := hv.action
    refine ⟨rest, hsuffix, ?_⟩
    have hkind : n.step.kind = .action := by rw [haction]; rfl
    have hsum : (rest.map (v.counted.waitsAt config p)).sum ≤
        (rest.map (v.base.waitsAt config p)).sum :=
      Instance.sum_waitsAt_le v.attemptsFor_le_counted rest
    have hwait : v.counted.waitsAt config p v.base.cursor + 1 ≤
        v.base.waitsAt config p v.base.cursor := by
      have hcounted := v.attemptsFor_counted
      rw [Invocation.attempt] at hmore
      rw [hv.node] at hcounted hmore
      simp only [Instance.waitsAt, hnode, hkind, hcounted]
      omega
    rw [Instance.claimsLeft_of_owned howned, List.map_cons, List.sum_cons]
    change 1 + (v.counted.waitsAt config p v.base.cursor +
      (rest.map (v.counted.waitsAt config p)).sum) ≤ _
    omega
  | recovered hintent =>
    obtain ⟨hcursor, -⟩ := hi.intent _ hintent
    refine ⟨rest, ?_, ?_⟩
    · simpa [hcursor] using hsuffix
    · simp only [hcursor]
      exact Nat.le_refl _
  | abandoned => cases hlive

/-- Registered plans of one name have one content, as their versions are digests of it. -/
def NamesContent (h : List Moment) : Prop :=
  ∀ p q, Registered h p → Registered h q → p.graphId = q.graphId → p.version = q.version →
    p.triggerId = q.triggerId ∧ p.nodes = q.nodes

theorem NamesContent.wellNamed {h : List Moment} (hnames : NamesContent h) : WellNamed h := by
  intro p q hp hq hgraph hversion
  obtain ⟨htrigger, hnodes⟩ := hnames p q hp hq hgraph hversion
  exact ⟨htrigger, fun id => by rw [Plan.node?, hnodes, Plan.node?]⟩

theorem System.Reachable.namesContent {config : EngineConfig} {s : System}
    (hs : Reachable config s) (hkeeps : Keeps s.history) : NamesContent s.history := by
  intro p q hp hq hgraph hversion
  obtain rfl := hs.eq_of_registered hkeeps hp hq hgraph hversion
  exact ⟨rfl, rfl⟩

namespace Moment

/-- Whether a sweep is at work. -/
def isSweep (m : Moment) : Bool :=
  match m.incident with
  | .served (.sweep _) _ => true
  | _ => false

/-- Whether an instance has just been claimed. -/
def claims (id : InstanceId) (m : Moment) : Bool := m.claimed? == some id

end Moment

/-- No sweep takes an instance from its worker. -/
def Unswept (h : List Moment) : Prop := ∀ m ∈ h, m.isSweep = false

theorem Unswept.of_prefix {h h' : List Moment} (hunswept : Unswept h') (hext : h <+: h') :
    Unswept h := fun m hm => hunswept m (hext.subset hm)

/-- How often an instance was claimed and may still be claimed. -/
structure Spends (config : EngineConfig) (p : Plan) (walk : List String) (h : List Moment)
    (i : Instance) : Prop where
  spent : h.countP (Moment.claims i.id) ≤ p.claimBound config walk
  left : i.isTerminal = false → ∃ rest, i.cursor :: rest <:+ walk ∧
    h.countP (Moment.claims i.id) + i.claimsLeft config p (i.cursor :: rest) ≤
      p.claimBound config walk

theorem countP_claims_append (id : InstanceId) (h : List Moment) (m : Moment) :
    (h ++ [m]).countP (Moment.claims id) =
      h.countP (Moment.claims id) + if m.claims id then 1 else 0 := by
  rw [List.countP_append, List.countP_singleton]

section
variable {config : EngineConfig} {p : Plan} {walk : List String} {h : List Moment} {m : Moment}
  {i : Instance} {time : Instant → Instant}

theorem Spends.kept (hspends : Spends config p walk h i) :
    Spends config p walk h (i.kept time) := ⟨hspends.spent, hspends.left⟩

theorem Spends.of_kept (hspends : Spends config p walk h (i.kept time)) :
    Spends config p walk h i := ⟨hspends.spent, hspends.left⟩

theorem Spends.snoc (hspends : Spends config p walk h i) (hunclaimed : m.claims i.id = false) :
    Spends config p walk (h ++ [m]) i := by
  have hcount : (h ++ [m]).countP (Moment.claims i.id) = h.countP (Moment.claims i.id) := by
    rw [countP_claims_append, hunclaimed]
    rfl
  exact ⟨hcount ▸ hspends.spent, hcount ▸ hspends.left⟩

end

/-- An instance that has just been created has its whole walk ahead. -/
theorem Spends.born {config : EngineConfig} {p : Plan} {walk : List String} {h : List Moment}
    {i : Instance} (hw : p.IsWalk i.context walk) (hcursor : i.cursor = p.triggerId)
    (hfree : i.owner = none) (huntried : i.attempts = [])
    (hunclaimed : h.countP (Moment.claims i.id) = 0) : Spends config p walk h i := by
  obtain ⟨rest, rfl⟩ := List.head?_eq_some_iff.mp hw.head
  rw [← hcursor] at hw
  have hleft : i.claimsLeft config p (p.triggerId :: rest) =
      p.claimBound config (p.triggerId :: rest) :=
    Instance.claimsLeft_of_untried hfree huntried _
  refine ⟨?_, fun _ => ⟨rest, hcursor ▸ List.suffix_rfl, ?_⟩⟩
  · rw [hunclaimed]
    exact Nat.zero_le _
  · rw [hunclaimed, hcursor, hleft, Nat.zero_add]

/-- A change that is no release spends a claim if it is one, and otherwise pays for the next one. -/
theorem Change.spends {config : EngineConfig} {p : Plan} {walk : List String} {h : List Moment}
    {m : Moment} {i next : Instance} {step : Option Step} (hw : p.IsWalk i.context walk)
    (hspends : Spends config p walk h i) (hi : i.Consistent p)
    (hnodes : ∀ q, BoundTo h q i → q.nodes = p.nodes) (hchange : Change config h i step next)
    (hclaims : m.claims i.id = true → i.owner = none ∧ next.owner.isSome)
    (howner : next.status = .running → next.owner.isSome) :
    Spends config p walk (h ++ [m]) next := by
  have hid : next.id = i.id := hchange.next_eq.1
  have hlive := hchange.isTerminal_eq_false
  obtain ⟨rest, hsuffix, hleft⟩ := hspends.left hlive
  have hunclaimed (hnot : ¬ (i.owner = none ∧ next.owner.isSome)) : m.claims i.id = false :=
    Bool.eq_false_iff.mpr fun h => hnot (hclaims h)
  have hended (hunclaimed : m.claims i.id = false) (hended : next.isTerminal = true) :
      Spends config p walk (h ++ [m]) next := by
    refine ⟨?_, fun hlive => ?_⟩
    · rw [countP_claims_append, hid, hunclaimed]
      exact hspends.spent
    · rw [hended] at hlive
      cases hlive
  cases hchange with
  | @stepped q step hbound hheld hstep =>
    have hunclaimed := hunclaimed fun h => by simpa [h.1] using hheld.2
    refine ⟨?_, fun hlive => ?_⟩
    · rw [countP_claims_append, hid, hunclaimed]
      exact hspends.spent
    · obtain ⟨rest', hsuffix', hless⟩ :=
        (hstep.of_nodes_eq (hnodes q hbound)).claimsLeft_le hw hsuffix hi hheld hlive
      refine ⟨rest', hsuffix', ?_⟩
      rw [countP_claims_append, hid, hunclaimed]
      simp only [Bool.false_eq_true, if_false, Nat.add_zero]
      omega
  | failed hheld => exact hended (hunclaimed fun h => by cases h.2) rfl
  | released => cases howner rfl
  | cancelled => exact hended (hunclaimed fun h => by cases h.2) rfl
  | @claimed worker _ hfree =>
    have hpaid : (i.claimed .running (some worker)).claimsLeft config p (i.cursor :: rest) + 1 =
        i.claimsLeft config p (i.cursor :: rest) := by
      rw [Instance.claimsLeft_of_free hfree, Nat.add_comm]
      exact congrArg (1 + ·) (Instance.claimsLeft_of_owned (by simp [Instance.claimed]) _)
    have hone : (if m.claims i.id then 1 else 0) ≤ 1 := by split <;> omega
    refine ⟨?_, fun _ => ⟨rest, hsuffix, ?_⟩⟩
    · rw [countP_claims_append, hid]
      omega
    · rw [countP_claims_append, hid]
      change _ + (i.claimed .running (some worker)).claimsLeft config p (i.cursor :: rest) ≤ _
      omega

/-- Who has written an instance anew. -/
inductive Writer (config : EngineConfig) (s : System) (m : Moment) (w : Instance) : Prop
  | claim {cur : Instance} {worker : String} {version : Version} {now : Instant}
      (hclaims : m.claims w.id = true) (hcur : s.engine.store.find? w.id = some cur)
      (hfree : cur.owner = none)
      (hsaved : w = (cur.claimed .running (some worker)).stamped version now)
  | save {base : Instance} {step : Step}
      (hrun : m.run? = some (.answered (.saving base step) (.ok w)))
      (hsound : (Run.saving base step).IsSound config s.engine.store.time s.history)
      (hcur : s.engine.store.find? w.id = some (base.kept s.engine.store.time))
      (hsaved : w = step.next.stamped base.version.next s.engine.now)
  | fail {failed : Instance} {entry : AuditEntry} {cause : Error}
      (hrun : m.run? = some (.answered (.failing failed entry cause) (.ok w)))
      (hid : failed.id = w.id) (hfailed : w.status = .failed)

namespace System

variable {config : EngineConfig} {s s₀ s₁ : System} {m : Moment} {id : InstanceId} {w : Instance}

theorem Along.writer_of_poll (hm : Along config s s₀ s₁ m) (hcounts : Counts s₀.history) {p : Poll}
    {answer : p.request.Answer} (hpoll : m.poll? = some (.answered p answer))
    (hanswer : s₀.engine.Answers p.request answer s₁.engine)
    (hwritten : p.request.written? answer = some w) : Writer config s₀ m w := by
  cases p with
  | listing => cases hwritten
  | claiming worker current rest claimed =>
    have hwellFormed := (hm.reachable.isSound hcounts).lives.wellFormed
    have hperform := Engine.perform_of_answers hanswer
    rcases hclaim : s₀.engine.store.claim s₀.engine.now current.id current.status .running
      (some worker) with ⟨granted, store⟩
    simp only [Store.perform, hclaim] at hperform
    obtain ⟨rfl, -⟩ := Prod.mk.inj hperform
    rcases Store.claim_cases hwellFormed hclaim with
      ⟨rfl, -⟩ | ⟨cur, version, hcur, -, hfree, -, rfl, -⟩
    · cases hwritten
    · obtain rfl := Option.some.inj hwritten
      have hid : cur.id = current.id := Instance.find?_id hcur
      refine .claim ?_ ((congrArg _ hid).trans hcur) hfree rfl
      simp [Moment.claims, Moment.claimed?, hpoll, PollStage.claimed?, Instance.stamped,
        Instance.claimed, hid]

theorem Along.writer_of_run (hm : Along config s s₀ s₁ m) (hcounts : Counts s₀.history) {r : Run}
    {answer : r.request.Answer} (hrun : m.run? = some (.answered r answer))
    (hr : r.IsSound config s₀.engine.store.time s₀.history)
    (hanswer : s₀.engine.Answers r.request answer s₁.engine)
    (hwritten : r.request.written? answer = some w) : Writer config s₀ m w := by
  have hlives := (hm.reachable.isSound hcounts).lives
  cases r with
  | saving base step =>
    have hsaves := hr
    obtain ⟨hseen, hheld, p, hbound, hstep⟩ := hr
    cases answer with
    | error => cases hwritten
    | ok stored =>
      obtain rfl : stored = w := Option.some.inj hwritten
      obtain ⟨hfound, rfl, -⟩ := hlives.of_save hcounts hseen (.stepped hbound hheld hstep)
        (Engine.perform_of_answers hanswer)
      have hid : base.id = step.next.id := hstep.next_eq.1.symm
      exact .save hrun hsaves (hid ▸ hfound) rfl
  | failing failed entry cause =>
    obtain ⟨base, error, now, hseen, hheld, rfl⟩ := hr
    cases answer with
    | error => cases hwritten
    | ok stored =>
      obtain rfl : stored = w := Option.some.inj hwritten
      obtain ⟨-, rfl, -⟩ := hlives.of_save hcounts hseen (.failed hheld)
        (Engine.perform_of_answers hanswer)
      exact .fail hrun rfl rfl
  | loading | recording | invoking | reloading | recordingDropped | recordingFailure =>
    cases hwritten

/-- Without a sweep, an instance that is not cancelled is written by a poll that claims it, or by a
run that goes by it as it is stored. -/
theorem Along.writer (hm : Along config s s₀ s₁ m) (hcounts : Counts s.history)
    (hunswept : m.isSweep = false) (hw : m.written? = some w)
    (hborn : (lastStored w.id s₀.history).isSome) (hkept : w.status ≠ .cancelled) :
    Writer config s₀ m w := by
  have hcounts₀ := (hm.counts hcounts).1
  by_cases hidle : m.isWork = false
  · exact absurd (hm.cancelled_of_idle hcounts hidle hw hborn).1 hkept
  · have hserves := hw
    unfold Moment.written? at hserves
    split at hserves
    · rename_i c answer hserved
      obtain ⟨n, -, hasks, hanswer⟩ := hm.step.of_served hm.history hserved
      have hc : c.IsSound config s₀.engine.store.time s₀.history :=
        (hm.reachable.isSound hcounts₀).calls n _ hasks
      have hpoll : m.poll? = (Stage.answered c answer).poll? := by rw [Moment.poll?, hserved]
      have hrun : m.run? = (Stage.answered c answer).run? := by rw [Moment.run?, hserved]
      rw [Moment.isWork, hserved] at hidle
      rw [Moment.isSweep, hserved] at hunswept
      cases c with
      | poll p => exact hm.writer_of_poll hcounts₀ hpoll hanswer hserves
      | run r => exact hm.writer_of_run hcounts₀ hrun hc hanswer hserves
      | pass c =>
        cases c with
        | polling worker p => exact hm.writer_of_poll hcounts₀ hpoll hanswer hserves
        | running worker r rest count => exact hm.writer_of_run hcounts₀ hrun hc hanswer hserves
      | sweep => cases hunswept
      | emit | dispatch | cancel => exact absurd rfl hidle
    · cases hserves

/-- Without a sweep, an instance is stored as running only when it is created, when it is claimed,
and when a run goes on with what it holds. -/
theorem Along.claimed_or_stepped (hm : Along config s s₀ s₁ m) (hcounts : Counts s.history)
    (hunswept : m.isSweep = false) (hw : m.written? = some w)
    (hborn : (lastStored w.id s₀.history).isSome) (hrunning : w.status = .running) :
    w.owner.isSome ∧ (m.claims w.id = true ∨ ∃ base step,
      m.run? = some (.answered (.saving base step) (.ok w)) ∧ base.id = w.id ∧ base.IsHeld ∧
        s₀.engine.store.find? w.id = some (base.kept s₀.engine.store.time)) := by
  have hkept : w.status ≠ .cancelled := by simp [hrunning]
  cases hm.writer hcounts hunswept hw hborn hkept with
  | claim hclaims _ _ hsaved => exact ⟨by rw [hsaved]; rfl, .inl hclaims⟩
  | save hrun hsaves hcur hsaved =>
    obtain ⟨-, hheld, p, -, hstep⟩ := hsaves
    subst hsaved
    have howned := (hstep.isHeld_next hheld hrunning).2
    exact ⟨howned, .inr ⟨_, _, hrun, hstep.next_eq.1.symm, hheld, hcur⟩⟩
  | fail _ _ hfailed =>
    rw [hrunning] at hfailed
    cases hfailed

/-- What is claimed has not ended, and is held by nobody before and by somebody thereafter. -/
theorem Along.of_claims (hm : Along config s s₀ s₁ m) (hcounts : Counts s.history)
    (hclaims : m.claims id = true) :
    ∃ cur i, s₀.engine.store.find? id = some cur ∧ cur.owner = none ∧ cur.isTerminal = false ∧
      m.find? id = some i ∧ i.owner.isSome := by
  have hclaimed : m.claimed? = some id := by simpa [Moment.claims] using hclaims
  obtain ⟨p, hpoll, -⟩ := Option.bind_eq_some_iff.mp hclaimed
  obtain ⟨c, answer, hserved, -⟩ := Moment.exists_served_of_poll? hpoll
  obtain ⟨n, hcall, -, -⟩ := hm.step.of_served hm.history hserved
  obtain ⟨-, cur, i, -, -, hcur, hfree, hlive, hi, howner, -⟩ :=
    hm.step.of_claimed hm.reachable (hm.counts hcounts).1 hm.history hcall hclaimed
  exact ⟨cur, i, hcur, hfree, hlive, hi, howner⟩

theorem Along.unclaimed_of_same (hm : Along config s s₀ s₁ m) (hcounts : Counts s.history)
    (hsame : s₀.engine.store.find? id = m.find? id) : m.claims id = false := by
  refine Bool.eq_false_iff.mpr fun hclaims => ?_
  obtain ⟨cur, i, hcur, hfree, -, hi, howned⟩ := hm.of_claims hcounts hclaims
  rw [hsame, hi] at hcur
  obtain rfl := Option.some.inj hcur
  rw [hfree] at howned
  cases howned

/-- What is not stored was never claimed. -/
theorem Reachable.countP_claims_eq_zero (hs : Reachable config s) (hcounts : Counts s.history)
    (hnone : s.engine.store.find? id = none) : s.history.countP (Moment.claims id) = 0 := by
  have hunborn := (hs.isSound hcounts).lives.unborn id hnone
  refine List.countP_eq_zero.mpr fun m hm hclaims => ?_
  obtain ⟨before, after, hsplit⟩ := List.append_of_mem hm
  obtain ⟨s₀, s₁, halong, -⟩ := hs.along hsplit
  obtain ⟨-, i, -, -, -, hi, -⟩ := halong.of_claims hcounts hclaims
  rw [(hunborn m hm).1] at hi
  cases hi

/-- An instance that is created has never been claimed, and has its whole walk ahead. -/
theorem Along.spends_of_created (hm : Along config s s₀ s₁ m) (hcounts : Counts s.history)
    {h' : List Moment} (hext : s₀.history <+: h') (hnames : NamesContent h') {p q : Plan}
    {e : Event} {now : Instant} {walk : List String}
    (hnone : s₀.engine.store.find? w.id = none) (hregistered : Registered s₀.history q)
    (hdraft : w.toDraft = e.draft q now) (hp : BoundTo h' p w) (hw : p.IsWalk w.context walk) :
    Spends config p walk (s₀.history ++ [m]) w := by
  have hq : Registered h' q := by
    obtain ⟨rest, rfl⟩ := hext
    exact hregistered.append rest
  have hnamed : q.graphId = w.graphId ∧ q.version = w.planVersion := by
    rw [hdraft]
    exact ⟨rfl, rfl⟩
  obtain ⟨htrigger, -⟩ := hnames p q hp.registered hq (hp.graphId.trans hnamed.1.symm)
    (hp.version.trans hnamed.2.symm)
  have hcursor : w.cursor = q.triggerId := by rw [hdraft]; rfl
  have hfree : w.owner = none := by rw [hdraft]; rfl
  have huntried : w.attempts = [] := by rw [hdraft]; rfl
  have hunclaimed : (s₀.history ++ [m]).countP (Moment.claims w.id) = 0 := by
    rw [countP_claims_append,
      hm.reachable.countP_claims_eq_zero (hm.counts hcounts).1 hnone, if_neg]
    intro hclaims
    obtain ⟨cur, -, hcur, -⟩ := hm.of_claims hcounts hclaims
    rw [hnone] at hcur
    cases hcur
  exact .born hw (hcursor.trans htrigger.symm) hfree huntried hunclaimed

/-- Without sweeps, no instance is claimed more often than its walk allows. -/
theorem Reachable.spends {h' : List Moment} {p : Plan} {walk : List String} {i : Instance}
    (hs : Reachable config s) (hext : s.history <+: h') (hcounts : Counts h')
    (hnames : NamesContent h') (hrunnable : ∀ q, Registered h' q → q.IsRunnable)
    (hunswept : Unswept h') (hi : s.engine.store.find? id = some i) (hp : BoundTo h' p i)
    (hw : p.IsWalk i.context walk) : Spends config p walk s.history i := by
  induction hs generalizing i with
  | fresh he =>
    rcases he.store with hempty | hempty <;>
    · simp only [System.fresh, hempty] at hi
      cases hi
  | @step s s' hs hstep ih =>
    obtain ⟨m, hhistory, hengine⟩ := hstep.history
    have hm : Along config s' s s' m := ⟨hs, hstep, hhistory, hengine.symm, .refl⟩
    have hcounts' : Counts s'.history := by
      obtain ⟨rest, rfl⟩ := hext
      exact hcounts.of_append
    have hcounts₀ := (hm.counts hcounts').1
    have hext₀ : s.history <+: h' := by
      refine List.IsPrefix.trans ?_ hext
      rw [hhistory]
      exact List.prefix_append _ _
    obtain ⟨hwritten, hothers⟩ := hm.written hcounts'
    rw [hm.find?_eq] at hi
    rw [hhistory]
    by_cases hwrites : ∃ w, m.written? = some w ∧ w.id = id
    · obtain ⟨w, hw', rfl⟩ := hwrites
      obtain ⟨hreplaces, hthere⟩ := hwritten w hw'
      obtain rfl := Option.some.inj (hi.symm.trans hthere)
      have howner (hborn : (lastStored w.id s.history).isSome) (hrunning : w.status = .running) :=
        (hm.claimed_or_stepped hcounts' (hunswept m (hext.subset (by simp [hhistory]))) hw' hborn
          hrunning).1
      rw [← hs.find?_eq_lastStored] at hreplaces howner
      generalize hcur : s.engine.store.find? w.id = cur at hreplaces howner
      cases hreplaces with
      | created hregistered hdraft =>
        exact (hm.spends_of_created hcounts' hext₀ hnames hcur hregistered hdraft
          (boundTo_kept.mp hp) hw).kept
      | @changed base next step k now hversion hchange =>
        have hid : next.id = base.id := hchange.next_eq.1
        have hcontext : next.context = base.context :=
          congrArg (fun o => o.2.2.1) hchange.next_eq.2
        have hbound : BoundTo h' p (base.kept s'.engine.store.time) := hchange.boundTo_iff.mp hp
        have hcur' : s.engine.store.find? base.id = some (base.kept s'.engine.store.time) := by
          rw [← hid]
          exact hcur
        have hw : p.IsWalk base.context walk := hcontext ▸ hw
        have hbase := (ih hext₀ hcur hbound hw).of_kept
        have hconsistent : base.Consistent p :=
          ((hs.life hcounts₀ hcur).consistent hext₀ hrunnable hnames.wellNamed hbound).of_kept
        have hnodes (q : Plan) (hq : BoundTo s.history q base) : q.nodes = p.nodes := by
          obtain ⟨rest, rfl⟩ := hext₀
          exact (hnames q p (hq.registered.append rest) hp.registered
            (hq.graphId.trans hbound.graphId.symm) (hq.version.trans hbound.version.symm)).2
        have hclaims (hclaimed : m.claims base.id = true) :
            base.owner = none ∧ next.owner.isSome := by
          obtain ⟨cur, i, hcur'', hfree, -, hi', howned⟩ := hm.of_claims hcounts' hclaimed
          obtain rfl := Option.some.inj (hcur'.symm.trans hcur'')
          rw [← hid] at hi'
          obtain rfl := Option.some.inj (hi'.symm.trans hthere)
          exact ⟨hfree, howned⟩
        have hspends := hchange.spends hw hbase hconsistent hnodes hclaims (howner rfl)
        exact ⟨hspends.spent, hspends.left⟩
    · have hsame := hothers id fun w hw hid => hwrites ⟨w, hw, hid⟩
      have hstored : s.engine.store.find? id = some i := by
        rw [hs.find?_eq_lastStored, ← hsame]
        exact hi
      refine (ih hext₀ hstored hp hw).snoc ?_
      rw [Instance.find?_id hstored]
      exact hm.unclaimed_of_same hcounts' (hstored.trans hi.symm)

end System
end WorkflowEngine

import WorkflowEngine.Proofs.System.Attendance
import WorkflowEngine.Proofs.System.Cancellation
import WorkflowEngine.Proofs.System.Listing
import WorkflowEngine.Proofs.System.Turns

/-!
# How long an instance goes on

A run is over after a bounded number of turns, and without sweeps an instance is claimed only so
many times in its life. So if it is polled again and again when everybody has come to rest, it ends.
-/
namespace WorkflowEngine

/-- The instance that a poll has just asked to claim. -/
def PollStage.asked? : PollStage → Option InstanceId
  | answered (.claiming _ current _ _) _ => some current.id
  | _ => none

def Moment.asked? (m : Moment) : Option InstanceId := m.poll?.bind PollStage.asked?

/-- A call has listed the instances that were due, and then asked to claim one of them. -/
def Polled (h : List Moment) (id : InstanceId) : Prop :=
  ∃ before l between m after n, h = before ++ l :: between ++ m :: after ∧ l.call = some n ∧
    l.listed?.isSome ∧ m.call = some n ∧ m.asked? = some id

/-- Rounds in which an instance that has not ended is polled, until everybody has come to rest. -/
inductive Rounds (id : InstanceId) : Nat → List Moment → Prop
  | start {h : List Moment} (hrests : AtRest h id) : Rounds id 0 h
  | round {k : Nat} {h later : List Moment} (hrounds : Rounds id k h)
      (hpolled : ∀ i, lastStored id h = some i → i.isTerminal = false → Polled later id)
      (hrests : AtRest (h ++ later) id) : Rounds id (k + 1) (h ++ later)

theorem Rounds.atRest {id : InstanceId} {k : Nat} {h : List Moment} (hrounds : Rounds id k h) :
    AtRest h id := by
  cases hrounds with
  | start hrests => exact hrests
  | round _ _ hrests => exact hrests

namespace System

variable {config : EngineConfig} {s s₀ s₁ : System} {m : Moment} {before later after : List Moment}
  {id : InstanceId} {i : Instance}

/-- What nobody holds stays as it is or ends, unless it is claimed. -/
theorem Along.waits_or_ends (hm : Along config s s₀ s₁ m) (hcounts : Counts s.history)
    (hunswept : m.isSweep = false) (hunclaimed : m.claims id = false)
    (hi : lastStored id s₀.history = some i) (hfree : i.owner = none) :
    m.find? id = some i ∨ ∃ j, m.find? id = some j ∧ j.isTerminal = true := by
  obtain ⟨hwritten, hothers⟩ := hm.written hcounts
  by_cases hwrites : ∃ w, m.written? = some w ∧ w.id = id
  · obtain ⟨w, hw, rfl⟩ := hwrites
    obtain ⟨hreplaces, hthere⟩ := hwritten w hw
    have hfound := (hm.reachable.find?_eq_lastStored w.id).trans hi
    have hborn : (lastStored w.id s₀.history).isSome := by rw [hi]; rfl
    rw [hi] at hreplaces
    cases hreplaces with
    | @changed base next step k now hversion hchange =>
      have hunheld (hheld : base.IsHeld) : False := by
        have hfree : base.owner = none := hfree
        simpa [hfree] using hheld.2
      cases hchange with
      | stepped _ hheld => exact (hunheld hheld).elim
      | failed hheld => exact (hunheld hheld).elim
      | released hheld => exact (hunheld hheld).elim
      | cancelled => exact .inr ⟨_, hthere, rfl⟩
      | claimed =>
        obtain ⟨-, hclaims | ⟨base', step, -, -, hheld, hfound'⟩⟩ :=
          hm.claimed_or_stepped hcounts hunswept hw hborn rfl
        · rw [hclaims] at hunclaimed
          cases hunclaimed
        · have howner := congrArg (·.owner) (Option.some.inj (hfound.symm.trans hfound'))
          have howner : base'.owner = none := howner.symm.trans hfree
          simpa [howner] using hheld.2
  · exact .inl ((hothers id fun w hw hid => hwrites ⟨w, hw, hid⟩).trans hi)

theorem Reachable.waits_or_ends (hs : Reachable config s) (hcounts : Counts s.history)
    (hunswept : Unswept s.history) (hsplit : s.history = before ++ later ++ after)
    (hunclaimed : ∀ m ∈ later, m.claims id = false) (hi : lastStored id before = some i)
    (hfree : i.owner = none) : lastStored id (before ++ later) = some i ∨
      ∃ j, lastStored id (before ++ later) = some j ∧ j.isTerminal = true := by
  induction later using List.reverseRecOn generalizing after with
  | nil => exact .inl (by rwa [List.append_nil])
  | append_singleton later m ih =>
    have hsplit' : s.history = (before ++ later) ++ m :: after := by simp [hsplit]
    obtain ⟨s₀, s₁, hm, hbefore⟩ := hs.along hsplit'
    rw [← List.append_assoc, lastStored_append]
    rcases ih hsplit' (fun m hm => hunclaimed m (List.mem_append_left _ hm)) with
      hwaits | ⟨j, hj, hended⟩
    · exact hm.waits_or_ends hcounts (hunswept m (by simp [hsplit]))
        (hunclaimed m (by simp)) (hbefore ▸ hwaits) hfree
    · rw [← hbefore, ← hm.reachable.find?_eq_lastStored] at hj
      exact .inr ⟨j, hm.find?_of_ended hcounts hj hended, hended⟩

theorem Reachable.lastStored_of_ended (hs : Reachable config s) (hcounts : Counts s.history)
    (hsplit : s.history = before ++ later ++ after) (hi : lastStored id before = some i)
    (hended : i.isTerminal = true) : lastStored id (before ++ later) = some i := by
  induction later using List.reverseRecOn generalizing after with
  | nil => rwa [List.append_nil]
  | append_singleton later m ih =>
    have hsplit' : s.history = (before ++ later) ++ m :: after := by simp [hsplit]
    obtain ⟨s₀, s₁, hm, hbefore⟩ := hs.along hsplit'
    have hcur := ih hsplit'
    rw [← hbefore, ← hm.reachable.find?_eq_lastStored] at hcur
    rw [← List.append_assoc, lastStored_append]
    exact hm.find?_of_ended hcounts hcur hended

/-- A poll asks for what was due when it was listed, and is granted it if it is stored as it was. -/
theorem Along.of_asked (hm : Along config s s₀ s₁ m) (hcounts : Counts s.history) {n : Nat}
    (hcall : m.call = some n) (hasked : m.asked? = some id) :
    ∃ current, current.id = id ∧ current.isTerminal = false ∧ ListedDue s₀.history n current ∧
      (s₀.engine.store.find? id = some current → current.owner = none → m.claims id = true) := by
  have hcounts₀ := (hm.counts hcounts).1
  obtain ⟨stage, hpoll, hasked⟩ := Option.bind_eq_some_iff.mp hasked
  obtain ⟨c, answer, hserved, hstage⟩ := Moment.exists_served_of_poll? hpoll
  obtain ⟨n', hcall', hasks, hanswer⟩ := hm.step.of_served hm.history hserved
  obtain rfl := Option.some.inj (hcall'.symm.trans hcall)
  have hc : c.IsSound config s₀.engine.store.time s₀.history :=
    (hm.reachable.isSound hcounts₀).calls n' _ hasks
  have hgoes := hm.reachable.goesBy hcounts₀ n'
  have key {p : Poll} {answer : p.request.Answer} (hpoll : m.poll? = some (.answered p answer))
      (hp : p.IsSound s₀.engine.store.time s₀.history)
      (hgoes : (PollStage.asking p).GoesBy s₀.history n')
      (hanswer : s₀.engine.Answers p.request answer s₁.engine)
      (hasked : (PollStage.answered p answer).asked? = some id) :
      ∃ current, current.id = id ∧ current.isTerminal = false ∧ ListedDue s₀.history n' current ∧
        (s₀.engine.store.find? id = some current → current.owner = none → m.claims id = true) := by
    cases p with
    | listing => cases hasked
    | claiming worker current rest claimed =>
      obtain rfl : current.id = id := Option.some.inj hasked
      refine ⟨current, rfl, (hp current (by simp)).2, hgoes current (by simp), ?_⟩
      intro hcur hfree
      have hgranted : (s₀.engine.store.claim s₀.engine.now current.id current.status .running
          (some worker)).1.isSome :=
        Store.claim_of_free hcur rfl hfree
      have hperform := Engine.perform_of_answers hanswer
      rcases hclaim : s₀.engine.store.claim s₀.engine.now current.id current.status .running
        (some worker) with ⟨granted, store⟩
      rw [hclaim] at hgranted
      simp only [Store.perform, hclaim] at hperform
      obtain ⟨rfl, -⟩ := Prod.mk.inj hperform
      obtain ⟨i, rfl⟩ := Option.isSome_iff_exists.mp hgranted
      simp [Moment.claims, Moment.claimed?, hpoll, PollStage.claimed?]
  cases c with
  | poll p =>
    obtain rfl := Option.some.inj hstage
    exact key hpoll hc (hgoes _ _ hasks rfl) hanswer hasked
  | pass c =>
    cases c with
    | polling worker p =>
      obtain rfl := Option.some.inj hstage
      exact key hpoll hc (hgoes _ _ hasks rfl) hanswer hasked
    | running => cases hstage
  | emit | dispatch | run | sweep | cancel => cases hstage

/-- What is polled is claimed in the meantime, or ends. -/
theorem Reachable.claimed_of_polled (hs : Reachable config s) (hcounts : Counts s.history)
    (hunswept : Unswept s.history) (hsplit : s.history = before ++ later ++ after)
    (hi : lastStored id before = some i) (hfree : i.owner = none) (hpolled : Polled later id) :
    (∃ j, lastStored id (before ++ later) = some j ∧ j.isTerminal = true) ∨
      before.countP (Moment.claims id) < (before ++ later).countP (Moment.claims id) := by
  by_cases hclaimed : ∃ m ∈ later, m.claims id = true
  · right
    rw [List.countP_append]
    exact Nat.lt_add_of_pos_right (List.countP_pos_iff.mpr hclaimed)
  · left
    have hunclaimed (m : Moment) (hm : m ∈ later) : m.claims id = false :=
      Bool.eq_false_iff.mpr fun hclaims => hclaimed ⟨m, hm, hclaims⟩
    obtain ⟨first, l, between, m, last, n, rfl, hlcall, hlisted, hmcall, hasked⟩ := hpolled
    have hsplit' : s.history = (before ++ (first ++ l :: between)) ++ m :: (last ++ after) := by
      simp [hsplit]
    obtain ⟨s₀, s₁, hm, hbefore⟩ := hs.along hsplit'
    obtain ⟨current, rfl, hlive, hdue, hgranted⟩ := hm.of_asked hcounts hmcall hasked
    obtain ⟨now, hnow⟩ := Option.isSome_iff_exists.mp hlisted
    have hthere := (hdue l (by simp [hbefore]) hlcall now hnow).1
    -- When it was listed the instance had not ended, so it was stored as before.
    have hlisting : s.history = before ++ (first ++ [l]) ++ (between ++ m :: last ++ after) := by
      simp [hsplit]
    have hlistedAs := hs.waits_or_ends hcounts hunswept hlisting
      (fun x hx => hunclaimed x (by simp at hx ⊢; tauto)) hi hfree
    rw [← List.append_assoc, lastStored_append, hthere] at hlistedAs
    obtain rfl : current = i := by
      rcases hlistedAs with hsame | ⟨j, hj, hended⟩
      · exact Option.some.inj hsame
      · obtain rfl := Option.some.inj hj
        rw [hlive] at hended
        cases hended
    rcases hs.waits_or_ends hcounts hunswept hsplit'
      (fun x hx => hunclaimed x (by simp at hx ⊢; tauto)) hi hfree with hwaits | ⟨j, hj, hended⟩
    · rw [← hbefore, ← hm.reachable.find?_eq_lastStored] at hwaits
      have hclaims := hgranted hwaits hfree
      rw [hunclaimed m (by simp)] at hclaims
      cases hclaims
    · have hending : s.history = before ++ (first ++ l :: between) ++ (m :: last) ++ after := by
        simp [hsplit]
      have hlast := hs.lastStored_of_ended hcounts hending hj hended
      exact ⟨j, by simpa using hlast, hended⟩

/-- In each round an instance that does not end is claimed. -/
theorem Reachable.le_claims (hs : Reachable config s)
    (hcolumn : s.engine.store.isTable = true → TableStore.fits s.history.length)
    (hnamed : WellNamed s.history) (hunswept : Unswept s.history) (hkept : Uncrashed s.history)
    (hcalm : ∀ n, ¬ WasStumped s.history n id) {k : Nat} {h : List Moment}
    (hrounds : Rounds id k h) (hsplit : s.history = h ++ after) (hi : lastStored id h = some i)
    (hlive : i.isTerminal = false) : k ≤ h.countP (Moment.claims id) := by
  have hcounts := hs.counts hcolumn
  induction hrounds generalizing after i with
  | start => exact Nat.zero_le _
  | @round k h later hrounds hpolled hrests ih =>
    have hsplit' : s.history = h ++ (later ++ after) := by simp [hsplit]
    obtain ⟨i₀, hi₀⟩ := Option.isSome_iff_exists.mp hrounds.atRest.stored
    have hlive₀ : i₀.isTerminal = false := by
      refine Bool.eq_false_iff.mpr fun hended => ?_
      have hlast := hs.lastStored_of_ended hcounts hsplit hi₀ hended
      obtain rfl := Option.some.inj (hlast.symm.trans hi)
      rw [hlive] at hended
      cases hended
    have hfree := hs.free_of_atRest hcolumn hnamed hunswept hkept hsplit' hcalm hrounds.atRest hi₀
    rcases hs.claimed_of_polled hcounts hunswept hsplit hi₀ hfree (hpolled i₀ hi₀ hlive₀) with
      ⟨j, hj, hended⟩ | hclaimed
    · obtain rfl := Option.some.inj (hj.symm.trans hi)
      rw [hlive] at hended
      cases hended
    · exact Nat.lt_of_le_of_lt (ih hsplit' hi₀ hlive₀) hclaimed

end System

/-- How long an instance of a plan goes on, on its walk. -/
structure EndsWithin (config : EngineConfig) (p : Plan) (walk : List String) (s : System)
    (i : Instance) : Prop where
  claims : s.history.countP (Moment.claims i.id) ≤
    1 + p.countOn .delay walk + (config.maxAttempts - 1) * p.countOn .action walk
  /-- If no step raises, then an instance about which everybody has come to rest has ended or is
  found by every poll from its time on. -/
  found : Uncrashed s.history → (∀ n, ¬ WasStumped s.history n i.id) → AtRest s.history i.id →
    i.isTerminal = true ∨ i.owner = none ∧ s.engine.store.FindsDue i
  /-- If it is polled as often as it may be claimed, it has ended. -/
  ended : Uncrashed s.history → (∀ n, ¬ WasStumped s.history n i.id) →
    ∀ k, Rounds i.id k s.history →
      1 + p.countOn .delay walk + (config.maxAttempts - 1) * p.countOn .action walk ≤ k →
      i.isTerminal = true

theorem System.Reachable.endsWithin {config : EngineConfig} {s : System} (hs : Reachable config s)
    (hcolumn : s.engine.store.isTable = true → TableStore.fits s.history.length)
    (hnames : NamesContent s.history) (hunswept : Unswept s.history) {p : Plan} {i : Instance}
    (hi : s.engine.store.find? i.id = some i) (hp : BoundTo s.history p i) {walk : List String}
    (hw : p.IsWalk i.context walk) : EndsWithin config p walk s i := by
  have hcounts := hs.counts hcolumn
  have hspends := hs.spends List.prefix_rfl hcounts hnames
    (fun q hq => hs.isRunnable hcounts hq) hunswept hi hp hw
  have hsplit : s.history = s.history ++ [] := (List.append_nil _).symm
  have hlast := (hs.find?_eq_lastStored i.id).symm.trans hi
  have hfree (hkept : Uncrashed s.history) (hcalm : ∀ n, ¬ WasStumped s.history n i.id)
      (hrests : AtRest s.history i.id) : i.owner = none :=
    hs.free_of_atRest hcolumn hnames.wellNamed hunswept hkept hsplit hcalm hrests hlast
  refine ⟨hspends.spent, fun hkept hcalm hrests => ?_, fun hkept hcalm k hrounds hk => ?_⟩
  · cases hended : i.isTerminal with
    | true => exact .inl rfl
    | false =>
      have hfree := hfree hkept hcalm hrests
      exact .inr ⟨hfree, Store.findsDue_of_free hi hended hfree⟩
  · by_contra hlive
    have hlive : i.isTerminal = false := Bool.eq_false_iff.mpr hlive
    obtain ⟨rest, -, hleft⟩ := hspends.left hlive
    rw [Instance.claimsLeft_of_free (hfree hkept hcalm hrounds.atRest), Plan.claimBound] at hleft
    have hclaims :=
      hs.le_claims hcolumn hnames.wellNamed hunswept hkept hcalm hrounds hsplit hlast hlive
    omega

/-- Every run of a compiled plan is over after at most one turn more than two for each node,
whatever it finds and is answered. Without sweeps, an instance of the plan is claimed at most once,
once more for each delay on its walk, and for each action there once less than it may be attempted.
So it ends if it keeps being polled. -/
theorem Plan.comesToEnd {config : EngineConfig} {g : Graph} {p : Plan}
    (hp : Plan.ofGraph config g = .ok p) :
    (∀ id worker rs, (Run.loading id worker :: rs).IsChain (Run.Next p) →
      (Run.loading id worker :: rs).countP Run.takesTurn ≤ 2 * p.nodes.length + 1 ∧
        (Run.loading id worker :: rs).length ≤ 8 * p.nodes.length + 1) ∧
    ∀ s i, System.Reachable config s →
      (s.engine.store.isTable = true → TableStore.fits s.history.length) →
      NamesContent s.history → Unswept s.history → s.engine.store.find? i.id = some i →
      BoundTo s.history p i → ∃ walk, p.IsWalk i.context walk ∧ EndsWithin config p walk s i := by
  have hrunnable := Plan.isRunnable_of_ofGraph hp
  refine ⟨fun id worker rs hchain => ⟨?_, ?_⟩, fun s i hs hcolumn hnames hunswept hi hbound => ?_⟩
  · have hturns := Run.countP_takesTurn_le (r := .loading id worker) hrunnable trivial hchain
    exact hturns.trans (Nat.le_succ _)
  · have hlength := Run.length_le (r := .loading id worker) hrunnable trivial hchain
    simp only [Run.turnsLeft, Run.requestsLeft] at hlength
    omega
  · obtain ⟨walk, hwalk⟩ := Plan.exists_walk hrunnable i.context
    exact ⟨walk, hwalk, hs.endsWithin hcolumn hnames hunswept hi hbound hwalk⟩

namespace Sample

/-- Nobody has been at work on an instance at some moment. -/
def IsIdle (id : InstanceId) (m : Moment) : Prop :=
  m.incident ≠ .crashed ∧ m.isSweep = false ∧ m.claims id = false ∧ m.stage?.bind Stage.run? = none

theorem run?_stageOf_of_isIdle {h : List Moment} {id : InstanceId}
    (hidle : ∀ m ∈ h, IsIdle id m) (n : Nat) : (stageOf n h).bind Stage.run? = none := by
  cases hlast : (h.filter (·.call = some n)).getLast? with
  | none => rw [stageOf, hlast]; rfl
  | some m =>
    rw [stageOf, hlast]
    exact (hidle m (List.mem_of_mem_filter (List.mem_of_getLast? hlast))).2.2.2

theorem atRest_of_isIdle {h : List Moment} {id : InstanceId} (hstored : (lastStored id h).isSome)
    (hidle : ∀ m ∈ h, IsIdle id m) : AtRest h id where
  stored := hstored
  fetched := by
    rintro worker ⟨before, m, after, i, rfl, hclaims, -⟩
    rw [(hidle m (by simp)).2.2.1] at hclaims
    cases hclaims
  quiet := by
    intro n r hr
    rw [run?_stageOf_of_isIdle hidle n] at hr
    cases hr

theorem not_wasStumped_of_isIdle {h : List Moment} {id : InstanceId}
    (hidle : ∀ m ∈ h, IsIdle id m) (n : Nat) : ¬ WasStumped h n id := by
  rintro ⟨before, x, after, stage, progress, rfl, -, -, hstage, -⟩
  rw [run?_stageOf_of_isIdle (fun m hm => hidle m (List.mem_append_left _ hm)) n] at hstage
  cases hstage

/-- In some run an instance has been created, and nobody has been at work on it. -/
theorem exists_created : ∃ s, System.Reachable default s ∧ s.engine = keeping 0 created ∧
    Registered s.history plan ∧ Keeps s.history ∧ ∀ m ∈ s.history, IsIdle "i1" m := by
  have hfresh : System.Reachable default
      (.fresh ⟨Registry.empty default, default, clock 0, .memory .empty, [], none⟩) :=
    .fresh ⟨rfl, rfl, .inl rfl⟩
  have hstarted := (hfresh.step (.register register_graph)).step (.start _ (.emit event "g"))
  simp only [System.aside, System.fresh] at hstarted
  rw [show Engine.mk registry default (clock 0) (.memory .empty) [] none = engine 0 .empty from rfl,
    start_emit] at hstarted
  have hcreates : (engine 0 .empty).Answers (Call.emit ⟨event.draft plan (clock 0)⟩).request
      (.ok (created, true)) (keeping 0 created) := rfl
  obtain ⟨s, hs, he, -, -, -, hhistory⟩ :=
    hstarted.served_resumed (n := 0) (c := .emit ⟨event.draft plan (clock 0)⟩) rfl hcreates
  simp only [System.turn, List.nil_append, List.cons_append] at hhistory
  refine ⟨s, hs, he, ?_, ?_, ?_⟩
  · exact ⟨_, by rw [hhistory]; exact List.mem_cons_self, rfl⟩
  · rw [hhistory]
    simp [Keeps]
  · intro m hm
    rw [hhistory] at hm
    simp only [List.mem_cons, List.not_mem_nil, or_false] at hm
    rcases hm with rfl | rfl | rfl | rfl <;> exact ⟨by simp, rfl, rfl, rfl⟩

/-- A run loads the instance that its worker has claimed, and leaves its trigger. -/
theorem next_loading : Run.Next plan (.loading "i1" "w")
    (.saving (held created "w" 0) (.advance (held created "w" 0) "t" (some "d") (clock 0) .triggered
      [("trigger", Choice.toValue TriggerKind.manual)])) := by
  refine ⟨_, .ok (held created "w" 0), ?_, ?_, begin_created 0⟩
  · intro q hq _ _
    obtain rfl := List.mem_singleton.mp hq
    exact ⟨rfl, fun _ => rfl⟩
  · intro i hi
    obtain rfl := Except.ok.inj hi
    exact ⟨rfl, rfl⟩

/-- Every run of the plan ends, and in some system an instance of it has just been created, which
every poll then finds. -/
theorem exists_comesToEnd : Plan.ofGraph default graph = .ok plan ∧
    (∃ rs, rs ≠ [] ∧ (Run.loading "i1" "w" :: rs).IsChain (Run.Next plan) ∧
      (Run.loading "i1" "w" :: rs).countP Run.takesTurn ≤ 2 * plan.nodes.length + 1) ∧
    ∃ s walk, System.Reachable default s ∧ Rounds "i1" 0 s.history ∧
      plan.IsWalk created.context walk ∧ EndsWithin default plan walk s created ∧
      s.engine.store.FindsDue created := by
  obtain ⟨hturns, hends⟩ := Plan.comesToEnd ofGraph_graph
  have hchain := List.isChain_cons_cons.mpr ⟨next_loading, List.isChain_singleton _⟩
  obtain ⟨s, hs, he, hplan, hkeeps, hidle⟩ := exists_created
  have hcolumn : s.engine.store.isTable = true → TableStore.fits s.history.length := by
    simp [he, keeping, engine, Store.isTable]
  have hfound : s.engine.store.find? created.id = some created := by
    rw [he]
    rfl
  have hrests : AtRest s.history created.id :=
    atRest_of_isIdle (by rw [← hs.find?_eq_lastStored, hfound]; rfl) hidle
  obtain ⟨walk, hwalk, hwithin⟩ := hends s created hs hcolumn (hs.namesContent hkeeps)
    (fun m hm => (hidle m hm).2.1) hfound ⟨hplan, rfl, rfl⟩
  refine ⟨ofGraph_graph, ⟨_, List.cons_ne_nil _ _, hchain, (hturns _ _ _ hchain).1⟩,
    s, walk, hs, .start hrests, hwalk, hwithin, ?_⟩
  rcases hwithin.found (fun m hm => (hidle m hm).1) (not_wasStumped_of_isIdle hidle) hrests with
    hended | ⟨-, hfinds⟩
  · cases hended
  · exact hfinds

end Sample
end WorkflowEngine

import WorkflowEngine.Proofs.System.Outcomes
import WorkflowEngine.Proofs.System.Rounds
import WorkflowEngine.Proofs.System.Tally

/-!
# How often an action is tried

An action is tried until it succeeds or fails for good, or until there are no attempts left. After
each failure before that the instance waits, and longer each time until the longest wait is reached.
-/
namespace WorkflowEngine

namespace EngineConfig

variable (config : EngineConfig) (o : Nat → Reply)

/-- A try, counted from one, is not followed by another one. -/
def IsLast (j : Nat) : Prop :=
  0 < j ∧ ((o j).isTransient = false ∨ j = config.maxAttempts)

instance : DecidablePred (config.IsLast o) := fun _ => inferInstanceAs (Decidable (_ ∧ _))

theorem exists_isLast : ∃ j, config.IsLast o j :=
  ⟨config.maxAttempts, config.maxAttempts_pos, .inr rfl⟩

/-- How often an action is tried if it has these replies. -/
def triesFor : Nat := Nat.find (config.exists_isLast o)

theorem monotone_backoff : Monotone config.backoff := by
  intro j k hjk
  rw [config.backoff_eq_min, config.backoff_eq_min]
  exact min_le_min_left _ (Nat.mul_le_mul_left _
    (Nat.pow_le_pow_right (by decide) (Nat.sub_le_sub_right hjk 1)))

end EngineConfig

/-- The replies to some tries are the first ones of a sequence. -/
def AnsweredBy (o : Nat → Reply) (ts : List (Invocation × Reply)) : Prop :=
  ∀ (j : Nat) (t : Invocation × Reply), ts[j]? = some t → t.2 = o (j + 1)

section
variable {config : EngineConfig} {o : Nat → Reply} {h : List Moment} {id : InstanceId}
  {ts : List (Invocation × Reply)} {v : Invocation} {reply : Reply}

theorem AnsweredBy.of_snoc (ho : AnsweredBy o (ts ++ [(v, reply)])) :
    AnsweredBy o ts ∧ reply = o (ts.length + 1) := by
  refine ⟨fun j t ht => ho j t ?_, ho ts.length _ List.getElem?_concat_length⟩
  rw [List.getElem?_append_left (List.getElem?_eq_some_iff.mp ht).1, ht]

theorem AnsweredBy.dropLast (ho : AnsweredBy o ts) : AnsweredBy o ts.dropLast := by
  rcases List.eq_nil_or_concat ts with rfl | ⟨first, t, rfl⟩
  · exact ho
  · rw [List.concat_eq_append] at ho ⊢
    rw [List.dropLast_concat]
    exact ho.of_snoc.1

theorem Failures.lt_triesFor (hfailures : Failures config h id ts) (ho : AnsweredBy o ts) :
    ts.length < config.triesFor o := by
  refine (Nat.lt_find_iff _ _).mpr fun j hj hlast => ?_
  obtain ⟨hpos, hreply | hmost⟩ := hlast
  · obtain ⟨k, rfl⟩ := Nat.exists_eq_add_of_lt hpos
    rw [Nat.zero_add] at hj hreply
    have ht := List.getElem?_eq_getElem (l := ts) (i := k) hj
    rw [← ho k _ ht, hfailures.transient _ (List.getElem_mem hj)] at hreply
    cases hreply
  · exact absurd hfailures.fewer (Nat.not_lt.mpr (hmost ▸ hj))

/-- A try after failures is the last one if it is not tried again. -/
theorem Failures.triesFor_eq (hfailures : Failures config h id ts)
    (ho : AnsweredBy o (ts ++ [(v, reply)]))
    (hlast : reply.isTransient = false ∨ config.maxAttempts ≤ ts.length + 1) :
    config.triesFor o = ts.length + 1 := by
  obtain ⟨hfirst, rfl⟩ := ho.of_snoc
  refine Nat.le_antisymm (Nat.find_min' _ ⟨Nat.succ_pos _, hlast.imp_right fun hmost => ?_⟩)
    (hfailures.lt_triesFor hfirst)
  exact Nat.le_antisymm hfailures.fewer hmost

end

/-- How an action is tried of an instance that one worker tends, if it has these replies. -/
structure Retries (config : EngineConfig) (o : Nat → Reply) (p : Plan) (node : String) (s : System)
    (i : Instance) : Prop where
  bounded : s.history.countP (Moment.invokes i.id node) ≤ config.triesFor o
  numbered : Numbered (tries i.id node s.history)
  /-- Before the action was tried again the instance waited. -/
  waited : ∀ j v reply, (tries i.id node s.history)[j]? = some (v, reply) →
    j + 1 < s.history.countP (Moment.invokes i.id node) →
    ∃ m ∈ s.history, ∃ w, m.find? i.id = some w ∧ w.Awaits config v
  /-- After the last try so far the instance waits for the next one, unless a worker holds it. -/
  waits : ∀ ts v reply, tries i.id node s.history = ts ++ [(v, reply)] →
    ts.length + 1 < config.triesFor o → i.owner = none → i.Awaits config v
  /-- Once the instance has left the action or ended, the last try has been made. -/
  settled : Visited s.history i.id node → i.cursor ≠ node ∨ i.isTerminal = true →
    s.history.countP (Moment.invokes i.id node) = config.triesFor o ∧
      i.attemptsFor node = config.triesFor o ∧ Settles p node (o (config.triesFor o)) i
  /-- If it is polled often enough, the instance ends. -/
  ends : ∃ walk, p.IsWalk i.context walk ∧ EndsWithin config p walk s i

section
variable {config : EngineConfig} {p : Plan} {time : Instant → Instant} {node : String}
  {h : List Moment} {i : Instance} {o : Nat → Reply}

/-- All tries but the last one have failed, and the instance has waited after them. -/
theorem Tallied.failures (htallied : Tallied config p time node h i) :
    Failures config h i.id (tries i.id node h).dropLast ∧ Numbered (tries i.id node h) := by
  unfold Tallied at htallied
  generalize tries i.id node h = ts at htallied ⊢
  rcases htallied with hdone | hunderway
  · cases hdone with
    | untried => exact ⟨.nil, .nil⟩
    | retrying hfailures =>
      rw [List.dropLast_concat]
      exact ⟨hfailures.of_append, hfailures.numbered⟩
    | settled hfailures hnumber =>
      rw [List.dropLast_concat]
      exact ⟨hfailures, hfailures.numbered.snoc _ hnumber⟩
  · cases hunderway with
    | intro hfailures hnumber =>
      rw [List.dropLast_concat]
      exact ⟨hfailures, hfailures.numbered.snoc _ hnumber⟩

/-- If nobody holds the instance, it waits for the next try unless the last one was made. -/
theorem Tallied.awaits (htallied : Tallied config p time node h i)
    (ho : AnsweredBy o (tries i.id node h)) {ts : List (Invocation × Reply)} {v : Invocation}
    {reply : Reply} (htries : tries i.id node h = ts ++ [(v, reply)])
    (hmore : ts.length + 1 < config.triesFor o) (hfree : i.owner = none) : i.Awaits config v := by
  unfold Tallied at htallied
  rw [htries] at ho
  generalize tries i.id node h = ts' at htallied htries
  rcases htallied with hdone | hunderway
  · cases hdone with
    | untried => simp at htries
    | retrying _ _ _ _ hwaits =>
      obtain ⟨-, heq⟩ := List.append_inj' htries rfl
      cases heq
      exact hwaits hfree
    | settled hfailures _ hlast =>
      obtain ⟨rfl, heq⟩ := List.append_inj' htries rfl
      cases heq
      exact absurd hmore (hfailures.triesFor_eq ho hlast).not_gt
  · exact (hunderway.owner_ne_none hfree).elim

/-- Once the instance has left the action or ended, the last try was made. -/
theorem Tallied.settles (htallied : Tallied config p time node h i)
    (ho : AnsweredBy o (tries i.id node h)) (hvisited : Visited h i.id node)
    (hleft : i.cursor ≠ node ∨ i.isTerminal = true) :
    (tries i.id node h).length = config.triesFor o ∧ i.attemptsFor node = config.triesFor o ∧
      Settles p node (o (config.triesFor o)) i := by
  have hgone (hcursor : i.cursor = node) (hlive : i.isTerminal = false) : False := by
    rcases hleft with hne | hended
    · exact hne hcursor
    · rw [hlive] at hended
      cases hended
  unfold Tallied at htallied
  generalize tries i.id node h = ts at htallied ho ⊢
  rcases htallied with hdone | hunderway
  · cases hdone with
    | untried _ hthere => exact (hgone (hthere hvisited).1 (hthere hvisited).2).elim
    | retrying _ _ hcursor hlive => exact (hgone hcursor hlive).elim
    | settled hfailures _ hlast hattempts hsettles =>
      have htimes := hfailures.triesFor_eq ho hlast
      rw [htimes, List.length_append, List.length_singleton, ← ho.of_snoc.2]
      exact ⟨rfl, hattempts, hsettles⟩
  · cases hunderway with
    | intro _ _ hnode hi hheld hfor =>
      subst hi
      exact (hgone (hfor.node.symm.trans hnode) hheld.isTerminal).elim

end

namespace System

variable {config : EngineConfig} {s : System} {worker : String} {i : Instance} {p : Plan}
  {node : String} {o : Nat → Reply}

/-- One worker that polls and runs an instance invokes an action until it succeeds or fails for
good, or until there are no attempts left. After each failure before that the instance waits, no
shorter than the time before. In the end it has failed for the last reason, or has gone on. -/
theorem Reachable.retries (hs : Reachable config s)
    (hcolumn : s.engine.store.isTable = true → TableStore.fits s.history.length)
    (htended : Tended s.history i.id worker) (hi : s.engine.store.find? i.id = some i)
    (hp : BoundTo s.history p i) (haction : ∃ kind, p.IsAction node kind)
    (ho : AnsweredBy o (tries i.id node s.history)) (houtcome : ∀ j value, o j ≠ .strange value)
    (hdates : ∀ t ∈ tries i.id node s.history, t.1.attempt < config.maxAttempts →
      (t.1.retryTime? config).isSome) :
    Retries config o p node s i ∧ Monotone config.backoff ∧
      ∀ j, config.backoff j = min config.backoffCap (config.backoffBase * Nat.pow 2 (j - 1)) ∧
        config.backoffBase ≤ config.backoff j ∧ config.backoff j ≤ config.backoffCap := by
  have hcounts := hs.counts hcolumn
  have hrunnable := hs.isRunnable hcounts hp.registered
  have hcalm : ∀ t ∈ tries i.id node s.history, ¬ t.1.Stumps config t.2 := by
    rintro ⟨v, reply⟩ ht hstumps
    cases hstumps with
    | strange value =>
      obtain ⟨j, hj⟩ := List.mem_iff_getElem?.mp ht
      exact houtcome _ value (ho j _ hj).symm
    | retry _ hmore hfar => simpa [hfar] using hdates _ ht hmore
  have htallied := hs.tallied hcolumn htended hi hp haction hcalm
  obtain ⟨hfailures, hnumbered⟩ := htallied.failures
  obtain ⟨walk, hwalk⟩ := Plan.exists_walk hrunnable i.context
  have hends := hs.endsWithin hcolumn (hs.namesContent htended.plans) htended.unswept hi hp hwalk
  refine ⟨?_, config.monotone_backoff, fun j => ⟨config.backoff_eq_min j,
    config.backoffBase_le_backoff j, config.backoff_le_cap j⟩⟩
  refine ⟨?_, hnumbered, fun j v reply ht hlt => ?_,
    fun ts v reply htries hmore hfree => htallied.awaits ho htries hmore hfree,
    fun hvisited hleft => ?_, walk, hwalk, hends⟩
  · have hlt := hfailures.lt_triesFor ho.dropLast
    rw [List.length_dropLast, length_tries] at hlt
    omega
  · rw [← length_tries] at hlt
    refine hfailures.waited (v, reply) (List.mem_iff_getElem?.mpr ⟨j, ?_⟩)
    rw [List.getElem?_dropLast, if_pos (by omega), ht]
  · rw [← length_tries]
    exact htallied.settles ho hvisited hleft

/-- An instance that is not cancelled has never been. -/
theorem Reachable.uncancelled (hs : Reachable config s) (hcounts : Counts s.history)
    {id : InstanceId} (hi : s.engine.store.find? id = some i) (hkept : i.status ≠ .cancelled)
    {m : Moment} (hm : m ∈ s.history) {j : Instance} (hj : m.find? id = some j) :
    j.status ≠ .cancelled := by
  intro hcancelled
  obtain ⟨before, after, hsplit⟩ := List.append_of_mem hm
  have hended : j.isTerminal = true := by
    simp [Instance.isTerminal, hcancelled, Status.isTerminal]
  have hsplit' : s.history = before ++ [m] ++ after ++ [] := by simp [hsplit]
  have hlast := hs.lastStored_of_ended hcounts hsplit' ((lastStored_append id before m).trans hj)
    hended
  rw [← List.append_nil (before ++ [m] ++ after), ← hsplit', ← hs.find?_eq_lastStored, hi] at hlast
  obtain rfl := Option.some.inj hlast
  exact hkept hcancelled

end System

namespace Sample

/-- The instance when the action is tried for the second time. -/
def again : Instance :=
  { held retrying "w" 90 with dispatching := some "a", resumeAt := none, version := .count 8 }

def finished : Instance :=
  { again with
    attempts := [("a", 2)]
    dispatching := none
    status := .succeeded
    owner := none
    completedAt := some (clock 90)
    version := .count 9 }

def resending : Invocation :=
  invocation again "a" .sendWhatsapp
    ⟨[("template", .null), ("message", .text "Hello"), ("session_id", .null)], []⟩ none (clock 90)

def busy : Reply := .result (.failure "busy" false)

theorem find?_keeping (seconds : Int) (i : Instance) :
    (keeping seconds i).store.find? i.id = some i := by
  change Instance.find? [i] i.id = some i
  simp [Instance.find?]

/-- What has come of the sample by some time: one worker has tended the instance, and tried the
action. -/
structure Driven (s : System) (seconds : Int) (i : Instance) (ts : List (Invocation × Reply)) :
    Prop where
  reachable : System.Reachable default s
  engine : s.engine = keeping seconds i
  registered : Registered s.history plan
  tended : Tended s.history "i1" "w"
  tries_eq : tries "i1" "a" s.history = ts

namespace Driven

variable {s s' : System} {seconds seconds' : Int} {i i' : Instance}
  {ts ts' : List (Invocation × Reply)} {n : Nat} {m : Moment}

theorem snoc (hs : Driven s seconds i ts) (hs' : System.Reachable default s')
    (hhistory : s'.history = s.history ++ [m]) (he : s'.engine = keeping seconds' i')
    (hm : m.engine = s'.engine) (hlive : i'.status ≠ .cancelled) (hunswept : m.isSweep = false)
    (hkept : m.incident ≠ .crashed) (hplans : ∀ graphId, m.incident ≠ .unregistered graphId)
    (hclaimed : ∀ w, m.begun? = some ("i1", w) → w = "w" ∧ Unfetched s.history "i1" "w")
    (hts : ts ++ (m.tryOf? "i1" "a").toList = ts') : Driven s' seconds' i' ts' where
  reachable := hs'
  engine := he
  registered := hhistory ▸ hs.registered.append _
  tended := by
    rw [hhistory]
    refine hs.tended.snoc hunswept hkept hplans (fun j hj => ?_) hclaimed
    rw [Moment.find?, hm, he] at hj
    obtain rfl := List.mem_singleton.mp (List.mem_of_find?_eq_some hj)
    exact hlive
  tries_eq := by rw [hhistory, tries_append, hs.tries_eq, hts]

theorem tick (hs : Driven s seconds i ts) (hlive : i.status ≠ .cancelled) (seconds' : Int) :
    ∃ s', Driven s' seconds' i ts := by
  refine ⟨_, hs.snoc (hs.reachable.step (.tick s (clock seconds'))) rfl ?_ rfl hlive rfl (by simp)
    (by simp) (fun _ h => by cases h) (List.append_nil _)⟩
  rw [System.aside, hs.engine]
  rfl

/-- A call is served, and goes on at once. -/
theorem turn (hs : Driven s seconds i ts) {c : Call} (hasks : s.calls n = some (.asking c))
    {answer : c.request.Answer}
    (hanswer : (keeping seconds i).Answers c.request answer (keeping seconds i'))
    (hlive : i'.status ≠ .cancelled)
    (hunswept : (Moment.mk (some n) (.served c answer) (keeping seconds i')).isSweep = false)
    (hclaimed : ∀ w, (Moment.mk (some n) (.served c answer) (keeping seconds i')).begun? =
      some ("i1", w) → w = "w" ∧ Unfetched s.history "i1" "w")
    (hts : ts ++ ((Moment.mk (some n) (.served c answer) (keeping seconds i')).tryOf?
      "i1" "a").toList = ts') :
    ∃ s', Driven s' seconds i' ts' ∧
      s'.calls n = Stage.next? (c.resume (keeping seconds i').env answer) ∧
      s'.history = s.history ++ [⟨some n, .served c answer, keeping seconds i'⟩] ++
        [⟨some n, .resumed (c.resume (keeping seconds i').env answer), keeping seconds i'⟩] := by
  rw [← hs.engine] at hanswer
  have hserved := hs.snoc (hs.reachable.step (.serve hasks hanswer)) rfl rfl rfl hlive hunswept
    (by simp) (by simp) hclaimed hts
  exact ⟨_, hserved.snoc (hserved.reachable.step (.resume (Function.update_self n _ _))) rfl rfl rfl
    hlive rfl (by simp) (by simp) (fun _ h => by cases h) (List.append_nil _),
    Function.update_self n _ _, rfl⟩

end Driven

/-- A run of the instance goes on undisturbed to its end, with some tries of the action. -/
inductive Goes (seconds : Int) : Instance → Run → List (Invocation × Reply) → Instance → Prop
  | ends {i i' : Instance} {r : Run} {result : Outcome Instance} (answer : r.request.Answer)
      (hanswer : (keeping seconds i).Answers r.request answer (keeping seconds i'))
      (hlive : i'.status ≠ .cancelled) (hbegun : (RunStage.answered r answer).begun? = none)
      (htry : (RunStage.answered r answer).tried? = none)
      (hresume : r.resume (keeping seconds i').env answer = .ended result) :
      Goes seconds i r [] i'
  | goesOn {i i' i'' : Instance} {r r' : Run} {ts : List (Invocation × Reply)}
      (answer : r.request.Answer)
      (hanswer : (keeping seconds i).Answers r.request answer (keeping seconds i'))
      (hlive : i'.status ≠ .cancelled) (hbegun : (RunStage.answered r answer).begun? = none)
      (htry : (RunStage.answered r answer).tried? = none)
      (hresume : r.resume (keeping seconds i').env answer = .waiting r')
      (hrest : Goes seconds i' r' ts i'') : Goes seconds i r ts i''
  | invokes {i i' : Instance} {v : Invocation} {r : Run} {ts : List (Invocation × Reply)}
      (reply : Reply) (hlive : i.status ≠ .cancelled) (hid : v.base.id = "i1")
      (hnode : v.node = "a")
      (hresume : (Run.invoking v).resume (keeping seconds i).env reply = .waiting r)
      (hrest : Goes seconds i r ts i') : Goes seconds i (.invoking v) ((v, reply) :: ts) i'

namespace Driven

variable {s : System} {seconds : Int} {i i' : Instance} {ts ts' : List (Invocation × Reply)}
  {n : Nat} {r : Run}

/-- A run in a pass is served, and goes on at once. -/
theorem turn_of_run (hs : Driven s seconds i ts)
    (hasks : s.calls n = some (.asking (.pass (.running "w" r [] 1)))) {answer : r.request.Answer}
    (hanswer : (keeping seconds i).Answers r.request answer (keeping seconds i'))
    (hlive : i'.status ≠ .cancelled)
    (hclaimed : ∀ w, (RunStage.answered r answer).begun? = some ("i1", w) →
      w = "w" ∧ Unfetched s.history "i1" "w")
    (hts : ts ++ ((RunStage.answered r answer).tried?.filter fun t =>
      t.1.base.id == "i1" && t.1.node == "a").toList = ts') :
    ∃ s', Driven s' seconds i' ts' ∧ ∀ r', r.resume (keeping seconds i').env answer = .waiting r' →
      s'.calls n = some (.asking (.pass (.running "w" r' [] 1))) := by
  obtain ⟨s', hs', hcalls, -⟩ := hs.turn hasks hanswer hlive rfl hclaimed hts
  refine ⟨s', hs', fun r' hresume => ?_⟩
  rw [hcalls, Pass.resume_of_waiting hresume]
  rfl

theorem goes (hs : Driven s seconds i ts)
    (hasks : s.calls n = some (.asking (.pass (.running "w" r [] 1))))
    (hgoes : Goes seconds i r ts' i') : ∃ s', Driven s' seconds i' (ts ++ ts') := by
  induction hgoes generalizing s ts with
  | ends answer hanswer hlive hbegun htry =>
    obtain ⟨s', hs', -⟩ := hs.turn_of_run hasks hanswer hlive (by simp [hbegun]) rfl
    rw [htry] at hs'
    exact ⟨s', hs'⟩
  | goesOn answer hanswer hlive hbegun htry hresume hrest ih =>
    obtain ⟨s', hs', hnext⟩ := hs.turn_of_run hasks hanswer hlive (by simp [hbegun]) rfl
    rw [htry, Option.filter_none, Option.toList_none, List.append_nil] at hs'
    exact ih hs' (hnext _ hresume)
  | @invokes i _ v _ _ reply hlive hid hnode hresume hrest ih =>
    have htry : ((RunStage.answered (.invoking v) reply).tried?.filter fun t =>
        t.1.base.id == "i1" && t.1.node == "a") = some (v, reply) :=
      Option.filter_eq_some_iff.mpr ⟨rfl, by simp [hid, hnode]⟩
    have hanswer : (keeping seconds i).Answers (Run.invoking v).request reply (keeping seconds i) :=
      rfl
    obtain ⟨s', hs', hnext⟩ := hs.turn_of_run (r := .invoking v) hasks hanswer hlive
      (fun _ h => by cases h) (congrArg (fun t => ts ++ t.toList) htry)
    obtain ⟨s'', hs''⟩ := ih hs' (hnext _ hresume)
    exact ⟨s'', by rwa [List.append_assoc] at hs''⟩

/-- A worker polls the instance and runs it. -/
theorem round (hs : Driven s seconds i ts) (hlive : i.status ≠ .cancelled) (hid : i.id = "i1")
    (hdue : i.isDue (clock seconds) = true) (hcomparable : Instance.areComparable [i] = true)
    (hclaim : (keeping seconds i).Answers (.store (.claim i.id i.status .running (some "w")))
      (.ok (some (held i "w" seconds))) (keeping seconds (held i "w" seconds)))
    (hload : (keeping seconds (held i "w" seconds)).Answers (.store (.load i.id))
      (.ok (held i "w" seconds)) (keeping seconds (held i "w" seconds)))
    (hbegin : Run.begin (keeping seconds (held i "w" seconds)).env (held i "w" seconds) =
      .waiting r)
    (hgoes : Goes seconds (held i "w" seconds) r ts' i') :
    ∃ s', Driven s' seconds i' (ts ++ ts') := by
  have hstart : (Opening.pass "w" none).start s.engine.env =
      .waiting (.pass (.polling "w" (.listing "w" (clock seconds) 50))) := by
    rw [hs.engine]
    rfl
  have hstarted := hs.snoc (hs.reachable.step (.start s (.pass "w" none))) rfl hs.engine rfl hlive
    rfl (by simp) (by simp) (fun _ h => by cases h) (List.append_nil _)
  rw [hstart] at hstarted
  obtain ⟨s₁, hs₁, hasks₁, -⟩ := hstarted.turn (n := s.begun) (Function.update_self _ _ _)
    (listDue_eq hdue hcomparable) hlive rfl (fun _ h => by cases h) (List.append_nil _)
  have hlisted : s₁.calls s.begun =
      some (.asking (.pass (.polling "w" (.claiming "w" i [] [])))) := by
    rw [hasks₁]
    simp only [Call.resume, Pass.resume, listing_resume hdue]
    rfl
  have hrunning : (held i "w" seconds).status ≠ .cancelled := show Status.running ≠ _ by decide
  obtain ⟨s₂, hs₂, hasks₂, hhistory⟩ := hs₁.turn hlisted hclaim hrunning rfl
    (fun _ h => by cases h) (List.append_nil _)
  have hclaimed : Unfetched s₂.history i.id "w" := by
    rw [List.append_assoc] at hhistory
    refine ⟨s₁.history, _, _, held i "w" seconds, hhistory, ?_, ?_, rfl, ?_⟩
    · exact beq_self_eq_true (some i.id)
    · exact find?_keeping seconds (held i "w" seconds)
    · simp [Moment.begun?, Moment.run?]
  obtain ⟨s₃, hs₃, hnext⟩ := hs₂.turn_of_run (r := .loading i.id "w") hasks₂ hload hrunning
    (fun w h => ⟨(Prod.mk.inj (Option.some.inj h)).2.symm, hid ▸ hclaimed⟩) (List.append_nil _)
  exact hs₃.goes (hnext r hbegin) hgoes

end Driven

theorem exists_driven : ∃ s, Driven s 0 created [] := by
  obtain ⟨s, hs, he, hplan, hkeeps, hidle⟩ := exists_created
  have hcounts := hs.counts (by simp [he, keeping, engine, Store.isTable])
  have hquiet {m : Moment} (hm : m ∈ s.history) : m.run? = none := by
    cases hrun : m.run? with
    | none => rfl
    | some r =>
      have hstage := (hidle m hm).2.2.2
      rw [Moment.stage?_of_run? hrun] at hstage
      cases hstage
  have hfound : s.engine.store.find? "i1" = some created := by
    rw [he]
    rfl
  refine ⟨s, hs, he, hplan, ⟨fun m hm => (hidle m hm).2.1, fun m hm => (hidle m hm).1, hkeeps,
    fun m hm i hi => hs.uncancelled hcounts hfound (by decide) hm hi, ?_⟩, ?_⟩
  · rintro before m after w hsplit hbegun
    rw [Moment.begun?, hquiet (by simp [hsplit])] at hbegun
    cases hbegun
  · refine List.filterMap_eq_nil_iff.mpr fun m hm => ?_
    rw [Moment.tryOf?, Moment.tried?, hquiet hm]
    rfl

theorem goes_created : Goes 0 (held created "w" 0)
    (.saving (held created "w" 0) (.advance (held created "w" 0) "t" (some "d") (clock 0) .triggered
      [("trigger", Choice.toValue TriggerKind.manual)])) [] asleep := by
  refine .goesOn (.ok left) rfl (by decide) rfl rfl rfl ?_
  refine .goesOn () (.inl rfl) (by decide) rfl rfl proceed_left ?_
  refine .goesOn (.ok asleep) rfl (by decide) rfl rfl rfl ?_
  exact .ends () (.inl rfl) (by decide) rfl rfl rfl

theorem goes_asleep : Goes 60 (held asleep "w" 60) (.saving (held asleep "w" 60) intent)
    [(sending, busy)] retrying := by
  refine .goesOn (.ok intending) rfl (by decide) rfl rfl rfl ?_
  refine .goesOn () (.inl rfl) (by decide) rfl rfl proceed_intending ?_
  refine .invokes busy (by decide) rfl rfl rfl ?_
  refine .goesOn (.ok retrying) rfl (by decide) rfl rfl rfl ?_
  exact .ends () (.inl rfl) (by decide) rfl rfl rfl

theorem begin_retrying :
    Run.begin (keeping 90 (held retrying "w" 90)).env (held retrying "w" 90) =
      .waiting (.saving (held retrying "w" 90)
        (.intend (held retrying "w" 90) "a" .sendWhatsapp (clock 90))) := by
  have hrecover : recover (keeping 90 (held retrying "w" 90)).env (held retrying "w" 90) =
    .ok none := rfl
  rw [Run.begin, hrecover]
  simp only [Run.proceed]
  rw [visit, keeping, planNode_eq rfl rfl]
  rfl

theorem proceed_again :
    Run.proceed (keeping 90 again).env again = .waiting (.invoking resending) := by
  rw [Run.proceed, visit, keeping, planNode_eq rfl rfl]
  rfl

theorem goes_retrying : Goes 90 (held retrying "w" 90)
    (.saving (held retrying "w" 90) (.intend (held retrying "w" 90) "a" .sendWhatsapp (clock 90)))
    [(resending, .result (.success []))] finished := by
  refine .goesOn (.ok again) rfl (by decide) rfl rfl rfl ?_
  refine .goesOn () (.inl rfl) (by decide) rfl rfl proceed_again ?_
  refine .invokes (.result (.success [])) (by decide) rfl rfl rfl ?_
  refine .goesOn (.ok finished) rfl (by decide) rfl rfl rfl ?_
  exact .ends () (.inl rfl) (by decide) rfl rfl rfl

theorem exists_finished :
    ∃ s, Driven s 90 finished [(sending, busy), (resending, .result (.success []))] := by
  obtain ⟨s₀, hs₀⟩ := exists_driven
  obtain ⟨s₁, hs₁⟩ := hs₀.round (by decide) rfl rfl rfl rfl rfl (begin_created 0) goes_created
  obtain ⟨s₂, hs₂⟩ := hs₁.tick (by decide) 60
  obtain ⟨s₃, hs₃⟩ := hs₂.round (by decide) rfl rfl rfl rfl rfl begin_asleep goes_asleep
  obtain ⟨s₄, hs₄⟩ := hs₃.tick (by decide) 90
  exact hs₄.round (by decide) rfl rfl rfl rfl rfl begin_retrying goes_retrying

/-- The action is busy once, and then succeeds. -/
def answers (j : Nat) : Reply := if j = 1 then busy else .result (.success [])

/-- In some run the action fails once. The instance waits for half a minute, and the action then
succeeds. -/
theorem exists_retries : ∃ s, System.Reachable default s ∧
    (s.engine.store.isTable = true → TableStore.fits s.history.length) ∧
    Tended s.history "i1" "w" ∧ s.engine.store.find? "i1" = some finished ∧
    BoundTo s.history plan finished ∧ plan.IsAction "a" .sendWhatsapp ∧
    AnsweredBy answers (tries "i1" "a" s.history) ∧ (∀ j value, answers j ≠ .strange value) ∧
    (∀ t ∈ tries "i1" "a" s.history, t.1.attempt < (default : EngineConfig).maxAttempts →
      (t.1.retryTime? default).isSome) ∧
    Retries default answers plan "a" s finished ∧
    s.history.countP (Moment.invokes "i1" "a") = EngineConfig.triesFor default answers ∧
    EngineConfig.triesFor default answers = 2 ∧
    (∃ m ∈ s.history, ∃ w, m.find? "i1" = some w ∧ w.Awaits default sending) ∧
    finished.status = .succeeded := by
  obtain ⟨s, hs⟩ := exists_finished
  have hcolumn : s.engine.store.isTable = true → TableStore.fits s.history.length := by
    simp [hs.engine, keeping, engine, Store.isTable]
  have hfound : s.engine.store.find? finished.id = some finished := by
    rw [hs.engine]
    exact find?_keeping 90 finished
  have hbound : BoundTo s.history plan finished := ⟨hs.registered, rfl, rfl⟩
  have haction : plan.IsAction "a" .sendWhatsapp := ⟨_, rfl, rfl⟩
  have htries : tries finished.id "a" s.history =
    [(sending, busy), (resending, .result (.success []))] := hs.tries_eq
  have ho : AnsweredBy answers (tries finished.id "a" s.history) := by
    rw [htries]
    intro j t ht
    rcases j with _ | _ | j <;> simp at ht <;> rw [← ht] <;> rfl
  have houtcome (j : Nat) (value : Value) : answers j ≠ .strange value := by
    unfold answers
    split <;> simp [busy]
  have hdates : ∀ t ∈ tries finished.id "a" s.history,
      t.1.attempt < (default : EngineConfig).maxAttempts → (t.1.retryTime? default).isSome := by
    rw [htries]
    simp only [List.mem_cons, List.not_mem_nil, or_false]
    rintro t (rfl | rfl) - <;> rfl
  obtain ⟨hretries, -, -⟩ := hs.reachable.retries hcolumn hs.tended hfound hbound
    ⟨_, haction⟩ ho houtcome hdates
  have hcalls : s.history.countP (Moment.invokes finished.id "a") = 2 := by
    rw [← length_tries, htries]
    rfl
  have hvisited : Visited s.history finished.id "a" :=
    visited_of_lastStored ((hs.reachable.find?_eq_lastStored _).symm.trans hfound)
  obtain ⟨htimes, -, -⟩ := hretries.settled hvisited (.inr rfl)
  have hwaited := hretries.waited 0 sending busy (by rw [htries]; rfl) (by rw [hcalls]; decide)
  exact ⟨s, hs.reachable, hcolumn, hs.tended, hfound, hbound, haction, ho, houtcome, hdates,
    hretries, htimes, htimes.symm.trans hcalls, hwaited, rfl⟩

end Sample
end WorkflowEngine

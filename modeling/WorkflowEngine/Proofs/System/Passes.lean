import WorkflowEngine.Proofs.System.Running

/-!
# Passes of a worker that works alone

A pass claims instances and runs them one after another. While no other worker is at work, all that
it has claimed is held for it until its turn comes. After its turn an instance is at rest, or it has
stumped the engine: then the worker still holds it.
-/
namespace WorkflowEngine

/-- A call went on from an answer by which an instance stumps the engine. -/
def WasStumped (h : List Moment) (n : Nat) (id : InstanceId) : Prop :=
  ∃ before x after stage progress, h = before ++ x :: after ∧ x.call = some n ∧
    x.incident = .resumed progress ∧ (stageOf n before).bind Stage.run? = some stage ∧
    stage.Stumped x.engine.env id

/-- A call began as a pass of a worker, and no other call has been at work since. -/
def WorksAlone (h : List Moment) (n : Nat) (worker : String) : Prop :=
  ∃ before b since time progress, h = before ++ b :: since ∧ b.call = some n ∧
    b.incident = .began (.pass worker time) progress ∧
    ∀ m ∈ since, m.call ≠ some n → m.isWork = false

def Poll.worker : Poll → String
  | listing worker _ _ | claiming worker _ _ _ => worker

/-- What a poll has claimed so far. -/
def PollStage.gathered : PollStage → List InstanceId
  | asking (.listing _ _ _) | answered (.listing _ _ _) _ => []
  | asking (.claiming _ _ _ claimed) => claimed
  | answered (.claiming worker current rest claimed) answer =>
    claimed ++ (answered (.claiming worker current rest claimed) answer).claimed?.toList

/-- A pass holds what it has claimed so far, and has run nothing yet. -/
structure Gathered (time : Instant → Instant) (h : List Moment) (n : Nat) (worker : String)
    (ids : List InstanceId) : Prop where
  nodup : ids.Nodup
  complete : ∀ id, ClaimedBy h n id → id ∈ ids
  pending : ∀ id ∈ ids, Pending time h worker id
  calm : ∀ id, ¬ WasStumped h n id

/-- A pass has left behind what it has claimed, but for some instances that it still has to run. -/
structure Awaits (time : Instant → Instant) (h : List Moment) (n : Nat) (worker : String)
    (ids : List InstanceId) : Prop where
  nodup : ids.Nodup
  calm : ∀ id ∈ ids, ¬ WasStumped h n id
  settled : ∀ id, ClaimedBy h n id → id ∉ ids →
    LeftBehind time h n worker id (WasStumped h n id)

/-- What a pass goes by while it runs one instance and others follow. -/
def RunStage.Works (time : Instant → Instant) (h : List Moment) (n : Nat) (worker : String)
    (rest : List InstanceId) (stage : RunStage) : Prop :=
  (∀ id ∈ rest, Pending time h worker id) ∧
    ∃ id, Awaits time h n worker (id :: rest) ∧ stage.Follows time h n worker id

/-- What a pass of a worker goes by that works alone. -/
def Stage.Works (time : Instant → Instant) (h : List Moment) (n : Nat) (worker : String) :
    Stage → Prop
  | asking (.pass (.polling worker' p)) =>
    worker' = worker ∧ p.worker = worker ∧ Gathered time h n worker (PollStage.asking p).gathered
  | answered (.pass (.polling worker' p)) answer =>
    worker' = worker ∧ p.worker = worker ∧
      Gathered time h n worker (PollStage.answered p answer).gathered
  | asking (.pass (.running worker' r rest _)) =>
    worker' = worker ∧ (RunStage.asking r).Works time h n worker rest
  | answered (.pass (.running worker' r rest _)) answer =>
    worker' = worker ∧ (RunStage.answered r answer).Works time h n worker rest
  | _ => False

/-- What a pass comes to after an answer. -/
def Pass.Fares (time : Instant → Instant) (h : List Moment) (n : Nat) (worker : String) :
    Progress Pass Nat → Prop
  | .waiting p => (Stage.asking (.pass p)).Works time h n worker
  | .ended (.ok _) =>
    ∀ id, ClaimedBy h n id → LeftBehind time h n worker id (WasStumped h n id)
  | .ended (.error _) => True

section
variable {time : Instant → Instant} {h : List Moment} {m : Moment} {n : Nat} {worker : String}
  {id : InstanceId} {ids rest : List InstanceId}

theorem wasStumped_append :
    WasStumped (h ++ [m]) n id ↔ WasStumped h n id ∨ m.call = some n ∧
      ∃ progress, m.incident = .resumed progress ∧
        ∃ stage, (stageOf n h).bind Stage.run? = some stage ∧ stage.Stumped m.engine.env id := by
  constructor
  · rintro ⟨before, x, after, stage, progress, hsplit, hcall, hresumed, hstage, hstumped⟩
    rcases last_or_before hsplit with ⟨rfl, rfl, -⟩ | ⟨rest, hrest, -⟩
    · exact .inr ⟨hcall, progress, hresumed, stage, hstage, hstumped⟩
    · exact .inl ⟨before, x, rest, stage, progress, hrest, hcall, hresumed, hstage, hstumped⟩
  · rintro (⟨before, x, after, stage, progress, rfl, hx⟩ | ⟨hcall, progress, hresumed, stage, hx⟩)
    · exact ⟨before, x, after ++ [m], stage, progress, by simp, hx⟩
    · exact ⟨h, m, [], stage, progress, rfl, hcall, hresumed, hx⟩

theorem WasStumped.of_append (hid : WasStumped (h ++ [m]) n id)
    (hm : m.call = some n → ∀ progress, m.incident ≠ .resumed progress) : WasStumped h n id := by
  rcases wasStumped_append.mp hid with hid | ⟨hcall, progress, hresumed, -⟩
  · exact hid
  · exact absurd hresumed (hm hcall progress)

theorem ClaimedBy.of_append (hid : ClaimedBy (h ++ [m]) n id) :
    ClaimedBy h n id ∨ m.call = some n ∧ m.claimed? = some id := by
  obtain ⟨x, hx, hcall, hclaimed⟩ := hid
  rcases List.mem_append.mp hx with hx | hx
  · exact .inl ⟨x, hx, hcall, hclaimed⟩
  · obtain rfl := List.mem_singleton.mp hx
    exact .inr ⟨hcall, hclaimed⟩

theorem WorksAlone.of_append (halone : WorksAlone (h ++ [m]) n worker) :
    WorksAlone h n worker ∧ (m.call ≠ some n → m.isWork = false) ∨
      m.call = some n ∧ ∃ time progress, m.incident = .began (.pass worker time) progress := by
  obtain ⟨before, b, since, time, progress, hsplit, hcall, hbegan, hidle⟩ := halone
  rcases last_or_before hsplit with ⟨-, rfl, -⟩ | ⟨rest, hrest, rfl⟩
  · exact .inr ⟨hcall, time, progress, hbegan⟩
  · exact .inl ⟨⟨before, b, rest, time, progress, hrest, hcall, hbegan,
      fun m hm => hidle m (List.mem_append_left _ hm)⟩, hidle m (by simp)⟩

theorem LeftBehind.congr {stumped stumped' : Prop} (hid : LeftBehind time h n worker id stumped)
    (hsame : stumped ↔ stumped') : LeftBehind time h n worker id stumped' :=
  propext hsame ▸ hid

theorem LeftBehind.append {stumped : Prop} (hid : LeftBehind time h n worker id stumped)
    (hstays : Stays h (h ++ [m]) id) : LeftBehind time (h ++ [m]) n worker id stumped := by
  rcases hid with hgone | ⟨i, rfl, hi, hheld | ⟨hcalm, hrests, hreports⟩⟩
  · exact .inl (hgone.of_stays hstays)
  · exact .inr ⟨i, rfl, hi.of_stays hstays, .inl hheld⟩
  · refine .inr ⟨i, rfl, hi.of_stays hstays, .inr ⟨hcalm, hrests, fun hfailed => ?_⟩⟩
    obtain ⟨entry, hentry, hreport⟩ := hreports hfailed
    exact ⟨entry, hentry.append _, hreport⟩

theorem Gathered.append (hids : Gathered time h n worker ids)
    (hstays : ∀ id, Stays h (h ++ [m]) id) (hclaims : m.call = some n → m.claimed? = none)
    (hcalm : ∀ id, WasStumped (h ++ [m]) n id → WasStumped h n id) :
    Gathered time (h ++ [m]) n worker ids where
  nodup := hids.nodup
  complete := by
    intro id hid
    rcases hid.of_append with hid | ⟨hcall, hclaimed⟩
    · exact hids.complete id hid
    · rw [hclaims hcall] at hclaimed
      cases hclaimed
  pending := fun id hid => (hids.pending id hid).of_stays (hstays id)
  calm := fun id hid => hids.calm id (hcalm id hid)

theorem Gathered.claim (hids : Gathered time h n worker ids) (hnew : id ∉ ids)
    (hstays : ∀ id', id' ≠ id → Stays h (h ++ [m]) id') (hclaimed : m.claimed? = some id)
    (hpending : Pending time (h ++ [m]) worker id)
    (hcalm : ∀ id, WasStumped (h ++ [m]) n id → WasStumped h n id) :
    Gathered time (h ++ [m]) n worker (ids ++ [id]) where
  nodup := by
    rw [List.nodup_append]
    refine ⟨hids.nodup, List.nodup_singleton id, fun a ha b hb heq => hnew ?_⟩
    obtain rfl := List.mem_singleton.mp hb
    exact heq ▸ ha
  complete := by
    intro id' hid
    rcases hid.of_append with hid | ⟨-, hclaimed'⟩
    · exact List.mem_append_left _ (hids.complete id' hid)
    · obtain rfl := Option.some.inj (hclaimed.symm.trans hclaimed')
      simp
  pending := by
    intro id' hid'
    rcases List.mem_append.mp hid' with hid' | hid'
    · exact (hids.pending id' hid').of_stays (hstays id' fun heq => hnew (heq ▸ hid'))
    · obtain rfl := List.mem_singleton.mp hid'
      exact hpending
  calm := fun id hid => hids.calm id (hcalm id hid)

theorem Gathered.awaits (hids : Gathered time h n worker ids) : Awaits time h n worker ids where
  nodup := hids.nodup
  calm := fun id _ => hids.calm id
  settled := fun id hid hout => absurd (hids.complete id hid) hout

theorem Awaits.append (hids : Awaits time h n worker ids)
    (hstays : ∀ id, id ∉ ids → Stays h (h ++ [m]) id)
    (hclaims : m.call = some n → m.claimed? = none)
    (hcalm : ∀ id, WasStumped (h ++ [m]) n id → WasStumped h n id) :
    Awaits time (h ++ [m]) n worker ids where
  nodup := hids.nodup
  calm := fun id hid hstumped => hids.calm id hid (hcalm id hstumped)
  settled := by
    intro id hid hout
    have hsame : WasStumped h n id ↔ WasStumped (h ++ [m]) n id :=
      ⟨fun hstumped => wasStumped_append.mpr (.inl hstumped), hcalm id⟩
    rcases hid.of_append with hid | ⟨hcall, hclaimed⟩
    · exact ((hids.settled id hid hout).append (hstays id hout)).congr hsame
    · rw [hclaims hcall] at hclaimed
      cases hclaimed

theorem Awaits.settle {stumped : Prop} (hids : Awaits time h n worker (id :: rest))
    (hstays : ∀ id, Stays h (h ++ [m]) id) (hclaims : m.claimed? = none)
    (hstumped : ∀ id', WasStumped (h ++ [m]) n id' ↔ WasStumped h n id' ∨ id' = id ∧ stumped)
    (hleft : LeftBehind time (h ++ [m]) n worker id stumped) :
    Awaits time (h ++ [m]) n worker rest := by
  obtain ⟨hout, hnodup⟩ := List.nodup_cons.mp hids.nodup
  refine ⟨hnodup, fun id' hid' hstumps => ?_, fun id' hid' hout' => ?_⟩
  · rcases (hstumped id').mp hstumps with hstumps | ⟨rfl, -⟩
    · exact hids.calm id' (List.mem_cons_of_mem _ hid') hstumps
    · exact hout hid'
  · by_cases hid : id' = id
    · subst hid
      have hsame : WasStumped (h ++ [m]) n id' ↔ stumped := by
        rw [hstumped id', or_iff_right (hids.calm id' List.mem_cons_self), and_iff_right rfl]
      exact hleft.congr hsame.symm
    · have hsame : WasStumped (h ++ [m]) n id' ↔ WasStumped h n id' := by
        rw [hstumped id', or_iff_left fun hsame => hid hsame.1]
      rcases hid'.of_append with hclaimed | ⟨-, hclaimed⟩
      · have hleft' := hids.settled id' hclaimed (by simp [hid, hout'])
        exact (hleft'.append (hstays id')).congr hsame.symm
      · rw [hclaims] at hclaimed
        cases hclaimed

theorem Pass.fares_of_proceed {count : Nat} (hids : Awaits time h n worker ids)
    (hpending : ∀ id ∈ ids, Pending time h worker id) :
    Fares time h n worker (proceed worker ids count) := by
  cases ids with
  | nil => exact fun id hid => hids.settled id hid (List.not_mem_nil)
  | cons id rest =>
    refine ⟨rfl, fun id' hid' => hpending id' (List.mem_cons_of_mem _ hid'), id, hids, rfl, rfl, ?_⟩
    exact hpending id List.mem_cons_self

namespace Poll

theorem gathered_of_proceed {items : List Instance} :
    (∀ p, proceed worker items ids = .waiting p →
        p.worker = worker ∧ (PollStage.asking p).gathered = ids) ∧
      ∀ ids', proceed worker items ids = .ended (.ok ids') → ids' = ids := by
  cases items with
  | nil =>
    refine ⟨fun p hp => ?_, fun ids' hids => ?_⟩
    · cases hp
    · cases hids
      rfl
  | cons current items =>
    refine ⟨fun p hp => ?_, fun ids' hids => ?_⟩
    · obtain rfl := Progress.waiting.inj hp
      exact ⟨rfl, rfl⟩
    · cases hids

theorem gathered_of_resume {p : Poll} {answer : p.request.Answer} :
    (∀ p', p.resume answer = .waiting p' → p'.worker = p.worker ∧
        (PollStage.asking p').gathered = (PollStage.answered p answer).gathered) ∧
      ∀ ids, p.resume answer = .ended (.ok ids) →
        ids = (PollStage.answered p answer).gathered := by
  cases p with
  | listing worker now limit =>
    simp only [resume]
    split
    · exact gathered_of_proceed
    · simp
  | claiming worker current rest claimed =>
    simp only [resume]
    split
    · exact gathered_of_proceed
    · rw [show (PollStage.answered (.claiming worker current rest claimed) (.ok none)).gathered =
        claimed from List.append_nil claimed]
      exact gathered_of_proceed
    · simp

end Poll
end

namespace System

variable {config : EngineConfig} {s s₀ s₁ : System} {m : Moment} {n : Nat} {worker : String}

namespace Along

theorem wasStumped_of_resumed (hm : Along config s s₀ s₁ m) {c : Call}
    {answer : c.request.Answer} {progress : Progress Call CallResult} (hcall : m.call = some n)
    (hresumed : m.incident = .resumed progress)
    (hanswered : s₀.calls n = some (.answered c answer)) (id : InstanceId) :
    WasStumped s₁.history n id ↔ WasStumped s₀.history n id ∨
      ∃ stage, (Stage.answered c answer).run? = some stage ∧ stage.Stumped s₀.engine.env id := by
  have hengine : m.engine = s₀.engine := by
    obtain ⟨_, _, _, -, -, -, hsame⟩ := hm.step.of_resumed hm.history hresumed
    exact hm.engine.symm.trans hsame
  have hstage : stageOf n s₀.history = some (.answered c answer) := by
    rw [← hm.reachable.calls_eq, hanswered]
  rw [hm.history, wasStumped_append, hstage, hengine, Option.bind_some]
  constructor
  · rintro (hold | ⟨-, -, -, hnew⟩)
    · exact .inl hold
    · exact .inr hnew
  · rintro (hold | hnew)
    · exact .inl hold
    · exact .inr ⟨hcall, progress, hresumed, hnew⟩

/-- A pass that has been answered goes on as it should, or has left all that it had claimed. -/
theorem fares_of_resume (hm : Along config s s₀ s₁ m) (hcounts : Counts s.history) {p : Pass}
    {answer : p.request.Answer} {progress : Progress Call CallResult} (hcall : m.call = some n)
    (hresumed : m.incident = .resumed progress)
    (hanswered : s₀.calls n = some (.answered (.pass p) answer))
    (hp : (Stage.answered (.pass p) answer).Works s.engine.store.time s₀.history n worker) :
    Pass.Fares s.engine.store.time s₁.history n worker (p.resume s₀.engine.env answer) := by
  have hstays := hm.stays_of_unwritten hcounts (by simp [Moment.written?, hresumed])
  have hclaims : m.claimed? = none := by simp [Moment.claimed?, Moment.poll?, hresumed]
  have hstumped := hm.wasStumped_of_resumed hcall hresumed hanswered
  rw [hm.history] at hstays hstumped ⊢
  cases p with
  | polling worker' p =>
    obtain ⟨rfl, hworker, hids⟩ := hp
    have hids := hids.append hstays (fun _ => hclaims) fun id hid => by
      rcases (hstumped id).mp hid with hid | ⟨_, hrun, -⟩
      · exact hid
      · cases hrun
    simp only [Pass.resume]
    split
    · rename_i p' hpoll
      obtain ⟨hworker', hgathered⟩ := Poll.gathered_of_resume.1 p' hpoll
      exact ⟨rfl, hworker'.trans hworker, hgathered ▸ hids⟩
    · rename_i ids hpoll
      obtain rfl := Poll.gathered_of_resume.2 ids hpoll
      exact Pass.fares_of_proceed hids.awaits hids.pending
    · trivial
  | running worker' r rest count =>
    obtain ⟨rfl, hpending, id, hids, hr⟩ := hp
    have hpending (id' : InstanceId) (hid' : id' ∈ rest) :=
      (hpending id' hid').of_stays (hstays id')
    have hstumped (id' : InstanceId) : WasStumped (s₀.history ++ [m]) n id' ↔
        WasStumped s₀.history n id' ∨
          id' = id ∧ (RunStage.answered r answer).Stumped s₀.engine.env id := by
      rw [hstumped id']
      refine or_congr_right ⟨?_, ?_⟩
      · rintro ⟨stage, hrun, h⟩
        obtain rfl := Option.some.inj hrun
        obtain rfl := hr.eq_of_stumped h
        exact ⟨rfl, h⟩
      · rintro ⟨rfl, h⟩
        exact ⟨_, rfl, h⟩
    have hfares := Run.fares_of_resume s₀.engine.env hr
    simp only [Pass.resume]
    split
    · rename_i r' hrun
      rw [hrun] at hfares
      obtain ⟨hcalm, hr'⟩ := hfares
      refine ⟨rfl, hpending, id, ?_, hr'.append (hstays id)⟩
      refine hids.append (fun id' _ => hstays id') (fun _ => hclaims) fun id' hid' => ?_
      rcases (hstumped id').mp hid' with hid' | ⟨-, h⟩
      · exact hid'
      · exact absurd h hcalm
    · rename_i result hrun
      rw [hrun] at hfares
      have hleft := LeftBehind.append hfares (hstays id)
      exact Pass.fares_of_proceed (hids.settle hstays hclaims hstumped hleft) hpending

/-- A claim is granted only for what nobody holds, and so not twice to the same worker. -/
theorem gathered_of_served (hm : Along config s s₀ s₁ m) (hcounts : Counts s.history) {p : Poll}
    {answer : p.request.Answer} (hpoll : m.poll? = some (.answered p answer))
    (hwritten : m.written? = p.request.written? answer)
    (hcalm : ∀ id, WasStumped s₁.history n id → WasStumped s₀.history n id)
    (hsound : p.IsSound s.engine.store.time s₀.history)
    (hanswer : s₀.engine.Answers p.request answer s₁.engine)
    (hp : Gathered s.engine.store.time s₀.history n p.worker (PollStage.asking p).gathered) :
    Gathered s.engine.store.time s₁.history n p.worker
      (PollStage.answered p answer).gathered := by
  have hclaimed : m.claimed? = (PollStage.answered p answer).claimed? := by
    rw [Moment.claimed?, hpoll]
    rfl
  have hidle (hquiet : m.written? = none) (hclaims : m.claimed? = none) :
      Gathered s.engine.store.time s₁.history n p.worker (PollStage.asking p).gathered := by
    have hstays := hm.stays_of_unwritten hcounts hquiet
    rw [hm.history] at hstays hcalm ⊢
    exact hp.append hstays (fun _ => hclaims) hcalm
  cases p with
  | listing worker now limit => exact hidle hwritten hclaimed
  | claiming worker current rest claimed =>
    have hperform := Engine.perform_of_answers hanswer
    rcases hclaim : s₀.engine.store.claim s₀.engine.now current.id current.status .running
      (some worker) with ⟨granted, store⟩
    simp only [Store.perform, hclaim] at hperform
    obtain ⟨rfl, -⟩ := Prod.mk.inj hperform
    have hlives := (hm.reachable.isSound (hm.counts hcounts).1).lives
    rcases Store.claim_cases hlives.wellFormed hclaim with
      ⟨rfl, -⟩ | ⟨cur, version, hcur, hstatus, hfree, -, rfl, -⟩
    · have hsame : (PollStage.answered (.claiming worker current rest claimed)
          (.ok none)).gathered = claimed := List.append_nil claimed
      rw [hsame]
      exact hidle hwritten hclaimed
    · have hid : cur.id = current.id := Instance.find?_id hcur
      have hthere := ((hm.written hcounts).1 _ hwritten).2
      rw [hm.reachable.find?_eq_lastStored] at hcur
      -- What is claimed already is held by this worker or cancelled, and neither can be claimed.
      have hnew : current.id ∉ claimed := by
        intro hmem
        rcases (hp.pending _ hmem).cases hcur with howner | hcancelled
        · rw [hfree] at howner
          cases howner
        · have hlive : current.isTerminal = false := (hsound current (by simp)).2
          rw [Instance.isTerminal, ← hstatus, hcancelled] at hlive
          cases hlive
      have hpending : Pending s.engine.store.time s₁.history worker current.id := by
        refine ⟨(cur.claimed .running (some worker)).stamped version
          (s₀.engine.store.time s₀.engine.now), hid, rfl, rfl, .inl ?_⟩
        rw [hm.history, lastStored_append]
        exact hthere
      have hstays (id : InstanceId) (hne : id ≠ current.id) : Stays s₀.history s₁.history id :=
        hm.stays_elsewhere hcounts hwritten fun heq => hne (heq.trans hid)
      rw [hm.history] at hstays hpending hcalm ⊢
      exact hp.claim hnew hstays hclaimed hpending hcalm

theorem works_of_served (hm : Along config s s₀ s₁ m) (hcounts : Counts s.history)
    (hcolumn : s.engine.store.isTable = true → TableStore.fits s.history.length) {c : Call}
    {answer : c.request.Answer} (hcall : m.call = some n) (hserved : m.incident = .served c answer)
    (hasks : s₀.calls n = some (.asking c))
    (hanswer : s₀.engine.Answers c.request answer s₁.engine)
    (hc : (Stage.asking c).Works s.engine.store.time s₀.history n worker) :
    (Stage.answered c answer).Works s.engine.store.time s₁.history n worker := by
  have hsound : c.IsSound config s.engine.store.time s₀.history := by
    rw [← hm.time_eq]
    exact (hm.reachable.isSound (hm.counts hcounts).1).calls n _ hasks
  have hwritten : m.written? = c.request.written? answer := by rw [Moment.written?, hserved]
  have hpoll : m.poll? = (Stage.answered c answer).poll? := by rw [Moment.poll?, hserved]
  have hcalm (id : InstanceId) (hid : WasStumped s₁.history n id) :
      WasStumped s₀.history n id := by
    rw [hm.history] at hid
    exact hid.of_append fun _ progress => by simp [hserved]
  cases c with
  | pass p =>
    cases p with
    | polling worker' p =>
      obtain ⟨rfl, rfl, hids⟩ := hc
      exact ⟨rfl, rfl, hm.gathered_of_served hcounts hpoll hwritten hcalm hsound hanswer hids⟩
    | running worker' r rest count =>
      obtain ⟨rfl, hpending, id, hids, hr⟩ := hc
      have happended (entry : AuditEntry) (hentry : r.request.appended? = some entry) :
          Appended s₁.history n entry := by
        rw [hm.history]
        exact ⟨m, by simp, hcall, _, answer, hserved, hentry⟩
      obtain ⟨hr', hothers⟩ :=
        hm.follows_of_served hcounts hcolumn hsound hanswer hwritten happended hr
      have hclaims : m.claimed? = none := by simp [Moment.claimed?, hpoll, Stage.poll?]
      have hout := (List.nodup_cons.mp hids.nodup).1
      have hpending (id' : InstanceId) (hid' : id' ∈ rest) :
          Pending s.engine.store.time s₁.history worker' id' :=
        (hpending id' hid').of_stays (hothers id' fun heq => hout (heq ▸ hid'))
      refine ⟨rfl, hpending, id, ?_, hr'⟩
      rw [hm.history] at hothers hcalm ⊢
      refine hids.append (fun id' hid' => hothers id' fun heq => hid' ?_) (fun _ => hclaims) hcalm
      exact heq ▸ List.mem_cons_self
  | emit | dispatch | poll | run | sweep | cancel => cases hc

theorem works_of_start (hm : Along config s s₀ s₁ m) {o : Opening} {c : Call}
    (hbegan : m.incident = .began o (.waiting c))
    (hstart : o.start s₀.engine.env = .waiting c) (halone : WorksAlone s₁.history s₀.begun worker) :
    (Stage.asking c).Works s.engine.store.time s₁.history s₀.begun worker := by
  rw [hm.history] at halone ⊢
  rcases halone.of_append with ⟨⟨before, b, since, time, progress, hsplit, hbcall, hpass, -⟩, -⟩ |
      ⟨-, time, progress, hpass⟩
  · have hcrashed := hm.reachable.crashed_of_unbegun (m := b) (by simp [hsplit]) hbcall
    rw [hpass] at hcrashed
    cases hcrashed
  · rw [hbegan] at hpass
    cases hpass
    obtain rfl := Progress.waiting.inj hstart
    refine ⟨rfl, rfl, List.nodup_nil, fun id hid => ?_, nofun, fun id hid => ?_⟩
    · rcases hid.of_append with ⟨x, hx, hxcall, hclaimed⟩ | ⟨-, hclaimed⟩
      · have hcrashed := hm.reachable.crashed_of_unbegun hx hxcall
        simp [Moment.claimed?, Moment.poll?, hcrashed] at hclaimed
      · simp [Moment.claimed?, Moment.poll?, hbegan] at hclaimed
    · obtain ⟨before, x, after, _, progress, hsplit, hxcall, hresumed, -⟩ :=
        hid.of_append fun _ progress => by simp [hbegan]
      have hcrashed := hm.reachable.crashed_of_unbegun (m := x) (by simp [hsplit]) hxcall
      rw [hresumed] at hcrashed
      cases hcrashed

theorem works_of_idle (hm : Along config s s₀ s₁ m) (hcounts : Counts s.history) {stage : Stage}
    (hcall : m.call ≠ some n) (hidle : m.isWork = false)
    (hstage : stage.Works s.engine.store.time s₀.history n worker) :
    stage.Works s.engine.store.time s₁.history n worker := by
  have hstays := hm.stays_of_idle hcounts hidle
  have hcalm (id : InstanceId) (hid : WasStumped s₁.history n id) :
      WasStumped s₀.history n id := by
    rw [hm.history] at hid
    exact hid.of_append fun hsame => absurd hsame hcall
  have hclaims (hsame : m.call = some n) : m.claimed? = none := absurd hsame hcall
  rw [hm.history] at hstays hcalm ⊢
  have hworks {rest : List InstanceId} {stage : RunStage}
      (hr : stage.Works s.engine.store.time s₀.history n worker rest) :
      stage.Works s.engine.store.time (s₀.history ++ [m]) n worker rest := by
    obtain ⟨hpending, id, hids, hr⟩ := hr
    refine ⟨fun id' hid' => (hpending id' hid').of_stays (hstays id'), id, ?_,
      hr.append (hstays id)⟩
    exact hids.append (fun id' _ => hstays id') hclaims hcalm
  cases stage with
  | asking c =>
    cases c with
    | pass p =>
      cases p with
      | polling => exact ⟨hstage.1, hstage.2.1, hstage.2.2.append hstays hclaims hcalm⟩
      | running => exact ⟨hstage.1, hworks hstage.2⟩
    | emit | dispatch | poll | run | sweep | cancel => cases hstage
  | answered c answer =>
    cases c with
    | pass p =>
      cases p with
      | polling => exact ⟨hstage.1, hstage.2.1, hstage.2.2.append hstays hclaims hcalm⟩
      | running => exact ⟨hstage.1, hworks hstage.2⟩
    | emit | dispatch | poll | run | sweep | cancel => cases hstage

end Along

/-- A pass of a worker that works alone goes by what it should, from its beginning to its end. -/
theorem Reachable.works (hs : Reachable config s)
    (hcolumn : s.engine.store.isTable = true → TableStore.fits s.history.length) {stage : Stage}
    (hn : s.calls n = some stage) (halone : WorksAlone s.history n worker) :
    stage.Works s.engine.store.time s.history n worker := by
  have hcounts := hs.counts hcolumn
  have hbefore {s₀ s₁ : System} {m : Moment} {k : Nat} (hm : Along config s s₀ s₁ m)
      (hbegan : ∀ o progress, m.incident ≠ .began o progress)
      (halone : WorksAlone s₁.history k worker) : WorksAlone s₀.history k worker := by
    rw [hm.history] at halone
    rcases halone.of_append with ⟨halone, -⟩ | ⟨-, time, progress, hpass⟩
    · exact halone
    · exact absurd hpass (hbegan _ _)
  refine hs.of_stages (P := fun h n stage => WorksAlone h n worker →
    stage.Works s.engine.store.time h n worker) ?_ ?_ ?_ ?_ n stage hn halone
  · intro s₀ s₁ m o c hm _ hbegan hstart halone
    exact hm.works_of_start hbegan hstart halone
  · intro s₀ s₁ m n c answer hm hcall hserved hasks hanswer ih halone
    exact hm.works_of_served hcounts hcolumn hcall hserved hasks hanswer
      (ih (hbefore hm (by simp [hserved]) halone))
  · intro s₀ s₁ m n c answer c' hm hcall hresumed hanswered hresume ih halone
    have hc := ih (hbefore hm (by simp [hresumed]) halone)
    cases c with
    | pass p =>
      obtain ⟨p', hnext, rfl⟩ := Progress.of_map_eq_waiting hresume
      have hfares := hm.fares_of_resume hcounts hcall hresumed hanswered hc
      rw [hnext] at hfares
      exact hfares
    | emit | dispatch | poll | run | sweep | cancel => cases hc
  · intro s₀ s₁ m n stage hm hcall _ ih halone
    rw [hm.history] at halone
    rcases halone.of_append with ⟨halone, hidle⟩ | ⟨hsame, -⟩
    · exact hm.works_of_idle hcounts hcall (hidle hcall) (ih halone)
    · exact absurd hsame hcall

end System
end WorkflowEngine

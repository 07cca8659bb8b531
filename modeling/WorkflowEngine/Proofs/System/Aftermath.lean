import WorkflowEngine.Proofs.System.Budget
import WorkflowEngine.Proofs.System.Cancellation
import WorkflowEngine.Proofs.System.Deeds

/-!
# The aftermath of a cancellation

When an instance is cancelled, some runs may be about to invoke an action for it, or be waiting for
the reply. Each of them was granted that invocation before, and comes to nothing with it.
-/
namespace WorkflowEngine

/-- The instance that has just been cancelled. -/
def Moment.cancelled? (m : Moment) : Option InstanceId :=
  match m.incident with
  | .served (.cancel (.saving current _ _)) (.ok _) => some current.id
  | _ => none

def Deed.isLoading : Deed → Bool
  | loaded _ => true
  | _ => false

/-- A call was granted an invocation, and has done nothing since but append entries. -/
def Granted (h : List Moment) (n : Nat) (id : InstanceId) (node : String) : Prop :=
  ∃ before g since, h = before ++ g :: since ∧ g.call = some n ∧ g.grants id node = true ∧
    ∀ d ∈ deeds n since, ∃ entry, d = .appended entry

theorem Granted.append {h : List Moment} {m : Moment} {n : Nat} {id : InstanceId} {node : String}
    (hgranted : Granted h n id node)
    (hm : m.call = some n → ∀ d, m.deed? = some d → ∃ entry, d = .appended entry) :
    Granted (h ++ [m]) n id node := by
  obtain ⟨before, g, since, rfl, hcall, hgrants, hsince⟩ := hgranted
  refine ⟨before, g, since ++ [m], by simp, hcall, hgrants, fun d hd => ?_⟩
  by_cases hmcall : m.call = some n
  · rw [deeds_snoc_self hmcall] at hd
    rcases List.mem_append.mp hd with hd | hd
    · exact hsince d hd
    · exact hm hmcall d (by simpa using hd)
  · rw [deeds_snoc_of_ne hmcall] at hd
    exact hsince d hd

/-- A run that is still ready when it has been served has appended an entry. -/
theorem RunStage.appended_of_ready {r : Run} {answer : r.request.Answer} {i j : Instance} {d : Deed}
    (hasking : (asking r).ready? = some i) (hanswered : (answered r answer).ready? = some j)
    (hd : (answered r answer).deed? = some d) : ∃ entry, d = .appended entry := by
  cases r with
  | recording stored entry => exact ⟨entry, (Option.some.inj hd).symm⟩
  | invoking => cases hanswered
  | loading | saving | reloading | recordingDropped | failing | recordingFailure => cases hasking

theorem Stage.appended_of_ready {c : Call} {answer : c.request.Answer} {id : InstanceId}
    {node : String} {d : Deed} (hasking : (asking c).isReady id node = true)
    (hanswered : (answered c answer).isReady id node = true)
    (hd : (answered c answer).run?.bind RunStage.deed? = some d) :
    ∃ entry, d = .appended entry := by
  obtain ⟨r, hr, hready⟩ := (Option.any_eq_true _ _).mp hasking
  obtain ⟨i, hi, -⟩ := (Option.any_eq_true _ _).mp hready
  obtain ⟨r', hr', hready'⟩ := (Option.any_eq_true _ _).mp hanswered
  obtain ⟨j, hj, -⟩ := (Option.any_eq_true _ _).mp hready'
  rw [hr'] at hd
  obtain ⟨r₀, answer₀, rfl, hruns⟩ := runs_of_answered hr'
  obtain rfl := Option.some.inj (hr.symm.trans hruns.asking)
  exact RunStage.appended_of_ready hi hj hd

theorem exists_two_of_countP {α : Type} {p : α → Bool} {l : List α} (hl : 2 ≤ l.countP p) :
    ∃ first a between b last, l = first ++ a :: between ++ b :: last ∧ p a = true ∧
      p b = true := by
  induction l with
  | nil => simp at hl
  | cons x l ih =>
    by_cases hx : p x = true
    · rw [List.countP_cons_of_pos hx] at hl
      obtain ⟨b, hb, hpb⟩ := List.countP_pos_iff.mp (by omega : 0 < l.countP p)
      obtain ⟨between, last, rfl⟩ := List.append_of_mem hb
      exact ⟨[], x, between, b, last, rfl, hx, hpb⟩
    · rw [List.countP_cons_of_neg hx] at hl
      obtain ⟨first, a, between, b, last, rfl, ha, hb⟩ := ih hl
      exact ⟨x :: first, a, between, b, last, rfl, ha, hb⟩

theorem Moment.of_grants {m : Moment} {id : InstanceId} {node : String}
    (hgrants : m.grants id node = true) : ∃ step, m.stored? = some step ∧ step.next.id = id := by
  have hof {outcome : AuditOutcome} (hstores : m.stores id node outcome = true) :
      ∃ step, m.stored? = some step ∧ step.next.id = id := by
    obtain ⟨step, hstep, hmatches⟩ := (Option.any_eq_true _ _).mp hstores
    simp only [Bool.and_eq_true, beq_iff_eq] at hmatches
    exact ⟨step, hstep, hmatches.1.1⟩
  rcases (Bool.or_eq_true _ _).mp hgrants with hintended | hrecovered
  · exact hof hintended
  · exact hof hrecovered

theorem Moment.of_invokes {m : Moment} {id : InstanceId} {node : String}
    (hinvokes : m.invokes id node = true) :
    ∃ v, m.invocation? = some v ∧ v.base.id = id ∧ v.node = node := by
  obtain ⟨v, hv, hmatches⟩ := (Option.any_eq_true _ _).mp hinvokes
  simp only [Bool.and_eq_true, beq_iff_eq] at hmatches
  exact ⟨v, hv, hmatches⟩

theorem Invocation.Concludes.next_id {config : EngineConfig} {v : Invocation} {reply : Reply}
    {step : Step} (h : v.Concludes config reply step) : step.next.id = v.base.id := by
  obtain ⟨result, -, h⟩ := of_bind_eq_ok h
  cases result with
  | success result =>
    obtain rfl := Except.ok.inj h
    cases hexit : v.exit with
    | none => simp [Step.advance, counted]
    | some target => simp [Step.advance, counted]
  | failure reason isPermanent =>
    simp only [conclude] at h
    split at h
    · obtain rfl := Except.ok.inj h
      rfl
    · split at h
      · obtain rfl := Except.ok.inj h
        rfl
      · cases h

/-- A run that can store nothing more is told so when its action has been invoked, records that, and
does nothing else. -/
theorem Course.of_dropped {config : EngineConfig} {v : Invocation} {reply : Reply}
    {ds : List Deed} {p : Phase} (h : Course config (.invoked v reply) ds p)
    (hunstored : ∀ step, .stored step ∈ ds → step.next.id ≠ v.base.id) :
    ∃ step current entry, ds.takeWhile (!·.isLoading) <+:
      [.refused step, .reloaded current, .appended entry] := by
  have hidle {ds : List Deed} (h : Course config .idle ds p) :
      ds.takeWhile (!·.isLoading) = [] := by
    cases h with
    | nil => rfl
    | cons hnext _ =>
      cases hnext
      rfl
  have hnothing : ∃ step current entry,
      [] <+: [Deed.refused step, .reloaded current, .appended entry] :=
    ⟨v.giveUp "" false, v.base, (v.giveUp "" false).entry, List.nil_prefix⟩
  cases h with
  | nil => exact hnothing
  | cons hnext hrest =>
    cases hnext with
    | loaded => exact hnothing
    | concluded hstep => exact absurd hstep.next_id (hunstored _ (by simp))
    | @rejected _ _ step hstep =>
      refine ⟨step, ?_⟩
      cases hrest with
      | nil => exact ⟨v.base, step.entry, ⟨[_, _], rfl⟩⟩
      | cons hnext hrest =>
        cases hnext with
        | loaded => exact ⟨v.base, step.entry, ⟨[_, _], rfl⟩⟩
        | reloaded _ current =>
          refine ⟨current, step.entry, [.appended step.entry], ?_⟩
          rw [List.takeWhile_cons_of_pos rfl, List.takeWhile_cons_of_pos rfl, hidle hrest]
          rfl
        | @discarded _ current =>
          refine ⟨current, ?_⟩
          cases hrest with
          | nil => exact ⟨step.entry, [_], rfl⟩
          | cons hnext hrest =>
            cases hnext with
            | loaded => exact ⟨step.entry, [_], rfl⟩
            | dropped _ _ now =>
              refine ⟨step.droppedEntry current now, [], ?_⟩
              rw [List.takeWhile_cons_of_pos rfl, List.takeWhile_cons_of_pos rfl,
                List.takeWhile_cons_of_pos rfl, hidle hrest]
              rfl

namespace System

variable {config : EngineConfig} {s s₀ s₁ : System} {m c : Moment} {n : Nat} {id : InstanceId}
  {node : String} {before after : List Moment}

/-- A cancellation writes the instance as cancelled. -/
theorem Along.of_cancelled (hm : Along config s s₀ s₁ m) (hcounts : Counts s.history)
    (hcancelled : m.cancelled? = some id) :
    m.stored? = none ∧ ∃ i, m.written? = some i ∧ i.id = id ∧ i.isTerminal = true := by
  unfold Moment.cancelled? at hcancelled
  split at hcancelled
  · rename_i current reason time stored hincident
    obtain rfl := Option.some.inj hcancelled
    obtain ⟨k, -, hasks, hanswer⟩ := hm.step.of_served hm.history hincident
    have hcounts₀ := (hm.counts hcounts).1
    have hsound := hm.reachable.isSound hcounts₀
    have hcurrent : Cancel.IsSound s₀.engine.store.time s₀.history
        (.saving current reason time) := hsound.calls k _ hasks
    obtain ⟨-, rfl, -⟩ := hsound.lives.of_save hcounts₀ hcurrent.1 (.cancelled hcurrent.2)
      (Engine.perform_of_answers hanswer)
    refine ⟨?_, (Cancel.cancelled current reason time).stamped current.version.next
      s₀.engine.now, ?_, rfl, rfl⟩
    · rw [Moment.stored?, Moment.run?, hincident]
      rfl
    · rw [Moment.written?, hincident]
      rfl
  · cases hcancelled

theorem Along.written_of_stored (hm : Along config s s₀ s₁ m) (hcounts : Counts s.history)
    {step : WorkflowEngine.Step} (hstored : m.stored? = some step) :
    ∃ i, m.written? = some i ∧ i.id = step.next.id := by
  have hcounts₀ := (hm.counts hcounts).1
  have hsound := hm.reachable.isSound hcounts₀
  obtain ⟨stage, hrun, hstep⟩ := Option.bind_eq_some_iff.mp hstored
  obtain ⟨-, -, r, answer, -, -, -, rfl, hr, hanswer⟩ := hm.of_run? hcounts hrun
  rw [Moment.written?_of_run? hrun]
  cases r with
  | saving base step' =>
    cases answer with
    | error => cases hstep
    | ok stored =>
      obtain rfl := Option.some.inj hstep
      obtain ⟨hseen, hheld, p, hbound, hstep⟩ := hr
      obtain ⟨-, rfl, -⟩ := hsound.lives.of_save hcounts₀ hseen (.stepped hbound hheld hstep)
        (Engine.perform_of_answers hanswer)
      exact ⟨_, rfl, rfl⟩
  | loading | recording | invoking | reloading | recordingDropped | failing | recordingFailure =>
    cases hstep

/-- No step of a cancelled instance is stored any more. -/
theorem Reachable.unstored_of_cancelled (hs : Reachable config s) (hcounts : Counts s.history)
    (hhistory : s.history = before ++ c :: after) (hc : c.cancelled? = some id) :
    ∀ m ∈ c :: after, ∀ step, m.stored? = some step → step.next.id ≠ id := by
  intro m hm step hstored hid
  obtain ⟨s₀, s₁, halong, rfl⟩ := hs.along hhistory
  obtain ⟨hnone, i, hi, rfl, hended⟩ := halong.of_cancelled hcounts hc
  rcases List.mem_cons.mp hm with rfl | hm
  · rw [hnone] at hstored
    cases hstored
  · obtain ⟨between, last, rfl⟩ := List.append_of_mem hm
    have hsplit : s.history = (s₀.history ++ c :: between) ++ m :: last := by simp [hhistory]
    obtain ⟨t₀, t₁, hthere, -⟩ := hs.along hsplit
    obtain ⟨w, hw, hwid⟩ := hthere.written_of_stored hcounts hstored
    exact hs.not_written_twice hcounts hsplit hi hended hw (hwid.trans hid)

theorem Along.wellNamed (hm : Along config s s₀ s₁ m) (hnamed : WellNamed s.history) :
    WellNamed s₀.history := by
  obtain ⟨later, hlater⟩ := history_of_leads hm.leads
  rw [hlater, hm.history] at hnamed
  exact hnamed.of_append.of_append

/-- Whoever is about to invoke an action has been granted that. -/
theorem Reachable.granted (hs : Reachable config s) (hcounts : Counts s.history)
    (hnamed : WellNamed s.history) {stage : Stage} (hn : s.calls n = some stage)
    (hready : stage.isReady id node = true) : Granted s.history n id node := by
  refine hs.of_stages (P := fun h n stage => stage.isReady id node = true → Granted h n id node)
    ?_ ?_ ?_ ?_ n stage hn hready
  · intro s₀ s₁ m o c _ _ _ hstart hready
    rw [Stage.isReady_of_start hstart] at hready
    cases hready
  · intro s₀ s₁ m n c answer hm hcall hserved hasks hanswer ih hready
    have hcounts₀ := (hm.counts hcounts).1
    have hsound := hm.reachable.isSound hcounts₀
    have hle := Call.ready_of_served id node hsound.lives hcounts₀
      (fun p i hp hi => hm.reachable.consistent hcounts₀ (hm.wellNamed hnamed) hi hp)
      (hsound.calls n _ hasks) hanswer hserved
    rw [hm.history]
    -- A call that becomes ready is granted that at this moment, or was ready before.
    cases hgrants : m.grants id node with
    | true => exact ⟨s₀.history, m, [], rfl, hcall, hgrants, by simp [deeds]⟩
    | false =>
      have hasking : (Stage.asking c).isReady id node = true := by
        rw [hready, hgrants] at hle
        cases hasking : (Stage.asking c).isReady id node with
        | true => rfl
        | false => simp [hasking] at hle
      refine (ih hasking).append fun _ d hd => ?_
      rw [Moment.deed?, Moment.run?, hserved] at hd
      exact Stage.appended_of_ready hasking hready hd
  · intro s₀ s₁ m n c answer c' hm hcall hresumed _ hresume ih hready
    rw [hm.history]
    refine (ih (Stage.isReady_of_resume hresume hready)).append fun _ d hd => ?_
    simp [Moment.deed?, Moment.run?, hresumed] at hd
  · intro s₀ s₁ m n stage hm hcall _ ih hready
    rw [hm.history]
    exact (ih hready).append fun hsame => absurd hsame hcall

theorem Along.granted_of_invocation (hm : Along config s s₀ s₁ m) (hcounts : Counts s.history)
    (hnamed : WellNamed s.history) {v : Invocation} (hv : m.invocation? = some v) :
    ∃ n, m.call = some n ∧ Granted s₀.history n v.base.id v.node := by
  obtain ⟨stage, hrun, hstage⟩ := Option.bind_eq_some_iff.mp hv
  obtain ⟨n, c, r, answer, hcall, hasks, hasking, rfl, hr, -⟩ := hm.of_run? hcounts hrun
  cases r with
  | invoking w =>
    obtain rfl := Option.some.inj hstage
    obtain ⟨-, -, p, -, hfor⟩ := hr
    refine ⟨n, hcall, hm.reachable.granted (hm.counts hcounts).1 (hm.wellNamed hnamed) hasks ?_⟩
    rw [Stage.isReady, hasking]
    refine Instance.intends_iff.mpr ⟨rfl, hfor.node.symm, ?_⟩
    rw [hfor.intent, hfor.node]
  | loading | saving | recording | reloading | recordingDropped | failing | recordingFailure =>
    cases hstage

end System

/-- What still happens to an instance that has been cancelled. -/
structure Aftermath (before : List Moment) (c : Moment) (after : List Moment) (id : InstanceId) :
    Prop where
  /-- Whoever still invokes an action was granted that before, and has only appended since. -/
  granted : ∀ first m last v, after = first ++ m :: last → m.invocation? = some v →
    v.base.id = id → ∃ n earlier g since, m.call = some n ∧ before = earlier ++ g :: since ∧
      g.call = some n ∧ g.grants id v.node = true ∧
      ∀ d ∈ deeds n (since ++ c :: first), ∃ entry, d = .appended entry
  /-- After that its run only comes to an end. -/
  ends : ∀ first m last v n, after = first ++ m :: last → m.invocation? = some v →
    v.base.id = id → m.call = some n → ∃ step current entry,
      (deeds n last).takeWhile (!·.isLoading) <+:
        [.refused step, .reloaded current, .appended entry]
  once : ∀ i p node kind, c.find? id = some i → BoundTo (before ++ c :: after) p i →
    p.IsAction node kind → kind.isIdempotent = false →
    after.countP (Moment.invokes id node) ≤ 1
  unchanged : ∀ m ∈ after, m.find? id = c.find? id ∧ ∀ i, m.written? = some i → i.id ≠ id

namespace System

variable {config : EngineConfig} {s : System} {c : Moment} {id : InstanceId} {node : String}
  {before after : List Moment}

theorem Reachable.granted_before (hs : Reachable config s) (hcounts : Counts s.history)
    (hnamed : WellNamed s.history) (hc : c.cancelled? = some id) {first last : List Moment}
    {m : Moment} {v : Invocation} (hhistory : s.history = before ++ c :: first ++ m :: last)
    (hv : m.invocation? = some v) (hid : v.base.id = id) :
    ∃ n earlier g since, m.call = some n ∧ before = earlier ++ g :: since ∧ g.call = some n ∧
      g.grants id v.node = true ∧
      ∀ d ∈ deeds n (since ++ c :: first), ∃ entry, d = .appended entry := by
  have hsplit : s.history = before ++ c :: (first ++ m :: last) := by simp [hhistory]
  obtain ⟨s₀, s₁, hm, hbefore⟩ := hs.along hhistory
  obtain ⟨n, hcall, earlier, g, since, hgranted, hgcall, hgrants, hsince⟩ :=
    hm.granted_of_invocation hcounts hnamed hv
  rw [hid] at hgrants
  rw [hbefore] at hgranted
  obtain ⟨step, hstep, hstepId⟩ := Moment.of_grants hgrants
  -- What was granted was stored, and nothing is stored after the cancellation.
  have hearlier : g ∉ c :: first := fun hg =>
    hs.unstored_of_cancelled hcounts hsplit hc g (List.mem_append_left (m :: last) hg) step hstep
      hstepId
  rcases List.append_eq_append_iff.mp hgranted with ⟨rest, -, hrest⟩ | ⟨rest, rfl, hrest⟩
  · exact absurd (hrest ▸ by simp) hearlier
  · cases rest with
    | nil =>
      obtain ⟨rfl, -⟩ := List.cons.inj hrest
      exact absurd List.mem_cons_self hearlier
    | cons x rest =>
      obtain ⟨rfl, rfl⟩ := List.cons.inj hrest
      exact ⟨n, earlier, g, rest, hcall, rfl, hgcall, hgrants, hsince⟩

theorem Reachable.ends_after (hs : Reachable config s)
    (hcolumn : s.engine.store.isTable = true → TableStore.fits s.history.length)
    (hc : c.cancelled? = some id) {first last : List Moment} {m : Moment} {v : Invocation} {n : Nat}
    (hhistory : s.history = before ++ c :: first ++ m :: last)
    (hv : m.invocation? = some v) (hid : v.base.id = id) (hcall : m.call = some n) :
    ∃ step current entry, (deeds n last).takeWhile (!·.isLoading) <+:
      [.refused step, .reloaded current, .appended entry] := by
  have hcounts := hs.counts hcolumn
  have hsplit : s.history = before ++ c :: (first ++ m :: last) := by simp [hhistory]
  obtain ⟨reply, hdeed⟩ := Moment.deed?_eq_invoked.mpr hv
  obtain ⟨p, hcourse⟩ := hs.course hcolumn n
  rw [hhistory, deeds_append, deeds_cons_self hcall, hdeed] at hcourse
  refine (hcourse.after_deed rfl).of_dropped fun step hstep hstepId => ?_
  obtain ⟨x, hx, hdeed⟩ := of_mem_deeds hstep
  exact hs.unstored_of_cancelled hcounts hsplit hc x (by simp [hx]) step
    (Moment.deed?_eq_stored.mp hdeed) (hstepId.trans hid)

theorem Reachable.timesStored_recovered (hs : Reachable config s) (hcounts : Counts s.history)
    (hnamed : WellNamed s.history) {i : Instance} (hi : s.engine.store.find? id = some i)
    {p : Plan} (hp : BoundTo s.history p i) {kind : ActionKind} (haction : p.IsAction node kind)
    (hrisky : kind.isIdempotent = false) : timesStored id node .recovered s.history = 0 := by
  refine List.countP_eq_zero.mpr fun m hm hrecovered => ?_
  obtain ⟨kind', ⟨n', hn', hkind'⟩, hidempotent⟩ :=
    (hs.life hcounts hi).isIdempotent_of_recovered List.prefix_rfl hnamed hp hm hrecovered
  obtain ⟨n, hn, hkind⟩ := haction
  obtain rfl := Option.some.inj (hn.symm.trans hn')
  obtain rfl := Option.some.inj (hkind.symm.trans hkind')
  rw [hrisky] at hidempotent
  cases hidempotent

/-- Between two invocations of an unsafe action a step of the instance is stored. -/
theorem Reachable.stored_between (hs : Reachable config s) (hcounts : Counts s.history)
    (hnamed : WellNamed s.history) (hrecovered : timesStored id node .recovered s.history = 0)
    {between : List Moment} {m m' : Moment}
    (hhistory : s.history = before ++ m :: between ++ m' :: after)
    (hm : m.invokes id node = true) (hm' : m'.invokes id node = true) :
    ∃ x ∈ between, ∃ step, x.stored? = some step ∧ step.next.id = id := by
  obtain ⟨v, hv, hvid, hvnode⟩ := Moment.of_invokes hm
  obtain ⟨w, hw, hwid, hwnode⟩ := Moment.of_invokes hm'
  obtain ⟨s₀, s₁, halong, hbefore⟩ := hs.along hhistory
  have hnone : timesStored id node .recovered s₀.history = 0 := by
    rw [hhistory, timesStored, List.countP_append] at hrecovered
    rw [hbefore, timesStored]
    omega
  obtain ⟨later, hlater⟩ := history_of_leads halong.leads
  obtain ⟨x, hx, reason, wakeAt, hretry⟩ :=
    halong.step.exists_retry halong.reachable (halong.counts hcounts).2
      (hlater ▸ hnamed).of_append hbefore halong.history hnone hv hvid hvnode hw hwid hwnode
  exact ⟨x, hx, _, hretry, hvid⟩

/-- An instance that has been cancelled stays as it is, though some actions may still be invoked for
it. -/
theorem Reachable.aftermath (hs : Reachable config s)
    (hcolumn : s.engine.store.isTable = true → TableStore.fits s.history.length)
    (hnamed : WellNamed s.history) (hhistory : s.history = before ++ c :: after)
    (hc : c.cancelled? = some id) : Aftermath before c after id := by
  have hcounts := hs.counts hcolumn
  obtain ⟨s₀, s₁, hm, hbefore⟩ := hs.along hhistory
  obtain ⟨-, i, hi, rfl, hended⟩ := hm.of_cancelled hcounts hc
  have hfound := ((hm.written hcounts).1 i hi).2
  have hstays := hs.find?_of_ended hcounts hhistory hfound hended
  constructor
  · rintro first m last v rfl
    have hsplit : s.history = before ++ c :: first ++ m :: last := by simp [hhistory]
    exact hs.granted_before hcounts hnamed hc hsplit
  · rintro first m last v n rfl
    have hsplit : s.history = before ++ c :: first ++ m :: last := by simp [hhistory]
    exact hs.ends_after hcolumn hc hsplit
  · intro j p node kind hj hp haction hrisky
    by_contra hmany
    obtain ⟨first, m, between, m', last, rfl, hm, hm'⟩ :=
      exists_two_of_countP (Nat.lt_of_not_le hmany)
    have hlast : s.engine.store.find? i.id = some j := by
      rw [hs.find?_eq_lastStored, hhistory, hj.symm.trans hfound |> Option.some.inj]
      exact lastStored_of_stays hfound hstays
    have hrecovered :=
      hs.timesStored_recovered hcounts hnamed hlast (hhistory ▸ hp) haction hrisky
    have hsplit : s.history = (before ++ c :: first) ++ m :: between ++ m' :: last := by
      simp [hhistory]
    -- The action would be granted anew only by a step that is stored after the cancellation.
    obtain ⟨x, hx, step, hstored, hid⟩ :=
      hs.stored_between hcounts hnamed hrecovered hsplit hm hm'
    exact hs.unstored_of_cancelled hcounts hhistory hc x (by simp [hx]) step hstored hid
  · intro m hm
    refine ⟨(hstays m hm).trans hfound.symm, fun w hw hid => ?_⟩
    obtain ⟨between, last, rfl⟩ := List.append_of_mem hm
    have hsplit : s.history = before ++ c :: between ++ m :: last := by simp [hhistory]
    exact hs.not_written_twice hcounts hsplit hi hended hw hid

end System

namespace Sample

def intent : Step := .intend (held asleep "w" 60) "a" .sendWhatsapp (clock 60)

def sending : Invocation :=
  invocation intending "a" .sendWhatsapp
    ⟨[("template", .null), ("message", .text "Hello"), ("session_id", .null)], []⟩ none (clock 60)

def stopped : Instance :=
  { intending with
    status := .cancelled
    owner := none
    completedAt := some (clock 60)
    version := .count 6 }

/-- In some run the intent to invoke the action has been stored, and nothing has been done since. -/
theorem exists_intending : ∃ s n, System.Reachable default s ∧
    s.engine = keeping 60 intending ∧ Keeps s.history ∧ n < s.begun ∧
    s.calls n = some (.asking (.run (.recording intending intent.entry))) := by
  obtain ⟨s, hs, he, -, hkeeps⟩ := exists_asleep
  obtain ⟨s₁, hs₁, he₁, -, hl₁⟩ := hs.alone (start_poll he "w") (he ▸ alone_poll_asleep)
  obtain ⟨s₂, hs₂, he₂, hbegun₂, hn₂, hl₂⟩ := hs₁.begins (o := .run "i1" "w") rfl
  have hload : s₂.engine.Answers (.store (.load "i1")) (.ok (held asleep "w" 60))
      (keeping 60 (held asleep "w" 60)) := by
    rw [he₂, he₁]
    rfl
  obtain ⟨s₃, hs₃, he₃, hbegun₃, hn₃, hl₃, -⟩ := hs₂.served_resumed hn₂ hload
  have hbegin : (Call.run (Run.start "i1" "w")).resume (keeping 60 (held asleep "w" 60)).env
      (.ok (held asleep "w" 60)) = .waiting (.run (.saving (held asleep "w" 60) intent)) :=
    congrArg (Progress.map Call.run CallResult.left) begin_asleep
  rw [hbegin] at hn₃
  have hsave : s₃.engine.Answers (Call.run (.saving (held asleep "w" 60) intent)).request
      (.ok intending) (keeping 60 intending) := by
    rw [he₃]
    rfl
  obtain ⟨s₄, hs₄, he₄, hbegun₄, hn₄, hl₄, -⟩ := hs₃.served_resumed hn₃ hsave
  have hkeeps₄ := hl₄.keeps (hl₃.keeps (hl₂.keeps (hl₁.keeps hkeeps)))
  exact ⟨s₄, s₁.begun, hs₄, he₄, hkeeps₄, by omega, hn₄⟩

theorem exists_stopped : ∃ s n before c m, System.Reachable default s ∧
    s.engine = keeping 60 stopped ∧ Keeps s.history ∧ s.history = before ++ c :: [m] ∧
    c.cancelled? = some "i1" ∧ m.invokes "i1" "a" = false ∧
    s.calls n = some (.asking (.run (.recording intending intent.entry))) := by
  obtain ⟨s, n, hs, he, hkeeps, hn, hcall⟩ := exists_intending
  obtain ⟨s₁, hs₁, he₁, -, hn₁, hl₁⟩ := hs.begins (o := .cancel "i1" none) rfl
  have hload : s₁.engine.Answers (.store (.load "i1")) (.ok intending) (keeping 60 intending) := by
    rw [he₁, he]
    rfl
  obtain ⟨s₂, hs₂, he₂, -, hn₂, hl₂, -⟩ := hs₁.served_resumed hn₁ hload
  have hsave : s₂.engine.Answers (Call.cancel (.saving intending none (clock 60))).request
      (.ok stopped) (keeping 60 stopped) := by
    rw [he₂]
    rfl
  obtain ⟨s₃, hs₃, he₃, -, -, hl₃, hhistory⟩ := hs₂.served_resumed hn₂ hsave
  have hkeeps₃ := hl₃.keeps (hl₂.keeps (hl₁.keeps hkeeps))
  have hcall₃ : s₃.calls n = some (.asking (.run (.recording intending intent.entry))) := by
    rw [hl₃.calls n hn, hl₂.calls n hn, hl₁.calls n hn, hcall]
  rw [List.append_assoc] at hhistory
  exact ⟨s₃, n, s₂.history, _, _, hs₃, he₃, hkeeps₃, hhistory, rfl, rfl, hcall₃⟩

/-- In some run the instance is cancelled between the intent to invoke the action and the
invocation. -/
theorem exists_aftermath : ∃ s before c after, System.Reachable default s ∧
    (s.engine.store.isTable = true → TableStore.fits s.history.length) ∧ WellNamed s.history ∧
    s.history = before ++ c :: after ∧ c.cancelled? = some "i1" ∧
    after.countP (Moment.invokes "i1" "a") = 1 ∧ Aftermath before c after "i1" := by
  obtain ⟨s, n, before, c, m, hs, he, hkeeps, hhistory, hc, hm, hcall⟩ := exists_stopped
  have happend : s.engine.Answers (.append intent.entry) () (keeping 60 stopped) :=
    .inl (he ▸ rfl)
  obtain ⟨s₁, hs₁, he₁, -, hn₁, hl₁, hhistory₁⟩ := hs.served_resumed hcall happend
  have hproceed : (Call.run (.recording intending intent.entry)).resume
      (keeping 60 stopped).env () = .waiting (.run (.invoking sending)) :=
    congrArg (Progress.map Call.run CallResult.left) proceed_intending
  rw [hproceed] at hn₁
  have hreply : s₁.engine.Answers (Call.run (.invoking sending)).request
      (Reply.result (.success [])) s₁.engine := rfl
  obtain ⟨s₂, hs₂, he₂, -, -, hl₂, hhistory₂⟩ := hs₁.served_resumed hn₁ hreply
  rw [hhistory₁, hhistory] at hhistory₂
  simp only [List.append_assoc, List.cons_append, List.nil_append] at hhistory₂
  have hcolumn : s₂.engine.store.isTable = true → TableStore.fits s₂.history.length := by
    simp [he₂, he₁, keeping, engine, Store.isTable]
  have hnamed := hs₂.wellNamed (hl₂.keeps (hl₁.keeps hkeeps))
  refine ⟨s₂, before, c, _, hs₂, hcolumn, hnamed, hhistory₂, hc, ?_,
    hs₂.aftermath hcolumn hnamed hhistory₂ hc⟩
  rw [List.countP_cons_of_neg (by simp [hm])]
  rfl

end Sample
end WorkflowEngine

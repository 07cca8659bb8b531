import WorkflowEngine.Proofs.System.Unrunnable

/-!
# Failing instances that cannot go on

An instance that was failed because its plan or its node is gone stays as it is. The failure is in
the trail once, and whoever polls or sweeps from then on is not handed the instance.
-/
namespace WorkflowEngine

/-- A step is recorded for its instance, as failed only if it ends the instance. -/
theorem Stepped.entry_spec {config : EngineConfig} {p : Plan} {made : Invocation → Prop}
    {i : Instance} {step : Step} (hstep : Stepped config p made i step) :
    step.entry.instanceId = i.id ∧
      (step.entry.outcome = .failed → step.next.isTerminal = true) := by
  cases hstep with
  | @passed _ exit outcome _ _ _ _ houtcome =>
    refine ⟨by cases exit <;> rfl, fun hfailed => ?_⟩
    rw [Step.advance_entry_outcome] at hfailed
    subst hfailed
    simp at houtcome
  | @succeeded v _ hv =>
    obtain rfl := hv.base
    unfold Step.advance
    cases v.exit <;> exact ⟨rfl, nofun⟩
  | gaveUp hv | retried hv =>
    obtain rfl := hv.base
    exact ⟨rfl, nofun⟩
  | intended | slept | recovered => exact ⟨rfl, nofun⟩
  | abandoned => exact ⟨rfl, fun _ => rfl⟩

/-- How an entry is settled: by a step that is stored, or by the failure of an instance that cannot
go on. The instance is written thereby. -/
inductive SettledBy (config : EngineConfig) (s : System) (m : Moment) : AuditEntry → Prop
  | stored {base : Instance} {step : Step} {p : Plan} {version : Version} {now : Instant}
      (hfound : s.engine.store.find? base.id = some (base.kept s.engine.store.time))
      (hheld : base.IsHeld) (hbound : BoundTo s.history p base)
      (hstep : Stepped config p (Made s.history) base step) (hstored : m.stored? = some step)
      (hwritten : m.written? = some (step.next.stamped version now)) :
      SettledBy config s m step.entry
  | failed {base : Instance} {entry : AuditEntry} {cause : Error} {error : String}
      {time now : Instant} {version : Version}
      (hfound : s.engine.store.find? base.id = some (base.kept s.engine.store.time))
      (hheld : base.IsHeld) (hcondemns : cause.Condemns (base.unrunnable error time) entry)
      (hwritten : m.written? = some ((base.unrunnable error time).stamped version now)) :
      SettledBy config s m entry

namespace System

variable {config : EngineConfig} {s s₀ s₁ : System} {m : Moment} {n : Nat} {id : InstanceId}
  {i : Instance} {entry : AuditEntry}

theorem Along.settledBy (hm : Along config s s₀ s₁ m) (hcounts : Counts s.history)
    (hcolumn : s.engine.store.isTable = true → TableStore.fits s.history.length)
    (hsettled : m.settled? = some entry) : SettledBy config s₀ m entry := by
  have hcounts₀ := (hm.counts hcounts).1
  have hlives := (hm.reachable.isSound hcounts₀).lives
  obtain ⟨stage, hrun, hstage⟩ := Option.bind_eq_some_iff.mp hsettled
  obtain ⟨n, c, r, answer, -, hasks, hasking, rfl, hr, hanswer⟩ := hm.of_run? hcounts hrun
  have hperform {next : Instance} {expected : Version} {answer : Outcome Instance}
      (hanswer : s₀.engine.Answers (.store (.save next expected)) answer s₁.engine) :=
    Engine.perform_of_answers hanswer
  have hwritten := Moment.written?_of_run? hrun
  cases r with
  | saving base step =>
    cases answer with
    | error => cases hstage
    | ok stored =>
      obtain rfl := Option.some.inj hstage
      obtain ⟨hseen, hheld, p, hbound, hstep⟩ := hr
      obtain ⟨hfound, rfl, -⟩ := hlives.of_save hcounts₀ hseen (.stepped hbound hheld hstep)
        (hperform hanswer)
      exact .stored hfound hheld hbound hstep (by rw [Moment.stored?, hrun]; rfl) hwritten
  | failing failed entry' cause =>
    cases answer with
    | error => cases hstage
    | ok stored =>
      obtain rfl := Option.some.inj hstage
      obtain ⟨base, error, now, hseen, hheld, rfl⟩ := hr
      have hchange : Change config s₀.history base none (base.unrunnable error now) := .failed hheld
      obtain ⟨hfound, rfl, -⟩ := hlives.of_save hcounts₀ hseen hchange (hperform hanswer)
      obtain ⟨-, hcondemns⟩ := hm.reachable.accounts (hm.column hcolumn) hasks hasking
      exact .failed hfound hheld hcondemns hwritten
  | loading | recording | invoking | reloading | recordingDropped | recordingFailure => cases hstage

/-- What a run settles, it writes. -/
theorem Along.written_of_settled (hm : Along config s s₀ s₁ m) (hcounts : Counts s.history)
    (hcolumn : s.engine.store.isTable = true → TableStore.fits s.history.length)
    (hsettled : m.settled? = some entry) :
    ∃ i, m.written? = some i ∧ i.id = entry.instanceId ∧
      (entry.outcome = .failed → i.isTerminal = true) := by
  cases hm.settledBy hcounts hcolumn hsettled with
  | stored _ _ _ hstep _ hwritten =>
    obtain ⟨hid, hfailed⟩ := hstep.entry_spec
    exact ⟨_, hwritten, hstep.next_eq.1.trans hid.symm, hfailed⟩
  | failed _ _ hcondemns hwritten =>
    exact ⟨_, hwritten, hcondemns.instanceId.symm, fun _ => rfl⟩

/-- An instance is written as ended at one moment at most. -/
theorem Reachable.eq_of_ended (hs : Reachable config s) (hcounts : Counts s.history) {a b : Moment}
    {j : Instance} (ha : a ∈ s.history) (hb : b ∈ s.history) (hi : a.written? = some i)
    (hended : i.isTerminal = true) (hj : b.written? = some j) (hended' : j.isTerminal = true)
    (hid : i.id = j.id) : a = b := by
  by_contra hne
  rcases exists_split ha hb hne with ⟨_, _, _, hsplit⟩ | ⟨_, _, _, hsplit⟩
  · exact hs.not_written_twice hcounts hsplit hi hended hj hid.symm
  · exact hs.not_written_twice hcounts hsplit hj hended' hi hid

end System

/-- Whether an entry says that an instance was failed. -/
def AuditEntry.isFailureOf (id : InstanceId) (entry : AuditEntry) : Bool :=
  entry.instanceId == id && entry.outcome == .failed

theorem AuditEntry.isFailureOf_iff {id : InstanceId} {entry : AuditEntry} :
    entry.isFailureOf id = true ↔ entry.instanceId = id ∧ entry.outcome = .failed := by
  simp [isFailureOf]

namespace System

variable {config : EngineConfig} {s s₀ s₁ : System} {f : Moment} {n : Nat} {i : Instance}
  {entry : AuditEntry} {cause : Error}

/-- No run has settled a failure of an instance but the one that has failed it, and that once. -/
theorem Reachable.countP_settled_le (hs : Reachable config s)
    (hcolumn : s.engine.store.isTable = true → TableStore.fits s.history.length) (n : Nat)
    (id : InstanceId) :
    (ofCall Moment.settled? n s.history).countP (AuditEntry.isFailureOf id) ≤ 1 := by
  have hcounts := hs.counts hcolumn
  by_contra hmany
  rw [countP_ofCall] at hmany
  obtain ⟨first, a, between, b, last, hsplit, ha, hb⟩ :=
    exists_two_of_countP (Nat.lt_of_not_le hmany)
  have hof {h h' : List Moment} {x : Moment} (hx : s.history = h ++ x :: h')
      (hfails : (x.settled?.any (AuditEntry.isFailureOf id) && decide (x.call = some n)) = true) :
      ∃ i, x.written? = some i ∧ i.id = id ∧ i.isTerminal = true := by
    obtain ⟨s₀, s₁, hm, -⟩ := hs.along hx
    obtain ⟨entry, hentry, hfailure⟩ :=
      (Option.any_eq_true _ _).mp ((Bool.and_eq_true _ _).mp hfails).1
    obtain ⟨hid, hfailed⟩ := AuditEntry.isFailureOf_iff.mp hfailure
    obtain ⟨i, hi, hiid, hended⟩ := hm.written_of_settled hcounts hcolumn hentry
    exact ⟨i, hi, hiid.trans hid, hended hfailed⟩
  obtain ⟨i, hi, hid, hended⟩ := hof (by simpa using hsplit) ha
  obtain ⟨j, hj, hjid, -⟩ := hof hsplit hb
  exact hs.not_written_twice hcounts hsplit hi hended hj (hjid.trans hid.symm)

/-- Whoever appends that an instance was failed has failed it. -/
theorem Reachable.of_appended_failure (hs : Reachable config s)
    (hcolumn : s.engine.store.isTable = true → TableStore.fits s.history.length)
    (hf : f ∈ s.history) (hfcall : f.call = some n) (hi : f.written? = some i)
    (hended : i.isTerminal = true) (hsettled : f.settled? = some entry) {x : Moment}
    (hx : x ∈ s.history) {entry' : AuditEntry} (happended : x.appended? = some entry')
    (hfailure : entry'.isFailureOf i.id = true) :
    entry' = entry ∧ x.call = some n ∧ x.reported? = some entry' := by
  have hcounts := hs.counts hcolumn
  obtain ⟨hid, hfailed⟩ := AuditEntry.isFailureOf_iff.mp hfailure
  obtain ⟨before, after, hsplit⟩ := List.append_of_mem hx
  obtain ⟨s₀, s₁, hm, -⟩ := hs.along hsplit
  have hreported : x.reported? = some entry' := by
    rcases hm.of_appended hcolumn happended with h | h | ⟨h, -⟩
    · exact h
    · rw [h] at hfailed
      cases hfailed
    · rw [hfailed] at h
      cases h
  obtain ⟨k, hxcall⟩ : ∃ k, x.call = some k := by
    obtain ⟨stage, hrun, -⟩ := Option.bind_eq_some_iff.mp hreported
    obtain ⟨k, -, -, -, hcall, -⟩ := hm.of_run? hcounts hrun
    exact ⟨k, hcall⟩
  -- What a call reports it has settled, and only one moment settles a failure of the instance.
  have hmem : entry' ∈ ofCall Moment.settled? k s.history :=
    (hs.balanced k).reported_isPrefix.subset (mem_ofCall.mpr ⟨x, hx, hxcall, hreported⟩)
  obtain ⟨y, hy, hycall, hysettled⟩ := mem_ofCall.mp hmem
  obtain ⟨before, after, hsplit⟩ := List.append_of_mem hy
  obtain ⟨t₀, t₁, hthere, -⟩ := hs.along hsplit
  obtain ⟨j, hj, hjid, hjended⟩ := hthere.written_of_settled hcounts hcolumn hysettled
  obtain rfl :=
    hs.eq_of_ended hcounts hf hy hi hended hj (hjended hfailed) (hid.symm.trans hjid.symm)
  obtain rfl := Option.some.inj (hsettled.symm.trans hysettled)
  exact ⟨rfl, hxcall.trans (hycall.symm.trans hfcall), hreported⟩

/-- A failure that has been appended is in the trail once. -/
theorem Reachable.failure_once (hs : Reachable config s)
    (hcolumn : s.engine.store.isTable = true → TableStore.fits s.history.length)
    (htrail : s.engine.trail = s.history.filterMap Moment.appended?)
    (hf : f ∈ s.history) (hfcall : f.call = some n) (hi : f.written? = some i)
    (hsettled : f.settled? = some entry) (hcondemns : cause.Condemns i entry)
    (happended : ∃ x ∈ s.history, x.appended? = some entry) :
    s.engine.trail.filter (AuditEntry.isFailureOf i.id) = [entry] := by
  have hall {x : Moment} (hx : x ∈ s.history) {entry' : AuditEntry}
      (happended : x.appended? = some entry') (hfailure : entry'.isFailureOf i.id = true) :=
    hs.of_appended_failure hcolumn hf hfcall hi hcondemns.isTerminal hsettled hx happended hfailure
  have hsame : ∀ entry' ∈ s.engine.trail.filter (AuditEntry.isFailureOf i.id), entry' = entry := by
    intro entry' hmem
    obtain ⟨hmem, hfailure⟩ := List.mem_filter.mp hmem
    obtain ⟨x, hx, hentry⟩ := List.mem_filterMap.mp (htrail ▸ hmem)
    exact (hall hx hentry hfailure).1
  have hthere : entry ∈ s.engine.trail.filter (AuditEntry.isFailureOf i.id) := by
    obtain ⟨x, hx, hentry⟩ := happended
    refine List.mem_filter.mpr ⟨htrail ▸ List.mem_filterMap.mpr ⟨x, hx, hentry⟩, ?_⟩
    exact AuditEntry.isFailureOf_iff.mpr ⟨hcondemns.instanceId, hcondemns.outcome⟩
  have honce : (s.engine.trail.filter (AuditEntry.isFailureOf i.id)).length ≤ 1 := by
    calc (s.engine.trail.filter (AuditEntry.isFailureOf i.id)).length
        = s.history.countP fun x => x.appended?.any (AuditEntry.isFailureOf i.id) := by
          rw [← List.countP_eq_length_filter, htrail, countP_filterMap_any]
      _ ≤ s.history.countP fun x =>
            x.reported?.any (AuditEntry.isFailureOf i.id) && decide (x.call = some n) := by
          refine List.countP_mono_left fun x hx hfails => ?_
          obtain ⟨entry', hentry, hfailure⟩ := (Option.any_eq_true _ _).mp hfails
          obtain ⟨-, hcall, hreported⟩ := hall hx hentry hfailure
          simp [hcall, hreported, hfailure]
      _ = (ofCall Moment.reported? n s.history).countP (AuditEntry.isFailureOf i.id) :=
          (countP_ofCall _).symm
      _ ≤ (ofCall Moment.settled? n s.history).countP (AuditEntry.isFailureOf i.id) :=
          (hs.balanced n).reported_isPrefix.sublist.countP_le
      _ ≤ 1 := hs.countP_settled_le hcolumn n i.id
  have hone := le_antisymm honce (List.length_pos_of_mem hthere)
  exact List.eq_replicate_iff.mpr ⟨hone, hsame⟩

end System

/-! ## What polls and sweeps return -/

/-- A call has written an instance. -/
def WrittenBy (h : List Moment) (n : Nat) (id : InstanceId) : Prop :=
  ∃ m ∈ h, m.call = some n ∧ m.Writes id

theorem WrittenBy.append {h : List Moment} {n : Nat} {id : InstanceId} (hid : WrittenBy h n id)
    (h' : List Moment) : WrittenBy (h ++ h') n id := by
  obtain ⟨m, hm, hwrites⟩ := hid
  exact ⟨m, List.mem_append_left _ hm, hwrites⟩

/-- What a call returns if it has ended. -/
def Progress.returned? {σ α : Type} : Progress σ α → Option α
  | ended (.ok a) => some a
  | _ => none

namespace Sweep

/-- The instances that a sweep has released so far. -/
def freed : Sweep → List InstanceId
  | listing _ _ _ => []
  | releasing _ _ _ released => released

/-- The instances that a sweep has released after it has been answered. -/
def freedAfter : (s : Sweep) → s.request.Answer → List InstanceId
  | listing _ _ _, _ => []
  | releasing _ current _ released, .ok _ => released ++ [current.id]
  | releasing _ _ _ released, .error _ => released

theorem freed_of_proceed {inFlightBefore : Instant} {rest : List Instance}
    {released : List InstanceId} :
    (∀ s, proceed inFlightBefore rest released = .waiting s → s.freed = released) ∧
      ∀ ids, (proceed inFlightBefore rest released).returned? = some ids → ids = released := by
  cases rest with
  | nil => exact ⟨fun s h => (by cases h), fun ids h => (Option.some.inj h).symm⟩
  | cons current rest =>
    refine ⟨fun s h => ?_, fun ids h => (by cases h)⟩
    obtain rfl := Progress.waiting.inj h
    rfl

/-- A sweep goes on with what it has released, and returns it in the end. -/
theorem freed_of_resume {s : Sweep} {answer : s.request.Answer} :
    (∀ s', s.resume answer = .waiting s' → s'.freed = s.freedAfter answer) ∧
      ∀ ids, (s.resume answer).returned? = some ids → ids = s.freedAfter answer := by
  cases s with
  | listing before inFlightBefore limit =>
    cases answer with
    | ok stale => exact freed_of_proceed
    | error => exact ⟨fun s' h => (by cases h), fun ids h => (by cases h)⟩
  | releasing inFlightBefore current rest released =>
    cases answer with
    | ok stored => exact freed_of_proceed
    | error e =>
      simp only [resume]
      split
      · exact freed_of_proceed
      · exact ⟨fun s' h => (by cases h), fun ids h => (by cases h)⟩

end Sweep

/-- The instances that a sweep returns after what it has just been answered. -/
def Moment.swept? (m : Moment) : Option (List InstanceId) :=
  match m.incident with
  | .served (.sweep s) answer => (s.resume answer).returned?
  | _ => none

/-- What a sweep is going to return, it has written. -/
def Stage.Frees (h : List Moment) (n : Nat) : Stage → Prop
  | asking (.sweep s) => ∀ id ∈ s.freed, WrittenBy h n id
  | answered (.sweep s) answer => ∀ id ∈ s.freedAfter answer, WrittenBy h n id
  | _ => True

theorem Stage.Frees.append {h : List Moment} {n : Nat} {stage : Stage} (hstage : stage.Frees h n)
    (h' : List Moment) : stage.Frees (h ++ h') n := by
  unfold Stage.Frees at hstage ⊢
  split at hstage
  · exact fun id hid => (hstage id hid).append h'
  · exact fun id hid => (hstage id hid).append h'
  · trivial

theorem Stage.frees_of_start {env : Env} {o : Opening} {c : Call} {h : List Moment} {n : Nat}
    (hstart : o.start env = .waiting c) : (asking c).Frees h n := by
  cases o with
  | sweep time grace =>
    simp only [Opening.start] at hstart
    split at hstart
    · rename_i sweep hsweep
      obtain rfl := Progress.waiting.inj hstart
      obtain ⟨_, _, rfl, -⟩ := Sweep.of_start_eq_ok hsweep
      exact fun id hid => absurd hid List.not_mem_nil
    · cases hstart
  | emit | dispatch =>
    obtain ⟨_, -, rfl⟩ := Progress.of_map_eq_waiting hstart
    trivial
  | poll | run | cancel | pass =>
    obtain rfl := Progress.waiting.inj hstart
    trivial

namespace System

variable {config : EngineConfig} {s s₀ s₁ : System} {m : Moment} {n : Nat} {id : InstanceId}

theorem Along.frees_of_served (hm : Along config s s₀ s₁ m) (hcounts : Counts s.history) {c : Call}
    {answer : c.request.Answer} (hcall : m.call = some n) (hserved : m.incident = .served c answer)
    (hasks : s₀.calls n = some (.asking c))
    (hanswer : s₀.engine.Answers c.request answer s₁.engine)
    (hc : (Stage.asking c).Frees s₀.history n) : (Stage.answered c answer).Frees s₁.history n := by
  rw [hm.history]
  cases c with
  | sweep sweep =>
    cases sweep with
    | listing => exact fun id hid => absurd hid List.not_mem_nil
    | releasing inFlightBefore current rest released =>
      have hreleased : ∀ id ∈ released, WrittenBy (s₀.history ++ [m]) n id :=
        fun id hid => (hc id hid).append [m]
      cases answer with
      | error => exact hreleased
      | ok stored =>
        intro id hid
        rcases List.mem_append.mp hid with hid | hid
        · exact hreleased id hid
        · obtain rfl := List.mem_singleton.mp hid
          have hsound := hm.reachable.isSound (hm.counts hcounts).1
          have hcurrent : Sweep.IsSound s₀.engine.store.time s₀.history
              (.releasing inFlightBefore current rest released) := hsound.calls n _ hasks
          obtain ⟨hseen, hheld⟩ := hcurrent current List.mem_cons_self
          obtain ⟨-, rfl, -⟩ := hsound.lives.of_save (hm.counts hcounts).1 hseen (.released hheld)
            (Engine.perform_of_answers hanswer)
          refine ⟨m, by simp, hcall, current.released.stamped current.version.next s₀.engine.now,
            ?_, rfl⟩
          rw [Moment.written?, hserved]
          rfl
  | emit | dispatch | poll | run | cancel | pass => trivial

/-- Every sweep has written what it is going to return. -/
theorem Reachable.frees (hs : Reachable config s) (hcounts : Counts s.history) {stage : Stage}
    (hn : s.calls n = some stage) : stage.Frees s.history n := by
  refine hs.of_stages (P := fun h n stage => stage.Frees h n) ?_ ?_ ?_ ?_ n stage hn
  · intro s₀ s₁ m o c _ _ _ hstart
    exact Stage.frees_of_start hstart
  · intro s₀ s₁ m n c answer hm hcall hserved hasks hanswer hc
    exact hm.frees_of_served hcounts hcall hserved hasks hanswer hc
  · intro s₀ s₁ m n c answer c' hm _ _ _ hresume hc
    rw [hm.history]
    refine Stage.Frees.append ?_ [m]
    cases c with
    | sweep sweep =>
      obtain ⟨sweep', hnext, rfl⟩ := Progress.of_map_eq_waiting hresume
      intro id hid
      rw [Sweep.freed_of_resume.1 sweep' hnext] at hid
      exact hc id hid
    | pass p =>
      obtain ⟨_, -, rfl⟩ := Progress.of_map_eq_waiting hresume
      trivial
    | emit | dispatch | poll | run | cancel =>
      obtain ⟨_, -, rfl⟩ := Progress.of_map_eq_waiting hresume
      trivial
  · intro s₀ s₁ m n stage hm _ _ hstage
    rw [hm.history]
    exact hstage.append [m]

/-- Whoever claims an instance writes it. -/
theorem Along.writes_of_claimed (hm : Along config s s₀ s₁ m) (hcounts : Counts s.history)
    (hcall : m.call = some n) (hclaimed : m.claimed? = some id) : m.Writes id := by
  obtain ⟨-, cur, i, -, -, hcur, hfree, -, hi, howner, -⟩ :=
    hm.step.of_claimed hm.reachable (hm.counts hcounts).1 hm.history hcall hclaimed
  by_contra hquiet
  have hsame := (hm.written hcounts).2 id fun j hj hid => hquiet ⟨j, hj, hid⟩
  rw [hi, ← hm.reachable.find?_eq_lastStored, hcur] at hsame
  obtain rfl := Option.some.inj hsame
  rw [hfree] at howner
  cases howner

/-- Polls and sweeps return what they have written. -/
theorem Reachable.writtenBy_of_returned (hs : Reachable config s) (hcounts : Counts s.history)
    (hm : m ∈ s.history) (hcall : m.call = some n) {ids : List InstanceId}
    (hreturned : m.returned? = some ids ∨ m.swept? = some ids) (hid : id ∈ ids) :
    WrittenBy s.history n id := by
  obtain ⟨before, after, hsplit⟩ := List.append_of_mem hm
  have hlater (h : WrittenBy (before ++ [m]) n id) : WrittenBy s.history n id := by
    rw [hsplit, List.append_cons]
    exact h.append after
  refine hlater ?_
  rcases hreturned with hreturned | hswept
  · obtain ⟨y, hy, hycall, hclaimed⟩ := hs.claimedBy_of_returned hsplit hcall hreturned id hid
    have hymem : y ∈ s.history := by
      rw [hsplit, List.append_cons]
      exact List.mem_append_left _ hy
    obtain ⟨first, last, hysplit⟩ := List.append_of_mem hymem
    obtain ⟨t₀, t₁, hthere, -⟩ := hs.along hysplit
    exact ⟨y, hy, hycall, hthere.writes_of_claimed hcounts hycall hclaimed⟩
  · obtain ⟨s₀, s₁, halong, rfl⟩ := hs.along hsplit
    have hreachable := halong.reachable.step halong.step
    unfold Moment.swept? at hswept
    split at hswept
    · rename_i sweep answer hserved
      have hstage : s₁.calls n = some (.answered (.sweep sweep) answer) := by
        rw [hreachable.calls_eq, halong.history, stageOf_append_self hcall, Moment.stage?, hserved]
      have hfrees := hreachable.frees (halong.counts hcounts).2 hstage
      rw [halong.history] at hfrees
      refine hfrees id ?_
      rwa [← Sweep.freed_of_resume.2 ids hswept]
    · cases hswept

end System

/-- What has become of an instance that was failed, and of what has happened since. -/
structure FailedForGood (s : System) (failed : Instance) (entry : AuditEntry)
    (later : List Moment) : Prop where
  recorded : s.engine.trail.filter (AuditEntry.isFailureOf failed.id) = [entry]
  stored : s.engine.store.find? failed.id = some (failed.kept s.engine.store.time)
  unwritten : ∀ x ∈ later, ¬ x.Writes failed.id
  /-- No poll and no sweep that has begun since returns the instance. -/
  unreturned : ∀ b ∈ later, ∀ o progress, b.incident = .began o progress → ∀ x ∈ later,
    x.call = b.call → ∀ ids, x.returned? = some ids ∨ x.swept? = some ids → failed.id ∉ ids

namespace System

variable {config : EngineConfig} {s : System} {f m : Moment} {n : Nat} {i : Instance}
  {first later before after : List Moment} {cause : Error}

theorem Reachable.unwritten_of_ended (hs : Reachable config s) (hcounts : Counts s.history)
    (hhistory : s.history = first ++ f :: later) (hi : f.written? = some i)
    (hended : i.isTerminal = true) : ∀ x ∈ later, ¬ x.Writes i.id := by
  rintro x hx ⟨j, hj, hid⟩
  obtain ⟨between, last, rfl⟩ := List.append_of_mem hx
  have hsplit : s.history = first ++ f :: between ++ x :: last := by simp [hhistory]
  exact hs.not_written_twice hcounts hsplit hi hended hj hid

theorem Reachable.unreturned_of_ended (hs : Reachable config s) (hcounts : Counts s.history)
    (hhistory : s.history = first ++ f :: later) (hi : f.written? = some i)
    (hended : i.isTerminal = true) {b x : Moment} {o : Opening}
    {progress : Progress Call CallResult} (hb : b ∈ later) (hbegan : b.incident = .began o progress)
    (hx : x ∈ later) (hcall : x.call = b.call) {ids : List InstanceId}
    (hreturned : x.returned? = some ids ∨ x.swept? = some ids) : i.id ∉ ids := by
  intro hid
  obtain ⟨between, last, rfl⟩ := List.append_of_mem hb
  have hsplit : s.history = (first ++ f :: between) ++ b :: last := by simp [hhistory]
  obtain ⟨t₀, t₁, hthere, ht₀⟩ := hs.along hsplit
  obtain ⟨hbcall, -⟩ := hthere.step.of_began hthere.history hbegan
  obtain ⟨y, hy, hycall, hwrites⟩ := hs.writtenBy_of_returned hcounts
    (by simp [hhistory, hx]) (hcall.trans hbcall) hreturned hid
  rw [hsplit] at hy
  rcases List.mem_append.mp hy with hy | hy
  · -- Before the call began it did nothing.
    have hcrashed := hthere.reachable.crashed_of_unbegun (ht₀ ▸ hy) hycall
    obtain ⟨j, hj, -⟩ := hwrites
    simp [Moment.written?, hcrashed] at hj
  · exact hs.unwritten_of_ended hcounts hhistory hi hended y (List.mem_append_right _ hy) hwrites

/-- Whenever a run ends because its instance cannot go on, it has failed the instance by its last
write, and recorded that once; or somebody else had written the instance since the run had last read
or written it, and the run wrote nothing and recorded nothing more. -/
theorem Reachable.fails_unrunnable (hs : Reachable config s)
    (hcolumn : s.engine.store.isTable = true → TableStore.fits s.history.length)
    (htrail : s.engine.trail = s.history.filterMap Moment.appended?)
    (hhistory : s.history = before ++ m :: after) (hraises : Raises before m n cause)
    {name : String} (hname : cause.unrunnable? = some name) :
    (∃ id, Overtaken before n id) ∨ ∃ failed entry f since,
      Touched before n failed.id f since [] ∧ f.written? = some failed ∧
      f.settled? = some entry ∧ cause.Condemns failed entry ∧
      FailedForGood s failed entry (since ++ m :: after) := by
  have hcounts := hs.counts hcolumn
  obtain ⟨s₀, s₁, hm, rfl⟩ := hs.along hhistory
  rcases hm.reachable.of_raises (hm.column hcolumn) hraises hname with
    hovertaken | ⟨failed, entry, f, since, hf, hwritten, hsettled, hcondemns⟩
  · exact .inl hovertaken
  · obtain ⟨first, hfirst⟩ := hf.history
    have hsplit : s.history = first ++ f :: (since ++ m :: after) := by simp [hhistory, hfirst]
    have hended := hcondemns.isTerminal
    have hunwritten := hs.unwritten_of_ended hcounts hsplit hwritten hended
    refine .inr ⟨failed, entry, f, since, hf, hwritten, hsettled, hcondemns, ?_, ?_, hunwritten, ?_⟩
    · refine hs.failure_once hcolumn htrail (by simp [hsplit]) hf.call hwritten hsettled hcondemns
        ?_
      have hone : ofCall Moment.appended? n since = [entry] := by
        rw [← List.append_nil (ofCall _ n since), hf.appended, hsettled]
        rfl
      obtain ⟨x, hx, -, hentry⟩ := mem_ofCall.mp (hone ▸ List.mem_singleton_self entry)
      exact ⟨x, by simp [hsplit, hx], hentry⟩
    · rw [hs.find?_of_unwritten hcounts hsplit hunwritten]
      exact ((hs.written hcounts hsplit).1 failed hwritten).2
    · intro b hb o progress hbegan x hx hcall ids
      exact hs.unreturned_of_ended hcounts hsplit hwritten hended hb hbegan hx hcall

end System

namespace Sample

theorem exchanges_emit : Exchanges (engine 0 .empty) (.emit ⟨event.draft plan (clock 0)⟩) [] []
    (keeping 0 created) none :=
  .ends (.ok (created, true)) rfl rfl rfl rfl

theorem exchanges_poll {i : Instance} {seconds : Int} (hdue : i.isDue (clock seconds) = true)
    (hcomparable : Instance.areComparable [i] = true)
    (hclaim : (keeping seconds i).Answers (.store (.claim i.id i.status .running (some "w")))
      (.ok (some (held i "w" seconds))) (keeping seconds (held i "w" seconds))) :
    Exchanges (keeping seconds i) (.poll (.listing "w" (clock seconds) 50)) [] []
      (keeping seconds (held i "w" seconds)) none := by
  refine .goesOn (.ok [i]) (listDue_eq hdue hcomparable)
    (congrArg (Progress.map Call.poll CallResult.listed) (listing_resume hdue)) rfl rfl ?_
  exact .ends (.ok (some (held i "w" seconds))) hclaim rfl rfl rfl

/-- In some run a worker has claimed the instance, and every entry is recorded. -/
theorem exists_held : ∃ s : System,
    s.IsBooked default (keeping 0 (held created "w" 0)) [] [] ∧ s.calls = fun _ => none := by
  have hfresh : System.IsBooked default _ [] []
      (.fresh ⟨Registry.empty default, default, clock 0, .memory .empty, [], none⟩) :=
    .fresh ⟨rfl, rfl, .inl rfl⟩ rfl
  have hregisters := System.Step.register (s := .fresh
    ⟨Registry.empty default, default, clock 0, .memory .empty, [], none⟩) register_graph
  have hregistered : System.IsBooked default (engine 0 .empty) [] [] _ :=
    hfresh.snoc hregisters rfl (by simp) (by simp) (by simp) rfl
  obtain ⟨s₁, hs₁, hcalls₁⟩ := hregistered.called (start_emit 0 .empty) exchanges_emit
  obtain ⟨s₂, hs₂, hcalls₂⟩ :=
    hs₁.called (o := .poll "w" none none) rfl (exchanges_poll rfl rfl rfl)
  exact ⟨s₂, hs₂, hcalls₂.trans hcalls₁⟩

/-- The engine after the graph has been removed. -/
def bare (i : Instance) : Engine := { keeping 0 i with registry := registry.unregister "g" }

/-- The instance after a run has found its graph removed. -/
def stranded : Instance :=
  { held created "w" 0 with
    status := .failed
    owner := none
    error := some "GraphNotFoundError: Automation graph 'g' not found"
    completedAt := some (clock 0)
    version := .count 2 }

def strandedEntry : AuditEntry :=
  ⟨"i1", some "t", .failed, [("reason", .text "GraphNotFoundError")], clock 0⟩

theorem begin_bare :
    Run.begin (bare (held created "w" 0)).env (held created "w" 0) =
      .waiting (.failing { stranded with version := .count 1 } strandedEntry
        (.graphNotFound "g")) := by
  have hgone : (registry.unregister "g").plan "g" (some plan.version) =
      .error (.graphNotFound "g") := by
    simp [Registry.plan, Registry.plansOf, Registry.unregister, registry, plan]
  have hnode : (bare (held created "w" 0)).env.planNode (held created "w" 0) "t" =
      .error (.graphNotFound "g") := by
    have hregistry : (bare (held created "w" 0)).env.registry = registry.unregister "g" := rfl
    rw [Env.planNode, hregistry]
    exact congrArg (fun found => found >>= fun p => p.node "t") hgone
  have hrecover : recover (bare (held created "w" 0)).env (held created "w" 0) = .ok none := rfl
  have hvisit : visit (bare (held created "w" 0)).env (held created "w" 0) =
      .error (.graphNotFound "g") := by
    have hcursor : (held created "w" 0).cursor = "t" := rfl
    rw [visit, hcursor, hnode]
    rfl
  rw [Run.begin, hrecover]
  simp only [Run.proceed, hvisit]
  rfl

/-- In some run the graph is removed while a worker holds the instance, which is failed for it. -/
theorem exists_failed_unrunnable : ∃ s before m n, System.Reachable default s ∧
    (s.engine.store.isTable = true → TableStore.fits s.history.length) ∧
    s.engine.trail = s.history.filterMap Moment.appended? ∧ s.history = before ++ m :: [] ∧
    Raises before m n (.graphNotFound "g") ∧
    s.engine.store.find? "i1" = some stranded ∧
    ((∃ id, Overtaken before n id) ∨ ∃ failed entry f since,
      Touched before n failed.id f since [] ∧ f.written? = some failed ∧
      f.settled? = some entry ∧ (Error.graphNotFound "g").Condemns failed entry ∧
      FailedForGood s failed entry (since ++ m :: [])) := by
  obtain ⟨s₀, hs₀, -⟩ := exists_held
  have hs₁ : System.IsWhole default (bare (held created "w" 0)) _ :=
    hs₀.toIsWhole.snoc (.unregister s₀ "g") rfl (by simp) (by simp)
      (by rw [System.aside, hs₀.engine]; rfl)
  obtain ⟨s₂, hs₂, -, hcalls₂⟩ := hs₁.begins (o := .run "i1" "w") rfl
  generalize (s₀.aside _ _).begun = n at hcalls₂
  have hload : (bare (held created "w" 0)).Answers (Call.run (Run.start "i1" "w")).request
      (.ok (held created "w" 0)) (bare (held created "w" 0)) := rfl
  obtain ⟨s₃, hs₃, -, hcalls₃, -⟩ :=
    hs₂.served_resumed (n := n) (hcalls₂ ▸ Function.update_self _ _ _) hload
  have hbegin : (Call.run (Run.start "i1" "w")).resume (bare (held created "w" 0)).env
      (.ok (held created "w" 0)) = .waiting (.run (.failing { stranded with version := .count 1 }
        strandedEntry (.graphNotFound "g"))) :=
    congrArg (Progress.map Call.run CallResult.left) begin_bare
  rw [hbegin] at hcalls₃
  have hsave : (bare (held created "w" 0)).Answers (Call.run (.failing
      { stranded with version := .count 1 } strandedEntry (.graphNotFound "g"))).request
      (.ok stranded) (bare stranded) := rfl
  obtain ⟨s₄, hs₄, -, hcalls₄, -⟩ :=
    hs₃.served_resumed (n := n) (hcalls₃ ▸ Function.update_self _ _ _) hsave
  have happend : (bare stranded).Answers (Call.run (.recordingFailure strandedEntry
      (.graphNotFound "g"))).request () (bare stranded) := .inl rfl
  obtain ⟨s₅, hs₅, -, -, trail, hhistory⟩ :=
    hs₄.served_resumed (n := n) (hcalls₄ ▸ Function.update_self _ _ _) happend
  have hcolumn : s₅.engine.store.isTable = true → TableStore.fits s₅.history.length := by
    simp [hs₅.engine, bare, keeping, engine, Store.isTable]
  have hraises (progress : Progress Call CallResult) :
      Raises (s₄.history ++ [⟨some n, .served (.run (.recordingFailure strandedEntry
        (.graphNotFound "g"))) (), { bare stranded with trail }⟩])
        ⟨some n, .resumed progress, { bare stranded with trail }⟩ n (.graphNotFound "g") :=
    .of_run rfl progress
  have hfails := hs₅.reachable.fails_unrunnable hcolumn hs₅.trail_eq hhistory (hraises _) rfl
  refine ⟨s₅, _, _, n, hs₅.reachable, hcolumn, hs₅.trail_eq, hhistory, hraises _, ?_, hfails⟩
  rw [hs₅.engine]
  rfl

end Sample
end WorkflowEngine

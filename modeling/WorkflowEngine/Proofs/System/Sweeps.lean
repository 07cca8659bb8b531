import WorkflowEngine.Proofs.System.LastWrites

/-!
# Sweeps

A sweep goes by a listing. It takes an instance from its worker only if nobody has written it since
it was listed, and what was listed had been silent for as long as the sweep demands.
-/
namespace WorkflowEngine

/-- An instance that its worker has not written for a grace period before a reference time, and not
for as long as an invocation may take if an action may be in flight. Both are in microseconds. -/
structure Instance.IsAbandoned (i : Instance) (now : Instant) (grace timeout : Int) : Prop where
  running : i.status = .running
  owned : i.owner ≠ none
  silent : i.updatedAt.micros < now.micros - grace
  dispatched : i.dispatching ≠ none → i.updatedAt.micros < now.micros - max grace timeout

/-- Whether a sweep is answered with the instances that are stale. -/
def Moment.isListing (m : Moment) : Bool :=
  match m.incident with
  | .served (.sweep (.listing _ _ _)) _ => true
  | _ => false

/-- A moment at which an abandoned instance is taken from its worker. -/
structure Releases (time : Instant → Instant) (before : List Moment) (m : Moment) (now : Instant)
    (grace timeout : Int) (base : Instance) : Prop where
  stored : lastStored base.id before = some base
  abandoned : base.IsAbandoned now grace timeout
  released : m.find? base.id = some { base with
    owner := none
    resumeAt := none
    version := base.version.next
    updatedAt := time m.engine.now }
  elsewhere : ∀ id, id ≠ base.id → m.find? id = lastStored id before
  /-- The time that the instance shows is that of its last write, and if an action may be in flight,
  then the intent was stored at that time or before. -/
  written : ∃ first x since, LastWritten before base.id first x since ∧
    base.updatedAt.micros = x.engine.now.micros ∧
    ∀ node, base.dispatching = some node → ∃ y ∈ first ++ [x],
      y.stores base.id node .actionDispatched = true ∧
        (Steady before → y.engine.now.micros < now.micros - max grace timeout)

/-- A call has begun as a sweep. -/
structure BeginsSweep (h : List Moment) (n : Nat) (b : Moment) (reference : Option Instant)
    (grace : Option Int) : Prop where
  mem : b ∈ h
  call : b.call = some n
  began : ∃ progress, b.incident = .began (.sweep reference grace) progress

structure SweepsAbandoned (config : EngineConfig) (time : Instant → Instant) (h : List Moment) :
    Prop where
  /-- What each write of a sweep does, given its reference time and its grace or what stands for
  them. -/
  releases : ∀ before m after n b reference grace w, h = before ++ m :: after →
    BeginsSweep before n b reference grace → m.call = some n → m.written? = some w →
    (∃ l ∈ before, l.call = some n ∧ l.isListing = true) ∧ ∃ base, base.id = w.id ∧
      Releases time before m (reference.getD b.engine.now)
        (grace.getD (config.staleClaim * 1000000)) (config.invokerTimeout * 1000000) base
  /-- What anybody writes after the sweep has listed it, the sweep does not write. -/
  untouched : ∀ before l between m after n b reference grace w,
    h = before ++ l :: between ++ m :: after →
    BeginsSweep (before ++ l :: between) n b reference grace → l.call = some n →
    l.isListing = true → m.call = some n → m.written? = some w → ∀ x ∈ between, ¬ x.Writes w.id

/-- An instance was stored when a call listed what is stale. -/
structure ListedBy (h : List Moment) (n : Nat) (i : Instance) : Prop where
  exists_listing : ∃ l ∈ h, l.call = some n ∧ l.isListing = true
  stored : ∀ before l after, h = before ++ l :: after → l.call = some n → l.isListing = true →
    l.find? i.id = some i

/-- What a sweep goes by. -/
def Stage.Sweeps (h : List Moment) (n : Nat) (now : Instant) (grace timeout : Int) : Stage → Prop
  | asking (.sweep (.listing before inFlightBefore _)) =>
    before.micros = now.micros - grace ∧
      inFlightBefore.micros = now.micros - max grace timeout ∧
      ∀ m ∈ h, m.call = some n → m.isListing = false
  | answered (.sweep (.listing before inFlightBefore _)) answer =>
    before.micros = now.micros - grace ∧
      inFlightBefore.micros = now.micros - max grace timeout ∧
      ∀ stale, answer = .ok stale → ∀ i ∈ stale, ListedBy h n i ∧ i.isStale before = true
  | asking (.sweep (.releasing _ current rest _))
  | answered (.sweep (.releasing _ current rest _)) _ =>
    ∀ i ∈ current :: rest, ListedBy h n i ∧ i.IsAbandoned now grace timeout
  | _ => False

section
variable {h : List Moment} {m b : Moment} {n : Nat} {i : Instance} {reference : Option Instant}
  {grace : Option Int}

theorem BeginsSweep.of_append (hb : BeginsSweep (h ++ [m]) n b reference grace)
    (hm : m.call = some n → ∀ o progress, m.incident ≠ .began o progress) :
    BeginsSweep h n b reference grace := by
  obtain ⟨hmem, hcall, progress, hbegan⟩ := hb
  rcases List.mem_append.mp hmem with hmem | hmem
  · exact ⟨hmem, hcall, progress, hbegan⟩
  · obtain rfl := List.mem_singleton.mp hmem
    exact absurd hbegan (hm hcall _ _)

theorem ListedBy.append (hi : ListedBy h n i) (hm : m.call = some n → m.isListing = false) :
    ListedBy (h ++ [m]) n i := by
  obtain ⟨l, hl, hcall, hlisting⟩ := hi.exists_listing
  refine ⟨⟨l, List.mem_append_left _ hl, hcall, hlisting⟩,
    fun before x after hsplit hx hthere => ?_⟩
  rcases last_or_before hsplit with ⟨-, rfl, -⟩ | ⟨rest, hrest, -⟩
  · rw [hm hx] at hthere
    cases hthere
  · exact hi.stored before x rest hrest hx hthere

theorem Stage.Sweeps.append {stage : Stage} {now : Instant} {grace timeout : Int}
    (hstage : stage.Sweeps h n now grace timeout) (hm : m.call = some n → m.isListing = false) :
    stage.Sweeps (h ++ [m]) n now grace timeout := by
  have hall {items : List Instance} {P : Instance → Prop}
      (hitems : ∀ i ∈ items, ListedBy h n i ∧ P i) :
      ∀ i ∈ items, ListedBy (h ++ [m]) n i ∧ P i :=
    fun i hi => ⟨(hitems i hi).1.append hm, (hitems i hi).2⟩
  unfold Stage.Sweeps at hstage ⊢
  split at hstage
  · obtain ⟨hbefore, hinFlight, hnone⟩ := hstage
    refine ⟨hbefore, hinFlight, fun m' hm' hcall => ?_⟩
    rcases List.mem_append.mp hm' with hm' | hm'
    · exact hnone m' hm' hcall
    · obtain rfl := List.mem_singleton.mp hm'
      exact hm hcall
  · obtain ⟨hbefore, hinFlight, hstale⟩ := hstage
    exact ⟨hbefore, hinFlight, fun stale hok => hall (hstale stale hok)⟩
  · exact hall hstage
  · exact hall hstage
  · exact hstage.elim

end

namespace Sweep

theorem earlier_eq_ok {now t : Instant} {micros : Int} (h : earlier now micros = .ok t) :
    t.micros = now.micros - micros := by
  unfold earlier at h
  split at h
  · rename_i hshift
    obtain rfl := Except.ok.inj h
    rw [Instant.shift?_eq_some hshift]
    omega
  · cases h

theorem duration_eq_ok {micros d : Int} (h : duration micros = .ok d) : d = micros := by
  unfold duration at h
  split at h
  · exact (Except.ok.inj h).symm
  · cases h

/-- A sweep begins with a listing, by two times in the past. -/
theorem of_start_eq_ok {env : Env} {time : Option Instant} {grace : Option Int} {s : Sweep}
    (h : start env time grace = .ok s) : ∃ before inFlightBefore,
      s = .listing before inFlightBefore env.config.pollBatchSize ∧
      before.micros =
        (time.getD env.now).micros - grace.getD (env.config.staleClaim * 1000000) ∧
      inFlightBefore.micros = (time.getD env.now).micros -
        max (grace.getD (env.config.staleClaim * 1000000))
          (env.config.invokerTimeout * 1000000) := by
  obtain ⟨grace', hgrace, h⟩ := of_bind_eq_ok h
  obtain ⟨timeout, htimeout, h⟩ := of_bind_eq_ok h
  obtain ⟨inFlightBefore, hinFlight, h⟩ := of_bind_eq_ok h
  obtain ⟨before, hbefore, h⟩ := of_bind_eq_ok h
  obtain rfl := Except.ok.inj h
  obtain rfl := duration_eq_ok hgrace
  obtain rfl := duration_eq_ok htimeout
  exact ⟨before, inFlightBefore, rfl, earlier_eq_ok hbefore, earlier_eq_ok hinFlight⟩

end Sweep

theorem Instance.isAbandoned_of_isStale {i : Instance} {now before inFlightBefore : Instant}
    {grace timeout : Int} (hbefore : before.micros = now.micros - grace)
    (hinFlight : inFlightBefore.micros = now.micros - max grace timeout)
    (hstale : i.isStale before = true) (hidle : Sweep.isInFlight inFlightBefore i = false) :
    i.IsAbandoned now grace timeout := by
  simp only [isStale, Bool.and_eq_true, beq_iff_eq, decide_eq_true_eq] at hstale
  obtain ⟨⟨hrunning, howned⟩, hsilent⟩ := hstale
  have hsilent : i.updatedAt.micros < before.micros := hsilent
  refine ⟨hrunning, Option.isSome_iff_ne_none.mp howned, by omega, fun hintent => ?_⟩
  have hsome : i.dispatching.isSome = true := Option.isSome_iff_ne_none.mpr hintent
  simp only [Sweep.isInFlight, hsome, Bool.true_and, decide_eq_false_iff_not] at hidle
  have hidle : ¬ inFlightBefore.micros ≤ i.updatedAt.micros := hidle
  omega

theorem Stage.Sweeps.resumed {h : List Moment} {n : Nat} {now : Instant} {grace timeout : Int}
    {c c' : Call} {answer : c.request.Answer} {env : Env}
    (hc : (answered c answer).Sweeps h n now grace timeout)
    (hresume : c.resume env answer = .waiting c') : (asking c').Sweeps h n now grace timeout := by
  have hproceed {inFlightBefore : Instant} {items : List Instance} {released : List InstanceId}
      {s : Sweep} (hnext : Sweep.proceed inFlightBefore items released = .waiting s)
      (hitems : ∀ i ∈ items, ListedBy h n i ∧ i.IsAbandoned now grace timeout) :
      (asking (.sweep s)).Sweeps h n now grace timeout := by
    cases items with
    | nil => cases hnext
    | cons current rest =>
      obtain rfl := Progress.waiting.inj hnext
      exact hitems
  cases c with
  | sweep s =>
    obtain ⟨s', hnext, rfl⟩ := Progress.of_map_eq_waiting hresume
    cases s with
    | listing before inFlightBefore limit =>
      obtain ⟨hbefore, hinFlight, hstale⟩ := hc
      simp only [Sweep.resume] at hnext
      split at hnext
      · rename_i stale
        refine hproceed hnext fun i hi => ?_
        obtain ⟨hmem, hidle⟩ := List.mem_filter.mp hi
        obtain ⟨hlisted, hisStale⟩ := hstale stale rfl i hmem
        exact ⟨hlisted,
          Instance.isAbandoned_of_isStale hbefore hinFlight hisStale (by simpa using hidle)⟩
      · cases hnext
    | releasing inFlightBefore current rest released =>
      have hrest : ∀ i ∈ rest, ListedBy h n i ∧ i.IsAbandoned now grace timeout :=
        fun i hi => hc i (List.mem_cons_of_mem _ hi)
      simp only [Sweep.resume] at hnext
      split at hnext
      · exact hproceed hnext hrest
      · split at hnext
        · exact hproceed hnext hrest
        · cases hnext
  | emit | dispatch | poll | run | cancel | pass => exact hc.elim

namespace System

variable {config : EngineConfig} {s s₀ s₁ : System} {m : Moment} {n : Nat}

theorem Along.sweep_served (hm : Along config s s₀ s₁ m) (hcounts : Counts s.history) {c : Call}
    {answer : c.request.Answer} (hcall : m.call = some n) (hserved : m.incident = .served c answer)
    (hanswer : s₀.engine.Answers c.request answer s₁.engine) {now : Instant} {grace timeout : Int}
    (hc : (Stage.asking c).Sweeps s₀.history n now grace timeout) :
    (Stage.answered c answer).Sweeps s₁.history n now grace timeout := by
  rw [hm.history]
  cases c with
  | sweep sw =>
    cases sw with
    | listing before inFlightBefore limit =>
      obtain ⟨hbefore, hinFlight, hnone⟩ := hc
      refine ⟨hbefore, hinFlight, fun stale hok i hi => ?_⟩
      subst hok
      obtain ⟨hlist, hsame⟩ := Prod.mk.inj (Engine.perform_of_answers hanswer)
      have hlist : s₀.engine.store.listStale before limit = .ok stale := hlist
      obtain ⟨hmem, hstale⟩ := Store.of_listStale hlist hi
      have hlisting : m.isListing = true := by rw [Moment.isListing, hserved]
      have hwf := (hm.reachable.isSound (hm.counts hcounts).1).lives.wellFormed
      have hfound : m.find? i.id = some i := by
        rw [← hm.find?_eq, ← hsame]
        exact Store.find?_of_mem hwf hmem
      refine ⟨⟨⟨m, by simp, hcall, hlisting⟩, fun first l after hsplit hl hthere => ?_⟩, hstale⟩
      rcases last_or_before hsplit with ⟨-, rfl, -⟩ | ⟨rest, hrest, -⟩
      · exact hfound
      · rw [hnone l (by simp [hrest]) hl] at hthere
        cases hthere
    | releasing =>
      refine Stage.Sweeps.append ?_ fun _ => by rw [Moment.isListing, hserved]
      exact hc
  | emit | dispatch | poll | run | cancel | pass => exact hc.elim

/-- Every call that has begun as a sweep goes by what it has listed. -/
theorem Reachable.sweeps (hs : Reachable config s) (hcounts : Counts s.history) :
    ∀ n stage, s.calls n = some stage → ∀ b reference grace,
      BeginsSweep s.history n b reference grace →
      stage.Sweeps s.history n (reference.getD b.engine.now)
        (grace.getD (config.staleClaim * 1000000)) (config.invokerTimeout * 1000000) := by
  refine hs.of_stages (P := fun h n stage => ∀ b reference grace,
    BeginsSweep h n b reference grace → stage.Sweeps h n (reference.getD b.engine.now)
      (grace.getD (config.staleClaim * 1000000)) (config.invokerTimeout * 1000000)) ?_ ?_ ?_ ?_
  · intro s₀ s₁ m o c hm hcall hbegan hstart b reference grace hb
    rw [hm.history] at hb ⊢
    obtain ⟨progress, hsweep⟩ := hb.began
    obtain rfl := hm.eq_of_begun hb.mem hb.call (by simp [hsweep])
    cases hbegan.symm.trans hsweep
    obtain ⟨-, -, hsame⟩ := hm.step.of_began hm.history hbegan
    have hconfig := (hm.reachable.isSound (hm.counts hcounts).1).config_eq
    simp only [Opening.start] at hstart
    split at hstart
    · rename_i sw hsw
      obtain rfl := Progress.waiting.inj hstart
      obtain ⟨before, inFlightBefore, rfl, hbefore, hinFlight⟩ := Sweep.of_start_eq_ok hsw
      rw [← hm.engine, hsame, ← hconfig]
      refine ⟨hbefore, hinFlight, fun m' hm' hcall' => ?_⟩
      by_cases hcrashed : m'.incident = .crashed
      · rw [Moment.isListing, hcrashed]
      · rw [hm.eq_of_begun hm' hcall' hcrashed, Moment.isListing, hbegan]
    · cases hstart
  · intro s₀ s₁ m n c answer hm hcall hserved _ hanswer hc b reference grace hb
    rw [hm.history] at hb
    exact hm.sweep_served hcounts hcall hserved hanswer
      (hc b reference grace (hb.of_append (by simp [hserved])))
  · intro s₀ s₁ m n c answer c' hm _ hresumed _ hresume hc b reference grace hb
    rw [hm.history] at hb ⊢
    have hstage := (hc b reference grace (hb.of_append (by simp [hresumed]))).resumed hresume
    exact hstage.append fun _ => by rw [Moment.isListing, hresumed]
  · intro s₀ s₁ m n stage hm hcall _ hstage b reference grace hb
    rw [hm.history] at hb ⊢
    exact (hstage b reference grace (hb.of_append fun h => absurd h hcall)).append fun h =>
      absurd h hcall

/-- A sweep writes only what is stored as it was listed. -/
theorem Along.of_swept (hm : Along config s s₀ s₁ m) (hcounts : Counts s.history) {b : Moment}
    {reference : Option Instant} {grace : Option Int} {w : Instance}
    (hb : BeginsSweep s₀.history n b reference grace) (hcall : m.call = some n)
    (hw : m.written? = some w) : ∃ base, w = base.released.stamped base.version.next m.engine.now ∧
      ListedBy s₀.history n base ∧ base.IsAbandoned (reference.getD b.engine.now)
        (grace.getD (config.staleClaim * 1000000)) (config.invokerTimeout * 1000000) ∧
      s₀.engine.store.find? base.id = some base := by
  have hcounts₀ := (hm.counts hcounts).1
  have hsound := hm.reachable.isSound hcounts₀
  unfold Moment.written? at hw
  split at hw
  · rename_i c answer hserved
    obtain ⟨n', hcall', hasks, hanswer⟩ := hm.step.of_served hm.history hserved
    obtain rfl := Option.some.inj (hcall'.symm.trans hcall)
    have hc := hm.reachable.sweeps hcounts₀ _ _ hasks b reference grace hb
    have hcSound : c.IsSound config s₀.engine.store.time s₀.history := hsound.calls _ _ hasks
    have hnow := Engine.now_of_answers hanswer
    rw [hm.engine] at hnow
    cases c with
    | sweep sw =>
      cases sw with
      | listing => cases hw
      | releasing inFlightBefore base rest released =>
        cases answer with
        | error e => cases hw
        | ok stored =>
          obtain rfl := Option.some.inj hw
          obtain ⟨hseen, hheld⟩ := hcSound base List.mem_cons_self
          obtain ⟨hlisted, habandoned⟩ := hc base List.mem_cons_self
          obtain ⟨hfound, rfl, -⟩ := hsound.lives.of_save hcounts₀ hseen (.released hheld)
            (Engine.perform_of_answers hanswer)
          refine ⟨base, by rw [hnow], hlisted, habandoned, ?_⟩
          obtain ⟨l, hl, hlcall, hlisting⟩ := hlisted.exists_listing
          obtain ⟨before, after, hsplit⟩ := List.append_of_mem hl
          have hthere := hlisted.stored before l after hsplit hlcall hlisting
          rcases (hsound.lives.life base.id _ hfound).eq_or_before hcounts₀ hl hthere with
            heq | hbefore
          · rw [hfound, ← heq]
          · exact absurd hbefore (Version.not_before_self _)
    | emit | dispatch | poll | run | cancel | pass => exact hc.elim
  · cases hw

/-- What is stored is not out of date. -/
theorem Reachable.not_outdated (hs : Reachable config s) (hcounts : Counts s.history)
    {i : Instance} (hi : s.engine.store.find? i.id = some i) : ¬ Outdated s.history i := by
  rintro ⟨x, hx, j, hj, hbefore⟩
  rcases (hs.life hcounts hi).eq_or_before hcounts hx hj with rfl | hbefore'
  · exact Version.not_before_self _ hbefore
  · exact Version.not_before_self _ (hbefore.trans hbefore')

theorem Along.releases (hm : Along config s s₀ s₁ m) (hcounts : Counts s.history)
    {base : Instance} {now : Instant} {grace timeout : Int}
    (hw : m.written? = some (base.released.stamped base.version.next m.engine.now))
    (habandoned : base.IsAbandoned now grace timeout)
    (hfound : s₀.engine.store.find? base.id = some base) :
    Releases s.engine.store.time s₀.history m now grace timeout base := by
  have hcounts₀ := (hm.counts hcounts).1
  have hsound := hm.reachable.isSound hcounts₀
  obtain ⟨hhere, helsewhere⟩ := hm.written hcounts
  refine ⟨?_, habandoned, ?_, fun id hid => ?_, ?_⟩
  · rw [← hm.reachable.find?_eq_lastStored, hfound]
  · have hkept : base.kept s.engine.store.time = base := by
      rw [← hm.time_eq]
      exact Store.kept_of_find? hsound.lives.wellFormed hfound
    have hreleased : base.released.kept s.engine.store.time = base.released := by
      obtain ⟨-, hcreated, hcompleted⟩ := Instance.times_of_kept hkept
      have hupdated : s.engine.store.time base.updatedAt = base.updatedAt :=
        congrArg (·.updatedAt) hkept
      simp only [Instance.kept, Instance.released, hcreated, hcompleted, hupdated, Option.map_none]
    rw [show base.id = (base.released.stamped base.version.next m.engine.now).id from rfl,
      (hhere _ hw).2, Instance.kept_stamped hreleased]
    simp only [Instance.stamped, Instance.released, ← habandoned.running]
  · refine helsewhere id fun i hi hsame => hid ?_
    rw [← hsame, ← Option.some.inj (hw.symm.trans hi)]
    rfl
  · obtain ⟨first, x, since, hlast, htime⟩ :=
      hm.reachable.exists_lastWritten hcounts₀ hfound habandoned.owned
    refine ⟨first, x, since, hlast, htime, fun node hnode => ?_⟩
    obtain ⟨y, hy, hstores⟩ := (hsound.lives.life _ _ hfound).exists_intent hnode
    have hmem := hlast.mem_of_writes hy (hm.reachable.writes_of_stores hcounts₀ hy hstores)
    refine ⟨y, hmem, hstores, fun hsteady => ?_⟩
    have hle : y.engine.now.micros ≤ x.engine.now.micros := hsteady.le hlast.history hmem
    have := habandoned.dispatched (by simp [hnode])
    omega

theorem Reachable.sweepsAbandoned (hs : Reachable config s)
    (hcolumn : s.engine.store.isTable = true → TableStore.fits s.history.length) :
    SweepsAbandoned config s.engine.store.time s.history := by
  have hcounts := hs.counts hcolumn
  constructor
  · intro before m after n b reference grace w hhistory hb hcall hw
    obtain ⟨s₀, s₁, hm, rfl⟩ := hs.along hhistory
    obtain ⟨base, rfl, hlisted, habandoned, hfound⟩ := hm.of_swept hcounts hb hcall hw
    exact ⟨hlisted.exists_listing, base, rfl, hm.releases hcounts hw habandoned hfound⟩
  · intro before l between m after n b reference grace w hhistory hb hlcall hlisting hcall hw x hx
      hwrites
    obtain ⟨s₀, s₁, hm, hbefore⟩ := hs.along hhistory
    rw [← hbefore] at hb
    obtain ⟨base, rfl, hlisted, -, hfound⟩ := hm.of_swept hcounts hb hcall hw
    have hcounts₀ := (hm.counts hcounts).1
    obtain ⟨stored, hstored, hid⟩ := hwrites
    obtain ⟨first, rest, rfl⟩ := List.append_of_mem hx
    have hsplit : s₀.history = (before ++ l :: first) ++ x :: rest := by simp [hbefore]
    obtain ⟨t₀, t₁, hthere, ht₀⟩ := hm.reachable.along hsplit
    have hkept := Store.kept_of_find? (hm.reachable.isSound hcounts₀).lives.wellFormed hfound
    have hseen : Seen t₀.engine.store.time t₀.history base := by
      refine ⟨l, by simp [ht₀], ?_⟩
      rw [hthere.time_eq, hkept]
      exact hlisted.stored before l _ hbefore hlcall hlisting
    have hold : Outdated t₁.history base := hthere.step.outdated hthere.reachable
      (hthere.counts hcounts₀).2 hthere.history hstored hid hseen
    have hlater : s₀.history = t₁.history ++ rest := by simp [hthere.history, ht₀, hbefore]
    exact hm.reachable.not_outdated hcounts₀ hfound (hlater ▸ hold.append rest)

end System

namespace Sample

/-- The instance after its worker has been lost with the action in flight. -/
def requeued : Instance :=
  { intending with owner := none, updatedAt := clock 961, version := .count 6 }

theorem start_sweep : (Opening.sweep none none).start (keeping 961 intending).env =
    .waiting (.sweep (.listing (clock 661) (clock 61) 50)) := by
  have hconfig : (keeping 961 intending).env.config = default := rfl
  have hgrace : Sweep.duration (((default : EngineConfig).staleClaim : Int) * 1000000) =
      .ok 300000000 := rfl
  have htimeout : Sweep.duration (((default : EngineConfig).invokerTimeout : Int) * 1000000) =
      .ok 900000000 := rfl
  have hinFlight : Sweep.earlier (clock 961) (max 300000000 900000000) = .ok (clock 61) := rfl
  have hbefore : Sweep.earlier (clock 961) 300000000 = .ok (clock 661) := rfl
  have hstart : Sweep.start (keeping 961 intending).env none none =
      .ok (.listing (clock 661) (clock 61) 50) := by
    have hnow : (keeping 961 intending).env.now = clock 961 := rfl
    simp only [Sweep.start, Option.getD_none, hconfig, hnow, hgrace, htimeout, bind, Except.bind,
      hinFlight, hbefore]
    rfl
  simp only [Opening.start, hstart]

theorem listStale_intending : (keeping 961 intending).Answers
    (.store (.listStale (clock 661) 50)) (.ok [intending]) (keeping 961 intending) := by
  have hfilter : [intending].filter (Instance.isStale (clock 661)) = [intending] := rfl
  have hlist : (keeping 961 intending).store.listStale (clock 661) 50 = .ok [intending] := by
    simp only [Store.listStale, keeping, engine, MemoryStore.listStale, hfilter,
      Instance.sortStale, List.mergeSort_singleton]
    rfl
  exact Prod.ext hlist.symm rfl

/-- In some run a worker is lost after it has stored an intent, and a sweep releases the instance
as soon as the invocation cannot be in flight any more. -/
theorem exists_sweepsAbandoned : ∃ s n b before m after, System.Reachable default s ∧
    (s.engine.store.isTable = true → TableStore.fits s.history.length) ∧
    s.history = before ++ m :: after ∧ BeginsSweep before n b none none ∧ m.call = some n ∧
    m.written? = some requeued ∧ SweepsAbandoned default s.engine.store.time s.history := by
  obtain ⟨s, n, hs, he, -⟩ := exists_intending
  have hticked := hs.step (.tick s (clock 961))
  have hengine : (s.aside .ticked { s.engine with now := clock 961 }).engine =
      keeping 961 intending := by
    rw [System.aside, he]
    rfl
  generalize s.aside .ticked { s.engine with now := clock 961 } = s₀ at hticked hengine
  have hbegun := hticked.step (.start s₀ (.sweep none none))
  rw [hengine, start_sweep] at hbegun
  obtain ⟨s₁, hs₁, he₁, -, hn₁, -, hh₁⟩ := hbegun.served_resumed (n := s₀.begun)
    (Function.update_self _ _ _) listStale_intending
  have hsave : s₁.engine.Answers (Call.sweep (.releasing (clock 61) intending [] [])).request
      (.ok requeued) (keeping 961 requeued) := by
    rw [he₁]
    rfl
  obtain ⟨s₂, hs₂, he₂, -, -, -, hh₂⟩ := hs₁.served_resumed hn₁ hsave
  have hcolumn : s₂.engine.store.isTable = true → TableStore.fits s₂.history.length := by
    simp [he₂, keeping, engine, Store.isTable]
  obtain ⟨b, hb⟩ : ∃ b, BeginsSweep s₁.history s₀.begun b none none := by
    rw [hh₁, List.append_assoc]
    exact ⟨_, List.mem_append_left _ (List.mem_append_right _ (List.mem_singleton_self _)), rfl, _,
      rfl⟩
  rw [List.append_assoc] at hh₂
  exact ⟨s₂, s₀.begun, b, s₁.history, _, _, hs₂, hcolumn, hh₂, hb, rfl, rfl,
    hs₂.sweepsAbandoned hcolumn⟩

end Sample
end WorkflowEngine

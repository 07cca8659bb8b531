import WorkflowEngine.Proofs.System.Polls
import WorkflowEngine.Proofs.System.Undisturbed

/-!
# Handing instances over

An instance that a worker claims was due when it was listed. It is still due when it is claimed,
unless it was put to sleep in between, and was not written after that.
-/
namespace WorkflowEngine

/-- A run has put an instance to sleep until a time, and the instance was not written since. -/
def Sleeps (id : InstanceId) (h : List Moment) (t : Instant) : Prop :=
  ∃ before m after, h = before ++ m :: after ∧
    (∃ step, m.stored? = some step ∧ step.next.id = id ∧ step.wakeAt = some t) ∧
    ∀ m' ∈ after, m'.find? id = m.find? id

namespace Stepped

variable {config : EngineConfig} {p : Plan} {made : Invocation → Prop} {i : Instance}
  {step : Step}

theorem resumeAt_of_wakeAt (hstep : Stepped config p made i step) {t : Instant}
    (hwake : step.wakeAt = some t) : step.next.resumeAt = some t := by
  cases hstep with
  | @passed _ exit => cases exit <;> cases hwake
  | intended => cases hwake
  | slept => exact hwake
  | @succeeded v =>
    unfold Step.advance at hwake
    cases hexit : v.exit <;> rw [hexit] at hwake <;> cases hwake
  | gaveUp => cases hwake
  | retried => exact hwake
  | recovered => cases hwake
  | abandoned => cases hwake

/-- A worker lets go of an instance that goes on only to put it to sleep. -/
theorem wakeAt_of_unowned (hstep : Stepped config p made i step) (hheld : i.IsHeld)
    (hfree : step.next.owner = none) (hlive : step.next.isTerminal = false) :
    step.wakeAt = step.next.resumeAt := by
  have hnotFree : i.owner ≠ none := Option.isSome_iff_ne_none.mp hheld.2
  cases hstep with
  | @passed _ exit =>
    cases exit with
    | none => cases hlive
    | some target => exact absurd hfree hnotFree
  | intended => exact absurd hfree hnotFree
  | slept => rfl
  | @succeeded v _ hv =>
    obtain rfl := hv.base
    unfold Step.advance at hfree hlive
    cases hexit : v.exit <;> rw [hexit] at hfree hlive
    · cases hlive
    · exact absurd hfree hnotFree
  | gaveUp => cases hlive
  | retried => rfl
  | recovered => exact absurd hfree hnotFree
  | abandoned => cases hlive

end Stepped

namespace Life

variable {config : EngineConfig} {time : Instant → Instant} {id : InstanceId}
  {h : List Moment} {i : Instance}

/-- An instance that nobody holds and that is to be claimed only later was put to sleep. -/
theorem exists_asleep (hlife : Life config time id h i) (hfree : i.owner = none)
    (hlive : i.isTerminal = false) {t : Instant} (hresume : i.resumeAt = some t) :
    ∃ before m after, h = before ++ m :: after ∧ m.find? id = some i ∧
      (∃ step u, m.stored? = some step ∧ step.next.id = id ∧ step.wakeAt = some u ∧ time u = t) ∧
      ∀ m' ∈ after, m'.find? id = some i := by
  induction hlife with
  | @born _ _ _ _ i _ _ _ hdraft =>
    have hnone : (i.kept time).resumeAt = none := by
      rw [Instance.kept, hdraft]
      rfl
    rw [hnone] at hresume
    cases hresume
  | @idle h m i hlife hstored hfound ih =>
    obtain ⟨before, m', after, rfl, hm', hstep, hafter⟩ := ih hfree hlive hresume
    refine ⟨before, m', after ++ [m], by simp, hm', hstep, fun m'' hm'' => ?_⟩
    rcases List.mem_append.mp hm'' with hm'' | hm''
    · exact hafter m'' hm''
    · obtain rfl := List.mem_singleton.mp hm''
      exact hfound
  | @changed h m i next step now hlife hid hchange hstored hfound ih =>
    have hresume : next.resumeAt.map time = some t := hresume
    refine ⟨h, m, [], rfl, hfound, ?_, by simp⟩
    cases hchange with
    | stepped _ hheld hstep =>
      rw [← hstep.wakeAt_of_unowned hheld hfree hlive, Option.map_eq_some_iff] at hresume
      obtain ⟨u, hu, rfl⟩ := hresume
      exact ⟨_, u, hstored, hstep.next_eq.1.trans hid, hu, rfl⟩
    | failed => cases hlive
    | released => cases hresume
    | cancelled => cases hlive
    | claimed => cases hfree

/-- A step that puts an instance to sleep stores the time until which it sleeps. -/
theorem resumeAt_of_wakeAt (hlife : Life config time id h i) {m : Moment} (hm : m ∈ h)
    {step : Step} {t : Instant} (hstored : m.stored? = some step) (hid : step.next.id = id)
    (hwake : step.wakeAt = some t) :
    ∃ j, m.find? id = some j ∧ j.resumeAt = some (time t) := by
  induction hlife with
  | born hunborn _ _ _ hnone =>
    exact absurd hid (hunborn.stored_append hnone m hm step hstored)
  | idle _ hquiet _ ih =>
    rcases List.mem_append.mp hm with hm | hm
    · exact ih hm
    · obtain rfl := List.mem_singleton.mp hm
      exact absurd hid (hquiet step hstored)
  | changed _ _ hchange hstep hfound ih =>
    rcases List.mem_append.mp hm with hm | hm
    · exact ih hm
    · obtain rfl := List.mem_singleton.mp hm
      obtain rfl := hstep.symm.trans hstored
      cases hchange with
      | stepped _ _ hstepped =>
        refine ⟨_, hfound, ?_⟩
        exact congrArg (Option.map time) (hstepped.resumeAt_of_wakeAt hwake)

end Life

theorem Store.time_le (s : Store) (t now : Instant) : s.time t ≤ now ↔ t ≤ now := by
  cases s <;> rfl

/-- A poll claims what was due when it was listed, and what is stored then goes on as it is. -/
theorem Poll.of_claimed {time : Instant → Instant} {h : List Moment} {n : Nat} {p : Poll}
    {answer : p.request.Answer} {e e' : Engine} {id : InstanceId}
    (hwellFormed : e.store.WellFormed) (hp : p.IsSound time h)
    (hgoes : (PollStage.asking p).GoesBy h n) (hanswer : e.Answers p.request answer e')
    (hclaimed : (PollStage.answered p answer).claimed? = some id) :
    ∃ current cur i, current.id = id ∧ ListedDue h n current ∧ e.store.find? id = some cur ∧
      cur.owner = none ∧ cur.isTerminal = false ∧ e'.store.find? id = some i ∧
      i.owner.isSome ∧ i.resumeAt = cur.resumeAt := by
  cases p with
  | listing => cases hclaimed
  | claiming worker current rest claimed =>
    have hperform := Engine.perform_of_answers hanswer
    rcases hclaim : e.store.claim e.now current.id current.status .running (some worker) with
      ⟨granted, s'⟩
    simp only [Store.perform, hclaim] at hperform
    obtain ⟨rfl, hstore⟩ := Prod.mk.inj hperform
    rcases Store.claim_cases hwellFormed hclaim with
      ⟨rfl, -⟩ | ⟨cur, version, hcur, hstatus, hfree, -, rfl, hputs⟩
    · cases hclaimed
    · obtain rfl : current.id = id := Option.some.inj hclaimed
      have hid : cur.id = current.id := Instance.find?_id hcur
      have hlive : cur.isTerminal = false := by
        rw [Instance.isTerminal, hstatus]
        exact (hp current (by simp)).2
      have hhere := hputs.here
      rw [hstore] at hhere
      refine ⟨current, cur, _, rfl, hgoes current (by simp), hcur, hfree, hlive, hid ▸ hhere,
        rfl, ?_⟩
      exact congrArg (·.resumeAt) (Store.kept_of_find? hwellFormed hcur)

namespace System

variable {config : EngineConfig} {s s' : System} {id : InstanceId}

theorem Reachable.engine_of_history (hs : Reachable config s) {h : List Moment} {m : Moment}
    (hhistory : s.history = h ++ [m]) : s.engine = m.engine := by
  cases hs with
  | fresh => simp [System.fresh] at hhistory
  | step _ hstep =>
    obtain ⟨m', hm', hengine⟩ := hstep.history
    obtain ⟨-, heq⟩ := List.append_inj' (hm'.symm.trans hhistory) rfl
    obtain rfl := List.singleton_inj.mp heq
    exact hengine.symm

/-- An instance is stored as it was last written. -/
theorem Reachable.find?_of_unchanged (hs : Reachable config s) {before after : List Moment}
    {m : Moment} (hhistory : s.history = before ++ m :: after)
    (hsame : ∀ m' ∈ after, m'.find? id = m.find? id) :
    s.engine.store.find? id = m.find? id := by
  rcases List.eq_nil_or_concat after with rfl | ⟨rest, x, rfl⟩
  · rw [hs.engine_of_history hhistory]
    rfl
  · rw [List.concat_eq_append] at hhistory hsame
    have hlast : s.history = (before ++ m :: rest) ++ [x] := by simp [hhistory]
    rw [hs.engine_of_history hlast]
    exact hsame x (by simp)

theorem Step.of_claimed (hs : Reachable config s) (hcounts : Counts s.history)
    (hstep : Step s s') {m : Moment} {n : Nat} (hhistory : s'.history = s.history ++ [m])
    (hcall : m.call = some n) (hclaimed : m.claimed? = some id) :
    ∃ current cur i, current.id = id ∧ ListedDue s.history n current ∧
      s.engine.store.find? id = some cur ∧ cur.owner = none ∧ cur.isTerminal = false ∧
      m.find? id = some i ∧ i.owner.isSome ∧ i.resumeAt = cur.resumeAt := by
  have hsound := hs.isSound hcounts
  have hgoes := hs.goesBy hcounts
  cases hstep with
  | @serve k c answer e hasks hanswer =>
    obtain rfl := List.singleton_inj.mp (List.append_inj' hhistory rfl).2
    obtain rfl : k = n := Option.some.inj hcall
    have hc : c.IsSound config s.engine.store.time s.history := hsound.calls k _ hasks
    cases c with
    | poll p =>
      exact Poll.of_claimed hsound.lives.wellFormed hc (hgoes k _ _ hasks rfl) hanswer hclaimed
    | pass c =>
      cases c with
      | polling worker p =>
        exact Poll.of_claimed hsound.lives.wellFormed hc (hgoes k _ _ hasks rfl) hanswer hclaimed
      | running => cases hclaimed
    | emit | dispatch | run | sweep | cancel => cases hclaimed
  | start | resume | crash | register | unregister | tick =>
    obtain rfl := List.singleton_inj.mp (List.append_inj' hhistory rfl).2
    cases hclaimed

/-- A worker is handed an instance that is not due if and only if the instance was put to sleep for
longer after it had been listed for the worker. -/
theorem Reachable.claimed_early_iff (hs : Reachable config s)
    (hcolumn : s.engine.store.isTable = true → TableStore.fits s.history.length)
    {before between after : List Moment} {l c : Moment} {n : Nat} {now : Instant}
    (hhistory : s.history = before ++ l :: between ++ c :: after) (hlcall : l.call = some n)
    (hlisted : l.listed? = some now) (hccall : c.call = some n) (hclaimed : c.claimed? = some id) :
    ∃ i, c.find? id = some i ∧
      (i.resumeAt.all (· ≤ now) = false ↔ ∃ t, Sleeps id between t ∧ ¬ t ≤ now) := by
  have hcounts := hs.counts hcolumn
  obtain ⟨s₀, s₁, hs₀, hstep, hbefore, hafter⟩ := hs.step_of_history hhistory
  have hcounts₀ : Counts s₀.history := by
    rw [hhistory, ← hbefore] at hcounts
    exact hcounts.of_append
  obtain ⟨current, cur, i, rfl, hdue, hcur, hfree, hlive, hi, -, hresume⟩ :=
    hstep.of_claimed hs₀ hcounts₀ (hbefore ▸ hafter) hccall hclaimed
  obtain ⟨hthere, hlistedDue⟩ := hdue l (by simp [hbefore]) hlcall now hlisted
  have hlife := hs₀.life hcounts₀ hcur
  refine ⟨i, hi, ?_⟩
  rw [hresume]
  constructor
  · intro hearly
    cases hwake : cur.resumeAt with
    | none => simp [hwake] at hearly
    | some t =>
      have hlate : ¬ t ≤ now := by simpa [hwake] using hearly
      have hnever (hsame : l.find? current.id = some cur) : False := by
        obtain rfl := Option.some.inj (hthere.symm.trans hsame)
        rw [hlistedDue] at hearly
        cases hearly
      obtain ⟨b, m, a, hsplit, hm, ⟨step, u, hstep, hid, hu, rfl⟩, ha⟩ :=
        hlife.exists_asleep hfree hlive hwake
      rw [hbefore] at hsplit
      -- What put the instance to sleep came after the listing: otherwise it was due as it is now.
      rcases List.append_eq_append_iff.mp hsplit with ⟨rest, rfl, hrest⟩ | ⟨rest, rfl, hrest⟩
      · cases rest with
        | nil =>
          obtain ⟨rfl, rfl⟩ := List.cons.inj hrest
          exact (hnever hm).elim
        | cons x rest =>
          obtain ⟨rfl, rfl⟩ := List.cons.inj hrest
          refine ⟨u, ⟨rest, m, a, rfl, ⟨step, hstep, hid, hu⟩, fun m' hm' => ?_⟩, ?_⟩
          · rw [ha m' hm', hm]
          · rwa [Store.time_le] at hlate
      · cases rest with
        | nil =>
          obtain ⟨rfl, rfl⟩ := List.cons.inj hrest
          exact (hnever hm).elim
        | cons x rest =>
          obtain ⟨rfl, rfl⟩ := List.cons.inj hrest
          exact (hnever (ha l (by simp))).elim
  · rintro ⟨t, ⟨b, m, a, rfl, ⟨step, hstep, hid, hwake⟩, ha⟩, hlate⟩
    have hmem : m ∈ s₀.history := by simp [hbefore]
    have hsplit : s₀.history = (before ++ l :: b) ++ m :: a := by simp [hbefore]
    obtain ⟨j, hj, hjresume⟩ := hlife.resumeAt_of_wakeAt hmem hstep hid hwake
    have hlast := hs₀.find?_of_unchanged hsplit ha
    obtain rfl := Option.some.inj (hcur.symm.trans (hlast.trans hj))
    rw [hjresume]
    simpa [Store.time_le] using hlate

end System

namespace Sample

def lateListing : Call := .poll (.listing "late" (clock 60) 50)

def lateClaim : Call := .poll (.claiming "late" asleep [] [])

/-- While a worker holds its list, another one runs the instance until it sleeps again. Then the
first worker claims the instance half a minute early. -/
theorem exists_claimed_early : ∃ s before l between c n, System.Reachable default s ∧
    (s.engine.store.isTable = true → TableStore.fits s.history.length) ∧
    s.history = before ++ l :: between ++ c :: [] ∧ l.call = some n ∧
    l.listed? = some (clock 60) ∧ c.call = some n ∧ c.claimed? = some "i1" ∧
    ∃ i, c.find? "i1" = some i ∧ i.resumeAt.all (· ≤ clock 60) = false ∧
      ∃ t, Sleeps "i1" between t ∧ ¬ t ≤ clock 60 := by
  obtain ⟨s, hs, he, -, -⟩ := exists_asleep
  obtain ⟨s₁, hs₁, he₁, hbegun, hasks, -⟩ := hs.begins (c := lateListing) (start_poll he "late")
  have hlists : s₁.engine.Answers lateListing.request (.ok [asleep]) (keeping 60 asleep) := by
    rw [he₁, he]
    exact listDue_eq rfl rfl
  obtain ⟨s₂, hs₂, he₂, hleads⟩ := exists_retrying (hs₁.step (.serve hasks hlists)) rfl
  have hanswered : s₂.calls s.begun = some (.answered lateListing (.ok [asleep])) :=
    (hleads.calls s.begun (hbegun ▸ Nat.lt_succ_self s.begun)).trans (Function.update_self _ _ _)
  have hclaims : s₂.engine.Answers lateClaim.request (.ok (some (held retrying "late" 60)))
      (keeping 60 (held retrying "late" 60)) := by
    rw [he₂]
    rfl
  have hclaimed := (hs₂.step (.resume hanswered)).step
    (.serve (c := lateClaim) (Function.update_self s.begun _ _) hclaims)
  obtain ⟨later, hlater, -⟩ := hleads.history
  have hsplit (r c : Moment) : s₂.history ++ [r] ++ [c] =
      s₁.history ++ ⟨some s.begun, .served lateListing (.ok [asleep]), keeping 60 asleep⟩ ::
        (later ++ [r]) ++ c :: [] := by
    rw [hlater]
    simp [System.turn]
  have hcolumn {n : Nat} :
      (keeping 60 (held retrying "late" 60)).store.isTable = true → TableStore.fits n :=
    fun h => by cases h
  obtain ⟨i, hi, hiff⟩ := hclaimed.claimed_early_iff hcolumn (hsplit _ _) rfl rfl rfl rfl
  have hearly : i.resumeAt.all (· ≤ clock 60) = false := by
    obtain rfl : held retrying "late" 60 = i := Option.some.inj hi
    rfl
  exact ⟨_, _, _, _, _, _, hclaimed, hcolumn, hsplit _ _, rfl, rfl, rfl, rfl, i, hi, hearly,
    hiff.mp hearly⟩

end Sample
end WorkflowEngine

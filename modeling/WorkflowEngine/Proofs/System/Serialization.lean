import Mathlib.Data.List.Induction
import WorkflowEngine.Proofs.System.Fencing

/-!
# Serialization of writes

Whatever is going on at one time, the writes of an instance form one sequence, in which each goes by
the one before. A worker writes only what it holds, and gets only what nobody holds.
-/
namespace WorkflowEngine

namespace System

variable {config : EngineConfig} {s s' : System} {m : Moment} {before after : List Moment}
  {id : InstanceId}

/-- A run writes only an instance that is stored as running and held by its worker, and that nobody
else has written since the run began. -/
theorem Step.written_by_run (hs : Reachable config s) (hcounts : Counts s.history)
    (hstep : Step s s') (hhistory : s'.history = s.history ++ [m]) {n : Nat} {i : Instance}
    (hcall : m.call = some n) (hrun : m.run?.isSome) (hwritten : m.written? = some i) :
    ∃ worker since base, Begun s.history n i.id worker since ∧ OnlyWrittenBy n i.id since ∧
      s.engine.store.find? i.id = some base ∧ base.status = .running ∧
      base.owner = some worker := by
  have hsound := hs.isSound hcounts
  have key {r : Run} {answer : r.request.Answer}
      (hr : r.IsSound config s.engine.store.time s.history)
      (hdriving : (RunStage.asking r).Driving s.engine.store.time s.history n)
      (hanswer : s.engine.Answers r.request answer s'.engine)
      (hi : r.request.written? answer = some i) :
      ∃ worker since base, Begun s.history n i.id worker since ∧ OnlyWrittenBy n i.id since ∧
        s.engine.store.find? i.id = some base ∧ base.status = .running ∧
        base.owner = some worker := by
    have hdrives {next : Instance} {expected : Version}
        (hrequest : r.request = .store (.save next expected)) :=
      Run.exists_drives hr hdriving hrequest
    have hsaves : ∃ next expected, r.request = .store (.save next expected) := by
      cases r with
      | saving base step => exact ⟨_, _, rfl⟩
      | failing failed entry cause => exact ⟨_, _, rfl⟩
      | loading | recording | invoking | reloading | recordingDropped | recordingFailure => cases hi
    obtain ⟨next, expected, hrequest⟩ := hsaves
    obtain ⟨base, step, hbase, rfl, hchange⟩ := hdrives hrequest
    generalize r.request = request at answer hanswer hi hrequest
    subst hrequest
    cases answer with
    | error => cases hi
    | ok stored =>
      obtain rfl : stored = i := Option.some.inj hi
      obtain ⟨hfound, rfl, -⟩ := hsound.lives.of_save hcounts hbase.seen hchange
        (Engine.perform_of_answers hanswer)
      obtain ⟨worker, since, hbegun, howner, honly⟩ :=
        hbase.onlyWrittenBy hsound.lives hcounts hfound
      have hid : (next.stamped base.version.next s.engine.now).id = base.id := hchange.next_eq.1
      rw [hid]
      exact ⟨worker, since, _, hbegun, honly, hfound, hbase.running, howner⟩
  cases hstep with
  | @serve k c answer e hasks hanswer =>
    obtain rfl := List.singleton_inj.mp (List.append_inj' hhistory rfl).2
    obtain rfl : k = n := Option.some.inj hcall
    have hc : c.IsSound config s.engine.store.time s.history := hsound.calls k _ hasks
    cases c with
    | run r => exact key hc (hs.driving hcounts hasks rfl) hanswer hwritten
    | pass c =>
      cases c with
      | polling => cases hrun
      | running worker r rest claimed =>
        exact key hc (hs.driving hcounts hasks rfl) hanswer hwritten
    | emit | dispatch | poll | sweep | cancel => cases hrun
  | start | resume | crash | register | unregister | tick =>
    obtain rfl := List.singleton_inj.mp (List.append_inj' hhistory rfl).2
    cases hwritten

/-- Whatever is held at first and is not held in the end was let go by a write. -/
theorem Reachable.exists_released (hs : Reachable config s) (hcounts : Counts s.history)
    {between : List Moment} (hhistory : s.history = before ++ between ++ after) {i j : Instance}
    (hi : lastStored id before = some i) (hheld : i.owner.isSome)
    (hj : lastStored id (before ++ between) = some j) (hfree : j.owner = none) :
    ∃ x ∈ between, ∃ w, x.written? = some w ∧ w.id = id ∧ w.owner = none := by
  induction between using List.reverseRecOn generalizing after j with
  | nil =>
    rw [List.append_nil, hi] at hj
    obtain rfl := Option.some.inj hj
    rw [hfree] at hheld
    cases hheld
  | append_singleton between x ih =>
    have hsplit : s.history = (before ++ between) ++ x :: after := by simp [hhistory]
    obtain ⟨hwritten, hothers⟩ := hs.written hcounts hsplit
    rw [← List.append_assoc, lastStored_append] at hj
    by_cases hwrites : ∃ w, x.written? = some w ∧ w.id = id
    · obtain ⟨w, hw, rfl⟩ := hwrites
      have hkept := (hwritten w hw).2
      rw [hj] at hkept
      obtain rfl := Option.some.inj hkept
      exact ⟨x, by simp, w, hw, rfl, hfree⟩
    · have hsame := hothers id fun w hw hid => hwrites ⟨w, hw, hid⟩
      obtain ⟨y, hy, hreleased⟩ := ih hsplit (hsame ▸ hj) hfree
      exact ⟨y, List.mem_append_left _ hy, hreleased⟩

/-- Between two claims of an instance it was let go. -/
theorem Reachable.released_between (hs : Reachable config s) (hcounts : Counts s.history)
    {between : List Moment} {c c' : Moment}
    (hhistory : s.history = before ++ c :: between ++ c' :: after)
    (hclaimed : c.claimed? = some id) (hclaimed' : c'.claimed? = some id) :
    ∃ x ∈ between, ∃ w, x.written? = some w ∧ w.id = id ∧ w.owner = none := by
  have key {h h' : List Moment} {x : Moment} (hsplit : s.history = h ++ x :: h')
      (hx : x.claimed? = some id) :
      ∃ cur i, lastStored id h = some cur ∧ cur.owner = none ∧ x.find? id = some i ∧
        i.owner.isSome := by
    obtain ⟨s₀, s₁, hm, rfl⟩ := hs.along hsplit
    obtain ⟨stage, hpoll, -⟩ := Option.bind_eq_some_iff.mp hx
    obtain ⟨a, answer, hincident, -⟩ := Moment.exists_served_of_poll? hpoll
    obtain ⟨k, hcall, -⟩ := hm.step.of_served hm.history hincident
    obtain ⟨current, cur, i, rfl, -, hcur, hfree, -, hi, hheld, -⟩ :=
      hm.step.of_claimed hm.reachable (hm.counts hcounts).1 hm.history hcall hx
    exact ⟨cur, i, hm.reachable.find?_eq_lastStored _ ▸ hcur, hfree, hi, hheld⟩
  have hsplit : s.history = before ++ c :: (between ++ c' :: after) := by simp [hhistory]
  obtain ⟨-, i, -, -, hi, hheld⟩ := key hsplit hclaimed
  obtain ⟨j, -, hj, hfree, -, -⟩ := key hhistory hclaimed'
  have hbetween : s.history = (before ++ [c]) ++ between ++ c' :: after := by simp [hhistory]
  have hfirst : lastStored id (before ++ [c]) = some i := by rw [lastStored_append, hi]
  have hlast : lastStored id ((before ++ [c]) ++ between) = some j := by rw [← hj]; simp
  exact hs.exists_released hcounts hbetween hfirst hheld hlast hfree

end System

/-- What holds of all writes of a run of the system: each is computed from what it replaces, and
nothing changes without a write. A run writes only what its worker holds, and nothing any more once
anybody else has written the instance. Polls return what they have claimed, and what two polls
return was let go between the two claims. -/
structure Serialized (config : EngineConfig) (time : Instant → Instant) (h : List Moment) :
    Prop where
  computed : ∀ before m after i, h = before ++ m :: after → m.written? = some i →
    Replaces config time before (lastStored i.id before) i ∧ m.find? i.id = some (i.kept time)
  unwritten : ∀ before m after id, h = before ++ m :: after →
    (∀ i, m.written? = some i → i.id ≠ id) → m.find? id = lastStored id before
  held : ∀ before m after n i, h = before ++ m :: after → m.call = some n → m.run?.isSome →
    m.written? = some i → ∃ worker since base, Begun before n i.id worker since ∧
      lastStored i.id before = some base ∧ base.status = .running ∧ base.owner = some worker
  fenced : ∀ before m after n id worker since, h = before ++ m :: after → m.call = some n →
    m.run?.isSome → Begun before n id worker since →
    (∃ x ∈ since, x.call ≠ some n ∧ ∃ i, x.written? = some i ∧ i.id = id) → m.written? = none
  returned : ∀ before m after n ids, h = before ++ m :: after → m.call = some n →
    m.returned? = some ids → ∀ id ∈ ids, ClaimedBy (before ++ [m]) n id
  handedOver : ∀ m m' n n' ids ids' id, m ∈ h → m' ∈ h → m.call = some n → m'.call = some n' →
    n ≠ n' → m.returned? = some ids → m'.returned? = some ids' → id ∈ ids → id ∈ ids' →
    ∃ before c between c' after, h = before ++ c :: between ++ c' :: after ∧
      (c.call = some n ∧ c'.call = some n' ∨ c.call = some n' ∧ c'.call = some n) ∧
      c.claimed? = some id ∧ c'.claimed? = some id ∧
      ∃ x ∈ between, ∃ i, x.written? = some i ∧ i.id = id ∧ i.owner = none

namespace System

variable {config : EngineConfig} {s : System}

theorem Reachable.serialized (hs : Reachable config s)
    (hcolumn : s.engine.store.isTable = true → TableStore.fits s.history.length) :
    Serialized config s.engine.store.time s.history := by
  have hcounts := hs.counts hcolumn
  have key {before after : List Moment} {m : Moment} {n : Nat} {i : Instance}
      (hhistory : s.history = before ++ m :: after)
      (hcall : m.call = some n) (hrun : m.run?.isSome) (hwritten : m.written? = some i) :
      ∃ worker since base, Begun before n i.id worker since ∧ OnlyWrittenBy n i.id since ∧
        lastStored i.id before = some base ∧ base.status = .running ∧ base.owner = some worker := by
    obtain ⟨s₀, s₁, hm, rfl⟩ := hs.along hhistory
    rw [← hm.reachable.find?_eq_lastStored]
    exact hm.step.written_by_run hm.reachable (hm.counts hcounts).1 hm.history hcall hrun hwritten
  constructor
  · intro before m after i hhistory
    exact (hs.written hcounts hhistory).1 i
  · intro before m after id hhistory
    exact (hs.written hcounts hhistory).2 id
  · intro before m after n i hhistory hcall hrun hwritten
    obtain ⟨worker, since, base, hbegun, -, hbase⟩ := key hhistory hcall hrun hwritten
    exact ⟨worker, since, base, hbegun, hbase⟩
  · intro before m after n id worker since hhistory hcall hrun hbegun hothers
    obtain ⟨x, hx, hother, i, hi, hid⟩ := hothers
    cases hwritten : m.written? with
    | none => rfl
    | some j =>
      obtain ⟨worker', since', -, hbegun', honly, -⟩ := key hhistory hcall hrun hwritten
      obtain ⟨rfl, rfl⟩ := hbegun.unique hbegun'
      exact absurd (honly x hx i hi hid) hother
  · intro before m after n ids hhistory hcall hreturned
    exact hs.claimedBy_of_returned hhistory hcall hreturned
  · intro m m' n n' ids ids' id hm hm' hcall hcall' hne hreturned hreturned' hid hid'
    have hclaimed {m : Moment} {n : Nat} {ids : List InstanceId} (hm : m ∈ s.history)
        (hcall : m.call = some n) (hreturned : m.returned? = some ids) (hid : id ∈ ids) :
        ClaimedBy s.history n id := by
      obtain ⟨before, after, hhistory⟩ := List.append_of_mem hm
      have hclaims := hs.claimedBy_of_returned hhistory hcall hreturned id hid
      rw [hhistory, List.append_cons]
      exact hclaims.append after
    obtain ⟨c, hc, hccall, hcid⟩ := hclaimed hm hcall hreturned hid
    obtain ⟨c', hc', hccall', hcid'⟩ := hclaimed hm' hcall' hreturned' hid'
    have hdifferent : c ≠ c' := by
      rintro rfl
      exact hne (Option.some.inj (hccall.symm.trans hccall'))
    rcases exists_split hc hc' hdifferent with ⟨before, between, after, hhistory⟩ |
      ⟨before, between, after, hhistory⟩
    · exact ⟨before, c, between, c', after, hhistory, .inl ⟨hccall, hccall'⟩, hcid, hcid',
        hs.released_between hcounts hhistory hcid hcid'⟩
    · exact ⟨before, c', between, c, after, hhistory, .inr ⟨hccall', hccall⟩, hcid', hcid,
        hs.released_between hcounts hhistory hcid' hcid⟩

end System

/-- In the run of the sample the instance is claimed twice, and is put to sleep in between. -/
theorem Sample.exists_serialized : ∃ s, System.Reachable default s ∧
    (s.engine.store.isTable = true → TableStore.fits s.history.length) ∧
    s.engine.store.find? "i1" = some retrying ∧
    Serialized default s.engine.store.time s.history := by
  obtain ⟨s, hs, -, hmemory, hi, -⟩ := exists_tried
  have hcolumn : s.engine.store.isTable = true → TableStore.fits s.history.length := by
    simp [hmemory]
  exact ⟨s, hs, hcolumn, hi, hs.serialized hcolumn⟩

end WorkflowEngine

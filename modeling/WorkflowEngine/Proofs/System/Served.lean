import WorkflowEngine.Proofs.System.Life

/-!
# Served requests

Whatever request of a call is served, the lives of all instances go on: nothing is stored, an
instance is created, or the stored instance is changed by a write that was computed from it.
-/
namespace WorkflowEngine

/-- An instance was stored, as far as a call can tell. -/
def Seen (time : Instant → Instant) (h : List Moment) (i : Instance) : Prop :=
  ∃ m ∈ h, m.find? i.id = some (i.kept time)

theorem Seen.append {time : Instant → Instant} {h : List Moment} {i : Instance}
    (hseen : Seen time h i) (h' : List Moment) : Seen time (h ++ h') i := by
  obtain ⟨m, hm, hfound⟩ := hseen
  exact ⟨m, List.mem_append_left _ hm, hfound⟩

/-- What a call may rely on when a request is answered. -/
def AnswerSound (time : Instant → Instant) (h : List Moment) : (r : Request) → r.Answer → Prop
  | .store (.load _), answer => ∀ i, answer = .ok i → Seen time h i
  | .store (.save next _), answer =>
    ∀ i, answer = .ok i → Seen time h i ∧ ∃ version now, i = next.stamped version now
  | .store (.listDue now _), answer =>
    ∀ due, answer = .ok due → ∀ i ∈ due, Seen time h i ∧ i.isDue now = true
  | .store (.listStale before _), answer =>
    ∀ stale, answer = .ok stale → ∀ i ∈ stale, Seen time h i ∧ i.isStale before = true
  | _, _ => True

/-- A store in which each identifier has its life. -/
structure Store.Lives (config : EngineConfig) (time : Instant → Instant) (h : List Moment)
    (s : Store) : Prop where
  time_eq : s.time = time
  wellFormed : s.WellFormed
  unborn : ∀ id, s.find? id = none → Unborn id h
  life : ∀ id i, s.find? id = some i → Life config time id h i

theorem Instance.kept_origin {i j : Instance} (h : i.origin = j.origin)
    (time : Instant → Instant) : (i.kept time).origin = (j.kept time).origin := by
  simp only [origin, Prod.mk.injEq] at h
  obtain ⟨hgraph, hversion, hcontext, hkey, hcreated⟩ := h
  simp only [origin, kept, hgraph, hversion, hcontext, hkey, hcreated]

theorem Unborn.append {id : InstanceId} {h : List Moment} {m : Moment} (hunborn : Unborn id h)
    (hfound : m.find? id = none) (hstored : ∀ step, m.stored? = some step → step.next.id ≠ id) :
    Unborn id (h ++ [m]) := by
  intro m' hm
  rcases List.mem_append.mp hm with hm | hm
  · exact hunborn m' hm
  · obtain rfl := List.mem_singleton.mp hm
    exact ⟨hfound, hstored⟩

namespace Store.Lives

variable {config : EngineConfig} {time : Instant → Instant} {h : List Moment} {s s' : Store}
  {m : Moment}

theorem elsewhere (hlives : s.Lives config time h) (id : InstanceId)
    (hsame : m.find? id = s.find? id)
    (hstored : ∀ step, m.stored? = some step → step.next.id ≠ id) :
    (m.find? id = none → Unborn id (h ++ [m])) ∧
      ∀ i, m.find? id = some i → Life config time id (h ++ [m]) i :=
  ⟨fun hnone => (hlives.unborn id (hsame ▸ hnone)).append hnone hstored,
    fun i hsome => .idle (hlives.life id i (hsame ▸ hsome)) hstored hsome⟩

theorem idle (hlives : s.Lives config time h) (hm : m.engine.store = s)
    (hstored : m.stored? = none) : s.Lives config time (h ++ [m]) := by
  have key (id : InstanceId) := hlives.elsewhere id (m := m) (by rw [← hm]; rfl)
    (by simp [hstored])
  subst hm
  exact ⟨hlives.time_eq, hlives.wellFormed, fun id => (key id).1, fun id => (key id).2⟩

/-- A write of one instance, which leads on its life. -/
theorem written (hlives : s.Lives config time h) {i : Instance} (hputs : s.Puts i s')
    (hm : m.engine.store = s') (hstored : ∀ step, m.stored? = some step → step.next.id = i.id)
    (hlife : Life config time i.id (h ++ [m]) (i.kept time)) :
    s'.Lives config time (h ++ [m]) := by
  have key (id : InstanceId) (hne : id ≠ i.id) := hlives.elsewhere id (m := m)
    (by rw [← hputs.elsewhere id hne, ← hm]; rfl)
    (fun step hstep hid => hne (hid.symm.trans (hstored step hstep)))
  have hhere : m.find? i.id = some (i.kept time) := by
    rw [← hlives.time_eq, ← hputs.here, ← hm]
    rfl
  subst hm
  refine ⟨hputs.time.trans hlives.time_eq, hputs.wellFormed, fun id hnone => ?_,
    fun id j hsome => ?_⟩
  · by_cases hid : id = i.id
    · subst hid
      exact absurd (hhere.symm.trans hnone) (by simp)
    · exact (key id hid).1 hnone
  · by_cases hid : id = i.id
    · subst hid
      exact Option.some.inj (hhere.symm.trans hsome) ▸ hlife
    · exact (key id hid).2 j hsome

theorem seen_of_find? (hlives : s.Lives config time h) (hm : m.engine.store = s)
    {id : InstanceId} {i : Instance} (hi : s.find? id = some i) : Seen time (h ++ [m]) i := by
  refine ⟨m, by simp, ?_⟩
  have hkept := kept_of_find? hlives.wellFormed hi
  rw [hlives.time_eq] at hkept
  rw [hkept, Instance.find?_id hi, ← hi, ← hm]
  rfl

/-- The stored instance is the one that was seen, if nothing was written since. -/
theorem find?_of_seen (hlives : s.Lives config time h) (hcounts : Counts h) {i cur : Instance}
    (hseen : Seen time h i) (hcur : s.find? i.id = some cur)
    (hversion : cur.version = i.version) : cur = i.kept time := by
  obtain ⟨m, hm, hfound⟩ := hseen
  rcases (hlives.life i.id cur hcur).eq_or_before hcounts hm hfound with heq | hbefore
  · exact heq.symm
  · rw [hversion] at hbefore
    exact absurd hbefore (Version.not_before_self _)

theorem load (hlives : s.Lives config time h) {now : Instant} {id : InstanceId}
    {answer : Outcome Instance} (hperform : s.perform now (.load id) = (answer, s'))
    (hm : m.engine.store = s') (hstored : m.stored? = none) :
    s'.Lives config time (h ++ [m]) ∧
      AnswerSound time (h ++ [m]) (.store (.load id)) answer := by
  obtain ⟨hload, rfl⟩ := Prod.mk.inj hperform
  refine ⟨hlives.idle hm hstored, fun i hi => ?_⟩
  exact hlives.seen_of_find? hm (find?_of_load (hload.trans hi))

theorem listDue (hlives : s.Lives config time h) {now due : Instant} {limit : Int}
    {answer : Outcome (List Instance)}
    (hperform : s.perform now (.listDue due limit) = (answer, s'))
    (hm : m.engine.store = s') (hstored : m.stored? = none) :
    s'.Lives config time (h ++ [m]) ∧
      AnswerSound time (h ++ [m]) (.store (.listDue due limit)) answer := by
  obtain ⟨hlist, rfl⟩ := Prod.mk.inj hperform
  refine ⟨hlives.idle hm hstored, fun items hitems i hi => ?_⟩
  obtain ⟨hmem, hisDue⟩ := of_listDue (hlist.trans hitems) hi
  exact ⟨hlives.seen_of_find? hm (find?_of_mem hlives.wellFormed hmem), hisDue⟩

theorem listStale (hlives : s.Lives config time h) {now before : Instant} {limit : Int}
    {answer : Outcome (List Instance)}
    (hperform : s.perform now (.listStale before limit) = (answer, s'))
    (hm : m.engine.store = s') (hstored : m.stored? = none) :
    s'.Lives config time (h ++ [m]) ∧
      AnswerSound time (h ++ [m]) (.store (.listStale before limit)) answer := by
  obtain ⟨hlist, rfl⟩ := Prod.mk.inj hperform
  refine ⟨hlives.idle hm hstored, fun items hitems i hi => ?_⟩
  obtain ⟨hmem, hisStale⟩ := of_listStale (hlist.trans hitems) hi
  exact ⟨hlives.seen_of_find? hm (find?_of_mem hlives.wellFormed hmem), hisStale⟩

theorem create (hlives : s.Lives config time h) {p : Plan} {e : Event} {now created : Instant}
    {answer : Outcome (Instance × Bool)} (hregistered : Registered h p)
    (hperform : s.perform now (.create (e.draft p created)) = (answer, s'))
    (hm : m.engine.store = s') (hstored : m.stored? = none) :
    s'.Lives config time (h ++ [m]) := by
  simp only [Store.perform] at hperform
  split at hperform
  · rename_i result s'' hresult
    obtain ⟨-, rfl⟩ := Prod.mk.inj hperform
    obtain ⟨i, isNew⟩ := result
    rcases create_cases hlives.wellFormed hresult with ⟨-, rfl⟩ | ⟨hdraft, -, hnone, hputs⟩
    · exact hlives.idle hm hstored
    · refine hlives.written hputs hm (by simp [hstored]) ?_
      refine .born (hlives.unborn _ hnone) ⟨hregistered, ?_, ?_⟩ hdraft rfl hstored ?_
      · rw [hdraft]; rfl
      · rw [hdraft]; rfl
      · rw [← hlives.time_eq, ← hputs.here, ← hm]; rfl
  · obtain ⟨-, rfl⟩ := Prod.mk.inj hperform
    exact hlives.idle hm hstored

/-- A write that succeeds replaces the instance from which it was computed. -/
theorem of_save (hlives : s.Lives config time h) (hcounts : Counts h) {i next stored : Instance}
    {step : Option Step} {now : Instant} (hseen : Seen time h i)
    (hchange : Change config h i step next)
    (hperform : s.perform now (.save next i.version) = (.ok stored, s')) :
    s.find? i.id = some (i.kept time) ∧ stored = next.stamped i.version.next now ∧
      s.Puts stored s' := by
  simp only [Store.perform] at hperform
  split at hperform
  · rename_i stored' s'' hresult
    obtain ⟨hok, rfl⟩ := Prod.mk.inj hperform
    obtain rfl := Except.ok.inj hok
    obtain ⟨cur, hcur, hversion, hstored, hputs⟩ := save_cases hlives.wellFormed hresult
    rw [hchange.next_eq.1] at hcur
    obtain rfl := hlives.find?_of_seen hcounts hseen hcur hversion
    refine ⟨hcur, hstored, hputs ?_⟩
    rw [hlives.time_eq]
    exact Instance.kept_origin hchange.next_eq.2 time
  · cases (Prod.mk.inj hperform).1

theorem save (hlives : s.Lives config time h) (hcounts : Counts h) {i next : Instance}
    {step : Option Step} {now : Instant} {answer : Outcome Instance} (hseen : Seen time h i)
    (hchange : Change config h i step next)
    (hperform : s.perform now (.save next i.version) = (answer, s'))
    (hm : m.engine.store = s') (hstored : m.stored? = if answer.isOk then step else none) :
    s'.Lives config time (h ++ [m]) ∧
      AnswerSound time (h ++ [m]) (.store (.save next i.version)) answer := by
  cases answer with
  | error e =>
    obtain rfl := store_of_save_eq_error hperform
    exact ⟨hlives.idle hm hstored, fun j hj => by cases hj⟩
  | ok stored =>
    obtain ⟨hfound, rfl, hputs⟩ := hlives.of_save hcounts hseen hchange hperform
    have hid := hchange.next_eq.1
    have hhere : m.find? i.id = some ((next.stamped i.version.next now).kept time) := by
      rw [← hid, ← hlives.time_eq, ← hputs.here, ← hm]
      rfl
    have hlife := Life.changed (hlives.life i.id _ hfound) rfl hchange hstored hhere
    rw [← hid] at hlife hhere
    refine ⟨hlives.written hputs hm (fun step' hstep' => ?_) hlife, fun j hj => ?_⟩
    · obtain rfl : step = some step' := hstored.symm.trans hstep'
      exact hchange.stored_id
    · obtain rfl := Except.ok.inj hj
      exact ⟨⟨m, by simp, hhere⟩, _, _, rfl⟩

/-- A claim of an instance that had not ended when it was seen. -/
theorem claim (hlives : s.Lives config time h) (hcounts : Counts (h ++ [m])) {i : Instance}
    {worker : String} {now : Instant} {answer : Outcome (Option Instance)}
    (hlive : i.isTerminal = false)
    (hperform : s.perform now (.claim i.id i.status .running (some worker)) = (answer, s'))
    (hm : m.engine.store = s') (hstored : m.stored? = none) :
    s'.Lives config time (h ++ [m]) := by
  rcases hclaim : s.claim now i.id i.status .running (some worker) with ⟨claimed, s''⟩
  simp only [Store.perform, hclaim] at hperform
  obtain ⟨-, rfl⟩ := Prod.mk.inj hperform
  rcases claim_cases hlives.wellFormed hclaim with
    ⟨-, rfl⟩ | ⟨cur, version, hcur, hstatus, hfree, hversion, -, hputs⟩
  · exact hlives.idle hm hstored
  · have hid := Instance.find?_id hcur
    have hkept := kept_of_find? hlives.wellFormed hcur
    rw [hlives.time_eq] at hkept hputs
    have hhere : m.find? cur.id =
        some (((cur.claimed .running (some worker)).stamped version (time now)).kept time) := by
      have hthere := hputs.here
      rw [hlives.time_eq, ← hm] at hthere
      exact hthere
    -- A table might give up counting here, which the premise on the history excludes.
    obtain rfl : version = cur.version.next := by
      rcases hversion with hversion | ⟨rfl, -⟩
      · exact hversion
      · rcases counted_eq cur.version.next with heq | heq
        · exact heq
        · exact absurd heq (hcounts m (by simp) _ (Instance.mem_of_find? hhere))
    refine hlives.written hputs hm (by simp [hstored]) ?_
    refine Life.changed (i := cur) ?_ rfl (.claimed ?_ hfree) hstored hhere
    · rw [hkept]
      exact hlives.life _ _ (hid ▸ hcur)
    · rw [Instance.isTerminal, hstatus]
      exact hlive

end Store.Lives
end WorkflowEngine

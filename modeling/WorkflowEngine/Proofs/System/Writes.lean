import WorkflowEngine.Proofs.System.Handover

/-!
# Writes

Every state that is stored for an instance is computed from the one that it replaces, and counts one
write more. A write that goes by an older state is refused, and no write is refused otherwise.
-/
namespace WorkflowEngine

theorem exists_split {α : Type} {l : List α} {a b : α} (ha : a ∈ l) (hb : b ∈ l) (hne : a ≠ b) :
    (∃ before between after, l = before ++ a :: between ++ b :: after) ∨
      ∃ before between after, l = before ++ b :: between ++ a :: after := by
  obtain ⟨before, after, rfl⟩ := List.append_of_mem ha
  rcases List.mem_append.mp hb with hb | hb
  · obtain ⟨first, between, rfl⟩ := List.append_of_mem hb
    exact .inr ⟨first, between, after, by simp⟩
  · obtain ⟨between, last, rfl⟩ := List.append_of_mem (List.mem_of_ne_of_mem hne.symm hb)
    exact .inl ⟨before, between, last, by simp⟩

/-- The instance as a request has written it. -/
def Request.written? : (r : Request) → r.Answer → Option Instance
  | .store (.create _), answer =>
    match answer with
    | .ok (i, true) => some i
    | _ => none
  | .store (.save _ _), answer => answer.toOption
  | .store (.claim _ _ _ _), answer => answer.toOption.join
  | _, _ => none

def Moment.written? (m : Moment) : Option Instance :=
  match m.incident with
  | .served c answer => c.request.written? answer
  | _ => none

theorem Call.Runs.written? {c : Call} {answer : c.request.Answer} {r : Run}
    {answer' : r.request.Answer} (h : c.Runs answer r answer') :
    c.request.written? answer = r.request.written? answer' := by
  cases h <;> rfl

theorem Moment.written?_of_run? {m : Moment} {r : Run} {answer : r.request.Answer}
    (hrun : m.run? = some (.answered r answer)) : m.written? = r.request.written? answer := by
  unfold run? at hrun
  split at hrun
  · rename_i c answer' hserved
    obtain ⟨r', answer₀, hsame, hruns⟩ := Stage.runs_of_answered hrun
    cases hsame
    rw [Moment.written?, hserved]
    exact hruns.written?
  · cases hrun

/-- An instance as it is stored at the end of a history. -/
def lastStored (id : InstanceId) (h : List Moment) : Option Instance :=
  h.getLast?.bind (·.find? id)

@[simp] theorem lastStored_append (id : InstanceId) (h : List Moment) (m : Moment) :
    lastStored id (h ++ [m]) = m.find? id := by
  simp [lastStored]

theorem lastStored_of_stays {id : InstanceId} {before between : List Moment} {m : Moment}
    {i : Instance} (hi : m.find? id = some i) (hstays : ∀ x ∈ between, x.find? id = some i) :
    lastStored id (before ++ m :: between) = some i := by
  rcases List.eq_nil_or_concat between with rfl | ⟨rest, x, rfl⟩
  · rw [lastStored_append, hi]
  · rw [List.concat_eq_append, ← List.cons_append, ← List.append_assoc, lastStored_append]
    exact hstays x (by simp)

/-- What can be stored for an instance after what was stored for it before. -/
inductive Replaces (config : EngineConfig) (time : Instant → Instant) (h : List Moment) :
    Option Instance → Instance → Prop where
  | created {p : Plan} {e : Event} {i : Instance} {now : Instant} (hregistered : Registered h p)
      (hdraft : i.toDraft = e.draft p now) : Replaces config time h none i
  | changed {base next : Instance} {step : Option Step} {k : Int} {now : Instant}
      (hversion : base.version = .count k) (hchange : Change config h base step next) :
      Replaces config time h (some (base.kept time)) (next.stamped (.count (k + 1)) now)

section
variable {config : EngineConfig} {time : Instant → Instant} {h : List Moment} {c : Call}
  {e e' : Engine}

/-- A call claims only what had not ended when it was listed. -/
theorem Call.IsSound.claim {id : InstanceId} {source target : Status} {owner : Option String}
    (hc : c.IsSound config time h) (hrequest : c.request = .store (.claim id source target owner)) :
    source.isTerminal = false ∧ target = .running ∧ ∃ worker, owner = some worker := by
  have key {p : Poll} (hp : p.IsSound time h)
      (hrequest : p.request = .store (.claim id source target owner)) :
      source.isTerminal = false ∧ target = .running ∧ ∃ worker, owner = some worker := by
    cases p with
    | listing => cases hrequest
    | claiming worker current rest claimed =>
      cases hrequest
      exact ⟨(hp current (by simp)).2, rfl, worker, rfl⟩
  cases c with
  | poll p => exact key hc hrequest
  | pass p =>
    cases p with
    | polling worker p => exact key hc hrequest
    | running worker r => cases r <;> cases hrequest
  | emit => cases hrequest
  | dispatch => cases hrequest
  | run r => cases r <;> cases hrequest
  | sweep s => cases s <;> cases hrequest
  | cancel c => cases c <;> cases hrequest

/-- A request writes one instance, in the place of the state from which it was computed, or leaves
the store as it is. -/
theorem Call.IsSound.written_cases {answer : c.request.Answer} (hc : c.IsSound config time h)
    (hlives : e.store.Lives config time h) (hcounts : Counts h)
    (hcounted : ∀ i ∈ e'.store.instances, i.version ≠ .uncounted)
    (hanswer : e.Answers c.request answer e') :
    c.request.written? answer = none ∧ e'.store = e.store ∨
      ∃ i, c.request.written? answer = some i ∧
        Replaces config time h (e.store.find? i.id) i ∧ e.store.Puts i e'.store := by
  have hcreate {d : Draft} (hrequest : c.request = .store (.create d)) := hc.create hrequest
  have hsave {next : Instance} {expected : Version}
      (hrequest : c.request = .store (.save next expected)) := hc.save hrequest
  have hclaim {id : InstanceId} {source target : Status} {owner : Option String}
      (hrequest : c.request = .store (.claim id source target owner)) := hc.claim hrequest
  generalize c.request = r at answer hanswer hcreate hsave hclaim
  cases r with
  | append => exact .inl ⟨rfl, Engine.store_of_append hanswer⟩
  | invoke =>
    obtain rfl : e' = e := hanswer
    exact .inl ⟨rfl, rfl⟩
  | store r =>
    have hperform := Engine.perform_of_answers hanswer
    cases r with
    | create draft =>
      obtain ⟨p, event, now, hregistered, rfl⟩ := hcreate rfl
      simp only [Store.perform] at hperform
      split at hperform
      · rename_i result s' hresult
        obtain ⟨rfl, hstore⟩ := Prod.mk.inj hperform
        obtain ⟨i, isNew⟩ := result
        rcases Store.create_cases hlives.wellFormed hresult with
          ⟨rfl, rfl⟩ | ⟨hdraft, rfl, hnone, hputs⟩
        · exact .inl ⟨rfl, hstore.symm⟩
        · rw [hstore] at hputs
          refine .inr ⟨i, rfl, ?_, hputs⟩
          rw [hnone]
          exact .created hregistered hdraft
      · obtain ⟨rfl, hstore⟩ := Prod.mk.inj hperform
        exact .inl ⟨rfl, hstore.symm⟩
    | save next expected =>
      obtain ⟨base, step, hseen, rfl, hchange⟩ := hsave rfl
      cases answer with
      | error error => exact .inl ⟨rfl, Store.store_of_save_eq_error hperform⟩
      | ok stored =>
        obtain ⟨hfound, rfl, hputs⟩ := hlives.of_save hcounts hseen hchange hperform
        obtain ⟨m, hm, hthere⟩ := hseen
        obtain ⟨k, hk⟩ := hcounts.count hm hthere
        have hversion : base.version = .count k := hk
        have hid : (next.stamped base.version.next e.now).id = base.id := hchange.next_eq.1
        refine .inr ⟨_, rfl, ?_, hputs⟩
        rw [hid, hfound, hversion]
        exact .changed hversion hchange
    | claim id source target owner =>
      obtain ⟨hlive, rfl, worker, rfl⟩ := hclaim rfl
      rcases hclaimed : e.store.claim e.now id source .running (some worker) with ⟨claimed, s'⟩
      simp only [Store.perform, hclaimed] at hperform
      obtain ⟨rfl, rfl⟩ := Prod.mk.inj hperform
      rcases Store.claim_cases hlives.wellFormed hclaimed with
        ⟨rfl, hsame⟩ | ⟨cur, version, hcur, rfl, hfree, hversion, rfl, hputs⟩
      · exact .inl ⟨rfl, hsame⟩
      · have hid : cur.id = id := Instance.find?_id hcur
        have hkept := Store.kept_of_find? hlives.wellFormed hcur
        rw [hlives.time_eq] at hkept
        obtain ⟨m, hm, hthere⟩ := (hlives.life id cur hcur).exists_find?
        obtain ⟨k, hk⟩ := hcounts.count hm hthere
        have hcount : version = .count (k + 1) := by
          have hnext : cur.version.next = .count (k + 1) := by rw [hk, Version.next_count]
          rcases hversion with rfl | ⟨rfl, -⟩
          · exact hnext
          · rcases Store.counted_eq cur.version.next with heq | heq
            · rw [heq, hnext]
            · exact absurd heq (hcounted _ (Instance.mem_of_find? hputs.here))
        subst hcount
        refine .inr ⟨_, rfl, ?_, hputs⟩
        have hfound : e.store.find? ((cur.claimed .running (some worker)).stamped
            (.count (k + 1)) (e.store.time e.now)).id = some (cur.kept time) := by
          rw [hkept, ← hcur, ← hid]
          rfl
        rw [hfound]
        exact .changed hk (.claimed hlive hfree)
    | load | listDue | listStale | listForGraph =>
      exact .inl ⟨rfl, (Prod.mk.inj hperform).2.symm⟩

/-- A write is refused only if the instance has been written since it was read. -/
theorem Store.Lives.of_refused {s s' : Store} {k : Nat} (hlives : s.Lives config time h)
    (hcounts : Counts h) (hupTo : ∀ m ∈ h, m.engine.store.CountsUpTo k)
    (hcolumn : s.isTable = true → TableStore.fits (k + 1 : Nat)) {i next : Instance}
    {now : Instant} {error : Error} (hseen : Seen time h i) (hid : next.id = i.id)
    (hperform : s.perform now (.save next i.version) = (.error error, s')) :
    error.isConflict = true ∧ ∃ cur, s.find? i.id = some cur ∧ i.version.Before cur.version := by
  obtain ⟨m, hm, hfound⟩ := hseen
  have hsave : s.save now next i.version = .error error := by
    simp only [perform] at hperform
    split at hperform
    · cases (Prod.mk.inj hperform).1
    · rename_i hsave
      rw [hsave]
      exact congrArg Except.error (Except.error.inj (Prod.mk.inj hperform).1)
  rcases save_error_cases hsave with hnone | ⟨cur, hcur, hversion, rfl⟩ | ⟨⟨t, rfl⟩, hunfit⟩
  · rw [hid] at hnone
    rw [(hlives.unborn i.id hnone m hm).1] at hfound
    cases hfound
  · rw [hid] at hcur
    refine ⟨rfl, cur, hcur, ?_⟩
    rcases (hlives.life i.id cur hcur).eq_or_before hcounts hm hfound with rfl | hbefore
    · exact absurd rfl hversion
    · exact hbefore
  · obtain ⟨j, hj, hjk⟩ := hupTo m hm _ (Instance.mem_of_find? hfound)
    have hversion : i.version = .count j := hj
    have hfits : TableStore.fits j = true := fits_of_le (hcolumn rfl) (by omega)
    have hnext : TableStore.fits (j + 1 : Nat) = true := fits_of_le (hcolumn rfl) (by omega)
    push_cast at hnext
    simp [hversion, TableStore.numbers, hfits, hnext] at hunfit

end

namespace System

variable {config : EngineConfig} {s s' : System} {m : Moment} {before after : List Moment}

theorem Reachable.find?_eq_lastStored (hs : Reachable config s) (id : InstanceId) :
    s.engine.store.find? id = lastStored id s.history := by
  cases hs with
  | fresh he =>
    rcases he.store with hstore | hstore <;> simp only [System.fresh, hstore] <;> rfl
  | step _ hstep =>
    obtain ⟨m, hhistory, hengine⟩ := hstep.history
    rw [hhistory, lastStored_append, Moment.find?, hengine]
    rfl

/-- A moment changes at most one instance, and that by a write. -/
theorem Step.written_cases (hs : Reachable config s) (hcounts : Counts s'.history)
    (hstep : Step s s') (hhistory : s'.history = s.history ++ [m]) :
    m.written? = none ∧ s'.engine.store = s.engine.store ∨
      ∃ i, m.written? = some i ∧
        Replaces config s.engine.store.time s.history (s.engine.store.find? i.id) i ∧
        s.engine.store.Puts i s'.engine.store := by
  have hsound := hs.isSound (hcounts.of_history hstep)
  have hcounted : ∀ i ∈ m.engine.store.instances, i.version ≠ .uncounted :=
    hcounts m (by simp [hhistory])
  cases hstep with
  | serve hasks hanswer =>
    obtain rfl := List.singleton_inj.mp (List.append_inj' hhistory rfl).2
    exact Call.IsSound.written_cases (hsound.calls _ _ hasks) hsound.lives
      (hcounts.of_history (.serve hasks hanswer)) hcounted hanswer
  | start | resume | crash | register | unregister | tick =>
    obtain rfl := List.singleton_inj.mp (List.append_inj' hhistory rfl).2
    exact .inl ⟨rfl, rfl⟩

theorem Along.of_refused {s₀ s₁ : System} (hm : Along config s s₀ s₁ m)
    (hcolumn : s.engine.store.isTable = true → TableStore.fits s.history.length)
    {i next : Instance} {e : Error} (hseen : Seen s₀.engine.store.time s₀.history i)
    (hid : next.id = i.id)
    (hperform : s₀.engine.store.perform s₀.engine.now (.save next i.version) =
      (.error e, s₁.engine.store)) :
    e.isConflict = true ∧
      ∃ cur, s₀.engine.store.find? i.id = some cur ∧ i.version.Before cur.version := by
  have hcounts := hm.reachable.counts (hm.column hcolumn)
  have hupTo (m : Moment) (hm' : m ∈ s₀.history) :=
    hm.reachable.countsUpTo_of_mem (hm.column hcolumn) hm'
  exact (hm.reachable.isSound hcounts).lives.of_refused hcounts hupTo (hm.fits hcolumn) hseen hid
    hperform

/-- At every moment of a run, what is written is computed from what it replaces, and everything else
stays as it was. -/
theorem Along.written {s₀ s₁ : System} (hm : Along config s s₀ s₁ m)
    (hcounts : Counts s.history) :
    (∀ i, m.written? = some i →
        Replaces config s.engine.store.time s₀.history (lastStored i.id s₀.history) i ∧
          m.find? i.id = some (i.kept s.engine.store.time)) ∧
      ∀ id, (∀ i, m.written? = some i → i.id ≠ id) → m.find? id = lastStored id s₀.history := by
  have hlast (id : InstanceId) := hm.reachable.find?_eq_lastStored id
  rcases hm.step.written_cases hm.reachable (hm.counts hcounts).2 hm.history with
    ⟨hnone, hsame⟩ | ⟨i, hi, hreplaces, hputs⟩
  · refine ⟨by simp [hnone], fun id _ => ?_⟩
    rw [← hlast, ← hm.find?_eq, hsame]
  · rw [hm.time_eq, hlast] at hreplaces
    have hhere := hputs.here
    rw [hm.time_eq, hm.find?_eq] at hhere
    refine ⟨fun j hj => ?_, fun id hother => ?_⟩
    · obtain rfl := Option.some.inj (hi.symm.trans hj)
      exact ⟨hreplaces, hhere⟩
    · rw [← hlast, ← hm.find?_eq]
      exact hputs.elsewhere id (hother i hi).symm

theorem Reachable.written (hs : Reachable config s) (hcounts : Counts s.history)
    (hhistory : s.history = before ++ m :: after) :
    (∀ i, m.written? = some i →
        Replaces config s.engine.store.time before (lastStored i.id before) i ∧
          m.find? i.id = some (i.kept s.engine.store.time)) ∧
      ∀ id, (∀ i, m.written? = some i → i.id ≠ id) → m.find? id = lastStored id before := by
  obtain ⟨s₀, s₁, hm, rfl⟩ := hs.along hhistory
  exact hm.written hcounts

end System
end WorkflowEngine

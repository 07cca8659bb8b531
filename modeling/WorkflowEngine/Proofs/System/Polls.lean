import WorkflowEngine.Proofs.System.Premises

/-!
# Polls

A poll lists the instances that are due once, and then goes by its list: whatever it claims was due
when it was listed. What happens to an instance in between, the poll does not see.
-/
namespace WorkflowEngine

namespace PollStage

/-- The time for which instances have just been listed. -/
def listed? : PollStage → Option Instant
  | answered (.listing _ now _) (.ok _) => some now
  | _ => none

/-- The instance that has just been claimed. -/
def claimed? : PollStage → Option InstanceId
  | answered (.claiming _ current _ _) (.ok (some _)) => some current.id
  | _ => none

/-- The instances that a poll returns after what it has just been answered. -/
def returned? : PollStage → Option (List InstanceId)
  | answered p answer =>
    match p.resume answer with
    | .ended (.ok ids) => some ids
    | _ => none
  | _ => none

end PollStage

namespace Moment

def poll? (m : Moment) : Option PollStage :=
  match m.incident with
  | .served c answer => (Stage.answered c answer).poll?
  | _ => none

def listed? (m : Moment) : Option Instant := m.poll?.bind PollStage.listed?

def claimed? (m : Moment) : Option InstanceId := m.poll?.bind PollStage.claimed?

def returned? (m : Moment) : Option (List InstanceId) := m.poll?.bind PollStage.returned?

theorem exists_served_of_poll? {m : Moment} {p : PollStage} (hpoll : m.poll? = some p) :
    ∃ c answer, m.incident = .served c answer ∧ (Stage.answered c answer).poll? = some p := by
  cases hincident : m.incident with
  | served c answer =>
    refine ⟨c, answer, rfl, ?_⟩
    rw [← hpoll, poll?, hincident]
  | began | resumed | crashed | registered | unregistered | ticked =>
    simp [poll?, hincident] at hpoll

end Moment

/-- An instance was stored as it is, and due, whenever a call listed instances. -/
def ListedDue (h : List Moment) (n : Nat) (i : Instance) : Prop :=
  ∀ m ∈ h, m.call = some n → ∀ now, m.listed? = some now →
    m.find? i.id = some i ∧ i.resumeAt.all (· ≤ now) = true

/-- What a poll goes by. -/
def PollStage.GoesBy (h : List Moment) (n : Nat) : PollStage → Prop
  | asking (.listing _ _ _) => ∀ m ∈ h, m.call = some n → m.listed? = none
  | answered (.listing _ now _) answer =>
    ∀ due, answer = .ok due → ∀ i ∈ due, i.resumeAt.all (· ≤ now) = true → ListedDue h n i
  | asking (.claiming _ current rest _) | answered (.claiming _ current rest _) _ =>
    ∀ i ∈ current :: rest, ListedDue h n i

section
variable {h : List Moment} {m : Moment} {n : Nat}

theorem ListedDue.append {i : Instance} (hi : ListedDue h n i)
    (hm : m.call = some n → m.listed? = none) : ListedDue (h ++ [m]) n i := by
  intro m' hm' hcall now hlisted
  rcases List.mem_append.mp hm' with hm' | hm'
  · exact hi m' hm' hcall now hlisted
  · obtain rfl := List.mem_singleton.mp hm'
    rw [hm hcall] at hlisted
    cases hlisted

theorem PollStage.GoesBy.append {stage : PollStage} (hstage : stage.GoesBy h n)
    (hm : m.call = some n → m.listed? = none) : stage.GoesBy (h ++ [m]) n := by
  cases stage with
  | asking p =>
    cases p with
    | listing =>
      intro m' hm' hcall
      rcases List.mem_append.mp hm' with hm' | hm'
      · exact hstage m' hm' hcall
      · obtain rfl := List.mem_singleton.mp hm'
        exact hm hcall
    | claiming => exact fun i hi => (hstage i hi).append hm
  | answered p answer =>
    cases p with
    | listing => exact fun due hdue i hi hresume => (hstage due hdue i hi hresume).append hm
    | claiming => exact fun i hi => (hstage i hi).append hm

theorem Poll.goesBy_of_proceed {worker : String} {rest : List Instance}
    {claimed : List InstanceId} {p : Poll} (hrest : ∀ i ∈ rest, ListedDue h n i)
    (hproceed : proceed worker rest claimed = .waiting p) : (PollStage.asking p).GoesBy h n := by
  cases rest with
  | nil => cases hproceed
  | cons current rest =>
    obtain rfl := Progress.waiting.inj hproceed
    exact hrest

theorem Poll.goesBy_of_resume {p p' : Poll} {answer : p.request.Answer}
    (hp : (PollStage.answered p answer).GoesBy h n) (hresume : p.resume answer = .waiting p') :
    (PollStage.asking p').GoesBy h n := by
  cases p with
  | listing worker now limit =>
    simp only [resume] at hresume
    split at hresume
    · rename_i due
      refine goesBy_of_proceed (fun i hi => ?_) hresume
      obtain ⟨hmem, hdue⟩ := List.mem_filter.mp hi
      exact hp due rfl i hmem hdue
    · cases hresume
  | claiming worker current rest claimed =>
    have hrest (i : Instance) (hi : i ∈ rest) := hp i (List.mem_cons_of_mem _ hi)
    simp only [resume] at hresume
    split at hresume
    · exact goesBy_of_proceed hrest hresume
    · exact goesBy_of_proceed hrest hresume
    · cases hresume

theorem Poll.goesBy_of_served {p : Poll} {answer : p.request.Answer} {e e' : Engine}
    (hwellFormed : e.store.WellFormed) (hp : (PollStage.asking p).GoesBy h n)
    (hanswer : e.Answers p.request answer e') (hm : m.engine = e')
    (hserved : m.poll? = some (.answered p answer)) :
    (PollStage.answered p answer).GoesBy (h ++ [m]) n := by
  have hlisted : m.listed? = (PollStage.answered p answer).listed? := by
    rw [Moment.listed?, hserved]
    rfl
  cases p with
  | listing worker now limit =>
    rintro due rfl i hi hresume m' hm' hcall now' hnow
    rcases List.mem_append.mp hm' with hm' | hm'
    · rw [hp m' hm' hcall] at hnow
      cases hnow
    · obtain rfl := List.mem_singleton.mp hm'
      obtain rfl := Option.some.inj (hlisted.symm.trans hnow)
      obtain ⟨hlist, hsame⟩ := Prod.mk.inj (Engine.perform_of_answers hanswer)
      refine ⟨?_, hresume⟩
      rw [Moment.find?, hm, ← hsame]
      exact Store.find?_of_mem hwellFormed (Store.of_listDue hlist hi).1
  | claiming worker current rest claimed =>
    exact fun i hi => (hp i hi).append fun _ => hlisted

end

namespace Stage

variable {h : List Moment} {m : Moment} {n : Nat} {env : Env} {c c' : Call} {p : PollStage}

theorem goesBy_of_start {o : Opening} (hstart : o.start env = .waiting c)
    (hnew : ∀ m ∈ h, m.call = some n → m.listed? = none) (hp : (asking c).poll? = some p) :
    p.GoesBy h n := by
  obtain ⟨worker, now, limit, rfl⟩ := (of_start hstart).2 p hp
  exact hnew

theorem goesBy_of_resume {answer : c.request.Answer}
    (hc : ∀ p, (answered c answer).poll? = some p → p.GoesBy h n)
    (hresume : c.resume env answer = .waiting c') (hp : (asking c').poll? = some p) :
    p.GoesBy h n := by
  obtain ⟨p₀, answer₀, p₁, hanswered, hnext, rfl⟩ := poll?_of_resume hresume hp
  exact Poll.goesBy_of_resume (hc _ hanswered) hnext

theorem goesBy_of_served {answer : c.request.Answer} {e e' : Engine}
    (hwellFormed : e.store.WellFormed) (hc : ∀ p, (asking c).poll? = some p → p.GoesBy h n)
    (hanswer : e.Answers c.request answer e') (hm : m.engine = e')
    (hserved : m.incident = .served c answer) (hp : (answered c answer).poll? = some p) :
    p.GoesBy (h ++ [m]) n := by
  have hpoll : m.poll? = some p := by
    rw [Moment.poll?, hserved]
    exact hp
  cases c with
  | poll c =>
    obtain rfl := Option.some.inj hp
    exact Poll.goesBy_of_served hwellFormed (hc _ rfl) hanswer hm hpoll
  | pass c =>
    cases c with
    | polling =>
      obtain rfl := Option.some.inj hp
      exact Poll.goesBy_of_served hwellFormed (hc _ rfl) hanswer hm hpoll
    | running => cases hp
  | emit | dispatch | run | sweep | cancel => cases hp

end Stage

namespace System

variable {config : EngineConfig} {s s' : System}

/-- Every poll goes by what it has listed. -/
theorem Reachable.goesBy (hs : Reachable config s) (hcounts : Counts s.history) (n : Nat)
    (stage : Stage) (p : PollStage) (hn : s.calls n = some stage) (hp : stage.poll? = some p) :
    p.GoesBy s.history n := by
  refine hs.of_stages (P := fun h n stage => ∀ p, stage.poll? = some p → p.GoesBy h n)
    ?_ ?_ ?_ ?_ n stage hn p hp
  · intro s₀ s₁ m o c hm _ hbegan hstart p hp
    refine Stage.goesBy_of_start hstart (fun m' hm' hcall => ?_) hp
    rw [hm.history] at hm'
    rcases List.mem_append.mp hm' with hm' | hm'
    · have hcrashed := hm.reachable.crashed_of_unbegun hm' hcall
      simp [Moment.listed?, Moment.poll?, hcrashed]
    · obtain rfl := List.mem_singleton.mp hm'
      simp [Moment.listed?, Moment.poll?, hbegan]
  · intro s₀ s₁ m n c answer hm _ hserved _ hanswer ih p hp
    have hwellFormed := (hm.reachable.isSound (hm.counts hcounts).1).lives.wellFormed
    rw [hm.history]
    exact Stage.goesBy_of_served hwellFormed ih hanswer hm.engine.symm hserved hp
  · intro s₀ s₁ m n c answer c' hm _ hresumed _ hresume ih p hp
    rw [hm.history]
    refine (Stage.goesBy_of_resume ih hresume hp).append fun _ => ?_
    simp [Moment.listed?, Moment.poll?, hresumed]
  · intro s₀ s₁ m n stage hm hcall _ ih p hp
    rw [hm.history]
    exact (ih p hp).append fun hsame => absurd hsame hcall

end System

def ClaimedBy (h : List Moment) (n : Nat) (id : InstanceId) : Prop :=
  ∃ m ∈ h, m.call = some n ∧ m.claimed? = some id

theorem ClaimedBy.append {h : List Moment} {n : Nat} {id : InstanceId} (hid : ClaimedBy h n id)
    (h' : List Moment) : ClaimedBy (h ++ h') n id := by
  obtain ⟨m, hm, hclaims⟩ := hid
  exact ⟨m, List.mem_append_left _ hm, hclaims⟩

/-- What a poll is going to return, it has claimed. -/
def PollStage.Claims (h : List Moment) (n : Nat) : PollStage → Prop
  | asking (.claiming _ _ _ claimed) => ∀ id ∈ claimed, ClaimedBy h n id
  | answered (.claiming worker current rest claimed) answer =>
    (∀ id ∈ claimed, ClaimedBy h n id) ∧
      ∀ id, (answered (.claiming worker current rest claimed) answer).claimed? = some id →
        ClaimedBy h n id
  | _ => True

theorem PollStage.Claims.append {h : List Moment} {n : Nat} {stage : PollStage}
    (hstage : stage.Claims h n) (h' : List Moment) : stage.Claims (h ++ h') n := by
  cases stage with
  | asking p =>
    cases p with
    | listing => trivial
    | claiming => exact fun id hid => (hstage id hid).append h'
  | answered p answer =>
    cases p with
    | listing => trivial
    | claiming =>
      exact ⟨fun id hid => (hstage.1 id hid).append h', fun id hid => (hstage.2 id hid).append h'⟩

namespace Poll

variable {h : List Moment} {n : Nat} {p p' : Poll} {answer : p.request.Answer}
  {ids : List InstanceId}

/-- A poll that goes on keeps to what it has claimed, and in the end returns it. -/
theorem claims_of_proceed {worker : String} {rest : List Instance} {claimed : List InstanceId}
    (hclaimed : ∀ id ∈ claimed, ClaimedBy h n id) :
    (∀ p, proceed worker rest claimed = .waiting p → (PollStage.asking p).Claims h n) ∧
      ∀ ids, proceed worker rest claimed = .ended (.ok ids) → ∀ id ∈ ids, ClaimedBy h n id := by
  cases rest with
  | nil =>
    constructor
    · intro p hp
      cases hp
    · intro ids hids
      cases hids
      exact hclaimed
  | cons current rest =>
    constructor
    · intro p hp
      obtain rfl := Progress.waiting.inj hp
      exact hclaimed
    · intro ids hids
      cases hids

theorem claims_of_resume (hp : (PollStage.answered p answer).Claims h n) :
    (∀ p', p.resume answer = .waiting p' → (PollStage.asking p').Claims h n) ∧
      ∀ ids, p.resume answer = .ended (.ok ids) → ∀ id ∈ ids, ClaimedBy h n id := by
  cases p with
  | listing worker now limit =>
    simp only [resume]
    split
    · exact claims_of_proceed (by simp)
    · simp
  | claiming worker current rest claimed =>
    obtain ⟨hclaimed, hcurrent⟩ := hp
    simp only [resume]
    split
    · refine claims_of_proceed fun id hid => ?_
      rcases List.mem_append.mp hid with hid | hid
      · exact hclaimed id hid
      · obtain rfl := List.mem_singleton.mp hid
        exact hcurrent _ rfl
    · exact claims_of_proceed hclaimed
    · simp

theorem claims_of_served {m : Moment} (hp : (PollStage.asking p).Claims h n)
    (hm : m.poll? = some (.answered p answer)) (hcall : m.call = some n) :
    (PollStage.answered p answer).Claims (h ++ [m]) n := by
  cases p with
  | listing => trivial
  | claiming worker current rest claimed =>
    refine ⟨fun id hid => (hp id hid).append _, fun id hid => ⟨m, by simp, hcall, ?_⟩⟩
    rw [Moment.claimed?, hm]
    exact hid

end Poll

namespace System

variable {config : EngineConfig} {s : System}

/-- Every poll has claimed what it is going to return. -/
theorem Reachable.claims (hs : Reachable config s) (n : Nat) (stage : Stage) (p : PollStage)
    (hn : s.calls n = some stage) (hp : stage.poll? = some p) : p.Claims s.history n := by
  refine hs.of_stages (P := fun h n stage => ∀ p, stage.poll? = some p → p.Claims h n)
    ?_ ?_ ?_ ?_ n stage hn p hp
  · intro s₀ s₁ m o c _ _ _ hstart p hp
    obtain ⟨worker, now, limit, rfl⟩ := (Stage.of_start hstart).2 p hp
    trivial
  · intro s₀ s₁ m n c answer hm hcall hserved _ _ ih p hp
    obtain ⟨p₀, answer₀, rfl, hasking⟩ := Stage.poll?_of_answered hp
    rw [hm.history]
    have hpoll : m.poll? = (Stage.answered c answer).poll? := by rw [Moment.poll?, hserved]
    exact Poll.claims_of_served (ih _ hasking) (hpoll.trans hp) hcall
  · intro s₀ s₁ m n c answer c' hm _ _ _ hresume ih p hp
    obtain ⟨p₀, answer₀, p₁, hanswered, hnext, rfl⟩ := Stage.poll?_of_resume hresume hp
    rw [hm.history]
    exact ((Poll.claims_of_resume (ih _ hanswered)).1 p₁ hnext).append _
  · intro s₀ s₁ m n stage hm _ _ ih p hp
    rw [hm.history]
    exact (ih p hp).append _

/-- A poll returns what it has claimed. -/
theorem Reachable.claimedBy_of_returned (hs : Reachable config s) {before after : List Moment}
    {m : Moment} {n : Nat} {ids : List InstanceId} (hhistory : s.history = before ++ m :: after)
    (hcall : m.call = some n) (hreturned : m.returned? = some ids) :
    ∀ id ∈ ids, ClaimedBy (before ++ [m]) n id := by
  obtain ⟨s₀, s₁, hm, rfl⟩ := hs.along hhistory
  obtain ⟨stage, hpoll, hids⟩ := Option.bind_eq_some_iff.mp hreturned
  obtain ⟨c, answer, hincident, hanswered⟩ := Moment.exists_served_of_poll? hpoll
  obtain ⟨k, hk, hasks, -⟩ := hm.step.of_served hm.history hincident
  obtain rfl : k = n := Option.some.inj (hk.symm.trans hcall)
  obtain ⟨p₀, answer₀, rfl, hasking⟩ := Stage.poll?_of_answered hanswered
  have hclaims := Poll.claims_of_served (hm.reachable.claims k _ _ hasks hasking) hpoll hcall
  simp only [PollStage.returned?] at hids
  split at hids
  · rename_i ids' hresume
    obtain rfl := Option.some.inj hids
    exact (Poll.claims_of_resume hclaims).2 _ hresume
  · cases hids

end System
end WorkflowEngine

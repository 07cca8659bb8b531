import WorkflowEngine.Proofs.System.Budget
import WorkflowEngine.Proofs.System.Tending

/-!
# Tries of an action

The invocations of an action of an instance are its tries. A try that fails may be followed by
another one, until the instance has waited for a while.
-/
namespace WorkflowEngine

/-- A failure after which the action may be tried again. -/
def Reply.isTransient : Reply → Bool
  | result (.failure _ isPermanent) => !isPermanent
  | raised f => !f.isPermanent
  | _ => false

theorem Reply.isTransient_of_settle {reply : Reply} {reason : String} {isPermanent : Bool}
    (hreply : reply.settle = .ok (.failure reason isPermanent)) :
    reply.isTransient = !isPermanent := by
  cases reply with
  | result r =>
    obtain rfl := Except.ok.inj hreply
    rfl
  | raised f =>
    cases hpermanent : f.isPermanent <;> simp [settle, hpermanent] at hreply <;>
      simp [isTransient, hpermanent, ← hreply.2]
  | strange => cases hreply

theorem Reply.isTransient_of_success {reply : Reply} {result : Record}
    (hreply : reply.settle = .ok (.success result)) : reply.isTransient = false := by
  cases reply with
  | result r =>
    obtain rfl := Except.ok.inj hreply
    rfl
  | raised f => cases hpermanent : f.isPermanent <;> simp [settle, hpermanent] at hreply
  | strange => cases hreply

/-- The invocation that has just been made, with its reply. -/
def RunStage.tried? : RunStage → Option (Invocation × Reply)
  | answered (.invoking v) reply => some (v, reply)
  | _ => none

def Moment.tried? (m : Moment) : Option (Invocation × Reply) := m.run?.bind RunStage.tried?

/-- The invocation of an action of an instance that has just been made, with its reply. -/
def Moment.tryOf? (id : InstanceId) (node : String) (m : Moment) : Option (Invocation × Reply) :=
  m.tried?.filter fun t => t.1.base.id == id && t.1.node == node

/-- The invocations of an action of an instance in their order, with their replies. -/
def tries (id : InstanceId) (node : String) (h : List Moment) : List (Invocation × Reply) :=
  h.filterMap (Moment.tryOf? id node)

theorem RunStage.invocation?_eq_map (stage : RunStage) :
    stage.invocation? = stage.tried?.map Prod.fst := by
  cases stage with
  | asking => rfl
  | answered r answer => cases r <;> rfl

/-- Every invocation is tried once. -/
theorem map_fst_tries (id : InstanceId) (node : String) (h : List Moment) :
    (tries id node h).map Prod.fst = invocations id node h := by
  rw [tries, invocations, List.map_filterMap]
  refine congrArg (List.filterMap · h) (funext fun m => ?_)
  have hfst : m.invocation? = m.tried?.map Prod.fst := by
    rw [Moment.invocation?, Moment.tried?]
    cases m.run? with
    | none => rfl
    | some stage => exact stage.invocation?_eq_map
  rw [hfst, Moment.tryOf?]
  cases m.tried? with
  | none => rfl
  | some t =>
    simp only [Option.map_some, Option.filter_some]
    split <;> rfl

theorem length_tries (id : InstanceId) (node : String) (h : List Moment) :
    (tries id node h).length = h.countP (Moment.invokes id node) := by
  rw [← length_invocations, ← map_fst_tries, List.length_map]

section
variable {id : InstanceId} {node : String} {h : List Moment} {m : Moment} {v : Invocation}
  {reply : Reply}

theorem tries_append : tries id node (h ++ [m]) = tries id node h ++ (m.tryOf? id node).toList := by
  rw [tries, List.filterMap_append, ← tries]
  cases htry : m.tryOf? id node <;> simp [htry]

theorem Moment.tryOf?_eq_some (hm : m.tried? = some (v, reply)) (hid : v.base.id = id)
    (hnode : v.node = node) : m.tryOf? id node = some (v, reply) := by
  simp [tryOf?, hm, hid, hnode, Option.filter_some]

theorem tries_append_self (hm : m.tried? = some (v, reply)) (hid : v.base.id = id)
    (hnode : v.node = node) : tries id node (h ++ [m]) = tries id node h ++ [(v, reply)] := by
  rw [tries_append, Moment.tryOf?_eq_some hm hid hnode, Option.toList_some]

theorem tries_append_of_ne (hm : ∀ v reply, m.tried? = some (v, reply) → v.base.id = id →
    v.node ≠ node) : tries id node (h ++ [m]) = tries id node h := by
  have hnone : m.tryOf? id node = none := by
    refine Option.filter_eq_none_iff.mpr fun t htry ht => ?_
    simp only [Bool.and_eq_true, beq_iff_eq] at ht
    exact hm t.1 t.2 htry ht.1 ht.2
  rw [tries_append, hnone, Option.toList_none, List.append_nil]

theorem mem_tries_append {h' : List Moment} {t : Invocation × Reply} (ht : t ∈ tries id node h) :
    t ∈ tries id node (h ++ h') := by
  rw [tries, List.filterMap_append]
  exact List.mem_append_left _ ht

theorem exists_mem_tries (hmade : Made h v) (hid : v.base.id = id) (hnode : v.node = node) :
    ∃ reply, (v, reply) ∈ tries id node h := by
  obtain ⟨m, hm, hv⟩ := hmade
  have hmem : v ∈ (tries id node h).map Prod.fst := by
    rw [map_fst_tries]
    exact mem_invocations hm hv hid hnode
  obtain ⟨t, ht, rfl⟩ := List.mem_map.mp hmem
  exact ⟨t.2, ht⟩

end

/-- The instance was stored with the node under its cursor. -/
def Visited (h : List Moment) (id : InstanceId) (node : String) : Prop :=
  ∃ m ∈ h, ∃ i, m.find? id = some i ∧ i.cursor = node

theorem Visited.of_append {h : List Moment} {m : Moment} {id : InstanceId} {node : String}
    {i : Instance} (hvisits : Visited (h ++ [m]) id node) (hi : m.find? id = some i) :
    Visited h id node ∨ i.cursor = node := by
  obtain ⟨x, hx, j, hj, hcursor⟩ := hvisits
  rcases List.mem_append.mp hx with hx | hx
  · exact .inl ⟨x, hx, j, hj, hcursor⟩
  · obtain rfl := List.mem_singleton.mp hx
    obtain rfl := Option.some.inj (hi.symm.trans hj)
    exact .inr hcursor

theorem visited_of_lastStored {h : List Moment} {id : InstanceId} {i : Instance}
    (hi : lastStored id h = some i) : Visited h id i.cursor := by
  obtain ⟨m, hm, hi⟩ := Option.bind_eq_some_iff.mp hi
  exact ⟨m, List.mem_of_getLast? hm, i, hi, rfl⟩

/-- A run has the reply to an invocation, or has computed the step that follows from it. -/
def RunStage.Concludes (config : EngineConfig) (v : Invocation) (reply : Reply) : RunStage → Prop
  | answered (.invoking w) reply' => w = v ∧ reply' = reply
  | asking (.saving base step) => base = v.base ∧ v.Concludes config reply step
  | _ => False

theorem RunStage.Concludes.base? {config : EngineConfig} {v : Invocation} {reply : Reply}
    {stage : RunStage} (h : stage.Concludes config v reply) : stage.base? = some v.base := by
  cases stage with
  | asking r =>
    cases r with
    | saving => exact congrArg some h.1
    | _ => exact h.elim
  | answered r answer =>
    cases r with
    | invoking => exact congrArg (some ·.base) h.1
    | _ => exact h.elim

/-- Tries that are counted from one. -/
def Numbered (ts : List (Invocation × Reply)) : Prop :=
  ∀ (j : Nat) (t : Invocation × Reply), ts[j]? = some t → t.1.attempt = j + 1

theorem Numbered.nil : Numbered [] := fun _ _ ht => by simp at ht

theorem Numbered.snoc {ts : List (Invocation × Reply)} {v : Invocation} (reply : Reply)
    (hts : Numbered ts) (hv : v.attempt = ts.length + 1) : Numbered (ts ++ [(v, reply)]) := by
  intro j t ht
  rcases Nat.lt_trichotomy j ts.length with hlt | rfl | hgt
  · rw [List.getElem?_append_left hlt] at ht
    exact hts j t ht
  · rw [List.getElem?_concat_length] at ht
    obtain rfl := Option.some.inj ht
    exact hv
  · rw [List.getElem?_eq_none (by rw [List.length_append, List.length_singleton]; omega)] at ht
    cases ht

theorem Invocation.micros_of_retryTime? {v : Invocation} {config : EngineConfig} {wakeAt : Instant}
    (hwake : v.retryTime? config = some wakeAt) :
    wakeAt.micros = v.time.micros + 1000000 * config.backoff v.attempt.toNat := by
  simp only [retryTime?] at hwake
  split at hwake
  · rw [Instant.add?_eq_some hwake, Int.mul_comm]
  · cases hwake

/-- After a try that has failed an instance waits until it is due to be tried again. -/
structure Instance.Awaits (i : Instance) (config : EngineConfig) (v : Invocation) : Prop where
  status : i.status = .waitingDelay
  cursor : i.cursor = v.node
  attempts : i.attemptsFor v.node = v.attempt
  resumeAt : ∃ wakeAt, i.resumeAt = some wakeAt ∧
    wakeAt.micros = v.time.micros + 1000000 * config.backoff v.attempt.toNat

/-- As it is stored after a failure, an instance waits. -/
theorem Invocation.awaits_retry {config : EngineConfig} {time : Instant → Instant} {wakeAt : Instant}
    (v : Invocation) (hcursor : v.base.cursor = v.node) (hwake : v.retryTime? config = some wakeAt)
    (htime : ∀ t, (time t).micros = t.micros) (reason : String) (version : Version) (now : Instant) :
    (((v.retry reason wakeAt).next.stamped version now).kept time).Awaits config v where
  status := rfl
  cursor := hcursor
  attempts := v.attemptsFor_counted
  resumeAt := ⟨_, rfl, (htime wakeAt).trans (micros_of_retryTime? hwake)⟩

/-- Tries that have failed and were not the last ones. The instance has waited after each. -/
structure Failures (config : EngineConfig) (h : List Moment) (id : InstanceId)
    (ts : List (Invocation × Reply)) : Prop where
  numbered : Numbered ts
  transient : ∀ t ∈ ts, t.2.isTransient = true
  fewer : ts.length < config.maxAttempts
  waited : ∀ t ∈ ts, ∃ m ∈ h, ∃ i, m.find? id = some i ∧ i.Awaits config t.1

section
variable {config : EngineConfig} {h : List Moment} {m : Moment} {id : InstanceId}
  {ts : List (Invocation × Reply)} {v : Invocation} {reply : Reply} {i : Instance}

theorem Failures.nil : Failures config h id [] :=
  ⟨.nil, by simp, config.maxAttempts_pos, by simp⟩

theorem Failures.of_append {ts' : List (Invocation × Reply)}
    (hfailures : Failures config h id (ts ++ ts')) : Failures config h id ts where
  numbered j t ht := by
    refine hfailures.numbered j t ?_
    rw [List.getElem?_append_left (List.getElem?_eq_some_iff.mp ht).1, ht]
  transient t ht := hfailures.transient t (List.mem_append_left _ ht)
  fewer := by
    have hfewer := hfailures.fewer
    rw [List.length_append] at hfewer
    omega
  waited t ht := hfailures.waited t (List.mem_append_left _ ht)

theorem Failures.append (hfailures : Failures config h id ts) (m : Moment) :
    Failures config (h ++ [m]) id ts :=
  { hfailures with
    waited := fun t ht => by
      obtain ⟨x, hx, hwaits⟩ := hfailures.waited t ht
      exact ⟨x, List.mem_append_left _ hx, hwaits⟩ }

theorem Failures.snoc (hfailures : Failures config h id ts)
    (hnumber : v.attempt = ts.length + 1) (hreply : reply.isTransient = true)
    (hmore : ts.length + 1 < config.maxAttempts) (hi : m.find? id = some i)
    (hwaits : i.Awaits config v) :
    Failures config (h ++ [m]) id (ts ++ [(v, reply)]) where
  numbered := hfailures.numbered.snoc reply hnumber
  transient t ht := by
    rcases List.mem_append.mp ht with ht | ht
    · exact hfailures.transient t ht
    · obtain rfl := List.mem_singleton.mp ht
      exact hreply
  fewer := by simpa using hmore
  waited t ht := by
    rcases List.mem_append.mp ht with ht | ht
    · exact (hfailures.append m).waited t ht
    · obtain rfl := List.mem_singleton.mp ht
      exact ⟨m, by simp, i, hi, hwaits⟩

end

end WorkflowEngine

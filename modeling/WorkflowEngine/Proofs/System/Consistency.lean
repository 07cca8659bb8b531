import WorkflowEngine.Proofs.System.Soundness

/-!
# Consistent instances

What the status of a stored instance says about its other fields. Some writers rely on what others
have cleared before them, so that the fields keep together only as a whole.
-/
namespace WorkflowEngine

/-- What the status of an instance says about its other fields, and what they say about its
plan. -/
structure Instance.Consistent (p : Plan) (i : Instance) : Prop where
  cursor : (p.node? i.cursor).isSome
  waiting : i.status = .waitingDelay →
    i.owner = none ∧ i.resumeAt.isSome ∧ i.dispatching = none
  unowned : i.status = .running → i.owner = none → i.resumeAt = none
  owned : i.owner.isSome → i.status = .running
  intent : ∀ n, i.dispatching = some n →
    n = i.cursor ∧ (∃ kind, p.IsAction n kind) ∧ i.resumeAt = none
  completed : i.completedAt.isSome = i.isTerminal
  ended : i.isTerminal → i.owner = none ∧ i.resumeAt = none
  settled : i.status = .succeeded ∨ i.status = .failed → i.dispatching = none
  succeeded : i.status = .succeeded → i.error = none
  failed : i.status = .failed → i.error.isSome
  live : i.isTerminal = false → i.error = none

namespace Instance.Consistent

variable {p q : Plan} {i : Instance}

theorem ofRunning (hcursor : (p.node? i.cursor).isSome) (hstatus : i.status = .running)
    (hfree : i.owner = none → i.resumeAt = none)
    (hintent : ∀ n, i.dispatching = some n →
      n = i.cursor ∧ (∃ kind, p.IsAction n kind) ∧ i.resumeAt = none)
    (hcompleted : i.completedAt = none) (herror : i.error = none) : i.Consistent p where
  cursor := hcursor
  waiting := by simp [hstatus]
  unowned := fun _ => hfree
  owned := fun _ => hstatus
  intent := hintent
  completed := by simp [hcompleted, isTerminal, hstatus, Status.isTerminal]
  ended := by simp [isTerminal, hstatus, Status.isTerminal]
  settled := by simp [hstatus]
  succeeded := fun _ => herror
  failed := by simp [hstatus]
  live := fun _ => herror

theorem ofWaiting (hcursor : (p.node? i.cursor).isSome) (hstatus : i.status = .waitingDelay)
    (howner : i.owner = none) (hresume : i.resumeAt.isSome) (hdispatching : i.dispatching = none)
    (hcompleted : i.completedAt = none) (herror : i.error = none) : i.Consistent p where
  cursor := hcursor
  waiting := fun _ => ⟨howner, hresume, hdispatching⟩
  unowned := by simp [hstatus]
  owned := by simp [howner]
  intent := by simp [hdispatching]
  completed := by simp [hcompleted, isTerminal, hstatus, Status.isTerminal]
  ended := by simp [isTerminal, hstatus, Status.isTerminal]
  settled := fun _ => hdispatching
  succeeded := fun _ => herror
  failed := by simp [hstatus]
  live := fun _ => herror

theorem ofEnded (hcursor : (p.node? i.cursor).isSome) (hended : i.isTerminal)
    (howner : i.owner = none) (hresume : i.resumeAt = none)
    (hintent : ∀ n, i.dispatching = some n → n = i.cursor ∧ ∃ kind, p.IsAction n kind)
    (hcompleted : i.completedAt.isSome)
    (hsettled : i.status = .succeeded ∨ i.status = .failed → i.dispatching = none)
    (hsucceeded : i.status = .succeeded → i.error = none)
    (hfailed : i.status = .failed → i.error.isSome) : i.Consistent p where
  cursor := hcursor
  waiting := by
    intro hstatus
    simp [isTerminal, hstatus, Status.isTerminal] at hended
  unowned := by
    intro hstatus
    simp [isTerminal, hstatus, Status.isTerminal] at hended
  owned := by simp [howner]
  intent := fun n hn => ⟨(hintent n hn).1, (hintent n hn).2, hresume⟩
  completed := by rw [hcompleted, hended]
  ended := fun _ => ⟨howner, hresume⟩
  settled := hsettled
  succeeded := hsucceeded
  failed := hfailed
  live := by simp [hended]

theorem completedAt_eq_none (hi : i.Consistent p) (hlive : i.isTerminal = false) :
    i.completedAt = none := by
  have hcompleted := hi.completed
  rw [hlive] at hcompleted
  simpa using hcompleted

theorem of_alike (hi : i.Consistent p) (h : p.Alike q) : i.Consistent q where
  cursor := h.isSome_node? hi.cursor
  waiting := hi.waiting
  unowned := hi.unowned
  owned := hi.owned
  intent := fun n hn =>
    have ⟨hcursor, ⟨kind, hkind⟩, hresume⟩ := hi.intent n hn
    ⟨hcursor, ⟨kind, h.isAction hkind⟩, hresume⟩
  completed := hi.completed
  ended := hi.ended
  settled := hi.settled
  succeeded := hi.succeeded
  failed := hi.failed
  live := hi.live

theorem kept_stamped (hi : i.Consistent p) (version : Version) (now : Instant)
    (time : Instant → Instant) : ((i.stamped version now).kept time).Consistent p where
  cursor := hi.cursor
  waiting := by simpa [kept, stamped] using hi.waiting
  unowned := by simpa [kept, stamped] using hi.unowned
  owned := hi.owned
  intent := by simpa [kept, stamped] using hi.intent
  completed := by simpa [kept, stamped, isTerminal] using hi.completed
  ended := by simpa [kept, stamped, isTerminal] using hi.ended
  settled := hi.settled
  succeeded := hi.succeeded
  failed := hi.failed
  live := hi.live

theorem of_kept {time : Instant → Instant} (hi : (i.kept time).Consistent p) :
    i.Consistent p where
  cursor := hi.cursor
  waiting := by simpa [kept] using hi.waiting
  unowned := by simpa [kept] using hi.unowned
  owned := hi.owned
  intent := by simpa [kept] using hi.intent
  completed := by simpa [kept, isTerminal] using hi.completed
  ended := by simpa [kept, isTerminal] using hi.ended
  settled := hi.settled
  succeeded := hi.succeeded
  failed := hi.failed
  live := hi.live

end Instance.Consistent

theorem Instance.IsHeld.isTerminal {i : Instance} (h : i.IsHeld) : i.isTerminal = false := by
  rw [Instance.isTerminal, h.1]
  rfl

/-- An instance under a node that is no action has no intent. -/
theorem Instance.Consistent.dispatching_eq_none {p : Plan} {i : Instance} {n : PlanNode}
    (hi : i.Consistent p) (hnode : p.node? i.cursor = some n)
    (hkind : n.step.actionKind? = none) : i.dispatching = none := by
  cases hdispatching : i.dispatching with
  | none => rfl
  | some id =>
    obtain ⟨rfl, ⟨kind, m, hm, hmkind⟩, -⟩ := hi.intent id hdispatching
    obtain rfl := Option.some.inj (hnode.symm.trans hm)
    simp [hkind] at hmkind

theorem Plan.IsRunnable.isSome_of_exit {p : Plan} (hp : p.IsRunnable) {id target : String}
    {n : PlanNode} {context : Record} (hnode : p.node? id = some n)
    (hexit : n.step.exit context = .ok (some target)) : (p.node? target).isSome :=
  hp.closed ⟨n, hnode, PlanStep.mem_successors hexit⟩

/-- A step of a plan leaves its instance consistent. -/
theorem Stepped.consistent {config : EngineConfig} {p : Plan} {made : Invocation → Prop}
    {i : Instance} {step : Step} (hp : p.IsRunnable) (hi : i.Consistent p) (hheld : i.IsHeld)
    (hstep : Stepped config p made i step) : step.next.Consistent p := by
  have hcompleted := hi.completedAt_eq_none hheld.isTerminal
  have herror := hi.live hheld.isTerminal
  have hnotFree : i.owner ≠ none := Option.isSome_iff_ne_none.mp hheld.2
  cases hstep with
  | @passed n exit _ _ _ hnode hkind houtcome hexit =>
    have hnone := hi.dispatching_eq_none hnode hkind
    cases exit with
    | none =>
      exact .ofEnded hi.cursor rfl rfl rfl (by simp [Step.advance, hnone]) rfl
        (fun _ => hnone) (fun _ => herror) (by simp [Step.advance])
    | some target =>
      exact .ofRunning (hp.isSome_of_exit hnode hexit) hheld.1 (fun h => absurd h hnotFree)
        (by simp [Step.advance, hnone]) hcompleted herror
  | @intended n kind now hnode hkind hintent =>
    refine .ofRunning hi.cursor hheld.1 (fun _ => rfl) (fun id hid => ?_) hcompleted herror
    obtain rfl := Option.some.inj hid
    exact ⟨rfl, ⟨kind, n, hnode, hkind⟩, rfl⟩
  | @slept n seconds target now wakeAt detail hnode hdelay =>
    have hexit : n.step.exit i.context = .ok (some target) := by rw [hdelay]; rfl
    exact .ofWaiting (hp.isSome_of_exit hnode hexit) rfl rfl rfl
      (hi.dispatching_eq_none hnode (by rw [hdelay]; rfl)) hcompleted herror
  | @succeeded v detail hv hmade =>
    obtain rfl := hv.base
    obtain ⟨n, params, hnode, haction⟩ := hv.action
    have hexit : n.step.exit v.base.context = .ok v.exit := by rw [haction]; rfl
    simp only [Step.advance]
    cases hv : v.exit with
    | none =>
      exact .ofEnded hi.cursor rfl rfl rfl (by simp [Invocation.counted]) rfl (fun _ => rfl)
        (fun _ => herror) (by simp)
    | some target =>
      rw [hv] at hexit
      exact .ofRunning (hp.isSome_of_exit hnode hexit) hheld.1 (fun h => absurd h hnotFree)
        (by simp [Invocation.counted]) hcompleted herror
  | @gaveUp v reason isPermanent hv hmade =>
    obtain rfl := hv.base
    exact .ofEnded hi.cursor rfl rfl (hi.intent _ hv.intent).2.2
      (by simp [Invocation.giveUp, Invocation.counted]) rfl (fun _ => rfl)
      (by simp [Invocation.giveUp]) (fun _ => rfl)
  | @retried v reason wakeAt hv hmade hmore =>
    obtain rfl := hv.base
    exact .ofWaiting hi.cursor rfl rfl rfl rfl hcompleted herror
  | @recovered n kind detail now hintent hnode hkind hidempotent =>
    obtain ⟨hcursor, haction, hresume⟩ := hi.intent n.id hintent
    refine .ofRunning (Option.isSome_iff_exists.mpr ⟨n, hnode⟩) hheld.1 (fun _ => hresume) ?_
      hcompleted herror
    intro id hid
    obtain rfl : n.id = id := Option.some.inj (hintent.symm.trans hid)
    exact ⟨rfl, haction, hresume⟩
  | @abandoned n error detail now hintent hnode hrisky =>
    exact .ofEnded hi.cursor rfl rfl (hi.intent n.id hintent).2.2 (by simp) rfl (fun _ => rfl)
      (by simp) (fun _ => rfl)

theorem Change.consistent {config : EngineConfig} {h : List Moment} {p : Plan} {i next : Instance}
    {step : Option Step} (hrunnable : ∀ q, BoundTo h q i → q.IsRunnable ∧ p.Alike q)
    (hi : i.Consistent p) (hchange : Change config h i step next) : next.Consistent p := by
  cases hchange with
  | @stepped q step hbound hheld hstep =>
    obtain ⟨hq, halike⟩ := hrunnable q hbound
    exact (hstep.consistent hq (hi.of_alike halike) hheld).of_alike halike.symm
  | failed hheld =>
    exact .ofEnded hi.cursor rfl rfl rfl (by simp [Instance.unrunnable]) rfl (fun _ => rfl)
      (by simp [Instance.unrunnable]) (fun _ => rfl)
  | released hheld =>
    refine .ofRunning hi.cursor rfl (fun _ => rfl) (fun n hn => ?_)
      (hi.completedAt_eq_none hheld.isTerminal) (hi.live hheld.isTerminal)
    exact ⟨(hi.intent n hn).1, (hi.intent n hn).2.1, rfl⟩
  | cancelled hlive =>
    exact .ofEnded hi.cursor rfl rfl rfl
      (fun n hn => ⟨(hi.intent n hn).1, (hi.intent n hn).2.1⟩) rfl (by simp [Cancel.cancelled])
      (by simp [Cancel.cancelled]) (by simp [Cancel.cancelled])
  | @claimed worker hlive hfree =>
    exact .ofRunning hi.cursor rfl (by simp [Instance.claimed]) hi.intent
      (hi.completedAt_eq_none hlive) (hi.live hlive)

/-- The instance that an event starts of a plan is consistent. -/
theorem Event.consistent_draft {e : Event} {p : Plan} {now : Instant} (hp : p.IsRunnable)
    {i : Instance} (hi : i.toDraft = e.draft p now) : i.Consistent p := by
  refine .ofRunning ?_ ?_ ?_ ?_ ?_ ?_
  · rw [hi]; exact hp.trigger
  · rw [hi]; rfl
  · rw [hi]; exact fun _ => rfl
  · rw [hi]; simp [draft]
  · rw [hi]; rfl
  · rw [hi]; rfl

/-- No two registered plans of one name lead different ways: versions name the content of plans. -/
def WellNamed (h : List Moment) : Prop :=
  ∀ p q, Registered h p → Registered h q → p.graphId = q.graphId → p.version = q.version →
    p.Alike q

theorem WellNamed.of_append {h h' : List Moment} (hnamed : WellNamed (h ++ h')) : WellNamed h :=
  fun p q hp hq => hnamed p q (hp.append h') (hq.append h')

theorem BoundTo.alike {h : List Moment} {p q : Plan} {i : Instance} (hnamed : WellNamed h)
    (hp : BoundTo h p i) (hq : BoundTo h q i) : p.Alike q :=
  hnamed p q hp.registered hq.registered (hp.graphId.trans hq.graphId.symm)
    (hp.version.trans hq.version.symm)

theorem boundTo_kept {h : List Moment} {p : Plan} {i : Instance} {time : Instant → Instant} :
    BoundTo h p (i.kept time) ↔ BoundTo h p i :=
  ⟨fun ⟨hp, hgraph, hversion⟩ => ⟨hp, hgraph, hversion⟩,
    fun ⟨hp, hgraph, hversion⟩ => ⟨hp, hgraph, hversion⟩⟩

theorem Change.boundTo_iff {config : EngineConfig} {h h' : List Moment} {i next : Instance}
    {step : Option Step} (hchange : Change config h i step next) {p : Plan} {version : Version}
    {now : Instant} {time : Instant → Instant} :
    BoundTo h' p ((next.stamped version now).kept time) ↔ BoundTo h' p (i.kept time) := by
  have horigin := hchange.next_eq.2
  simp only [Instance.origin, Prod.mk.injEq] at horigin
  obtain ⟨hgraph, hversion, -⟩ := horigin
  exact ⟨fun hp => ⟨hp.registered, hp.graphId.trans hgraph, hp.version.trans hversion⟩,
    fun hp => ⟨hp.registered, hp.graphId.trans hgraph.symm, hp.version.trans hversion.symm⟩⟩

namespace Life

variable {config : EngineConfig} {time : Instant → Instant} {id : InstanceId}
  {h h' : List Moment} {i : Instance}

/-- A stored instance is bound to a plan that was registered before it was created. -/
theorem exists_boundTo (hlife : Life config time id h i) : ∃ p, BoundTo h p i := by
  induction hlife with
  | born _ hbound => exact ⟨_, boundTo_kept.mpr (hbound.append _)⟩
  | idle _ _ _ ih =>
    obtain ⟨p, hp⟩ := ih
    exact ⟨p, hp.append _⟩
  | changed _ _ hchange _ _ ih =>
    obtain ⟨p, hp⟩ := ih
    exact ⟨p, (hchange.boundTo_iff.mpr hp).append _⟩

theorem consistent (hlife : Life config time id h i) (hext : h <+: h')
    (hrunnable : ∀ p, Registered h' p → p.IsRunnable) (hnamed : WellNamed h') {p : Plan}
    (hp : BoundTo h' p i) : i.Consistent p := by
  induction hlife with
  | @born h m q e i now _ hbound hdraft =>
    obtain ⟨rest, rfl⟩ := (List.prefix_append h [m]).trans hext
    have hq := hbound.append rest
    have hi := Event.consistent_draft (hrunnable q hq.registered) hdraft
    have halike := hq.alike hnamed (boundTo_kept.mp hp)
    exact (hi.of_alike halike).kept_stamped i.version i.updatedAt time
  | idle _ _ _ ih => exact ih ((List.prefix_append _ _).trans hext) hp
  | @changed h m i next step now _ _ hchange _ _ ih =>
    have hbound := hchange.boundTo_iff.mp hp
    have hi := ih ((List.prefix_append _ _).trans hext) hbound
    obtain ⟨rest, rfl⟩ := (List.prefix_append h [m]).trans hext
    refine (hchange.consistent (fun q hq => ?_) hi.of_kept).kept_stamped _ _ _
    have hq' := hq.append rest
    exact ⟨hrunnable q hq'.registered, (boundTo_kept.mp hbound).alike hnamed hq'⟩

end Life

namespace System

variable {config : EngineConfig} {s : System} {id : InstanceId} {i : Instance}

theorem Reachable.consistent (hs : Reachable config s) (hcounts : Counts s.history)
    (hnamed : WellNamed s.history) (hi : s.engine.store.find? id = some i) {p : Plan}
    (hp : BoundTo s.history p i) : i.Consistent p :=
  (hs.life hcounts hi).consistent List.prefix_rfl (fun _ hq => hs.isRunnable hcounts hq) hnamed hp

end System
end WorkflowEngine

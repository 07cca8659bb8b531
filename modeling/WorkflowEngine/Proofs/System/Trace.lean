import WorkflowEngine.Proofs.Plan.Walk
import WorkflowEngine.Proofs.System.Undisturbed

/-!
# Cursors along the walk

The cursors that are stored for an instance, one after the other, are the beginning of the walk of
its plan. An action is passed only with a success, which is stored once.
-/
namespace WorkflowEngine

section
variable {α : Type} [DecidableEq α]

theorem destutter'_concat (l : List α) (a b : α) :
    (l ++ [b]).destutter' (· ≠ ·) a =
      if (l.destutter' (· ≠ ·) a).getLast? = some b then l.destutter' (· ≠ ·) a
      else l.destutter' (· ≠ ·) a ++ [b] := by
  induction l generalizing a with
  | nil => by_cases hab : a = b <;> simp [hab]
  | cons c l ih =>
    by_cases hac : a = c
    · subst hac
      simpa using ih a
    · have hne : l.destutter' (· ≠ ·) c ≠ [] := List.destutter'_ne_nil _ _
      have hlast : (a :: l.destutter' (· ≠ ·) c).getLast? = (l.destutter' (· ≠ ·) c).getLast? := by
        obtain ⟨d, rest, hrest⟩ := List.exists_cons_of_ne_nil hne
        rw [hrest, List.getLast?_cons_cons]
      rw [List.cons_append, List.destutter'_cons_pos _ hac, List.destutter'_cons_pos _ hac, hlast,
        ih c]
      split <;> rfl

theorem destutter_concat (l : List α) (b : α) :
    (l ++ [b]).destutter (· ≠ ·) =
      if (l.destutter (· ≠ ·)).getLast? = some b then l.destutter (· ≠ ·)
      else l.destutter (· ≠ ·) ++ [b] := by
  cases l with
  | nil => simp
  | cons a l => exact destutter'_concat l a b

end

/-- The cursors that were stored for an instance, one after the other. -/
def cursors (id : InstanceId) (h : List Moment) : List String :=
  (h.filterMap fun m => (m.find? id).map (·.cursor)).destutter (· ≠ ·)

theorem cursors_append {id : InstanceId} {h : List Moment} {m : Moment} {i : Instance}
    (hi : m.find? id = some i) :
    cursors id (h ++ [m]) =
      if (cursors id h).getLast? = some i.cursor then cursors id h
      else cursors id h ++ [i.cursor] := by
  rw [cursors, List.filterMap_append, List.filterMap_cons_some (b := i.cursor) (by simp [hi]),
    List.filterMap_nil, destutter_concat]
  rfl

theorem cursors_eq_nil {id : InstanceId} {h : List Moment} (hunborn : Unborn id h) :
    cursors id h = [] := by
  have hnone : (h.filterMap fun m => (m.find? id).map (·.cursor)) = [] := by
    refine List.filterMap_eq_nil_iff.mpr fun m hm => ?_
    rw [(hunborn m hm).1]
    rfl
  rw [cursors, hnone, List.destutter_nil]

/-- Where a change leads on the walk: it stays at a node, leaves it for the next one, or ends the
run there. A success is stored if and only if an action is left or ended. -/
inductive Move (p : Plan) (i next : Instance) (step : Option Step) : Prop where
  | stays (hcursor : next.cursor = i.cursor) (hstatus : next.status ≠ .succeeded)
      (hstep : ∀ s, step = some s → s.entry.outcome ≠ .actionSucceeded)
  | passes {n : PlanNode} (hnode : p.node? i.cursor = some n)
      (hexit : n.step.exit i.context =
        .ok (if next.status = .succeeded then none else some next.cursor))
      (hcursor : next.status = .succeeded → next.cursor = i.cursor)
      (hstep : ∃ s, step = some s ∧ s.entry.node = some i.cursor ∧
        (s.entry.outcome = .actionSucceeded ↔ n.step.actionKind?.isSome))

theorem Stepped.move {config : EngineConfig} {p : Plan} {made : Invocation → Prop} {i : Instance}
    {step : Step} (hi : i.Consistent p) (hheld : i.IsHeld)
    (hstep : Stepped config p made i step) : Move p i step.next (some step) := by
  have hrunning : i.status ≠ .succeeded := by simp [hheld.1]
  cases hstep with
  | @passed n exit outcome detail now hnode hkind houtcome hexit =>
    have hentry : outcome ≠ .actionSucceeded := by
      rcases houtcome with rfl | rfl | rfl <;> simp
    cases exit with
    | none =>
      exact .passes hnode hexit (fun _ => rfl)
        ⟨_, rfl, rfl, by simp [Step.advance, hkind, hentry]⟩
    | some target =>
      refine .passes hnode ?_ ?_ ⟨_, rfl, rfl, by simp [Step.advance, hkind, hentry]⟩
      · simp [Step.advance, hrunning, hexit]
      · simp [Step.advance, hrunning]
  | intended => exact .stays rfl hrunning (by simp [Step.intend])
  | @slept n seconds target now wakeAt detail hnode hdelay =>
    exact .passes hnode (by simp [hdelay, PlanStep.exit]) (by simp)
      ⟨_, rfl, rfl, by simp [hdelay, PlanStep.actionKind?]⟩
  | @succeeded v detail hv hmade =>
    obtain rfl := hv.base
    obtain ⟨n, params, hnode, haction⟩ := hv.action
    have hexit : n.step.exit v.base.context = .ok v.exit := by rw [haction]; rfl
    have hkind : n.step.actionKind?.isSome := by rw [haction]; rfl
    have hnodeEq := hv.node
    simp only [Step.advance]
    cases hexit' : v.exit with
    | none =>
      rw [hexit'] at hexit
      exact .passes hnode hexit (fun _ => rfl) ⟨_, rfl, by simp [hnodeEq], by simp [hkind]⟩
    | some target =>
      rw [hexit'] at hexit
      refine .passes hnode ?_ ?_ ⟨_, rfl, by simp [hnodeEq], by simp [hkind]⟩
      · simp [Invocation.counted, hrunning, hexit]
      · simp [Invocation.counted, hrunning]
  | @gaveUp v reason isPermanent hv hmade =>
    obtain rfl := hv.base
    exact .stays rfl (by simp [Invocation.giveUp]) (by simp [Invocation.giveUp])
  | @retried v reason wakeAt hv hmade hmore =>
    obtain rfl := hv.base
    exact .stays rfl (by simp [Invocation.retry]) (by simp [Invocation.retry])
  | @recovered n kind detail now hintent hnode hkind hidempotent =>
    exact .stays (hi.intent n.id hintent).1 hrunning (by simp)
  | abandoned => exact .stays rfl (by simp) (by simp)

theorem Change.move {config : EngineConfig} {h : List Moment} {p : Plan} {i next : Instance}
    {step : Option Step} (hunique : ∀ q, BoundTo h q i → q = p) (hi : i.Consistent p)
    (hchange : Change config h i step next) : Move p i next step := by
  cases hchange with
  | stepped hbound hheld hstep =>
    obtain rfl := hunique _ hbound
    exact hstep.move hi hheld
  | failed => exact .stays rfl (by simp [Instance.unrunnable]) (by simp)
  | released => exact .stays rfl (by simp [Instance.released]) (by simp)
  | cancelled => exact .stays rfl (by simp [Cancel.cancelled]) (by simp)
  | claimed => exact .stays rfl (by simp [Instance.claimed]) (by simp)

/-- An instance whose cursors follow the walk of its plan. -/
structure Follows (p : Plan) (h : List Moment) (i : Instance) : Prop where
  trace : ∃ l, cursors i.id h = l ++ [i.cursor]
  head : (cursors i.id h).head? = some p.triggerId
  chain : (cursors i.id h).IsChain (p.GoesOn i.context)
  passed : ∀ n ∈ (cursors i.id h).dropLast, (∃ kind, p.IsAction n kind) →
    timesStored i.id n .actionSucceeded h = 1
  fresh : ∀ n, n ∉ (cursors i.id h).dropLast → (i.status = .succeeded → n ≠ i.cursor) →
    timesStored i.id n .actionSucceeded h = 0
  ended : i.status = .succeeded → p.EndsAt i.context i.cursor ∧
    ((∃ kind, p.IsAction i.cursor kind) → timesStored i.id i.cursor .actionSucceeded h = 1)

namespace Follows

variable {p : Plan} {h : List Moment} {m : Moment} {i next : Instance} {step : Option Step}

theorem nodup (hf : Follows p h i) (hp : p.IsRunnable) : (cursors i.id h).Nodup :=
  Plan.nodup_of_chain hp hf.chain

theorem getLast? (hf : Follows p h i) : (cursors i.id h).getLast? = some i.cursor := by
  obtain ⟨l, hl⟩ := hf.trace
  rw [hl, List.getLast?_concat]

theorem cursor_notMem (hf : Follows p h i) (hp : p.IsRunnable) :
    i.cursor ∉ (cursors i.id h).dropLast := by
  have hnodup := hf.nodup hp
  obtain ⟨l, hl⟩ := hf.trace
  rw [hl] at hnodup ⊢
  rw [List.dropLast_concat]
  exact fun hmem => (List.nodup_append.mp hnodup).2.2 _ hmem _ (by simp) rfl

/-- A moment that leaves the instance at its node, without a success. -/
theorem stays (hf : Follows p h i) (hid : next.id = i.id) (hcontext : next.context = i.context)
    (hcursor : next.cursor = i.cursor) (hstatus : next.status = .succeeded ↔ i.status = .succeeded)
    (hquiet : ∀ s, m.stored? = some s → s.next.id = i.id → s.entry.outcome ≠ .actionSucceeded)
    {j : Instance} (hj : m.find? i.id = some j) (hjcursor : j.cursor = next.cursor) :
    Follows p (h ++ [m]) next := by
  have hcursors : cursors i.id (h ++ [m]) = cursors i.id h := by
    rw [cursors_append hj, if_pos (by rw [hf.getLast?, hjcursor, hcursor])]
  have hsuccesses (n : String) :
      timesStored i.id n .actionSucceeded (h ++ [m]) = timesStored i.id n .actionSucceeded h := by
    rw [timesStored_append, Moment.stores_eq_false hquiet]
    rfl
  constructor
  · rw [hid, hcursors, hcursor]
    exact hf.trace
  · rw [hid, hcursors]
    exact hf.head
  · rw [hid, hcursors, hcontext]
    exact hf.chain
  · rw [hid, hcursors]
    intro n hn haction
    rw [hsuccesses]
    exact hf.passed n hn haction
  · rw [hid, hcursors, hstatus, hcursor]
    intro n hn hne
    rw [hsuccesses]
    exact hf.fresh n hn hne
  · rw [hid, hstatus, hcontext, hcursor, hsuccesses]
    exact hf.ended

/-- A step that passes the node of the instance. -/
theorem passes (hf : Follows p h i) (hp : p.IsRunnable) (hlive : i.status ≠ .succeeded)
    (hid : next.id = i.id) (hcontext : next.context = i.context) {n : PlanNode}
    (hnode : p.node? i.cursor = some n)
    (hexit : n.step.exit i.context =
      .ok (if next.status = .succeeded then none else some next.cursor))
    (hcursor : next.status = .succeeded → next.cursor = i.cursor) {s : Step}
    (hstored : m.stored? = some s) (hstoredId : s.next.id = i.id)
    (hentry : s.entry.node = some i.cursor)
    (hsuccess : s.entry.outcome = .actionSucceeded ↔ n.step.actionKind?.isSome)
    {j : Instance} (hj : m.find? i.id = some j) (hjcursor : j.cursor = next.cursor) :
    Follows p (h ++ [m]) next := by
  have hother (a : String) (ha : a ≠ i.cursor) :
      timesStored i.id a .actionSucceeded (h ++ [m]) = timesStored i.id a .actionSucceeded h := by
    have hnot : m.stores i.id a .actionSucceeded = false := by
      rw [Bool.eq_false_iff, ne_eq, Moment.stores_iff hstored hstoredId, hentry]
      exact fun h => ha (Option.some.inj h.1).symm
    rw [timesStored_append, hnot]
    rfl
  have hhere (haction : ∃ kind, p.IsAction i.cursor kind) :
      timesStored i.id i.cursor .actionSucceeded (h ++ [m]) = 1 := by
    obtain ⟨kind, n', hn', hkind⟩ := haction
    obtain rfl := Option.some.inj (hnode.symm.trans hn')
    have hyes : m.stores i.id i.cursor .actionSucceeded = true :=
      (Moment.stores_iff hstored hstoredId).mpr ⟨hentry, hsuccess.mpr (by simp [hkind])⟩
    rw [timesStored_append, hyes, hf.fresh _ (hf.cursor_notMem hp) fun h => absurd h hlive]
    rfl
  by_cases hended : next.status = .succeeded
  · have hcursor := hcursor hended
    have hcursors : cursors i.id (h ++ [m]) = cursors i.id h := by
      rw [cursors_append hj, if_pos (by rw [hf.getLast?, hjcursor, hcursor])]
    rw [if_pos hended] at hexit
    refine ⟨?_, ?_, ?_, ?_, ?_, fun _ => ⟨?_, ?_⟩⟩
    · rw [hid, hcursors, hcursor]
      exact hf.trace
    · rw [hid, hcursors]
      exact hf.head
    · rw [hid, hcursors, hcontext]
      exact hf.chain
    · rw [hid, hcursors]
      intro a ha haction
      rw [hother a fun heq => hf.cursor_notMem hp (heq ▸ ha)]
      exact hf.passed a ha haction
    · rw [hid, hcursors, hcursor]
      intro a ha hne
      rw [hother a (hne hended)]
      exact hf.fresh a ha fun h => absurd h hlive
    · rw [hcontext, hcursor]
      exact ⟨n, hnode, hexit⟩
    · rw [hid, hcursor]
      exact hhere
  · rw [if_neg hended] at hexit
    have hgoes : p.GoesOn i.context i.cursor next.cursor := ⟨n, hnode, hexit⟩
    -- No node leads to itself, so the cursor is a new one.
    have hne : ¬ (cursors i.id h).getLast? = some j.cursor := by
      rw [hf.getLast?, hjcursor, Option.some.injEq]
      intro heq
      exact hp.not_transGen_self i.cursor (.single (heq ▸ hgoes.leads))
    have hcursors : cursors i.id (h ++ [m]) = cursors i.id h ++ [next.cursor] := by
      rw [cursors_append hj, if_neg hne, hjcursor]
    refine ⟨?_, ?_, ?_, ?_, ?_, fun h => absurd h hended⟩
    · rw [hid, hcursors]
      exact ⟨_, rfl⟩
    · rw [hid, hcursors, List.head?_append, hf.head]
      rfl
    · rw [hid, hcursors, hcontext]
      refine List.isChain_append.mpr ⟨hf.chain, .singleton _, fun a ha b hb => ?_⟩
      rw [hf.getLast?] at ha
      obtain rfl := Option.some.inj ha
      obtain rfl := Option.some.inj hb
      exact hgoes
    · rw [hid, hcursors, List.dropLast_concat]
      intro a ha haction
      by_cases heq : a = i.cursor
      · subst heq
        exact hhere haction
      · obtain ⟨l, hl⟩ := hf.trace
        rw [hother a heq]
        refine hf.passed a ?_ haction
        rw [hl] at ha ⊢
        rw [List.dropLast_concat]
        exact (List.mem_append.mp ha).resolve_right (by simpa using heq)
    · rw [hid, hcursors, List.dropLast_concat]
      intro a ha _
      have hlast := List.mem_of_getLast? hf.getLast?
      rw [hother a fun heq => ha (heq ▸ hlast)]
      exact hf.fresh a (fun hmem => ha (List.dropLast_subset _ hmem)) fun h => absurd h hlive

theorem born {time : Instant → Instant} {e : Event} {now : Instant} (hunborn : Unborn i.id h)
    (hdraft : i.toDraft = e.draft p now) (hstored : m.stored? = none)
    (hfound : m.find? i.id = some (i.kept time)) : Follows p (h ++ [m]) (i.kept time) := by
  have hcursor : i.cursor = p.triggerId := by rw [hdraft]; rfl
  have hstatus : (i.kept time).status ≠ .succeeded := by
    simp [show i.status = .running by rw [hdraft]; rfl, Instance.kept]
  have hcursors : cursors (i.kept time).id (h ++ [m]) = [i.cursor] := by
    have hnil : cursors i.id h = [] := cursors_eq_nil hunborn
    have happend := cursors_append (h := h) hfound
    rw [hnil] at happend
    exact happend
  have hsuccesses (n : String) :=
    timesStored_eq_zero (hunborn.stored_append hstored) n .actionSucceeded
  constructor
  · exact ⟨[], hcursors⟩
  · rw [hcursors, hcursor]
    rfl
  · rw [hcursors]
    exact .singleton _
  · simp [hcursors]
  · exact fun n _ _ => hsuccesses n
  · exact fun h => absurd h hstatus

end Follows

namespace Life

variable {config : EngineConfig} {time : Instant → Instant} {id : InstanceId}
  {h h' : List Moment} {i : Instance} {p : Plan}

theorem follows (hlife : Life config time id h i) (hext : h <+: h')
    (hrunnable : ∀ q, Registered h' q → q.IsRunnable) (hnamed : WellNamed h')
    (hunique : ∀ q, BoundTo h' q i → q = p) (hp : BoundTo h' p i) : Follows p h i := by
  induction hlife with
  | @born h m q e i now hunborn hbound hdraft hid hstored hfound =>
    obtain ⟨rest, rfl⟩ := (List.prefix_append h [m]).trans hext
    obtain rfl := hunique q (boundTo_kept.mpr (hbound.append rest))
    subst hid
    exact .born hunborn hdraft hstored hfound
  | @idle h m i hlife hstored hfound ih =>
    have hid := hlife.id_eq
    subst hid
    refine (ih ((List.prefix_append _ _).trans hext) hunique hp).stays rfl rfl rfl Iff.rfl
      (fun step hstep hid => absurd hid (hstored step hstep)) hfound rfl
  | @changed h m i next step now hlife hid hchange hstored hfound ih =>
    have hbound := hchange.boundTo_iff.mp hp
    have hunique' (q : Plan) (hq : BoundTo h' q (i.kept time)) : q = p :=
      hunique q (hchange.boundTo_iff.mpr hq)
    have hext' := (List.prefix_append h [m]).trans hext
    have hf := ih hext' hunique' hbound
    have hi := (hlife.consistent hext' hrunnable hnamed hbound).of_kept
    have hmove : Move p i next step := by
      refine hchange.move (fun q hq => ?_) hi
      obtain ⟨rest, rfl⟩ := hext'
      exact hunique' q (boundTo_kept.mpr (hq.append rest))
    obtain ⟨hnextId, horigin⟩ := hchange.next_eq
    have hcontext : next.context = i.context := congrArg (fun o => o.2.2.1) horigin
    have hlive : i.status ≠ .succeeded := by
      intro hstatus
      simpa [Instance.isTerminal, hstatus, Status.isTerminal] using hchange.isTerminal_eq_false
    subst hid
    cases hmove with
    | stays hcursor hstatus hstep =>
      exact hf.stays hnextId hcontext hcursor (iff_of_false hstatus hlive)
        (fun s hs _ => hstep s (hstored ▸ hs)) hfound rfl
    | passes hnode hexit hcursor hstep =>
      obtain ⟨s, rfl, hentry, hsuccess⟩ := hstep
      exact hf.passes (hrunnable p hbound.registered) hlive hnextId hcontext hnode hexit hcursor
        hstored (hchange.stored_id.trans hnextId) hentry hsuccess hfound rfl

end Life

/-- What a stored instance owes to the walk of its plan. -/
structure KeepsToWalk (p : Plan) (walk : List String) (h : List Moment) (i : Instance) : Prop where
  isWalk : p.IsWalk i.context walk
  begins : cursors i.id h <+: walk
  nodup : (cursors i.id h).Nodup
  origin : ∀ m ∈ h, ∀ j, m.find? i.id = some j → j.origin = i.origin
  passed : ∀ n ∈ (cursors i.id h).dropLast, (∃ kind, p.IsAction n kind) →
    timesStored i.id n .actionSucceeded h = 1
  ended : i.status = .succeeded → cursors i.id h = walk ∧ walk.getLast? = some i.cursor ∧
    ((∃ kind, p.IsAction i.cursor kind) → timesStored i.id i.cursor .actionSucceeded h = 1)

theorem Plan.IsWalk.eq_of_endsAt {p : Plan} {context : Record} {walk l : List String} {a : String}
    (hw : p.IsWalk context walk) (hext : l ++ [a] <+: walk) (hends : p.EndsAt context a) :
    l ++ [a] = walk := by
  obtain ⟨rest, rfl⟩ := hext
  cases rest with
  | nil => simp
  | cons b rest =>
    have hchain : (l ++ a :: b :: rest).IsChain (p.GoesOn context) := by simpa using hw.chain
    have hnext := (List.isChain_split.mp hchain).2
    exact absurd (List.isChain_cons_cons.mp hnext).1 hends.not_goesOn

theorem Follows.exists_walk {p : Plan} {h : List Moment} {i : Instance} (hf : Follows p h i)
    (hp : p.IsRunnable) (horigin : ∀ m ∈ h, ∀ j, m.find? i.id = some j → j.origin = i.origin) :
    ∃ walk, KeepsToWalk p walk h i := by
  obtain ⟨l, hl⟩ := hf.trace
  obtain ⟨walk, hwalk, hext⟩ :=
    Plan.exists_isWalk hp i.cursor (hl ▸ hf.head) (hl ▸ hf.chain)
  refine ⟨walk, hwalk, hl ▸ hext, hf.nodup hp, horigin, hf.passed, fun hstatus => ?_⟩
  obtain ⟨hends, hsuccess⟩ := hf.ended hstatus
  have heq : cursors i.id h = walk := hl.trans (hwalk.eq_of_endsAt hext hends)
  exact ⟨heq, heq ▸ hf.getLast?, hsuccess⟩

/-- In a run that removes no plan, every stored instance keeps to the walk of its plan, of which
there is one. -/
theorem System.Reachable.keepsToWalk {config : EngineConfig} {s : System} {id : InstanceId}
    {i : Instance} (hs : Reachable config s)
    (hcolumn : s.engine.store.isTable = true → TableStore.fits s.history.length)
    (hkeeps : Keeps s.history) (hi : s.engine.store.find? id = some i) :
    ∃ p walk, BoundTo s.history p i ∧ (∀ q, BoundTo s.history q i → q = p) ∧
      KeepsToWalk p walk s.history i := by
  have hcounts := hs.counts hcolumn
  have hlife := hs.life hcounts hi
  have hid := hlife.id_eq
  subst hid
  have hrunnable (q : Plan) (hq : Registered s.history q) := hs.isRunnable hcounts hq
  obtain ⟨p, hp⟩ := hlife.exists_boundTo
  have hunique (q : Plan) (hq : BoundTo s.history q i) : q = p :=
    hs.eq_of_registered hkeeps hq.registered hp.registered (hq.graphId.trans hp.graphId.symm)
      (hq.version.trans hp.version.symm)
  have hf := hlife.follows List.prefix_rfl hrunnable (hs.wellNamed hkeeps) hunique hp
  obtain ⟨walk, hwalk⟩ :=
    hf.exists_walk (hrunnable p hp.registered) fun m hm j hj => hlife.origin_eq hm hj
  exact ⟨p, walk, hp, hunique, hwalk⟩

theorem Sample.exists_keepsToWalk : ∃ s, System.Reachable default s ∧
    (s.engine.store.isTable = true → TableStore.fits s.history.length) ∧ Keeps s.history ∧
    s.engine.store.find? "i1" = some retrying ∧
    ∃ p walk, BoundTo s.history p retrying ∧ (∀ q, BoundTo s.history q retrying → q = p) ∧
      KeepsToWalk p walk s.history retrying := by
  obtain ⟨s, hs, hkeeps, hmemory, hi, -⟩ := exists_tried
  have hcolumn : s.engine.store.isTable = true → TableStore.fits s.history.length := by
    simp [hmemory]
  exact ⟨s, hs, hcolumn, hkeeps, hi, hs.keepsToWalk hcolumn hkeeps hi⟩

end WorkflowEngine

import WorkflowEngine.Proofs.Plan.Content
import WorkflowEngine.Proofs.Plan.Latest

/-!
# Histories of a registry

A registry is changed by registrations, by additions and by removals. The plan that came with a
change stays under its version until its graph is removed, the latest plan of a graph is the one
that came with the last change to make it so, and changes for one graph have no bearing on another.
-/
namespace WorkflowEngine.Registry

/-- What is done to a registry. -/
inductive Change
  | register (g : Graph)
  | add (p : Plan) (isLatest : Bool)
  | unregister (graphId : String)

/-- Makes a change. The plan that is then held comes with it, unless a graph was removed. -/
def change (r : Registry) : Change → Outcome (Option Plan) × Registry
  | .register g =>
    match r.register g with
    | .ok (p, r') => (.ok (some p), r')
    | .error e => (.error e, r)
  | .add p isLatest => (.ok (some (r.held p)), r.add p isLatest)
  | .unregister graphId => (.ok none, r.unregister graphId)

/-- Makes changes, the first of them first. -/
def changeAll (r : Registry) (changes : List Change) : Registry :=
  changes.foldl (fun r c => (r.change c).2) r

/-- The registry that was changed from an empty one. -/
def after (config : EngineConfig) (changes : List Change) : Registry :=
  (empty config).changeAll changes

namespace Change

/-- The graph that a change is for. -/
def graphId : Change → String
  | register g => g.id
  | add p _ => p.graphId
  | unregister graphId => graphId

/-- The plan that a change would have a registry keep. -/
def brought? (config : EngineConfig) : Change → Option Plan
  | register g => (Plan.ofGraph config g).toOption
  | add p _ => some p
  | unregister _ => none

/-- The plan that a change would make the latest of its graph. -/
def promoted? (config : EngineConfig) : Change → Option Plan
  | register g => (Plan.ofGraph config g).toOption
  | add p isLatest => if isLatest then some p else none
  | unregister _ => none

/-- A change makes a plan the latest of a graph. -/
def Promotes (config : EngineConfig) (graphId : String) (c : Change) : Prop :=
  ∃ p, c.promoted? config = some p ∧ p.graphId = graphId

end Change

variable {config : EngineConfig} {r r' : Registry} {c : Change} {g : Graph} {p : Plan}
  {changes : List Change} {graphId version : String} {texts : String → Prop}

/-! ## What is held and what is the latest -/

theorem plan?_add (r : Registry) (p : Plan) (isLatest : Bool) (graphId version : String) :
    (r.add p isLatest).plan? graphId version = (r.plan? graphId version).or
      (if p.graphId = graphId ∧ p.version = version then some p else none) := by
  by_cases hheld : (r.plan? p.graphId p.version).isSome = true
  · have hsame : (r.add p isLatest).plans = r.plans := if_pos hheld
    rw [plan?, hsame, ← plan?]
    split
    · next hnames => rw [← hnames.1, ← hnames.2, Option.or_of_isSome hheld]
    · rw [Option.or_none]
  · have hplans : (r.add p isLatest).plans = r.plans ++ [p] := if_neg hheld
    rw [plan?, hplans, List.find?_append, ← plan?, List.find?_singleton]
    simp only [Bool.and_eq_true, beq_iff_eq]

theorem plan?_add_self (r : Registry) (p : Plan) (isLatest : Bool) :
    (r.add p isLatest).plan? p.graphId p.version = some (r.held p) := by
  rw [plan?_add, if_pos ⟨rfl, rfl⟩, held]
  cases r.plan? p.graphId p.version <;> rfl

theorem names_held (r : Registry) (p : Plan) :
    (r.held p).graphId = p.graphId ∧ (r.held p).version = p.version :=
  (of_plan?_eq_some (plan?_add_self r p true)).2

theorem lookup_latest_add (r : Registry) (p : Plan) (isLatest : Bool) (graphId : String) :
    (r.add p isLatest).latest.lookup graphId =
      if isLatest = true ∧ p.graphId = graphId then some p.version
      else r.latest.lookup graphId := by
  cases isLatest with
  | false => simp [add]
  | true =>
    change (Keyed.put p.graphId p.version r.latest).lookup graphId = _
    by_cases hgraph : p.graphId = graphId
    · rw [← hgraph, Keyed.lookup_put, if_pos ⟨rfl, rfl⟩]
    · rw [Keyed.lookup_put_of_ne _ _ (Ne.symm hgraph), if_neg fun h => hgraph h.2]

theorem plansOf_add_of_ne (r : Registry) (isLatest : Bool) (h : p.graphId ≠ graphId) :
    (r.add p isLatest).plansOf graphId = r.plansOf graphId := by
  unfold plansOf add
  dsimp only
  split
  · rfl
  · simp [h]

theorem plansOf_unregister_of_ne (r : Registry) {other : String} (h : other ≠ graphId) :
    (r.unregister other).plansOf graphId = r.plansOf graphId := by
  unfold plansOf unregister
  rw [List.filter_filter]
  refine List.filter_congr fun p _ => ?_
  by_cases hgraph : p.graphId = graphId
  · simp [hgraph, Ne.symm h]
  · simp [hgraph]

theorem plan?_eq_find? (r : Registry) (graphId version : String) :
    r.plan? graphId version = (r.plansOf graphId).find? (·.version == version) := by
  rw [plan?, plansOf, List.find?_filter]
  congr 1
  funext p
  simp only [Bool.decide_and, Bool.decide_eq_true]

theorem plan?_of_plan (h : r.plan graphId (some version) = .ok p) :
    r.plan? graphId version = some p := by
  unfold plan at h
  split at h
  · next hversion =>
    obtain rfl := Option.some.inj hversion
    split at h
    · next hp => rw [hp, Except.ok.inj h]
    · cases h
  · cases h

theorem toOption_latestPlan (r : Registry) (graphId : String) :
    (r.latestPlan graphId).toOption = (r.latest.lookup graphId).bind (r.plan? graphId) := by
  rw [latestPlan, plan, Option.none_or]
  cases hlatest : r.latest.lookup graphId with
  | none => cases r.plansOf graphId <;> rfl
  | some version =>
    rw [Option.bind_some]
    cases hplans : r.plansOf graphId with
    | nil => rw [plan?_eq_find?, hplans]; rfl
    | cons first rest =>
      dsimp only
      cases r.plan? graphId version <;> rfl

theorem latestPlan_of_lookup (hlatest : r.latest.lookup graphId = some version)
    (hp : r.plan? graphId version = some p) : r.latestPlan graphId = .ok p := by
  have htoOption := r.toOption_latestPlan graphId
  rw [hlatest, Option.bind_some, hp] at htoOption
  cases hplan : r.latestPlan graphId with
  | ok q =>
    rw [hplan] at htoOption
    exact congrArg Except.ok (Option.some.inj htoOption)
  | error e =>
    rw [hplan] at htoOption
    cases htoOption

theorem latestPlan_of_lookup_eq_none (hlatest : r.latest.lookup graphId = none) :
    r.latestPlan graphId = .error (.graphNotFound graphId) := by
  rw [latestPlan, plan, hlatest]
  cases r.plansOf graphId <;> rfl

/-! ## One change -/

theorem change_register (hp : Plan.ofGraph r.config g = .ok p) :
    r.change (.register g) = (.ok (some (r.held p)), r.add p true) := by
  have hregister : r.register g = .ok (r.held p, r.add p true) := by rw [register, hp]; rfl
  rw [change, hregister]

theorem change_register_of_error {e : Error} (he : Plan.ofGraph r.config g = .error e) :
    r.change (.register g) = (.error e, r) := by
  have hregister : r.register g = .error e := by rw [register, he]; rfl
  rw [change, hregister]

/-- A change keeps a plan, perhaps as the latest, or removes a graph, or fails and does nothing. -/
theorem change_cases (r : Registry) (c : Change) :
    (∃ p isLatest, c.brought? r.config = some p ∧ c.graphId = p.graphId ∧
      c.promoted? r.config = (if isLatest = true then some p else none) ∧
      r.change c = (.ok (some (r.held p)), r.add p isLatest)) ∨
    (c = .unregister c.graphId ∧ r.change c = (.ok none, r.unregister c.graphId)) ∨
    (∃ g e, c = .register g ∧ Plan.ofGraph r.config g = .error e ∧ r.change c = (.error e, r)) := by
  cases c with
  | register g =>
    cases hg : Plan.ofGraph r.config g with
    | ok p =>
      have hbrought : (Plan.ofGraph r.config g).toOption = some p := by rw [hg]; rfl
      exact .inl ⟨p, true, hbrought, (Plan.ofGraph_eq_ok hg).2.2.2.1.symm, hbrought,
        change_register hg⟩
    | error e => exact .inr (.inr ⟨g, e, rfl, hg, change_register_of_error hg⟩)
  | add p isLatest => exact .inl ⟨p, isLatest, rfl, rfl, rfl, rfl⟩
  | unregister graphId => exact .inr (.inl ⟨rfl, rfl⟩)

theorem config_change (r : Registry) (c : Change) : (r.change c).2.config = r.config := by
  obtain ⟨p, isLatest, -, -, -, h⟩ | ⟨-, h⟩ | ⟨g, e, -, -, h⟩ := r.change_cases c
  all_goals rw [h]
  · rfl
  · rfl

theorem Coherent.change (hr : r.Coherent) (c : Change) : (r.change c).2.Coherent := by
  obtain ⟨p, isLatest, -, -, -, h⟩ | ⟨-, h⟩ | ⟨g, e, -, -, h⟩ := r.change_cases c
  · rw [h]
    exact hr.add p isLatest
  · rw [h]
    exact hr.unregister c.graphId
  · rwa [h]

/-- A plan stays until its graph is removed. -/
theorem plan?_change (hc : c ≠ .unregister graphId) (hp : r.plan? graphId version = some p) :
    (r.change c).2.plan? graphId version = some p := by
  obtain ⟨q, isLatest, -, -, -, h⟩ | ⟨hremoved, h⟩ | ⟨g, e, -, -, h⟩ := r.change_cases c
  · rw [h, plan?_add, hp, Option.some_or]
  · have hother : c.graphId ≠ graphId := fun hsame => hc (hsame ▸ hremoved)
    rw [h, plan?_eq_find?, plansOf_unregister_of_ne r hother, ← plan?_eq_find?, hp]
  · rw [h, hp]

/-- The latest plan stays the latest until another is made so or the graph is removed. -/
theorem lookup_latest_change (hc : c ≠ .unregister graphId)
    (hpromotes : ¬ c.Promotes r.config graphId) :
    (r.change c).2.latest.lookup graphId = r.latest.lookup graphId := by
  obtain ⟨q, isLatest, -, -, hpromoted, h⟩ | ⟨hremoved, h⟩ | ⟨g, e, -, -, h⟩ := r.change_cases c
  · rw [h, lookup_latest_add, if_neg]
    rintro ⟨hlatest, hgraph⟩
    exact hpromotes ⟨q, by rw [hpromoted, if_pos hlatest], hgraph⟩
  · have hother : graphId ≠ c.graphId := fun hsame => hc (hsame ▸ hremoved)
    rw [h]
    exact Keyed.lookup_remove_of_ne _ hother
  · rw [h]

/-- The plan that comes with a change is held from then on. -/
theorem plan?_of_change (h : (r.change c).1 = .ok (some p)) :
    (r.change c).2.plan? p.graphId p.version = some p := by
  obtain ⟨q, isLatest, -, -, -, hchange⟩ | ⟨-, hchange⟩ | ⟨g, e, -, -, hchange⟩ := r.change_cases c
  · rw [hchange] at h ⊢
    obtain rfl := Option.some.inj (Except.ok.inj h)
    rw [(r.names_held q).1, (r.names_held q).2]
    exact plan?_add_self r q isLatest
  · rw [hchange] at h
    cases h
  · rw [hchange] at h
    cases h

/-- A change that makes a plan the latest comes with a plan of its version. -/
theorem exists_of_promotes (h : c.Promotes r.config graphId) :
    ∃ p, (r.change c).1 = .ok (some p) ∧ p.graphId = graphId ∧
      (r.change c).2.latest.lookup graphId = some p.version := by
  obtain ⟨p, hpromoted, hgraph⟩ := h
  obtain ⟨q, isLatest, -, -, hq, hchange⟩ | ⟨hremoved, -⟩ | ⟨g, e, hregister, hfails, -⟩ :=
    r.change_cases c
  · rw [hpromoted] at hq
    split at hq
    · next hlatest =>
      obtain rfl := Option.some.inj hq
      refine ⟨r.held p, by rw [hchange], (r.names_held p).1.trans hgraph, ?_⟩
      rw [hchange, lookup_latest_add, if_pos ⟨hlatest, hgraph⟩, (r.names_held p).2]
    · cases hq
  · rw [hremoved] at hpromoted
    cases hpromoted
  · rw [hregister, Change.promoted?, hfails] at hpromoted
    cases hpromoted

/-! ## Many changes -/

theorem changeAll_append (r : Registry) (changes later : List Change) :
    r.changeAll (changes ++ later) = (r.changeAll changes).changeAll later :=
  List.foldl_append

theorem after_append (config : EngineConfig) (earlier later : List Change) :
    after config (earlier ++ later) = (after config earlier).changeAll later :=
  changeAll_append _ earlier later

theorem after_append_cons (config : EngineConfig) (earlier : List Change) (c : Change)
    (later : List Change) : after config (earlier ++ c :: later) =
      ((after config earlier).change c).2.changeAll later :=
  after_append config earlier (c :: later)

theorem config_changeAll (r : Registry) (changes : List Change) :
    (r.changeAll changes).config = r.config := by
  induction changes generalizing r with
  | nil => rfl
  | cons c changes ih => exact (ih _).trans (config_change r c)

theorem config_after (config : EngineConfig) (changes : List Change) :
    (after config changes).config = config :=
  config_changeAll _ changes

theorem coherent_after (config : EngineConfig) (changes : List Change) :
    (after config changes).Coherent := by
  have hall {r : Registry} (hr : r.Coherent) : (r.changeAll changes).Coherent := by
    induction changes generalizing r with
    | nil => exact hr
    | cons c changes ih => exact ih (hr.change c)
  exact hall (coherent_empty config)

theorem plan?_changeAll (hchanges : .unregister graphId ∉ changes)
    (hp : r.plan? graphId version = some p) :
    (r.changeAll changes).plan? graphId version = some p := by
  induction changes generalizing r with
  | nil => exact hp
  | cons c changes ih =>
    obtain ⟨hc, hrest⟩ := not_or.mp (mt List.mem_cons.mpr hchanges)
    exact ih hrest (plan?_change (Ne.symm hc) hp)

theorem lookup_latest_changeAll
    (hchanges : ∀ c ∈ changes, c ≠ .unregister graphId ∧ ¬ c.Promotes r.config graphId) :
    (r.changeAll changes).latest.lookup graphId = r.latest.lookup graphId := by
  induction changes generalizing r with
  | nil => rfl
  | cons c changes ih =>
    obtain ⟨⟨hc, hpromotes⟩, hrest⟩ := List.forall_mem_cons.mp hchanges
    rw [← config_change r c] at hrest
    exact (ih hrest).trans (lookup_latest_change hc hpromotes)

theorem lookup_latest_changeAll_of_none (hchanges : ∀ c ∈ changes, ¬ c.Promotes r.config graphId)
    (hr : r.latest.lookup graphId = none) :
    (r.changeAll changes).latest.lookup graphId = none := by
  induction changes generalizing r with
  | nil => exact hr
  | cons c changes ih =>
    obtain ⟨hpromotes, hrest⟩ := List.forall_mem_cons.mp hchanges
    rw [← config_change r c] at hrest
    refine ih hrest ?_
    by_cases hc : c = .unregister graphId
    · rw [hc]
      exact Keyed.lookup_remove ..
    · rw [lookup_latest_change hc hpromotes, hr]

/-! ## Graphs apart -/

theorem graphId_of_promotes (h : c.Promotes config graphId) : c.graphId = graphId := by
  obtain ⟨p, hpromoted, rfl⟩ := h
  cases c with
  | register g =>
    cases hg : Plan.ofGraph config g with
    | ok q =>
      rw [Change.promoted?, hg] at hpromoted
      obtain rfl := Option.some.inj hpromoted
      exact (Plan.ofGraph_eq_ok hg).2.2.2.1.symm
    | error e =>
      rw [Change.promoted?, hg] at hpromoted
      cases hpromoted
  | add q isLatest =>
    cases isLatest with
    | true => exact congrArg (·.graphId) (Option.some.inj hpromoted)
    | false => cases hpromoted
  | unregister graphId => cases hpromoted

/-- What a registry keeps of a graph is the same in two registries. -/
structure SameFor (graphId : String) (r r' : Registry) : Prop where
  config : r.config = r'.config
  plansOf : r.plansOf graphId = r'.plansOf graphId
  latest : r.latest.lookup graphId = r'.latest.lookup graphId

namespace SameFor

theorem trans {r'' : Registry} (h : SameFor graphId r r') (h' : SameFor graphId r' r'') :
    SameFor graphId r r'' :=
  ⟨h.config.trans h'.config, h.plansOf.trans h'.plansOf, h.latest.trans h'.latest⟩

theorem plan? (h : SameFor graphId r r') (version : String) :
    r.plan? graphId version = r'.plan? graphId version := by
  rw [plan?_eq_find?, plan?_eq_find?, h.plansOf]

theorem plan (h : SameFor graphId r r') (version : Option String) :
    r.plan graphId version = r'.plan graphId version := by
  unfold Registry.plan
  rw [h.plansOf, h.latest]
  split
  · rw [h.plan?]
  · rfl

theorem versions (h : SameFor graphId r r') : r.versions graphId = r'.versions graphId := by
  rw [Registry.versions, Registry.versions, h.plansOf]

theorem has (h : SameFor graphId r r') : r.has graphId = r'.has graphId := by
  rw [Registry.has, Registry.has, h.latest]

theorem held (h : SameFor p.graphId r r') : r.held p = r'.held p := by
  rw [Registry.held, Registry.held, h.plan?]

theorem add (h : SameFor p.graphId r r') (isLatest : Bool) :
    SameFor p.graphId (r.add p isLatest) (r'.add p isLatest) := by
  refine ⟨h.config, ?_, ?_⟩
  · have hplansOf {r : Registry} : (r.add p isLatest).plansOf p.graphId =
        r.plansOf p.graphId ++ if (r.plan? p.graphId p.version).isSome then [] else [p] := by
      unfold Registry.plansOf Registry.add
      dsimp only
      split <;> simp
    rw [hplansOf, hplansOf, h.plansOf, h.plan?]
  · rw [lookup_latest_add, lookup_latest_add, h.latest]

theorem unregister (h : SameFor graphId r r') :
    SameFor graphId (r.unregister graphId) (r'.unregister graphId) := by
  refine ⟨h.config, ?_, ?_⟩
  · simp [Registry.plansOf, Registry.unregister, List.filter_filter]
  · exact (Keyed.lookup_remove ..).trans (Keyed.lookup_remove ..).symm

/-- A change for a graph comes to the same in both. -/
theorem change (h : SameFor c.graphId r r') :
    (r.change c).1 = (r'.change c).1 ∧ SameFor c.graphId (r.change c).2 (r'.change c).2 := by
  cases c with
  | register g =>
    cases hg : Plan.ofGraph r.config g with
    | ok p =>
      have hgraph : Change.graphId (.register g) = p.graphId :=
        (Plan.ofGraph_eq_ok hg).2.2.2.1.symm
      rw [hgraph] at h ⊢
      rw [change_register hg, change_register (h.config ▸ hg), h.held]
      exact ⟨rfl, h.add true⟩
    | error e =>
      rw [change_register_of_error hg, change_register_of_error (h.config ▸ hg)]
      exact ⟨rfl, h⟩
  | add p isLatest =>
    refine ⟨?_, h.add isLatest⟩
    rw [Registry.change, Registry.change, h.held]
  | unregister graphId => exact ⟨rfl, h.unregister⟩

end SameFor

/-- A change for another graph changes nothing for this one. -/
theorem sameFor_change (r : Registry) (hc : c.graphId ≠ graphId) :
    SameFor graphId (r.change c).2 r := by
  refine ⟨config_change r c, ?_, ?_⟩
  · obtain ⟨p, isLatest, -, hgraph, -, h⟩ | ⟨-, h⟩ | ⟨g, e, -, -, h⟩ := r.change_cases c
    · rw [h]
      exact plansOf_add_of_ne r isLatest (hgraph ▸ hc)
    · rw [h]
      exact plansOf_unregister_of_ne r hc
    · rw [h]
  · refine lookup_latest_change (fun hremoves => hc (by rw [hremoves]; rfl)) fun hpromotes => ?_
    exact hc (graphId_of_promotes hpromotes)

/-- What is kept of a graph comes of the changes for it. -/
theorem sameFor_after (config : EngineConfig) (changes : List Change) (graphId : String) :
    SameFor graphId (after config changes)
      (after config (changes.filter (·.graphId == graphId))) := by
  have hall {r r' : Registry} (h : SameFor graphId r r') : SameFor graphId (r.changeAll changes)
      (r'.changeAll (changes.filter (·.graphId == graphId))) := by
    induction changes generalizing r r' with
    | nil => exact h
    | cons c changes ih =>
      by_cases hc : c.graphId = graphId
      · subst hc
        rw [List.filter_cons_of_pos (by simp)]
        exact ih h.change.2
      · rw [List.filter_cons_of_neg (by simpa using hc)]
        exact ih ((sameFor_change r hc).trans h)
  exact hall ⟨rfl, rfl, rfl⟩

/-! ## The plans that were given -/

theorem isCompiled_change (hr : ∀ p ∈ r.plans, IsCompiled texts p)
    (hc : ∀ p, c.brought? r.config = some p → IsCompiled texts p) :
    ∀ p ∈ (r.change c).2.plans, IsCompiled texts p := by
  intro q hq
  obtain ⟨p, isLatest, hbrought, -, -, h⟩ | ⟨-, h⟩ | ⟨g, e, -, -, h⟩ := r.change_cases c
  · rw [h] at hq
    rcases mem_plans_of_add hq with hq | rfl
    · exact hr q hq
    · exact hc _ hbrought
  · rw [h] at hq
    exact hr q (List.mem_of_mem_filter hq)
  · rw [h] at hq
    exact hr q hq

theorem isCompiled_after (hchanges : ∀ c ∈ changes, ∀ p, c.brought? config = some p →
    IsCompiled texts p) : ∀ p ∈ (after config changes).plans, IsCompiled texts p := by
  have hall {r : Registry} (hconfig : r.config = config)
      (hr : ∀ p ∈ r.plans, IsCompiled texts p) :
      ∀ p ∈ (r.changeAll changes).plans, IsCompiled texts p := by
    induction changes generalizing r with
    | nil => exact hr
    | cons c changes ih =>
      obtain ⟨hc, hrest⟩ := List.forall_mem_cons.mp hchanges
      exact ih hrest ((config_change r c).trans hconfig)
        (isCompiled_change hr (hconfig ▸ hc))
  exact hall rfl fun p hp => absurd hp List.not_mem_nil

/-- Unless digests collide, the plan that is held is the one that was given. -/
theorem agrees_held (htexts : Digest.Separates texts)
    (hr : ∀ p ∈ r.plans, IsCompiled texts p) (hp : IsCompiled texts p) : (r.held p).Agrees p := by
  have hheld : IsCompiled texts (r.held p) := by
    rcases mem_plans_of_add (of_plan?_eq_some (plan?_add_self r p true)).1 with hmem | hsame
    · exact hr _ hmem
    · rwa [hsame]
  exact hheld.agrees htexts hp (names_held r p).2

/-! ## What a history determines -/

theorem filter_latestPlans (hr : (r.latest.map (·.1)).Nodup) (graphId : String) :
    r.latestPlans.filter (·.graphId == graphId) = (r.latestPlan graphId).toOption.toList := by
  rw [toOption_latestPlan, latestPlans]
  generalize r.latest = entries at hr
  induction entries with
  | nil => rfl
  | cons entry entries ih =>
    obtain ⟨other, version⟩ := entry
    obtain ⟨hnew, hrest⟩ := List.nodup_cons.mp hr
    by_cases hgraph : graphId = other
    · subst hgraph
      have hnone : entries.lookup graphId = none := Keyed.lookup_eq_none_iff.mpr hnew
      rw [List.lookup_cons_self, Option.bind_some]
      rw [hnone, Option.bind_none, Option.toList_none] at ih
      cases hp : r.plan? graphId version with
      | none => simpa [List.filterMap_cons, hp] using ih hrest
      | some p =>
        simp only [List.filterMap_cons, hp]
        rw [List.filter_cons_of_pos (by simpa using (of_plan?_eq_some hp).2.1), ih hrest]
        rfl
    · have hlookup : ((other, version) :: entries).lookup graphId = entries.lookup graphId := by
        rw [List.lookup_cons, beq_false_of_ne hgraph]
      rw [hlookup, ← ih hrest]
      cases hp : r.plan? other version with
      | none => simp only [List.filterMap_cons, hp]
      | some p =>
        simp only [List.filterMap_cons, hp]
        exact List.filter_cons_of_neg (by
          simpa [(of_plan?_eq_some hp).2.1] using Ne.symm hgraph)

theorem map_some_latestPlans
    (hr : ∀ entry ∈ r.latest, (r.plan? entry.1 entry.2).isSome = true) :
    r.latestPlans.map some = r.latest.map fun entry => r.plan? entry.1 entry.2 := by
  rw [latestPlans]
  generalize r.latest = entries at hr
  induction entries with
  | nil => rfl
  | cons entry entries ih =>
    obtain ⟨hentry, hrest⟩ := List.forall_mem_cons.mp hr
    obtain ⟨p, hp⟩ := Option.isSome_iff_exists.mp hentry
    simp only [List.filterMap_cons, List.map_cons, hp, ih hrest]

/-- What a registry shows of the changes that it has come through. -/
structure Reflects (config : EngineConfig) (changes : List Change) (r : Registry) : Prop where
  /-- The versions that are kept as the latest are those of plans that are held. -/
  pointers : ∀ entry ∈ r.latest, ∃ p ∈ r.plans, p.graphId = entry.1 ∧ p.version = entry.2
  /-- None of them is missing from the list of the latest plans. -/
  complete : r.latestPlans.map some = r.latest.map fun entry => r.plan? entry.1 entry.2
  /-- A graph stands in that list once if it has a latest plan, and otherwise not at all. -/
  once : ∀ graphId, r.latestPlans.filter (·.graphId == graphId) =
    (r.latestPlan graphId).toOption.toList
  /-- The plan that came with a change is the one of its version until its graph is removed. -/
  came : ∀ earlier c later p, changes = earlier ++ c :: later →
    ((after config earlier).change c).1 = .ok (some p) → .unregister p.graphId ∉ later →
    r.plan p.graphId (some p.version) = .ok p
  /-- A plan of some version stays the same until its graph is removed. -/
  stays : ∀ earlier later graphId version p, changes = earlier ++ later →
    (after config earlier).plan graphId (some version) = .ok p → .unregister graphId ∉ later →
    r.plan graphId (some version) = .ok p
  /-- The latest plan of a graph is the one that came with the last change to make it so. -/
  latest : ∀ earlier c later graphId, changes = earlier ++ c :: later →
    c.Promotes config graphId →
    (∀ d ∈ later, d ≠ .unregister graphId ∧ ¬ d.Promotes config graphId) →
    ∃ p, ((after config earlier).change c).1 = .ok (some p) ∧ r.latestPlan graphId = .ok p
  /-- A graph has no latest plan if none was made so since the beginning or since its removal. -/
  lacking : ∀ earlier later graphId, changes = earlier ++ later →
    earlier = [] ∨ earlier.getLast? = some (.unregister graphId) →
    (∀ d ∈ later, ¬ d.Promotes config graphId) →
    r.latestPlan graphId = .error (.graphNotFound graphId)
  /-- What is shown of a graph, and what changes for it come to, would be the same if the changes
  for other graphs had not been made. -/
  apart : ∀ graphId r', r' = after config (changes.filter (·.graphId == graphId)) →
    (∀ version, r.plan graphId version = r'.plan graphId version) ∧
    r.versions graphId = r'.versions graphId ∧ r.has graphId = r'.has graphId ∧
    ∀ c : Change, c.graphId = graphId → (r.change c).1 = (r'.change c).1
  /-- Only a registration fails, as the compilation of its graph does, and it changes nothing. -/
  failed : ∀ c e, (r.change c).1 = .error e →
    (r.change c).2 = r ∧ ∃ g, c = .register g ∧ Plan.ofGraph config g = .error e
  /-- The plan that comes with a change has the version of the plan that was given. If the plans
  were compiled, it is that plan unless digests collide. -/
  given : ∀ c p, c.brought? config = some p → ∃ q, (r.change c).1 = .ok (some q) ∧
    q.graphId = p.graphId ∧ q.version = p.version ∧
    ∀ texts, Digest.Separates texts → IsCompiled texts p →
      (∀ d ∈ changes, ∀ p, d.brought? config = some p → IsCompiled texts p) → q.Agrees p

/-- A registry shows all that its history determines, and nothing else. -/
theorem reflects_after (config : EngineConfig) (changes : List Change) :
    Reflects config changes (after config changes) := by
  have hcoherent := coherent_after config changes
  have hisSome : ∀ entry ∈ (after config changes).latest,
      ((after config changes).plan? entry.1 entry.2).isSome = true := fun entry hentry =>
    hcoherent.held entry.1 entry.2 (Keyed.lookup_of_mem hcoherent.nodup hentry)
  refine ⟨fun entry hentry => isSome_plan?_iff.mp (hisSome entry hentry),
    map_some_latestPlans hisSome, filter_latestPlans hcoherent.nodup, ?came, ?stays, ?latest,
    ?lacking, ?apart, ?failed, ?given⟩
  case came =>
    rintro earlier c later p rfl hcame hlater
    rw [after_append_cons]
    exact plan_of_plan? (plan?_changeAll hlater (plan?_of_change hcame))
  case stays =>
    rintro earlier later graphId version p rfl hplan hlater
    rw [after_append]
    exact plan_of_plan? (plan?_changeAll hlater (plan?_of_plan hplan))
  case latest =>
    rintro earlier c later graphId rfl hpromotes hlater
    have hconfig := config_after config earlier
    obtain ⟨p, hcame, rfl, hlookup⟩ := exists_of_promotes (hconfig.symm ▸ hpromotes)
    refine ⟨p, hcame, ?_⟩
    have hheld := plan?_changeAll (fun h => (hlater _ h).1 rfl) (plan?_of_change hcame)
    rw [after_append_cons]
    refine latestPlan_of_lookup ((lookup_latest_changeAll ?_).trans hlookup) hheld
    rwa [config_change, hconfig]
  case lacking =>
    rintro earlier later graphId rfl hearlier hlater
    have hlookup : (after config earlier).latest.lookup graphId = none := by
      rcases hearlier with rfl | hremoved
      · rfl
      · obtain ⟨before, rfl⟩ := List.getLast?_eq_some_iff.mp hremoved
        rw [after_append_cons]
        exact Keyed.lookup_remove ..
    rw [after_append]
    refine latestPlan_of_lookup_eq_none (lookup_latest_changeAll_of_none ?_ hlookup)
    rwa [config_after]
  case apart =>
    rintro graphId r' rfl
    have hsame := sameFor_after config changes graphId
    exact ⟨hsame.plan, hsame.versions, hsame.has, fun c hc => (SameFor.change (hc ▸ hsame)).1⟩
  case failed =>
    intro c e he
    obtain ⟨p, isLatest, -, -, -, h⟩ | ⟨-, h⟩ | ⟨g, e', hregister, hfails, h⟩ := change_cases _ c
    · rw [h] at he
      cases he
    · rw [h] at he
      cases he
    · rw [h] at he
      obtain rfl := Except.error.inj he
      rw [config_after] at hfails
      exact ⟨by rw [h], g, hregister, hfails⟩
  case given =>
    intro c p hp
    obtain ⟨q, isLatest, hbrought, -, -, h⟩ | ⟨hremoved, -⟩ | ⟨g, e, hregister, hfails, -⟩ :=
      change_cases (after config changes) c
    · rw [config_after, hp] at hbrought
      obtain rfl := Option.some.inj hbrought
      refine ⟨_, by rw [h], (names_held _ p).1, (names_held _ p).2, ?_⟩
      exact fun texts htexts hcompiled hchanges =>
        agrees_held htexts (isCompiled_after hchanges) hcompiled
    · rw [hremoved] at hp
      cases hp
    · rw [hregister, Change.brought?, ← config_after config changes, hfails] at hp
      cases hp

end WorkflowEngine.Registry

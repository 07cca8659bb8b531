import WorkflowEngine.Proofs.System.Premises

/-!
# Latest plans

In a registry that has come about by registrations and removals, each graph has at most one latest
plan, and the registry holds it. A graph stays there until it is removed.
-/
namespace WorkflowEngine

theorem Keyed.nodup_put {κ α : Type} [BEq κ] [LawfulBEq κ] (key : κ) (value : α)
    {entries : List (κ × α)} (h : (entries.map (·.1)).Nodup) :
    ((put key value entries).map (·.1)).Nodup := by
  have hmem {other : κ} {entries : List (κ × α)}
      (hother : other ∈ (put key value entries).map (·.1)) :
      other = key ∨ other ∈ entries.map (·.1) := by
    induction entries with
    | nil => exact .inl (by simpa [put] using hother)
    | cons entry rest ih =>
      by_cases hkey : key = entry.1
      · simpa [put, hkey] using hother
      · rcases (by simpa [put, hkey] using hother :
          other = entry.1 ∨ other ∈ (put key value rest).map (·.1)) with rfl | hrest
        · exact .inr (by simp)
        · exact (ih hrest).imp_right (List.mem_cons_of_mem _)
  induction entries with
  | nil => simp [put]
  | cons entry rest ih =>
    obtain ⟨hnew, hrest⟩ := List.nodup_cons.mp h
    by_cases hkey : key = entry.1
    · simpa [put, hkey] using h
    · have hput : (put key value (entry :: rest)).map (·.1) =
          entry.1 :: (put key value rest).map (·.1) := by simp [put, hkey]
      rw [hput]
      refine List.nodup_cons.mpr ⟨fun hagain => ?_, ih hrest⟩
      exact (hmem hagain).elim (fun hsame => hkey hsame.symm) hnew

namespace Registry

variable {r r' : Registry} {p : Plan} {graphId version : String}

theorem of_plan?_eq_some (h : r.plan? graphId version = some p) :
    p ∈ r.plans ∧ p.graphId = graphId ∧ p.version = version := by
  have hnames := List.find?_some h
  simp only [Bool.and_eq_true, beq_iff_eq] at hnames
  exact ⟨List.mem_of_find?_eq_some h, hnames⟩

theorem isSome_plan?_iff : (r.plan? graphId version).isSome = true ↔
    ∃ p ∈ r.plans, p.graphId = graphId ∧ p.version = version := by
  simp [plan?, List.find?_isSome]

/-- Each graph has at most one latest plan, which is held. -/
structure Coherent (r : Registry) : Prop where
  nodup : (r.latest.map (·.1)).Nodup
  held : ∀ graphId version, r.latest.lookup graphId = some version →
    (r.plan? graphId version).isSome = true

theorem coherent_empty (config : EngineConfig) : (empty config).Coherent :=
  ⟨List.nodup_nil, fun _ _ h => by cases h⟩

theorem mem_plans_add {q : Plan} (isLatest : Bool) (h : q ∈ r.plans) :
    q ∈ (r.add p isLatest).plans := by
  unfold add
  dsimp only
  split
  · exact h
  · exact List.mem_append_left _ h

theorem isSome_plan?_add_self (r : Registry) (p : Plan) (isLatest : Bool) :
    ((r.add p isLatest).plan? p.graphId p.version).isSome = true := by
  rw [isSome_plan?_iff]
  by_cases hheld : (r.plan? p.graphId p.version).isSome = true
  · obtain ⟨q, hq, hnames⟩ := isSome_plan?_iff.mp hheld
    exact ⟨q, mem_plans_add isLatest hq, hnames⟩
  · refine ⟨p, ?_, rfl, rfl⟩
    unfold add
    rw [if_neg hheld]
    exact List.mem_append_right _ (List.mem_singleton_self p)

theorem Coherent.add (h : r.Coherent) (p : Plan) (isLatest : Bool) :
    (r.add p isLatest).Coherent := by
  have hheld {graphId version : String} (hlookup : r.latest.lookup graphId = some version) :
      ((r.add p isLatest).plan? graphId version).isSome = true := by
    obtain ⟨q, hq, hnames⟩ := isSome_plan?_iff.mp (h.held graphId version hlookup)
    exact isSome_plan?_iff.mpr ⟨q, mem_plans_add isLatest hq, hnames⟩
  cases isLatest with
  | false => exact ⟨h.nodup, fun _ _ hlookup => hheld hlookup⟩
  | true =>
    refine ⟨Keyed.nodup_put _ _ h.nodup, fun graphId version hlookup => ?_⟩
    change (Keyed.put p.graphId p.version r.latest).lookup graphId = _ at hlookup
    by_cases hgraph : graphId = p.graphId
    · rw [hgraph, Keyed.lookup_put] at hlookup
      rw [hgraph, ← Option.some.inj hlookup]
      exact isSome_plan?_add_self r p true
    · rw [Keyed.lookup_put_of_ne _ _ hgraph] at hlookup
      exact hheld hlookup

theorem Coherent.register (h : r.Coherent) {g : Graph} (hregister : r.register g = .ok (p, r')) :
    r'.Coherent := by
  obtain ⟨compiled, -, hadd⟩ := of_bind_eq_ok hregister
  obtain ⟨-, rfl⟩ := Prod.mk.inj (Except.ok.inj hadd)
  exact h.add compiled true

theorem Coherent.unregister (h : r.Coherent) (graphId : String) :
    (r.unregister graphId).Coherent := by
  refine ⟨h.nodup.sublist (List.filter_sublist.map _), fun other version hlookup => ?_⟩
  have hne : other ≠ graphId := by
    rintro rfl
    simp [Registry.unregister] at hlookup
  rw [Registry.unregister, Keyed.lookup_remove_of_ne _ hne] at hlookup
  obtain ⟨p, hp, hgraph, hversion⟩ := isSome_plan?_iff.mp (h.held other version hlookup)
  refine isSome_plan?_iff.mpr ⟨p, List.mem_filter.mpr ⟨hp, ?_⟩, hgraph, hversion⟩
  simpa [hgraph] using hne

theorem of_latestPlan (h : r.latestPlan graphId = .ok p) :
    ∃ version, r.latest.lookup graphId = some version ∧ r.plan? graphId version = some p := by
  unfold latestPlan plan at h
  split at h
  · rename_i version _ hversion
    split at h
    · rename_i hfound
      rw [Option.none_or] at hversion
      exact ⟨version, hversion, Except.ok.inj h ▸ hfound⟩
    · cases h
  · cases h

/-- A graph has a latest plan, or is not registered. -/
theorem Coherent.latestPlan_cases (h : r.Coherent) (graphId : String) :
    (∃ p, r.latestPlan graphId = .ok p) ∨
      r.latestPlan graphId = .error (.graphNotFound graphId) ∧ r.has graphId = false := by
  cases hlatest : r.latest.lookup graphId with
  | none =>
    refine .inr ⟨?_, by simp [has, hlatest]⟩
    unfold latestPlan plan
    rw [hlatest]
    split
    · rename_i heq
      cases heq
    · rfl
  | some version =>
    obtain ⟨p, hp⟩ := Option.isSome_iff_exists.mp (h.held graphId version hlatest)
    have hmem : p ∈ r.plansOf graphId := by
      obtain ⟨hmem, hgraph, -⟩ := of_plan?_eq_some hp
      exact List.mem_filter.mpr ⟨hmem, by simp [hgraph]⟩
    obtain ⟨q, rest, hplans⟩ := List.exists_cons_of_ne_nil (List.ne_nil_of_mem hmem)
    refine .inl ⟨p, ?_⟩
    simp only [latestPlan, plan, hplans, hlatest, Option.none_or, hp]

/-- The graphs that have a latest plan are those under whose names it is kept. -/
theorem map_graphId_latestPlans (r : Registry) :
    (r.latestPlans.map (·.graphId)).Sublist (r.latest.map (·.1)) := by
  unfold latestPlans
  induction r.latest with
  | nil => exact .slnil
  | cons entry rest ih =>
    obtain ⟨graphId, version⟩ := entry
    cases hp : r.plan? graphId version with
    | none => simpa [hp] using ih.cons graphId
    | some p =>
      simpa [hp, (of_plan?_eq_some hp).2.1] using ih

theorem has_of_mem {graphId : String} (h : graphId ∈ r.latest.map (·.1)) :
    r.has graphId = true := by
  obtain ⟨entry, hentry, rfl⟩ := List.mem_map.mp h
  rw [has, Option.isSome_iff_ne_none]
  intro hnone
  simpa using List.lookup_eq_none_iff.mp hnone entry hentry

/-- A registration removes no graph. -/
theorem has_of_register {g : Graph} (hregister : r.register g = .ok (p, r'))
    (h : r.has graphId = true) : r'.has graphId = true := by
  obtain ⟨compiled, -, hadd⟩ := of_bind_eq_ok hregister
  obtain ⟨-, rfl⟩ := Prod.mk.inj (Except.ok.inj hadd)
  change ((Keyed.put compiled.graphId compiled.version r.latest).lookup graphId).isSome = true
  by_cases hgraph : graphId = compiled.graphId
  · rw [hgraph, Keyed.lookup_put]
    rfl
  · rw [Keyed.lookup_put_of_ne _ _ hgraph]
    exact h

end Registry

namespace System

variable {config : EngineConfig} {s s' : System}

theorem Reachable.coherent (hs : Reachable config s) : s.engine.registry.Coherent := by
  induction hs with
  | fresh he =>
    simp only [System.fresh, he.registry]
    exact Registry.coherent_empty config
  | @step s s' hs hstep ih =>
    cases hstep with
    | serve _ hanswer => exact (Engine.frame_of_answers hanswer).2 ▸ ih
    | register hregister => exact ih.register hregister
    | unregister graphId => exact ih.unregister graphId
    | start | resume | crash | tick => exact ih

/-- A graph stays registered until it is removed. -/
theorem Step.has_or_unregistered (hstep : Step s s') {m : Moment}
    (hhistory : s'.history = s.history ++ [m]) {graphId : String}
    (h : s.engine.registry.has graphId = true) :
    s'.engine.registry.has graphId = true ∨ m.incident = .unregistered graphId := by
  cases hstep with
  | serve _ hanswer => exact .inl ((Engine.frame_of_answers hanswer).2 ▸ h)
  | register hregister => exact .inl (Registry.has_of_register hregister h)
  | unregister other =>
    obtain rfl := List.singleton_inj.mp (List.append_inj' hhistory rfl).2
    by_cases hsame : graphId = other
    · exact .inr (by rw [hsame])
    · refine .inl ?_
      change ((Keyed.remove other s.engine.registry.latest).lookup graphId).isSome = true
      rw [Keyed.lookup_remove_of_ne _ hsame]
      exact h
  | start | resume | crash | tick => exact .inl h

end System
end WorkflowEngine

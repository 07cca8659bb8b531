import Mathlib.Data.List.Perm.Basic
import Mathlib.Tactic.SplitIfs
import WorkflowEngine.GraphStore
import WorkflowEngine.Proofs.Plan.Content

/-!
# The store of graphs and the registry

Graphs are saved as they are registered and deleted as they are removed, and so each plan of the
registry has its row in the store. A registry that is filled from the store therefore has the same
plans, and the same one of each graph is the latest.
-/
namespace WorkflowEngine

open Plan (contentText)

/-- A registry and a store that came about together: authored graphs were registered and saved, and
graphs were removed from both. The texts are those that the versions of plans were made from. -/
inductive Persisted (texts : String → Prop) (config : EngineConfig) :
    Registry → GraphStore → Prop
  | empty : Persisted texts config (.empty config) .empty
  | save {r : Registry} {s : GraphStore} (h : Persisted texts config r s) {data : Value}
      (hdata : data.isKeyed = true) {g : Graph} (hg : Graph.ofValue data = .ok g)
      (htext : texts (contentText config g)) {p : Plan} {r' : Registry}
      (hregister : r.register g = .ok (p, r')) : Persisted texts config r' (s.save g p).2
  | delete {r : Registry} {s : GraphStore} (h : Persisted texts config r s) (graphId : String) :
      Persisted texts config (r.unregister graphId) (s.delete graphId).2

namespace Persisted

/-- A row from which a plan can be made again. -/
structure IsRowOf (texts : String → Prop) (config : EngineConfig) (row : SavedGraph) (p : Plan) :
    Prop where
  graphId : row.graphId = p.graphId
  planVersion : row.planVersion = p.version
  compiled : ∃ g, Graph.ofValue row.definition = .ok g ∧ Plan.ofGraph config g = .ok p
  isCompiled : Registry.IsCompiled texts p

/-- What a registry and its store have in common. -/
structure InStep (texts : String → Prop) (config : EngineConfig) (r : Registry) (s : GraphStore) :
    Prop where
  config_eq : r.config = config
  rows : List.Forall₂ (IsRowOf texts config) s.rows r.plans
  versions : (r.plans.map (·.version)).Nodup
  latest : ∀ row ∈ s.rows,
    (row.isLatest = true ↔ r.latest.lookup row.graphId = some row.planVersion)
  held : ∀ graphId version, r.latest.lookup graphId = some version →
    ∃ p ∈ r.plans, p.graphId = graphId ∧ p.version = version

variable {texts : String → Prop} {config : EngineConfig} {r : Registry} {s : GraphStore}

theorem IsRowOf.of_eq {row row' : SavedGraph} {p : Plan} (h : IsRowOf texts config row p)
    (hgraph : row'.graphId = row.graphId) (hversion : row'.planVersion = row.planVersion)
    (hdefinition : row'.definition = row.definition) : IsRowOf texts config row' p :=
  ⟨hgraph.trans h.graphId, hversion.trans h.planVersion, hdefinition ▸ h.compiled, h.isCompiled⟩

/-- A row after another version has been saved. -/
def marked (graphId planVersion : String) (row : SavedGraph) : SavedGraph :=
  GraphStore.promote planVersion (GraphStore.demote graphId planVersion row)

section Marked

variable (graphId planVersion : String) (row : SavedGraph)

theorem marked_graphId : (marked graphId planVersion row).graphId = row.graphId := by
  unfold marked GraphStore.promote GraphStore.demote
  split_ifs <;> rfl

theorem marked_planVersion : (marked graphId planVersion row).planVersion = row.planVersion := by
  unfold marked GraphStore.promote GraphStore.demote
  split_ifs <;> rfl

theorem marked_definition : (marked graphId planVersion row).definition = row.definition := by
  unfold marked GraphStore.promote GraphStore.demote
  split_ifs <;> rfl

theorem marked_isLatest : (marked graphId planVersion row).isLatest =
    (row.planVersion = planVersion || row.graphId ≠ graphId && row.isLatest) := by
  unfold marked GraphStore.promote GraphStore.demote
  split_ifs <;> simp_all

end Marked

theorem exists_row_of_mem {rows : List SavedGraph} {plans : List Plan}
    (h : List.Forall₂ (IsRowOf texts config) rows plans) {p : Plan} (hp : p ∈ plans) :
    ∃ row ∈ rows, IsRowOf texts config row p := by
  induction h with
  | nil => cases hp
  | cons hrow _ ih =>
    rcases List.mem_cons.mp hp with rfl | hp
    · exact ⟨_, List.mem_cons_self, hrow⟩
    · obtain ⟨row, hmem, hrow⟩ := ih hp
      exact ⟨row, List.mem_cons_of_mem _ hmem, hrow⟩

theorem exists_plan_of_mem {rows : List SavedGraph} {plans : List Plan}
    (h : List.Forall₂ (IsRowOf texts config) rows plans) {row : SavedGraph} (hrow : row ∈ rows) :
    ∃ p ∈ plans, IsRowOf texts config row p := by
  induction h with
  | nil => cases hrow
  | cons hp _ ih =>
    rcases List.mem_cons.mp hrow with rfl | hrow
    · exact ⟨_, List.mem_cons_self, hp⟩
    · obtain ⟨p, hmem, hp⟩ := ih hrow
      exact ⟨p, List.mem_cons_of_mem _ hmem, hp⟩

theorem map_planVersion {rows : List SavedGraph} {plans : List Plan}
    (h : List.Forall₂ (IsRowOf texts config) rows plans) :
    rows.map (·.planVersion) = plans.map (·.version) := by
  induction h with
  | nil => rfl
  | cons hrow _ ih => rw [List.map_cons, List.map_cons, hrow.planVersion, ih]

theorem forall₂_filter {rows : List SavedGraph} {plans : List Plan}
    (h : List.Forall₂ (IsRowOf texts config) rows plans) (graphId : String) :
    List.Forall₂ (IsRowOf texts config) (rows.filter fun row => !(row.graphId == graphId))
      (plans.filter fun p => !(p.graphId == graphId)) := by
  induction h with
  | nil => exact .nil
  | cons hrow _ ih =>
    rw [List.filter_cons, List.filter_cons, hrow.graphId]
    split
    · exact .cons hrow ih
    · exact ih

theorem inStep_empty : InStep texts config (.empty config) .empty where
  config_eq := rfl
  rows := .nil
  versions := List.nodup_nil
  latest := fun _ h => absurd h List.not_mem_nil
  held := by simp [Registry.empty]

theorem InStep.delete (h : InStep texts config r s) (graphId : String) :
    InStep texts config (r.unregister graphId) (s.delete graphId).2 where
  config_eq := h.config_eq
  rows := forall₂_filter h.rows graphId
  versions := h.versions.sublist (List.filter_sublist.map _)
  latest := by
    intro row hrow
    obtain ⟨hmem, hne⟩ := List.mem_filter.mp hrow
    have hne : row.graphId ≠ graphId := by simpa using hne
    rw [h.latest row hmem, Registry.unregister, Keyed.lookup_remove_of_ne _ hne]
  held := by
    intro other version hlookup
    have hne : other ≠ graphId := by
      rintro rfl
      simp [Registry.unregister] at hlookup
    rw [Registry.unregister, Keyed.lookup_remove_of_ne _ hne] at hlookup
    obtain ⟨p, hp, rfl, rfl⟩ := h.held other version hlookup
    exact ⟨p, List.mem_filter.mpr ⟨hp, by simpa using hne⟩, rfl, rfl⟩

theorem rows_save (g : Graph) (p : Plan) :
    (s.save g p).2.rows = s.rows.map (marked g.id p.version) ++
      if p.version ∈ s.rows.map (·.planVersion) then [] else [.ofGraph g p] := by
  have hversions : (s.rows.map (marked g.id p.version)).map (·.planVersion) =
      s.rows.map (·.planVersion) := by
    rw [List.map_map]
    exact List.map_congr_left fun row _ => marked_planVersion g.id p.version row
  rw [← hversions]
  have hmarked : (s.rows.map fun row => GraphStore.promote p.version
      (GraphStore.demote g.id p.version row)) = s.rows.map (marked g.id p.version) := rfl
  unfold GraphStore.save
  rw [hmarked]
  dsimp only
  split
  · next row hfound =>
    have hmem : p.version ∈ (s.rows.map (marked g.id p.version)).map (·.planVersion) :=
      List.mem_map.mpr ⟨row, List.mem_of_find?_eq_some hfound, by
        simpa using List.find?_some hfound⟩
    rw [if_pos hmem, List.append_nil]
  · next hnone =>
    have hmem : p.version ∉ (s.rows.map (marked g.id p.version)).map (·.planVersion) := by
      rw [List.find?_eq_none] at hnone
      simpa using hnone
    rw [if_neg hmem]

theorem forall₂_marked {rows : List SavedGraph} {plans : List Plan}
    (h : List.Forall₂ (IsRowOf texts config) rows plans) (graphId planVersion : String) :
    List.Forall₂ (IsRowOf texts config) (rows.map (marked graphId planVersion)) plans := by
  rw [List.forall₂_map_left_iff]
  exact h.imp fun row p hrow => hrow.of_eq (marked_graphId ..) (marked_planVersion ..)
    (marked_definition ..)

/-- The marks of the rows follow the latest versions. -/
theorem isLatest_marked_iff {graphId planVersion : String} {row : SavedGraph}
    {latest : List (String × String)} (hown : row.planVersion = planVersion → row.graphId = graphId)
    (h : row.isLatest = true ↔ latest.lookup row.graphId = some row.planVersion) :
    (marked graphId planVersion row).isLatest = true ↔
      (Keyed.put graphId planVersion latest).lookup row.graphId = some row.planVersion := by
  rw [marked_isLatest]
  by_cases hgraph : row.graphId = graphId
  · simp [hgraph, eq_comm]
  · have hne : row.planVersion ≠ planVersion := fun he => hgraph (hown he)
    rw [Keyed.lookup_put_of_ne _ _ hgraph, ← h]
    simp [hgraph, hne]

/-- A version that only plans of its own graph have is held if any plan has it. -/
theorem plan?_eq_none_iff {p : Plan}
    (hown : ∀ q ∈ r.plans, q.version = p.version → q.graphId = p.graphId) :
    r.plan? p.graphId p.version = none ↔ p.version ∉ r.plans.map (·.version) := by
  rw [Registry.plan?, List.find?_eq_none]
  constructor
  · intro hnone hmem
    obtain ⟨q, hq, hversion⟩ := List.mem_map.mp hmem
    exact hnone q hq (by simp [hown q hq hversion, hversion])
  · intro hnew q hq hfound
    have hfound : q.graphId = p.graphId ∧ q.version = p.version := by simpa using hfound
    exact hnew (List.mem_map.mpr ⟨q, hq, hfound.2⟩)

/-- The rows and the plans after a plan has been added under its version. -/
theorem forall₂_save (h : List.Forall₂ (IsRowOf texts config) s.rows r.plans) {g : Graph}
    {p : Plan} (hown : ∀ q ∈ r.plans, q.version = p.version → q.graphId = p.graphId)
    (hnew : IsRowOf texts config (.ofGraph g p) p) (isLatest : Bool) :
    List.Forall₂ (IsRowOf texts config) (s.save g (r.held p)).2.rows (r.add p isLatest).plans ∧
      (r.held p).version = p.version := by
  rw [rows_save, map_planVersion h, Registry.held, Registry.add]
  dsimp only
  cases hheld : r.plan? p.graphId p.version with
  | some q =>
    have hversion : q.version = p.version := by
      have := List.find?_some hheld
      simp_all
    have hmem : p.version ∈ r.plans.map (·.version) := by
      by_contra hnot
      rw [(plan?_eq_none_iff hown).mpr hnot] at hheld
      cases hheld
    rw [Option.getD_some, hversion, if_pos hmem, List.append_nil, if_pos (by rfl)]
    exact ⟨forall₂_marked h _ _, rfl⟩
  | none =>
    rw [Option.getD_none, if_neg ((plan?_eq_none_iff hown).mp hheld), if_neg (by simp)]
    exact ⟨List.rel_append (forall₂_marked h _ _) (.cons hnew .nil), rfl⟩

theorem nodup_add (h : (r.plans.map (·.version)).Nodup) {p : Plan}
    (hown : ∀ q ∈ r.plans, q.version = p.version → q.graphId = p.graphId) (isLatest : Bool) :
    ((r.add p isLatest).plans.map (·.version)).Nodup := by
  rw [Registry.add]
  dsimp only
  split
  · exact h
  · next hnew =>
    have hnew := (plan?_eq_none_iff hown).mp (by simpa using hnew)
    rw [List.map_append, List.nodup_append_comm]
    exact List.nodup_cons.mpr ⟨hnew, h⟩

theorem mem_plans_add {p q : Plan} (h : q ∈ r.plans) (isLatest : Bool) :
    q ∈ (r.add p isLatest).plans := by
  unfold Registry.add
  dsimp only
  split
  · exact h
  · exact List.mem_append_left _ h

theorem InStep.save (h : InStep texts config r s) (htexts : Digest.Separates texts) {g : Graph}
    (hkeyed : g.toValue.isKeyed = true) (hg : Graph.ofValue g.toValue = .ok g)
    (htext : texts (contentText config g)) {p : Plan} {r' : Registry}
    (hregister : r.register g = .ok (p, r')) : InStep texts config r' (s.save g p).2 := by
  obtain ⟨made, hmade, hregister⟩ := of_bind_eq_ok hregister
  obtain ⟨rfl, rfl⟩ := Prod.mk.inj (Except.ok.inj hregister)
  rw [h.config_eq] at hmade
  obtain ⟨-, -, -, hid, -⟩ := Plan.ofGraph_eq_ok hmade
  have hcompiled : Registry.IsCompiled texts made := ⟨config, g, hkeyed, hmade, htext⟩
  have hown : ∀ q ∈ r.plans, q.version = made.version → q.graphId = made.graphId := by
    intro q hq hversion
    obtain ⟨row, -, hrow⟩ := exists_row_of_mem h.rows hq
    exact (hrow.isCompiled.agrees htexts hcompiled hversion).graphId
  obtain ⟨hrows, hversion⟩ :=
    forall₂_save h.rows hown ⟨hid.symm, rfl, ⟨g, hg, hmade⟩, hcompiled⟩ true
  refine ⟨h.config_eq, hrows, nodup_add h.versions hown true, fun row hrow => ?_,
    fun graphId version hlookup => ?_⟩
  · change _ ↔ (Keyed.put made.graphId made.version r.latest).lookup _ = _
    rw [rows_save, hversion, ← hid] at hrow
    rcases List.mem_append.mp hrow with hrow | hrow
    · obtain ⟨old, hold, rfl⟩ := List.mem_map.mp hrow
      obtain ⟨q, hq, hof⟩ := exists_plan_of_mem h.rows hold
      rw [marked_graphId, marked_planVersion]
      refine isLatest_marked_iff (fun hsame => ?_) (h.latest old hold)
      exact hof.graphId.trans (hown q hq (hof.planVersion.symm.trans hsame))
    · have hnew : row = .ofGraph g (r.held made) := by
        split at hrow
        · cases hrow
        · exact List.mem_singleton.mp hrow
      have hlatest : (Keyed.put made.graphId made.version r.latest).lookup g.id =
          some (r.held made).version := by rw [← hid, Keyed.lookup_put, hversion]
      exact hnew ▸ iff_of_true rfl hlatest
  · change (Keyed.put made.graphId made.version r.latest).lookup _ = _ at hlookup
    by_cases hgraph : graphId = made.graphId
    · rw [hgraph, Keyed.lookup_put] at hlookup
      obtain ⟨q, hq, hqversion, -⟩ := r.exists_plan?_add made true
      have hqgraph : q.graphId = made.graphId := by
        have := List.find?_some hq
        simp_all
      exact ⟨q, List.mem_of_find?_eq_some hq, hqgraph.trans hgraph.symm,
        hqversion.trans (Option.some.inj hlookup)⟩
    · rw [Keyed.lookup_put_of_ne _ _ hgraph] at hlookup
      obtain ⟨q, hq, hsame⟩ := h.held graphId version hlookup
      exact ⟨q, mem_plans_add hq true, hsame⟩

/-- Whatever is saved and deleted, the registry and its store stay in step. -/
theorem inStep (htexts : Digest.Separates texts) (h : Persisted texts config r s) :
    InStep texts config r s := by
  induction h with
  | empty => exact inStep_empty
  | save _ hdata hg htext hregister ih =>
    exact ih.save htexts (Graph.isKeyed_toValue_of_ofValue hdata hg)
      (Graph.ofValue_of_isTidy (Graph.isTidy_of_ofValue hg)) htext hregister
  | delete _ graphId ih => exact ih.delete graphId

end Persisted

/-! ## Loading -/

namespace Registry

variable {r r' : Registry}

theorem plan?_eq_some_iff (hversions : (r.plans.map (·.version)).Nodup) {graphId version : String}
    {p : Plan} : r.plan? graphId version = some p ↔
      p ∈ r.plans ∧ p.graphId = graphId ∧ p.version = version := by
  rw [plan?, Keyed.find?_eq_some_iff]
  · simp
  · intro q hq p hp hsame hsame'
    simp only [Bool.and_eq_true, beq_iff_eq] at hsame hsame'
    exact List.inj_on_of_nodup_map hversions hq hp (hsame.2.trans hsame'.2.symm)

/-- What a registry finds depends on the plans, in any order, and on the latest version of each
graph. -/
theorem plan_congr (hperm : r.plans.Perm r'.plans) (hversions : (r.plans.map (·.version)).Nodup)
    (hlatest : ∀ graphId, r.latest.lookup graphId = r'.latest.lookup graphId) (graphId : String)
    (version : Option String) : r.plan graphId version = r'.plan graphId version := by
  have hversions' := (hperm.map (·.version)).nodup_iff.mp hversions
  have hfind (version : String) : r.plan? graphId version = r'.plan? graphId version := by
    ext p
    rw [plan?_eq_some_iff hversions, plan?_eq_some_iff hversions', hperm.mem_iff]
  have hplans : (r.plansOf graphId).Perm (r'.plansOf graphId) := hperm.filter _
  unfold plan
  rw [hlatest]
  cases hnone : r.plansOf graphId with
  | nil =>
    have hnone' : r'.plansOf graphId = [] := by rwa [hnone, List.nil_perm] at hplans
    rw [hnone']
  | cons p plans =>
    cases hnone' : r'.plansOf graphId with
    | nil => simp [hnone, hnone'] at hplans
    | cons p' plans' =>
      cases version.or (r'.latest.lookup graphId) with
      | none => rfl
      | some version => simp only [hfind]

end Registry

namespace Persisted

variable {texts : String → Prop} {config : EngineConfig} {r : Registry} {s : GraphStore}

theorem loadRow_eq {row : SavedGraph} {p : Plan} (h : IsRowOf texts config row p)
    (hr : r.config = config) : GraphStore.loadRow r row = .ok (r.add p row.isLatest) := by
  obtain ⟨g, hread, hmade⟩ := h.compiled
  rw [GraphStore.loadRow, hread]
  change (Plan.ofGraph r.config g >>= _) = _
  rw [hr, hmade]
  rfl

theorem plans_add_of_new {p : Plan} (hnew : p.version ∉ r.plans.map (·.version))
    (isLatest : Bool) : (r.add p isLatest).plans = r.plans ++ [p] := by
  have hnone : r.plan? p.graphId p.version = none :=
    (plan?_eq_none_iff fun q hq hversion =>
      absurd (List.mem_map.mpr ⟨q, hq, hversion⟩) hnew).mpr hnew
  simp [Registry.add, hnone]

/-- A row among those that are marked as the latest of a graph. -/
def Marks (rows : List SavedGraph) (graphId : String) : Prop :=
  ∃ row ∈ rows, row.isLatest = true ∧ row.graphId = graphId

theorem marks_cons {row : SavedGraph} {rows : List SavedGraph} {graphId : String} :
    Marks (row :: rows) graphId ↔
      row.isLatest = true ∧ row.graphId = graphId ∨ Marks rows graphId := by
  simp [Marks]

/-- Loading adds the plans of the rows, and makes those of the marked ones the latest. -/
theorem loadInto_eq {rows : List SavedGraph} {plans : List Plan}
    (h : List.Forall₂ (IsRowOf texts config) rows plans) {r : Registry} (hr : r.config = config)
    (hversions : ((r.plans ++ plans).map (·.version)).Nodup) (latest : String → Option String)
    (hlatest : ∀ row ∈ rows, row.isLatest = true → latest row.graphId = some row.planVersion) :
    ∃ r', GraphStore.loadInto ⟨rows⟩ r = .ok r' ∧ r'.plans = r.plans ++ plans ∧
      ∀ graphId, (Marks rows graphId → r'.latest.lookup graphId = latest graphId) ∧
        (¬Marks rows graphId → r'.latest.lookup graphId = r.latest.lookup graphId) := by
  induction h generalizing r with
  | nil => exact ⟨r, rfl, by simp, fun graphId => ⟨by simp [Marks], fun _ => rfl⟩⟩
  | @cons row p rows plans hrow _ ih =>
    have hadd : (r.add p row.isLatest).plans = r.plans ++ [p] := by
      refine plans_add_of_new (fun hmem => ?_) row.isLatest
      rw [List.map_append, List.nodup_append] at hversions
      exact hversions.2.2 _ hmem p.version (by simp) rfl
    obtain ⟨r', hload, hplans, hmarked⟩ := ih (r := r.add p row.isLatest) hr
      (by rw [hadd]; simpa using hversions)
      fun row hmem => hlatest row (List.mem_cons_of_mem _ hmem)
    refine ⟨r', ?_, ?_, fun graphId => ?_⟩
    · rw [GraphStore.loadInto, List.foldlM_cons, loadRow_eq hrow hr]
      exact hload
    · rw [hplans, hadd, List.append_assoc, List.singleton_append]
    · have hput (hother : ¬(row.isLatest = true ∧ row.graphId = graphId)) :
          (r.add p row.isLatest).latest.lookup graphId = r.latest.lookup graphId := by
        unfold Registry.add
        dsimp only
        split
        · next hrowLatest =>
          refine Keyed.lookup_put_of_ne _ _ fun hsame => hother ⟨hrowLatest, ?_⟩
          rw [hrow.graphId, hsame]
        · rfl
      rw [marks_cons]
      by_cases hrest : Marks rows graphId
      · exact ⟨fun _ => (hmarked graphId).1 hrest, fun hnot => absurd (.inr hrest) hnot⟩
      · rw [(hmarked graphId).2 hrest]
        refine ⟨?_, fun hnot => hput fun hrow => hnot (.inl hrow)⟩
        rintro (⟨hrowLatest, rfl⟩ | hmarks)
        · rw [hlatest row List.mem_cons_self hrowLatest, hrow.graphId, hrow.planVersion, hrowLatest]
          exact Keyed.lookup_put _ _ _
        · exact absurd hmarks hrest

/-- The live registry knows the latest version of just the graphs that have a marked row. -/
theorem InStep.lookup_latest_of_not_marks (h : InStep texts config r s) {rows : List SavedGraph}
    (hrows : rows.Perm s.rows) {graphId : String} (hnot : ¬Marks rows graphId) :
    r.latest.lookup graphId = none := by
  cases hlookup : r.latest.lookup graphId with
  | none => rfl
  | some version =>
    obtain ⟨p, hp, rfl, rfl⟩ := h.held graphId version hlookup
    obtain ⟨row, hrow, hof⟩ := exists_row_of_mem h.rows hp
    refine absurd ⟨row, hrows.mem_iff.mpr hrow, (h.latest row hrow).mpr ?_, hof.graphId⟩ hnot
    rw [hof.graphId, hof.planVersion, hlookup]

theorem InStep.exists_loadInto (h : InStep texts config r s) {rows : List SavedGraph}
    (hrows : rows.Perm s.rows) :
    ∃ r', GraphStore.loadInto ⟨rows⟩ (.empty config) = .ok r' ∧
      ∀ graphId version, r'.plan graphId version = r.plan graphId version := by
  obtain ⟨plans, hof, hplans⟩ : ∃ plans, List.Forall₂ (IsRowOf texts config) rows plans ∧
      plans.Perm r.plans := List.perm_comp_forall₂ hrows h.rows
  have hversions : (plans.map (·.version)).Nodup :=
    (hplans.map (·.version)).nodup_iff.mpr h.versions
  obtain ⟨r', hload, hloaded, hlatest⟩ := loadInto_eq hof (r := .empty config) rfl hversions
    (fun graphId => r.latest.lookup graphId) fun row hrow hmarked =>
      (h.latest row (hrows.mem_iff.mp hrow)).mp hmarked
  refine ⟨r', hload, Registry.plan_congr ?_ ?_ fun graphId => ?_⟩
  · rw [hloaded]
    exact hplans
  · rw [hloaded]
    exact hversions
  · by_cases hmarks : Marks rows graphId
    · exact (hlatest graphId).1 hmarks
    · rw [(hlatest graphId).2 hmarks, h.lookup_latest_of_not_marks hrows hmarks]
      rfl

theorem InStep.countP_le_one (h : InStep texts config r s) (graphId : String) :
    s.rows.countP (fun row => row.graphId == graphId && row.isLatest) ≤ 1 := by
  have hmarked : ∀ row ∈ s.rows, (row.graphId == graphId && row.isLatest) = true →
      r.latest.lookup graphId = some row.planVersion := by
    intro row hrow hmarked
    obtain ⟨rfl, hlatest⟩ : row.graphId = graphId ∧ row.isLatest = true := by simpa using hmarked
    exact (h.latest row hrow).mp hlatest
  cases hlookup : r.latest.lookup graphId with
  | none =>
    refine (List.countP_eq_zero.mpr fun row hrow hmarks => ?_).trans_le zero_le_one
    cases hlookup.symm.trans (hmarked row hrow hmarks)
  | some version =>
    calc s.rows.countP (fun row => row.graphId == graphId && row.isLatest)
      _ ≤ s.rows.countP (fun row => row.planVersion == version) := by
        refine List.countP_mono_left fun row hrow hmarks => ?_
        simpa using (Option.some.inj (hlookup.symm.trans (hmarked row hrow hmarks))).symm
      _ = (s.rows.map (·.planVersion)).count version := by rw [List.count, List.countP_map]; rfl
      _ ≤ 1 := by
        rw [map_planVersion h.rows]
        exact List.nodup_iff_count_le_one.mp h.versions version

/-- A store of graphs loads without an error, whatever has been saved and deleted and in whatever
order its rows are listed, and the registry that is filled from it finds the same plans under the
same versions and the same latest plan of each graph as the live one. At most one row of a graph is
marked as the latest. Graphs come from authored data, and digests are taken not to collide. -/
theorem reloads (htexts : Digest.Separates texts) (h : Persisted texts config r s) :
    (∀ rows, rows.Perm s.rows → ∃ r', GraphStore.loadInto ⟨rows⟩ (.empty config) = .ok r' ∧
      (∀ graphId version, r'.plan graphId (some version) = r.plan graphId (some version)) ∧
      ∀ graphId, r'.latestPlan graphId = r.latestPlan graphId) ∧
    ∀ graphId, s.rows.countP (fun row => row.graphId == graphId && row.isLatest) ≤ 1 := by
  have hinStep := inStep htexts h
  refine ⟨fun rows hrows => ?_, hinStep.countP_le_one⟩
  obtain ⟨r', hload, hplan⟩ := hinStep.exists_loadInto hrows
  exact ⟨r', hload, fun graphId version => hplan graphId (some version),
    fun graphId => hplan graphId none⟩

end Persisted

namespace Sample

theorem register_posting (r : Registry) (hr : r.config = default) :
    ∀ params ∈ [methodLast, methodFirst], r.register (posting params) =
      .ok (r.held (postingPlan params), r.add (postingPlan params) true) := by
  intro params hparams
  rw [Registry.register, hr, ofGraph_posting params hparams]
  rfl

/-- The registry after a graph has come twice, with its parameters in another order. -/
def postingRegistry : Registry :=
  ((Registry.empty default).add (postingPlan methodFirst) true).add (postingPlan methodLast) true

/-- The store that goes with it. -/
def postingStore : GraphStore :=
  let first := (Registry.empty default).add (postingPlan methodFirst) true
  let s := (GraphStore.empty.save (posting methodFirst)
    ((Registry.empty default).held (postingPlan methodFirst))).2
  (s.save (posting methodLast) (first.held (postingPlan methodLast))).2

theorem reloads_postingStore :
    (∃ r, postingStore.loadInto (.empty default) = .ok r ∧
      r.latestPlan "g" = postingRegistry.latestPlan "g") ∧
    postingStore.rows.countP (fun row => row.graphId == "g" && row.isLatest) ≤ 1 := by
  let texts : String → Prop := (· = Plan.contentText default (posting methodLast))
  have hseparates : Digest.Separates texts := fun s t hs ht _ => hs.trans ht.symm
  obtain ⟨hkeyed, hread⟩ := ofValue_posting methodLast (by simp)
  obtain ⟨hkeyed', hread'⟩ := ofValue_posting methodFirst (by simp)
  have htext : texts (Plan.contentText default (posting methodFirst)) :=
    (Plan.contentText_eq_iff hkeyed' hkeyed).mpr ⟨by decide +kernel, rfl⟩
  have hempty : Persisted texts default (.empty default) .empty := .empty
  have hfirst := hempty.save hkeyed' hread' htext (register_posting _ rfl methodFirst (by simp))
  have hboth := hfirst.save hkeyed hread rfl (register_posting _ rfl methodLast (by simp))
  obtain ⟨hload, hmarked⟩ := Persisted.reloads hseparates hboth
  obtain ⟨r, hload, -, hlatest⟩ := hload _ (.refl _)
  exact ⟨⟨r, hload, hlatest "g"⟩, hmarked "g"⟩

end Sample
end WorkflowEngine

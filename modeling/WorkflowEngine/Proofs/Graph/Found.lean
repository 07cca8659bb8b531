import WorkflowEngine.Proofs.Plan.Runnable

/-!
# What each check of a graph finds

Each defect of a graph is of a kind that one check finds, so that it is reported as often as this
check finds it. The checks of nodes look at the first node with each identifier.
-/
namespace WorkflowEngine

/-- A list of what lists hold about its items holds an entry about one item as often as that item
occurs. -/
theorem count_flatMap_of_about {α β : Type} [DecidableEq α] [DecidableEq β] {f : α → List β}
    {items : List α} {a : α} {b : β} (habout : ∀ c ∈ items, b ∈ f c → c = a) :
    (items.flatMap f).count b = items.count a * (f a).count b := by
  induction items with
  | nil => simp
  | cons c rest ih =>
    rw [List.flatMap_cons, List.count_append, List.count_cons,
      ih fun d hd => habout d (List.mem_cons_of_mem _ hd)]
    by_cases hc : c = a
    · subst hc
      simp [Nat.add_mul, Nat.add_comm]
    · have hnone : (f c).count b = 0 :=
        List.count_eq_zero.mpr fun hb => hc (habout c List.mem_cons_self hb)
      simp [hnone, hc]

theorem count_flatMap_append {α β : Type} [DecidableEq β] (f f' : α → List β) (items : List α)
    (b : β) : (items.flatMap fun a => f a ++ f' a).count b =
      (items.flatMap f).count b + (items.flatMap f').count b := by
  induction items with
  | nil => rfl
  | cons a rest ih =>
    simp only [List.flatMap_cons, List.count_append, ih]
    omega

/-- The checks of a graph. -/
inductive Check where
  | identifiers
  | triggers
  | edges
  | successors
  | data
  | reach
  | cycles
  deriving DecidableEq

/-- The check that finds a defect; some are found when the graph is read. -/
def Defect.check? : Defect → Option Check
  | duplicateNodeId _ => some .identifiers
  | missingTrigger | multipleTriggers _ => some .triggers
  | unknownNode _ _ | triggerHasIncoming _ | missingBranchLabel _ | unexpectedBranchLabel _ =>
    some .edges
  | missingBranch _ _ | duplicateBranch _ _ _ | tooManySuccessors _ _ _ |
    delayWithoutSuccessor _ => some .successors
  | invalidParams _ _ _ | negativeDelay _ _ => some .data
  | unreachable _ => some .reach
  | cycle _ => some .cycles
  | missingGraphId | missingNodeId _ | invalidNode _ _ | invalidEdge _ |
    invalidBranchLabel _ _ _ _ | invalidEnabled _ => none

namespace Graph

/-- What a check finds. -/
def foundBy (g : Graph) : Check → List Defect
  | .identifiers => g.duplicateDefects
  | .triggers => g.triggerDefects
  | .edges => g.edges.flatMap g.edgeDefects
  | .successors => g.distinctNodes.flatMap fun n => successorDefects n (g.outgoing n.id)
  | .data => g.distinctNodes.flatMap dataDefects
  | .reach => g.reachDefects
  | .cycles => g.cycleDefects

section Checks

variable {g : Graph} {d : Defect}

theorem check?_of_mem_edgeDefects {e : Edge} (h : d ∈ g.edgeDefects e) : d.check? = some .edges := by
  unfold edgeDefects labelDefects at h
  split at h
  · rcases List.mem_append.mp h with h | h
    · split at h <;> simp_all [Defect.check?]
    · split at h <;> simp_all [Defect.check?]
  · obtain ⟨id, -, rfl⟩ := List.mem_map.mp h
    rfl

theorem check?_of_mem_dataDefects {n : Node} (h : d ∈ dataDefects n) : d.check? = some .data := by
  unfold dataDefects at h
  split at h
  · split at h <;> simp_all [Defect.check?]
  · split at h <;> simp_all [Defect.check?]
  · cases h

theorem check?_of_mem_successorDefects {n : Node} {edges : List Edge}
    (h : d ∈ successorDefects n edges) : d.check? = some .successors := by
  unfold successorDefects at h
  split at h
  · obtain ⟨branch, -, h⟩ := List.mem_flatMap.mp h
    unfold branchDefects at h
    split at h <;> simp_all [Defect.check?]
  · rcases List.mem_append.mp h with h | h
    · split at h <;> simp_all [Defect.check?]
    · split at h <;> simp_all [Defect.check?]

/-- Each defect is found by the check for its kind. -/
theorem check?_of_mem_foundBy {check : Check} (h : d ∈ g.foundBy check) :
    d.check? = some check := by
  cases check with
  | identifiers =>
    obtain ⟨n, -, rfl⟩ := List.mem_map.mp h
    rfl
  | triggers =>
    simp only [foundBy, triggerDefects] at h
    split at h
    · obtain rfl := List.mem_singleton.mp h
      rfl
    · obtain ⟨n, -, rfl⟩ := List.mem_map.mp h
      rfl
  | edges =>
    obtain ⟨e, -, h⟩ := List.mem_flatMap.mp h
    exact check?_of_mem_edgeDefects h
  | successors =>
    obtain ⟨n, -, h⟩ := List.mem_flatMap.mp h
    exact check?_of_mem_successorDefects h
  | data =>
    obtain ⟨n, -, h⟩ := List.mem_flatMap.mp h
    exact check?_of_mem_dataDefects h
  | reach =>
    simp only [foundBy, reachDefects] at h
    split at h
    · cases h
    · obtain ⟨n, -, rfl⟩ := List.mem_map.mp h
      rfl
  | cycles =>
    obtain ⟨e, -, rfl⟩ := List.mem_map.mp h
    rfl

/-- A defect is reported as often as the check for its kind finds it. -/
theorem count_defects {check : Check} (hcheck : d.check? = some check) :
    g.defects.count d = (g.foundBy check).count d := by
  have hother {other : Check} (hne : other ≠ check) : (g.foundBy other).count d = 0 :=
    List.count_eq_zero.mpr fun h =>
      hne (Option.some.inj ((check?_of_mem_foundBy h).symm.trans hcheck))
  have hsum : g.defects.count d = (g.foundBy .identifiers).count d +
      (g.foundBy .triggers).count d + (g.foundBy .edges).count d +
      ((g.foundBy .successors).count d + (g.foundBy .data).count d) +
      (g.foundBy .reach).count d + (g.foundBy .cycles).count d := by
    have hnodes : (g.distinctNodes.flatMap g.nodeDefects).count d =
        (g.foundBy .successors).count d + (g.foundBy .data).count d :=
      count_flatMap_append _ _ _ d
    simp only [defects, List.count_append, hnodes, foundBy]
  rw [hsum]
  cases check <;> simp only [hother, ne_eq, reduceCtorEq, not_false_eq_true, Nat.add_zero,
    Nat.zero_add]

theorem mem_defects_iff (check : Check) (hcheck : d.check? = some check) :
    d ∈ g.defects ↔ d ∈ g.foundBy check := by
  rw [← List.count_pos_iff, count_defects hcheck, List.count_pos_iff]

end Checks

section Data

variable {n : Node} {id : String}

theorem invalidParams_mem_dataDefects_iff {kind : ActionKind} {e : ParamsError} :
    .invalidParams id kind e ∈ dataDefects n ↔
      n.id = id ∧ ∃ given, n.body = .action kind given ∧
        ActionParams.ofRecord kind given = .error e := by
  obtain ⟨own, label, body⟩ := n
  cases body with
  | action other given =>
    have hbody : (∃ given', NodeBody.action other given = .action kind given' ∧
        ActionParams.ofRecord kind given' = .error e) ↔
          other = kind ∧ ActionParams.ofRecord other given = .error e := by
      constructor
      · rintro ⟨given', hbody, herror⟩
        cases hbody
        exact ⟨rfl, herror⟩
      · rintro ⟨rfl, herror⟩
        exact ⟨given, rfl, herror⟩
    rw [hbody]
    cases hparams : ActionParams.ofRecord other given with
    | ok params => simp [dataDefects, hparams]
    | error e' => simp [dataDefects, hparams, eq_comm]
  | delay amount unit =>
    simp only [dataDefects]
    split <;> simp
  | trigger | condition => simp [dataDefects]

theorem negativeDelay_mem_dataDefects_iff {amount : Int} :
    .negativeDelay id amount ∈ dataDefects n ↔
      n.id = id ∧ ∃ unit, n.body = .delay amount unit ∧ amount < 0 := by
  obtain ⟨own, label, body⟩ := n
  cases body with
  | action other given =>
    simp only [dataDefects]
    split <;> simp
  | delay other unit =>
    have hbody : (∃ unit', NodeBody.delay other unit = .delay amount unit' ∧ amount < 0) ↔
        other = amount ∧ other < 0 := by
      constructor
      · rintro ⟨unit', hbody, hnegative⟩
        cases hbody
        exact ⟨rfl, hnegative⟩
      · rintro ⟨rfl, hnegative⟩
        exact ⟨unit, rfl, hnegative⟩
    rw [hbody]
    by_cases hnegative : other < 0 <;> simp [dataDefects, hnegative, eq_comm]
  | trigger | condition => simp [dataDefects]

theorem length_dataDefects_le (n : Node) : (dataDefects n).length ≤ 1 := by
  unfold dataDefects
  split
  · split <;> simp
  · split <;> simp
  · simp

end Data

section Firsts

variable {g : Graph} {seen : List String} {nodes : List Node} {n : Node}

/-- The nodes that are checked are the first ones with their identifiers. -/
theorem mem_firstsAfter_iff :
    n ∈ firstsAfter seen nodes ↔ nodes.find? (·.id == n.id) = some n ∧ n.id ∉ seen := by
  fun_induction firstsAfter seen nodes with
  | case1 => simp
  | case2 seen m rest hseen ih =>
    rw [ih]
    by_cases hid : m.id = n.id
    · simp [hid ▸ hseen]
    · simp [hid]
  | case3 seen m rest hnew ih =>
    rw [List.mem_cons, ih]
    by_cases hid : m.id = n.id
    · have hsame : m = n ↔ n = m := eq_comm
      simp [hid, hid ▸ hnew, hsame]
    · have hne : n ≠ m := fun h => hid (h ▸ rfl)
      simp [hid, hne, Ne.symm hid]

theorem mem_distinctNodes_iff : n ∈ g.distinctNodes ↔ g.find? n.id = some n := by
  rw [distinctNodes, mem_firstsAfter_iff, find?]
  simp

theorem nodup_firstsAfter : ((firstsAfter seen nodes).map (·.id)).Nodup := by
  fun_induction firstsAfter seen nodes with
  | case1 => exact List.nodup_nil
  | case2 seen m rest hseen ih => exact ih
  | case3 seen m rest hnew ih =>
    rw [List.map_cons, List.nodup_cons]
    refine ⟨fun hmem => ?_, ih⟩
    obtain ⟨n, hn, hid⟩ := List.mem_map.mp hmem
    exact (mem_firstsAfter_iff.mp hn).2 (hid ▸ List.mem_cons_self)

theorem nodup_ids : g.ids.Nodup := nodup_firstsAfter

/-- Each identifier but those that have been seen is repeated once less than it occurs. -/
theorem count_repeatsAfter (id : String) :
    (repeatsAfter seen nodes).countP (·.id == id) =
      nodes.countP (·.id == id) - if id ∈ seen then 0 else 1 := by
  fun_induction repeatsAfter seen nodes with
  | case1 => simp
  | case2 seen m rest hseen ih =>
    rw [List.countP_cons, List.countP_cons, ih]
    by_cases hid : m.id = id
    · simp [hid, hid ▸ hseen]
    · simp [hid]
  | case3 seen m rest hnew ih =>
    rw [List.countP_cons, ih]
    by_cases hid : m.id = id
    · simp [hid, hid ▸ hnew]
    · simp [hid, Ne.symm hid]

theorem mem_firstsAfter_or_mem_repeatsAfter (hn : n ∈ nodes) :
    n ∈ firstsAfter seen nodes ∨ n ∈ repeatsAfter seen nodes := by
  fun_induction firstsAfter seen nodes with
  | case1 => cases hn
  | case2 seen m rest hseen ih =>
    rw [repeatsAfter, if_pos hseen]
    rcases List.mem_cons.mp hn with rfl | hn
    · exact .inr List.mem_cons_self
    · exact (ih hn).imp_right (List.mem_cons_of_mem m)
  | case3 seen m rest hnew ih =>
    rw [repeatsAfter, if_neg hnew]
    rcases List.mem_cons.mp hn with rfl | hn
    · exact .inl List.mem_cons_self
    · exact (ih hn).imp_left (List.mem_cons_of_mem m)

end Firsts

end Graph
end WorkflowEngine

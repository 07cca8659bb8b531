import WorkflowEngine.Proofs.Plan.Latest
import WorkflowEngine.Proofs.System.Attendance
import WorkflowEngine.Proofs.System.Retries
import WorkflowEngine.Proofs.System.Verdicts
import WorkflowEngine.Proofs.Value.Agreement

/-!
# What is shown of instances

How far an instance has come is read off the trail, not off the store. The two agree on a node
unless an entry on it was lost, came late, or was appended for a step that was not stored.
-/
namespace WorkflowEngine

/-! ## The view -/

namespace Diagram

variable {trail : List (Option String × AuditOutcome)} {node : Option String}
  {outcome : AuditOutcome}

theorem verdicts_concat_of_some {id : String} {b : Bool} (hverdict : verdict? outcome = some b) :
    verdicts (trail ++ [(some id, outcome)]) = Keyed.put id b (verdicts trail) := by
  simp [verdicts, List.foldl_append, hverdict]

theorem verdicts_concat_of_none (hquiet : node = none ∨ verdict? outcome = none) :
    verdicts (trail ++ [(node, outcome)]) = verdicts trail := by
  rw [verdicts, List.foldl_append]
  rcases hquiet with rfl | hverdict
  · rfl
  · cases node <;> simp [verdicts, hverdict]

theorem nodup_verdicts (trail : List (Option String × AuditOutcome)) :
    ((verdicts trail).map (·.1)).Nodup := by
  induction trail using List.reverseRecOn with
  | nil => exact List.nodup_nil
  | append_singleton trail entry ih =>
    obtain ⟨node, outcome⟩ := entry
    cases hverdict : verdict? outcome with
    | none => rwa [verdicts_concat_of_none (.inr hverdict)]
    | some b =>
      cases node with
      | none => rwa [verdicts_concat_of_none (.inl rfl)]
      | some id =>
        rw [verdicts_concat_of_some hverdict]
        exact Keyed.nodup_put _ _ ih

theorem lookup_verdicts_concat {id : String} :
    (verdicts (trail ++ [(node, outcome)])).lookup id =
      (if node = some id then verdict? outcome else none).or ((verdicts trail).lookup id) := by
  cases hverdict : verdict? outcome with
  | none => rw [verdicts_concat_of_none (.inr hverdict), ite_self, Option.none_or]
  | some b =>
    cases node with
    | none => simp [verdicts_concat_of_none]
    | some id' =>
      rw [verdicts_concat_of_some hverdict]
      by_cases hsame : id = id'
      · simp [hsame]
      · simp [Keyed.lookup_put_of_ne _ _ hsame, Ne.symm hsame]

theorem mem_verdicts_iff {id : String} {b : Bool} :
    (id, b) ∈ verdicts trail ↔ (verdicts trail).lookup id = some b :=
  ⟨Keyed.lookup_of_mem (nodup_verdicts trail), Keyed.mem_of_lookup⟩

end Diagram

namespace Engine

/-- How far an instance has come, as its chart shows it. -/
def shown (e : Engine) (id : InstanceId) : Diagram.Visited :=
  Diagram.visited ((e.trailOf id).map fun entry => (entry.node, entry.outcome))

/-- What is shown of a node is the last verdict on it in the trail. -/
theorem lookup_verdicts (id : InstanceId) (node : String) (trail : List AuditEntry) :
    (Diagram.verdicts ((trail.filter (·.instanceId == id)).map fun entry =>
        (entry.node, entry.outcome))).lookup node =
      (lastJudging id node trail).bind fun entry => Diagram.verdict? entry.outcome := by
  induction trail using List.reverseRecOn with
  | nil => rfl
  | append_singleton trail entry ih =>
    have hlast : (lastJudging id node (trail ++ [entry])).bind (Diagram.verdict? ·.outcome) =
        (if entry.instanceId = id ∧ entry.node = some node then
          Diagram.verdict? entry.outcome else none).or
            ((lastJudging id node trail).bind (Diagram.verdict? ·.outcome)) := by
      rw [lastJudging_concat]
      by_cases hjudges : entry.judges id node = true
      · obtain ⟨hid, hnode, hverdict⟩ := AuditEntry.judges_iff.mp hjudges
        rw [if_pos hjudges, if_pos ⟨hid, hnode⟩, Option.bind_some, Option.or_of_isSome hverdict]
      · rw [if_neg hjudges]
        split
        · next hat =>
          have hnone : Diagram.verdict? entry.outcome = none :=
            Option.not_isSome_iff_eq_none.mp fun hverdict =>
              hjudges (AuditEntry.judges_iff.mpr ⟨hat.1, hat.2, hverdict⟩)
          rw [hnone, Option.none_or]
        · exact (Option.none_or ..).symm
    rw [hlast, ← ih, List.filter_append, List.map_append]
    by_cases hid : entry.instanceId = id
    · rw [List.filter_cons_of_pos (by simpa using hid), List.filter_nil, List.map_singleton,
        Diagram.lookup_verdicts_concat]
      simp only [hid, true_and]
    · rw [List.filter_cons_of_neg (by simpa using hid), List.filter_nil, List.map_nil,
        List.append_nil, if_neg fun hat => hid hat.1, Option.none_or]

variable {e : Engine} {id : InstanceId} {node : String}

theorem mem_verdicts_iff {b : Bool} :
    (node, b) ∈ Diagram.verdicts ((e.trailOf id).map fun entry => (entry.node, entry.outcome)) ↔
      ∃ entry, lastJudging id node e.trail = some entry ∧
        Diagram.verdict? entry.outcome = some b := by
  rw [Diagram.mem_verdicts_iff, trailOf, lookup_verdicts, Option.bind_eq_some_iff]

theorem mem_completed_iff : node ∈ (e.shown id).completed ↔
    ∃ entry, lastJudging id node e.trail = some entry ∧ entry.outcome.isPassage = true := by
  simp only [← AuditOutcome.verdict?_eq_true, ← mem_verdicts_iff]
  simp [shown, Diagram.visited]

theorem mem_failed_iff : node ∈ (e.shown id).failed ↔
    ∃ entry, lastJudging id node e.trail = some entry ∧ entry.outcome.isFailure = true := by
  simp only [← AuditOutcome.verdict?_eq_false, ← mem_verdicts_iff]
  simp [shown, Diagram.visited]

end Engine

/-! ## Entries in order -/

section
variable {id : InstanceId} {node : String}

theorem lastJudging_filterMap_concat (f : Moment → Option AuditEntry) (h : List Moment)
    (m : Moment) : lastJudging id node ((h ++ [m]).filterMap f) =
      ((f m).filter (AuditEntry.judges id node)).or (lastJudging id node (h.filterMap f)) := by
  rw [List.filterMap_append]
  cases hfm : f m with
  | none => simp [hfm]
  | some entry =>
    rw [List.filterMap_cons_some hfm, List.filterMap_nil, lastJudging_concat]
    by_cases hjudges : entry.judges id node = true <;> simp [Option.filter_some, hjudges]

/-- Of two lists of entries the shorter one has the same last verdict if it has the last one. -/
theorem lastJudging_filterMap_eq {f g : Moment → Option AuditEntry} {h : List Moment}
    (hless : ∀ m ∈ h, ∀ entry, g m = some entry → f m = some entry)
    (hlast : ∀ entry, lastJudging id node (h.filterMap f) = some entry →
      ∀ m ∈ h, f m = some entry → g m = some entry) :
    lastJudging id node (h.filterMap g) = lastJudging id node (h.filterMap f) := by
  induction h using List.reverseRecOn with
  | nil => rfl
  | append_singleton h m ih =>
    have hmem : m ∈ h ++ [m] := List.mem_append_right _ (List.mem_singleton_self m)
    rw [lastJudging_filterMap_concat, lastJudging_filterMap_concat]
    cases hf : (f m).filter (AuditEntry.judges id node) with
    | some entry =>
      obtain ⟨hfm, hjudges⟩ := Option.filter_eq_some_iff.mp hf
      have hgm : g m = some entry :=
        hlast entry (by rw [lastJudging_filterMap_concat, hf, Option.some_or]) m hmem hfm
      rw [Option.filter_eq_some_iff.mpr ⟨hgm, hjudges⟩, Option.some_or, Option.some_or]
    | none =>
      have hg : (g m).filter (AuditEntry.judges id node) = none :=
        Option.filter_eq_none_iff.mpr fun entry hentry =>
          Option.filter_eq_none_iff.mp hf entry (hless m hmem entry hentry)
      rw [hg, Option.none_or, Option.none_or]
      refine ih (fun x hx => hless x (List.mem_append_left _ hx)) fun entry hentry x hx => ?_
      refine hlast entry ?_ x (List.mem_append_left _ hx)
      rw [lastJudging_filterMap_concat, hf, Option.none_or, hentry]

end

/-- When the last verdict on a node is stored, nobody owes an entry with an earlier one. -/
def InOrder (h : List Moment) (id : InstanceId) (node : String) : Prop :=
  ∀ before m after entry, h = before ++ m :: after → m.settled? = some entry →
    entry.judges id node = true →
    (∀ x ∈ after, ∀ later, x.settled? = some later → later.judges id node = false) →
    ∀ n owed, (stageOf n before).bind Stage.owed? = some owed → owed.judges id node = false

theorem InOrder.of_concat {h : List Moment} {m : Moment} {id : InstanceId} {node : String}
    (horder : InOrder (h ++ [m]) id node)
    (hm : ∀ entry, m.settled? = some entry → entry.judges id node = false) :
    InOrder h id node := by
  intro before x after entry hsplit hsettled hjudges hafter
  refine horder before x (after ++ [m]) entry (by simp [hsplit]) hsettled hjudges fun y hy => ?_
  rcases List.mem_append.mp hy with hy | hy
  · exact hafter y hy
  · obtain rfl := List.mem_singleton.mp hy
    exact hm

namespace System

/-- The entry that a call has still to append. -/
def owed? (s : System) (n : Nat) : Option AuditEntry := (s.calls n).bind Stage.owed?

variable {config : EngineConfig} {s s' : System} {m : Moment} {id : InstanceId} {node : String}

/-- A call that is served reports what it owed, and owes what it settles. Nothing else changes what
is owed, unless a call is dropped. -/
theorem Step.owed_cases (hs : Reachable config s) (hstep : Step s s')
    (hhistory : s'.history = s.history ++ [m]) (hkept : m.incident ≠ .crashed) :
    (m.reported? = none ∧ m.settled? = none ∧ ∀ k, s'.owed? k = s.owed? k) ∨
      ∃ n, m.reported? = s.owed? n ∧ m.settled? = s'.owed? n ∧
        ∀ k, k ≠ n → s'.owed? k = s.owed? k := by
  have hother {t : System} {n k : Nat} {stage : Option Stage}
      (ht : t.calls = Function.update s.calls n stage) (hne : k ≠ n) : t.owed? k = s.owed? k := by
    rw [owed?, ht, Function.update_of_ne hne, owed?]
  have hself {t : System} {n : Nat} {stage : Option Stage}
      (ht : t.calls = Function.update s.calls n stage) : t.owed? n = stage.bind Stage.owed? := by
    rw [owed?, ht, Function.update_self]
  cases hstep with
  | start o =>
    obtain rfl := List.singleton_inj.mp (List.append_inj' hhistory rfl).2
    refine .inl ⟨rfl, rfl, fun k => ?_⟩
    by_cases hk : k = s.begun
    · subst hk
      rw [hself rfl, Stage.owed?_of_start, owed?, hs.calls_begun, Option.bind_none]
    · exact hother rfl hk
  | @serve n c answer e hasks hanswer =>
    obtain rfl := List.singleton_inj.mp (List.append_inj' hhistory rfl).2
    obtain ⟨hreported, hsettled⟩ :=
      Stage.owed?_of_served (show (Moment.mk (some n) (.served c answer) e).incident = _ from rfl)
    refine .inr ⟨n, ?_, ?_, fun k hk => hother rfl hk⟩
    · rw [hreported, owed?, hasks]
      rfl
    · rw [hsettled, hself rfl]
      rfl
  | @resume n c answer hanswered =>
    obtain rfl := List.singleton_inj.mp (List.append_inj' hhistory rfl).2
    refine .inl ⟨rfl, rfl, fun k => ?_⟩
    by_cases hk : k = n
    · subst hk
      rw [hself rfl, Stage.owed?_of_resume, owed?, hanswered]
      rfl
    · exact hother rfl hk
  | crash n =>
    obtain rfl := List.singleton_inj.mp (List.append_inj' hhistory rfl).2
    exact absurd rfl hkept
  | register | unregister | tick =>
    obtain rfl := List.singleton_inj.mp (List.append_inj' hhistory rfl).2
    exact .inl ⟨rfl, rfl, fun _ => rfl⟩

/-- The last verdict that was stored on a node is owed by a call, or has been reported since. -/
structure Awaits (id : InstanceId) (node : String) (s : System) (owed : Option (Nat × AuditEntry)) :
    Prop where
  last : lastJudging id node (s.history.filterMap Moment.settled?) =
    (owed.map Prod.snd).or (lastJudging id node (s.history.filterMap Moment.reported?))
  owes : ∀ n entry, s.owed? n = some entry ∧ entry.judges id node = true ↔ owed = some (n, entry)

theorem Awaits.of_settled {entry : AuditEntry} (hs : Reachable config s) (hstep : Step s s')
    (hhistory : s'.history = s.history ++ [m]) (hkept : m.incident ≠ .crashed)
    (hentry : m.settled? = some entry) (hjudges : entry.judges id node = true)
    (hnobody : ∀ k x, s.owed? k = some x → x.judges id node = false) :
    ∃ n, Awaits id node s' (some (n, entry)) := by
  rcases hstep.owed_cases hs hhistory hkept with ⟨-, hsettled, -⟩ | ⟨n, -, hsettled, hsame⟩
  · cases hsettled.symm.trans hentry
  refine ⟨n, ?_, fun k x => ?_⟩
  · rw [hhistory, lastJudging_filterMap_concat, hentry,
      Option.filter_eq_some_iff.mpr ⟨rfl, hjudges⟩]
    rfl
  · by_cases hk : k = n
    · subst hk
      rw [← hsettled, hentry]
      refine ⟨fun h => by rw [Option.some.inj h.1], fun h => ?_⟩
      obtain rfl := (Prod.mk.inj (Option.some.inj h)).2
      exact ⟨rfl, hjudges⟩
    · rw [hsame k hk]
      refine ⟨fun h => ?_, fun h => absurd (Prod.mk.inj (Option.some.inj h)).1.symm hk⟩
      cases (hnobody k x h.1).symm.trans h.2

theorem Awaits.of_unsettled {owed : Option (Nat × AuditEntry)} (hawaits : Awaits id node s owed)
    (hs : Reachable config s) (hstep : Step s s') (hhistory : s'.history = s.history ++ [m])
    (hkept : m.incident ≠ .crashed)
    (hm : ∀ entry, m.settled? = some entry → entry.judges id node = false) :
    ∃ owed', Awaits id node s' owed' := by
  have hsettled : lastJudging id node (s'.history.filterMap Moment.settled?) =
      lastJudging id node (s.history.filterMap Moment.settled?) := by
    have hnone : m.settled?.filter (AuditEntry.judges id node) = none :=
      Option.filter_eq_none_iff.mpr fun entry hentry => by simp [hm entry hentry]
    rw [hhistory, lastJudging_filterMap_concat, hnone, Option.none_or]
  have hreported : lastJudging id node (s'.history.filterMap Moment.reported?) =
      (m.reported?.filter (AuditEntry.judges id node)).or
        (lastJudging id node (s.history.filterMap Moment.reported?)) :=
    hhistory ▸ lastJudging_filterMap_concat Moment.reported? s.history m
  rcases hstep.owed_cases hs hhistory hkept with ⟨hquiet, -, hsame⟩ |
    ⟨n, hreports, hsettles, hsame⟩
  · refine ⟨owed, ?_, fun k entry => hsame k ▸ hawaits.owes k entry⟩
    rw [hsettled, hreported, hquiet, hawaits.last]
    rfl
  have hfree (x : AuditEntry) (hx : s'.owed? n = some x) : ¬ x.judges id node = true := by
    rw [hm x (hsettles.trans hx)]
    exact Bool.false_ne_true
  cases happended : m.reported?.filter (AuditEntry.judges id node) with
  | some entry =>
    -- The entry that was awaited is reported.
    obtain ⟨hentry, hjudges⟩ := Option.filter_eq_some_iff.mp happended
    have howed : owed = some (n, entry) :=
      (hawaits.owes n entry).mp ⟨hreports.symm.trans hentry, hjudges⟩
    refine ⟨none, ?_, fun k x => iff_of_false (fun h => ?_) (by simp)⟩
    · rw [hsettled, hreported, happended, hawaits.last, howed]
      rfl
    · by_cases hk : k = n
      · subst hk
        exact hfree x h.1 h.2
      · rw [hsame k hk, hawaits.owes, howed] at h
        exact hk (Prod.mk.inj (Option.some.inj h)).1.symm
  | none =>
    refine ⟨owed, ?_, fun k x => ?_⟩
    · rw [hsettled, hreported, happended, hawaits.last, Option.none_or]
    · by_cases hk : k = n
      · subst hk
        refine iff_of_false (fun h => hfree x h.1 h.2) fun h => ?_
        obtain ⟨hx, hjudges⟩ := (hawaits.owes k x).mpr h
        exact Option.filter_eq_none_iff.mp happended x (hreports.trans hx) hjudges
      · exact hsame k hk ▸ hawaits.owes k x

/-- Without losses, the last verdict on a node is owed or has been reported last. -/
theorem Reachable.awaits (hs : Reachable config s) (hkept : Uncrashed s.history)
    (horder : InOrder s.history id node) : ∃ owed, Awaits id node s owed := by
  induction hs with
  | fresh =>
    refine ⟨none, rfl, fun n entry => iff_of_false (fun h => ?_) (by simp)⟩
    cases h.1
  | @step s s' hs hstep ih =>
    obtain ⟨m, hhistory, -⟩ := hstep.history
    have hkept₀ : Uncrashed s.history := fun x hx => hkept x (by simp [hhistory, hx])
    have hkeptm : m.incident ≠ .crashed := hkept m (by simp [hhistory])
    by_cases hm : ∀ entry, m.settled? = some entry → entry.judges id node = false
    · obtain ⟨owed, hawaits⟩ := ih hkept₀ ((hhistory ▸ horder).of_concat hm)
      exact hawaits.of_unsettled hs hstep hhistory hkeptm hm
    · simp only [not_forall, Bool.not_eq_false] at hm
      obtain ⟨entry, hentry, hjudges⟩ := hm
      obtain ⟨n, hawaits⟩ := Awaits.of_settled hs hstep hhistory hkeptm hentry hjudges
        fun k x hx => horder s.history m [] entry hhistory hentry hjudges (by simp) k x
          (by rwa [← hs.calls_eq])
      exact ⟨_, hawaits⟩

theorem Reachable.lastJudging_reported (hs : Reachable config s) (hkept : Uncrashed s.history)
    (hidle : ∀ n, (s.calls n).bind Stage.run? = none) (horder : InOrder s.history id node) :
    lastJudging id node (s.history.filterMap Moment.reported?) =
      lastJudging id node (s.history.filterMap Moment.settled?) := by
  obtain ⟨owed, hawaits⟩ := hs.awaits hkept horder
  have hnone : owed = none := by
    by_contra hsome
    obtain ⟨⟨n, entry⟩, rfl⟩ := Option.ne_none_iff_exists'.mp hsome
    obtain ⟨howed, -⟩ := (hawaits.owes n entry).mpr rfl
    obtain ⟨stage, hn, hstage⟩ := Option.bind_eq_some_iff.mp howed
    obtain ⟨r, hr, -⟩ := Option.bind_eq_some_iff.mp hstage
    cases (hidle n).symm.trans (Option.bind_eq_some_iff.mpr ⟨stage, hn, hr⟩)
  rw [hawaits.last, hnone]
  rfl

/-- If the last verdict in the trail was not discarded, it is the last one that was reported. -/
theorem Reachable.lastJudging_appended (hs : Reachable config s)
    (hcolumn : s.engine.store.isTable = true → TableStore.fits s.history.length)
    (htrail : s.engine.trail = s.history.filterMap Moment.appended?)
    (hstands : ∀ entry, lastJudging id node s.engine.trail = some entry →
      entry.detail.lookup "discarded" = none) :
    lastJudging id node (s.history.filterMap Moment.reported?) =
      lastJudging id node s.engine.trail := by
  rw [htrail] at hstands ⊢
  refine lastJudging_filterMap_eq (fun m _ entry => Moment.appended?_of_reported) ?_
  intro entry hlast m hm happended
  obtain ⟨before, after, hsplit⟩ := List.append_of_mem hm
  obtain ⟨s₀, s₁, halong, -⟩ := hs.along hsplit
  obtain ⟨-, hjudges⟩ := mem_of_lastJudging hlast
  rcases halong.of_appended hcolumn happended with hreported | hcancelled | ⟨-, hdiscarded⟩
  · exact hreported
  · obtain ⟨-, -, hverdict⟩ := AuditEntry.judges_iff.mp hjudges
    rw [hcancelled] at hverdict
    cases hverdict
  · exact absurd (hstands entry hlast) hdiscarded

/-- No call was dropped, every entry is in the trail, and no run is going on. -/
structure IsRecorded (config : EngineConfig) (s : System) : Prop where
  reachable : Reachable config s
  column : s.engine.store.isTable = true → TableStore.fits s.history.length
  named : WellNamed s.history
  kept : Uncrashed s.history
  trail : s.engine.trail = s.history.filterMap Moment.appended?
  idle : ∀ n, (s.calls n).bind Stage.run? = none

/-- What is shown of a node of an instance agrees with what is stored. -/
structure ShowsProgress (s : System) (id : InstanceId) (node : String) : Prop where
  completed : node ∈ (s.engine.shown id).completed ↔ Passed s.history id node
  failed : node ∈ (s.engine.shown id).failed ↔ ¬ Passed s.history id node ∧
    ∃ entry, lastJudging id node (s.history.filterMap Moment.settled?) = some entry ∧
      entry.outcome.isFailure = true
  ended : ∀ i, s.engine.store.find? id = some i → i.status = .failed → i.cursor = node →
    node ∈ (s.engine.shown id).failed

/-- If the entries on a node were appended in the order of the store, and the last of them was not
discarded, what is shown of the node agrees with what is stored. -/
theorem IsRecorded.showsProgress (hs : s.IsRecorded config) (horder : InOrder s.history id node)
    (hstands : ∀ entry, lastJudging id node s.engine.trail = some entry →
      entry.detail.lookup "discarded" = none) : ShowsProgress s id node := by
  have hlast : lastJudging id node s.engine.trail =
      lastJudging id node (s.history.filterMap Moment.settled?) :=
    (hs.reachable.lastJudging_appended hs.column hs.trail hstands).symm.trans
      (hs.reachable.lastJudging_reported hs.kept hs.idle horder)
  have hpassed : Passed s.history id node ↔ _ := hs.reachable.passed_iff hs.named hs.column
  refine ⟨?_, ?_, fun i hi hfailed hcursor => ?_⟩
  · rw [Engine.mem_completed_iff, hlast, hpassed]
  · rw [Engine.mem_failed_iff, hlast, hpassed]
    refine ⟨fun ⟨entry, hentry, hfailure⟩ => ⟨?_, entry, hentry, hfailure⟩, And.right⟩
    rintro ⟨entry', hentry', hpassage⟩
    obtain rfl := Option.some.inj (hentry.symm.trans hentry')
    obtain ⟨-, hjudges⟩ := mem_of_lastJudging hentry
    rw [AuditOutcome.isFailure_eq_not (AuditEntry.judges_iff.mp hjudges).2.2, hpassage] at hfailure
    cases hfailure
  · subst hcursor
    rw [Engine.mem_failed_iff, hlast]
    exact hs.reachable.failed_at_cursor hs.named hs.column hi hfailed

/-- A node with one verdict at most has its entries in order. -/
theorem Reachable.inOrder_of_once (hs : Reachable config s)
    (honce : (s.history.filterMap Moment.settled?).countP (AuditEntry.judges id node) ≤ 1) :
    InOrder s.history id node := by
  intro before m after entry hsplit hsettled hjudges _ n owed howed
  refine Bool.eq_false_iff.mpr fun hjudged => ?_
  obtain ⟨s₀, s₁, halong, rfl⟩ := hs.along hsplit
  obtain ⟨stage, hn, hstage⟩ := Option.bind_eq_some_iff.mp howed
  rw [← halong.reachable.calls_eq] at hn
  -- What is owed has been settled before.
  have hbalanced := halong.reachable.balanced n
  rw [hn, Balanced, hstage] at hbalanced
  have hmem : owed ∈ ofCall Moment.settled? n s₀.history := by simp [hbalanced]
  obtain ⟨x, hx, -, howes⟩ := mem_ofCall.mp hmem
  have hearlier : 0 < (s₀.history.filterMap Moment.settled?).countP (AuditEntry.judges id node) :=
    List.countP_pos_iff.mpr ⟨owed, List.mem_filterMap.mpr ⟨x, hx, howes⟩, hjudged⟩
  rw [hsplit, List.filterMap_append, List.filterMap_cons_some hsettled, List.countP_append,
    List.countP_cons_of_pos hjudges] at honce
  omega

theorem IsBooked.isRecorded {e : Engine} {σ α : List AuditEntry} (hs : s.IsBooked config e σ α)
    (hmemory : e.store.isTable = false) (hidle : s.calls = fun _ => none) :
    s.IsRecorded config where
  reachable := hs.reachable
  column := by simp [hs.engine, hmemory]
  named := hs.reachable.wellNamed hs.keeps
  kept := hs.kept
  trail := hs.trail_eq
  idle := by simp [hidle]

end System

namespace Sample

/-! The entries of the sample. -/

def triggering : AuditEntry :=
  ⟨"i1", some "t", .triggered,
    [("trigger", Choice.toValue TriggerKind.manual), ("next", .text "d")], clock 0⟩

def sleeping : AuditEntry :=
  ⟨"i1", some "d", .delayed, [("resume_at", .text (clock 60).isoText), ("seconds", .ofNat 60),
    ("next", .text "a")], clock 0⟩

/-- The step that follows from the first try. -/
def refusing : Step := sending.retry "busy" (clock 90)

/-- The intent to try the action again. -/
def reintent : Step := .intend (held retrying "w" 90) "a" .sendWhatsapp (clock 90)

theorem exchanges_run_created : Exchanges (keeping 0 (held created "w" 0))
    (.run (.loading "i1" "w")) [triggering, sleeping] [triggering, sleeping] (keeping 0 asleep)
    none := by
  refine .goesOn (.ok (held created "w" 0)) rfl
    (congrArg (Progress.map Call.run CallResult.left) (begin_created 0)) rfl rfl ?_
  refine .goesOn (.ok left) rfl rfl rfl rfl ?_
  refine .goesOn () (.inl rfl) (congrArg (Progress.map Call.run CallResult.left) proceed_left)
    rfl rfl ?_
  exact .goesOn (.ok asleep) rfl rfl rfl rfl (.ends () (.inl rfl) rfl rfl rfl)

theorem exchanges_run_asleep : Exchanges (keeping 60 (held asleep "w" 60))
    (.run (.loading "i1" "w")) [intent.entry] [intent.entry] (keeping 60 intending)
    (some (.run (.invoking sending))) := by
  refine .goesOn (.ok (held asleep "w" 60)) rfl
    (congrArg (Progress.map Call.run CallResult.left) begin_asleep) rfl rfl ?_
  refine .goesOn (.ok intending) rfl rfl rfl rfl ?_
  exact .goesOn () (.inl rfl) (congrArg (Progress.map Call.run CallResult.left) proceed_intending)
    rfl rfl (.waits _ _)

/-- The first try fails, and the failure is stored. -/
theorem exchanges_sending : Exchanges (keeping 60 intending) (.run (.invoking sending))
    [refusing.entry] [] (keeping 60 retrying) (some (.run (.recording retrying refusing.entry))) :=
  .goesOn busy rfl rfl rfl rfl (.goesOn (.ok retrying) rfl rfl rfl rfl (.waits _ _))

theorem exchanges_recording (seconds : Int) (i : Instance) :
    Exchanges (keeping seconds i) (.run (.recording retrying refusing.entry))
      [] [refusing.entry] (keeping seconds i) none :=
  .ends () (.inl rfl) rfl rfl rfl

theorem exchanges_run_retrying : Exchanges (keeping 90 (held retrying "w" 90))
    (.run (.loading "i1" "w")) [reintent.entry] [reintent.entry] (keeping 90 again)
    (some (.run (.invoking resending))) := by
  refine .goesOn (.ok (held retrying "w" 90)) rfl
    (congrArg (Progress.map Call.run CallResult.left) begin_retrying) rfl rfl ?_
  refine .goesOn (.ok again) rfl rfl rfl rfl ?_
  exact .goesOn () (.inl rfl) (congrArg (Progress.map Call.run CallResult.left) proceed_again)
    rfl rfl (.waits _ _)

def halted : Instance :=
  { again with
    status := .cancelled
    owner := none
    completedAt := some (clock 90)
    version := .count 9 }

theorem exchanges_cancel : Exchanges (keeping 90 again) (.cancel (.loading "i1" none)) []
    [Cancel.entry halted .running none (clock 90)] (keeping 90 halted) none := by
  refine .goesOn (.ok again) rfl rfl rfl rfl ?_
  refine .goesOn (.ok halted) rfl rfl rfl rfl ?_
  exact .ends () (.inl rfl) rfl rfl rfl

/-- The step that follows from a success of the second try. -/
def achieving : Step :=
  { Step.advance resending.counted "a" none (clock 90) .actionSucceeded
      [("action", Choice.toValue ActionKind.sendWhatsapp), ("attempt", .int 2),
        ("result", .object [])] with invoked := true }

theorem exchanges_halted : Exchanges (keeping 90 halted) (.run (.invoking resending)) []
    [achieving.droppedEntry halted (clock 90)] (keeping 90 halted) none := by
  refine .goesOn (.result (.success [])) rfl rfl rfl rfl ?_
  refine .goesOn (.error _) rfl rfl rfl rfl ?_
  refine .goesOn (.ok halted) rfl rfl rfl rfl ?_
  exact .ends () (.inl rfl) rfl rfl rfl

theorem exchanges_finishing : Exchanges (keeping 90 again) (.run (.invoking resending))
    [achieving.entry] [achieving.entry] (keeping 90 finished) none := by
  refine .goesOn (.result (.success [])) rfl rfl rfl rfl ?_
  refine .goesOn (.ok finished) rfl rfl rfl rfl ?_
  exact .ends () (.inl rfl) rfl rfl rfl

theorem exchanges_sweep : Exchanges (keeping 961 intending)
    (.sweep (.listing (clock 661) (clock 61) 50)) [] [] (keeping 961 requeued) none := by
  refine .goesOn (.ok [intending]) listStale_intending rfl rfl rfl ?_
  exact .ends (.ok requeued) rfl rfl rfl rfl

/-- The step that follows from a success of the first try. -/
def delivering : Step :=
  { Step.advance sending.counted "a" none (clock 60) .actionSucceeded
      [("action", Choice.toValue ActionKind.sendWhatsapp), ("attempt", .int 1),
        ("result", .object [])] with invoked := true }

theorem exchanges_requeued : Exchanges (keeping 961 requeued) (.run (.invoking sending)) []
    [delivering.droppedEntry requeued (clock 961)] (keeping 961 requeued) none := by
  refine .goesOn (.result (.success [])) rfl rfl rfl rfl ?_
  refine .goesOn (.error _) rfl rfl rfl rfl ?_
  refine .goesOn (.ok requeued) rfl rfl rfl rfl ?_
  exact .ends () (.inl rfl) rfl rfl rfl

theorem exists_sleeping : ∃ s : System,
    s.IsBooked default (keeping 60 asleep) [triggering, sleeping] [triggering, sleeping] ∧
      s.calls = fun _ => none := by
  obtain ⟨s, hs, hidle⟩ := exists_held
  obtain ⟨s₁, hs₁, hcalls₁⟩ := hs.called (o := .run "i1" "w") rfl exchanges_run_created
  obtain ⟨s₂, hs₂, hcalls₂⟩ := hs₁.tick (clock 60)
  exact ⟨s₂, hs₂, (hcalls₂.trans hcalls₁).trans hidle⟩

/-- In some run the first try is being made. -/
theorem exists_trying : ∃ (s : System) (n : Nat),
    s.IsBooked default (keeping 60 intending) [triggering, sleeping, intent.entry]
      [triggering, sleeping, intent.entry] ∧
    s.calls = Function.update (fun _ => none) n (some (.asking (.run (.invoking sending)))) := by
  obtain ⟨s, hs, hidle⟩ := exists_sleeping
  obtain ⟨s₁, hs₁, hcalls₁⟩ :=
    hs.called (o := .poll "w" none none) rfl (exchanges_poll rfl rfl rfl)
  obtain ⟨s₂, hs₂, -, hcalls₂⟩ := hs₁.calls (o := .run "i1" "w") rfl exchanges_run_asleep
  rw [hcalls₁, hidle] at hcalls₂
  exact ⟨s₂, s₁.begun, hs₂, hcalls₂⟩

/-- In some run the first try has failed, and the entry for that is owed. -/
theorem exists_refused : ∃ (s : System) (n : Nat),
    s.IsBooked default (keeping 60 retrying) [triggering, sleeping, intent.entry, refusing.entry]
      [triggering, sleeping, intent.entry] ∧
    s.calls = Function.update (fun _ => none) n
      (some (.asking (.run (.recording retrying refusing.entry)))) := by
  obtain ⟨s, n, hs, hcalls⟩ := exists_trying
  obtain ⟨s₁, hs₁, -, hcalls₁⟩ :=
    hs.exchanges (n := n) (by rw [hcalls, Function.update_self]) exchanges_sending
  rw [hcalls, Function.update_idem] at hcalls₁
  exact ⟨s₁, n, hs₁, hcalls₁⟩

/-- The only call that goes on is served to its end. -/
theorem exists_over {s : System} {n : Nat} {c : Call} {e e' : Engine}
    {σ α σ' α' : List AuditEntry} (hs : s.IsBooked default e σ α)
    (hcalls : s.calls = Function.update (fun _ => none) n (some (.asking c)))
    (h : Exchanges e c σ' α' e' none) (hmemory : e'.store.isTable = false) :
    ∃ s' : System, s'.IsBooked default e' (σ ++ σ') (α ++ α') ∧ s'.IsRecorded default ∧
      s'.calls = fun _ => none := by
  obtain ⟨s', hs', -, hcalls'⟩ := hs.exchanges (n := n) (by rw [hcalls, Function.update_self]) h
  rw [hcalls, Function.update_idem] at hcalls'
  have hidle : s'.calls = fun _ => none := hcalls'.trans (Function.update_eq_self n _)
  exact ⟨s', hs', hs'.isRecorded hmemory hidle, hidle⟩

/-- In some run the action has failed once, which is shown as it is stored. -/
theorem exists_shown : ∃ s : System, s.IsRecorded default ∧ InOrder s.history "i1" "a" ∧
    (∀ entry, lastJudging "i1" "a" s.engine.trail = some entry →
      entry.detail.lookup "discarded" = none) ∧
    "a" ∈ (s.engine.shown "i1").failed ∧ System.ShowsProgress s "i1" "a" := by
  obtain ⟨s, n, hs, hcalls⟩ := exists_refused
  obtain ⟨s', hs', hrecorded, -⟩ := exists_over hs hcalls (exchanges_recording 60 retrying) rfl
  have hlast : lastJudging "i1" "a" s'.engine.trail = some refusing.entry := by
    rw [hs'.trail_eq, hs'.appended]
    rfl
  have horder : InOrder s'.history "i1" "a" := by
    refine hs'.reachable.inOrder_of_once ?_
    rw [hs'.settled]
    decide
  have hstands (entry : AuditEntry) (hentry : lastJudging "i1" "a" s'.engine.trail = some entry) :
      entry.detail.lookup "discarded" = none := by
    obtain rfl := Option.some.inj (hlast.symm.trans hentry)
    rfl
  exact ⟨s', hrecorded, horder, hstands, Engine.mem_failed_iff.mpr ⟨_, hlast, rfl⟩,
    hrecorded.showsProgress horder hstands⟩

/-- In some run the instance is cancelled while the second try is being made. -/
theorem exists_halted : ∃ s : System, s.IsRecorded default ∧ s.IsBooked default (keeping 90 halted)
    [triggering, sleeping, intent.entry, refusing.entry, reintent.entry]
    [triggering, sleeping, intent.entry, refusing.entry, reintent.entry,
      Cancel.entry halted .running none (clock 90), achieving.droppedEntry halted (clock 90)] := by
  obtain ⟨s, n, hs, hcalls⟩ := exists_refused
  obtain ⟨s₁, hs₁, -, hidle₁⟩ := exists_over hs hcalls (exchanges_recording 60 retrying) rfl
  obtain ⟨s₂, hs₂, hcalls₂⟩ := hs₁.tick (clock 90)
  obtain ⟨s₃, hs₃, hcalls₃⟩ :=
    hs₂.called (o := .poll "w" none none) rfl (exchanges_poll rfl rfl rfl)
  obtain ⟨s₄, hs₄, -, hcalls₄⟩ := hs₃.calls (o := .run "i1" "w") rfl exchanges_run_retrying
  obtain ⟨s₅, hs₅, hcalls₅⟩ := hs₄.called (o := .cancel "i1" none) rfl exchanges_cancel
  rw [hcalls₄, hcalls₃, hcalls₂, hidle₁] at hcalls₅
  obtain ⟨s₆, hs₆, hrecorded, -⟩ := exists_over hs₅ hcalls₅ exchanges_halted rfl
  exact ⟨s₆, hrecorded, hs₆⟩

/-- In some run the instance is released while the first try is being made. -/
theorem exists_released : ∃ s : System, s.IsRecorded default ∧
    s.IsBooked default (keeping 961 requeued) [triggering, sleeping, intent.entry]
      [triggering, sleeping, intent.entry, delivering.droppedEntry requeued (clock 961)] := by
  obtain ⟨s, n, hs, hcalls⟩ := exists_trying
  obtain ⟨s₁, hs₁, hcalls₁⟩ := hs.tick (clock 961)
  obtain ⟨s₂, hs₂, hcalls₂⟩ := hs₁.called (o := .sweep none none) start_sweep exchanges_sweep
  obtain ⟨s₃, hs₃, hrecorded, -⟩ :=
    exists_over hs₂ ((hcalls₂.trans hcalls₁).trans hcalls) exchanges_requeued rfl
  exact ⟨s₃, hrecorded, hs₃⟩

/-- In some run the failure of the first try is recorded after the success of the second one. -/
theorem exists_recorded_late : ∃ s : System, s.IsRecorded default ∧
    s.IsBooked default (keeping 90 finished)
      [triggering, sleeping, intent.entry, refusing.entry, reintent.entry, achieving.entry]
      [triggering, sleeping, intent.entry, reintent.entry, achieving.entry, refusing.entry] := by
  obtain ⟨s, n, hs, hcalls⟩ := exists_refused
  obtain ⟨s₁, hs₁, hcalls₁⟩ := hs.tick (clock 90)
  obtain ⟨s₂, hs₂, hcalls₂⟩ :=
    hs₁.called (o := .poll "w" none none) rfl (exchanges_poll rfl rfl rfl)
  obtain ⟨s₃, hs₃, hcalls₃⟩ := hs₂.called (o := .run "i1" "w") rfl
    (exchanges_run_retrying.trans exchanges_finishing)
  obtain ⟨s₄, hs₄, hrecorded, -⟩ :=
    exists_over hs₃ (((hcalls₃.trans hcalls₂).trans hcalls₁).trans hcalls)
      (exchanges_recording 90 finished) rfl
  exact ⟨s₄, hrecorded, hs₄⟩

/-- A failure is shown although an intent was stored after it, a success although it was discarded,
and a failure although a success was stored after it, when it was recorded late. -/
theorem exists_misshown :
    (∃ s : System, s.IsRecorded default ∧ "a" ∈ (s.engine.shown "i1").failed ∧ ∃ entry,
      ((s.history.filterMap Moment.settled?).filter fun entry =>
        entry.instanceId == "i1" && entry.node == some "a").getLast? = some entry ∧
      entry.outcome = .actionDispatched) ∧
    (∃ s : System, s.IsRecorded default ∧ "a" ∈ (s.engine.shown "i1").completed ∧
      ¬ Passed s.history "i1" "a") ∧
    ∃ s : System, s.IsRecorded default ∧ "a" ∈ (s.engine.shown "i1").failed ∧
      Passed s.history "i1" "a" := by
  refine ⟨?_, ?_, ?_⟩
  · obtain ⟨s, hrecorded, hs⟩ := exists_halted
    refine ⟨s, hrecorded, Engine.mem_failed_iff.mpr ⟨refusing.entry, ?_, rfl⟩, reintent.entry, ?_,
      rfl⟩
    · rw [hs.trail_eq, hs.appended]
      rfl
    · rw [hs.settled]
      rfl
  · obtain ⟨s, hrecorded, hs⟩ := exists_released
    refine ⟨s, hrecorded, Engine.mem_completed_iff.mpr
      ⟨delivering.droppedEntry requeued (clock 961), ?_, rfl⟩, ?_⟩
    · rw [hs.trail_eq, hs.appended]
      rfl
    · rw [hs.reachable.passed_iff hrecorded.named hrecorded.column, hs.settled]
      rintro ⟨entry, hentry, -⟩
      cases hentry
  · obtain ⟨s, hrecorded, hs⟩ := exists_recorded_late
    refine ⟨s, hrecorded, Engine.mem_failed_iff.mpr ⟨refusing.entry, ?_, rfl⟩,
      (hs.reachable.passed_iff hrecorded.named hrecorded.column).mpr ⟨achieving.entry, ?_, rfl⟩⟩
    · rw [hs.trail_eq, hs.appended]
      rfl
    · rw [hs.settled]
      rfl

end Sample
end WorkflowEngine

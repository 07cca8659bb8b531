import WorkflowEngine.Proofs.System.Undisturbed

/-!
# Listings of instances

An instance that has not ended is due from some time on, or is stale from some time on, so that a
worker or a sweep finds it. In memory the due instances are found only if their times can be
compared with one another.
-/
namespace WorkflowEngine

namespace Store

/-- From its time on, an instance is in every listing of due instances that has room for all, if in
memory their times can be compared. -/
def FindsDue (s : Store) (i : Instance) : Prop :=
  ∀ now limit, i.resumeAt.all (· ≤ now) = true → s.HasRoom limit →
    (∀ t, s = memory t →
      Instance.areComparable (s.instances.filter (Instance.isDue now)) = true) →
    ∃ due, s.listDue now limit = .ok due ∧ i ∈ due

/-- After its last write, an instance is in every listing of stale instances that has room for
all. -/
def FindsStale (s : Store) (i : Instance) : Prop :=
  ∀ before limit, i.updatedAt < before → s.HasRoom limit →
    ∃ stale, s.listStale before limit = .ok stale ∧ i ∈ stale

/-- What nobody holds and has not ended is found from its time on. -/
theorem findsDue_of_free {s : Store} {id : InstanceId} {i : Instance} (hfound : s.find? id = some i)
    (hlive : i.isTerminal = false) (hfree : i.owner = none) : s.FindsDue i := by
  intro now limit htime hroom hcomparable
  have hdue : i.isDue now = true := by simp [Instance.isDue, hlive, hfree, htime]
  exact mem_listDue (Instance.mem_of_find? hfound) hdue hroom hcomparable

/-- An instance that has not ended is found by one of the listings. -/
theorem finds_of_consistent {s : Store} {p : Plan} {id : InstanceId} {i : Instance}
    (hfound : s.find? id = some i) (hi : i.Consistent p) (hlive : i.isTerminal = false) :
    s.FindsDue i ∨ s.FindsStale i := by
  cases howner : i.owner with
  | none => exact .inl (findsDue_of_free hfound hlive howner)
  | some worker =>
    refine .inr fun before limit htime hroom => ?_
    have hrunning : i.status = .running := hi.owned (by simp [howner])
    have hstale : i.isStale before = true := by simp [Instance.isStale, hrunning, howner, htime]
    exact mem_listStale (Instance.mem_of_find? hfound) hstale hroom

end Store

namespace System

variable {config : EngineConfig} {s : System} {id : InstanceId} {i : Instance}

end System

namespace Sample

/-- A second instance of the event, which is due at once. -/
def second : Instance := { event.draft plan (clock 60) with id := "i2" }

theorem alone_emit_second :
    Alone (keeping 60 asleep) (.emit ⟨event.draft plan (clock 60)⟩)
      (engine 60 ⟨[asleep, second], [], 2⟩) :=
  .ends (.ok (second, true)) rfl rfl

end Sample
end WorkflowEngine

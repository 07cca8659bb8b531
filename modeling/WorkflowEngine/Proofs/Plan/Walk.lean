import Mathlib.Data.List.Chain
import Mathlib.Data.List.Destutter
import WorkflowEngine.Proofs.Visit.Stepped

/-!
# Walks through plans

The walk of a plan with the data of an event starts at the trigger, takes the branches that the data
selects, and stops where nothing follows. It never comes to a node twice.
-/
namespace WorkflowEngine

namespace Plan

variable {p : Plan} {context : Record} {a b : String}

/-- One node is followed by another with the data of an event. -/
def GoesOn (p : Plan) (context : Record) (a b : String) : Prop :=
  ∃ n, p.node? a = some n ∧ n.step.exit context = .ok (some b)

def EndsAt (p : Plan) (context : Record) (a : String) : Prop :=
  ∃ n, p.node? a = some n ∧ n.step.exit context = .ok none

/-- The nodes that are visited with the data of an event, up to one that nothing follows. -/
structure IsWalk (p : Plan) (context : Record) (walk : List String) : Prop where
  head : walk.head? = some p.triggerId
  chain : walk.IsChain (p.GoesOn context)
  last : ∀ a, walk.getLast? = some a → ∀ b, ¬ p.GoesOn context a b

theorem GoesOn.leads (h : p.GoesOn context a b) : p.Leads a b := by
  obtain ⟨n, hnode, hexit⟩ := h
  exact ⟨n, hnode, PlanStep.mem_successors hexit⟩

theorem GoesOn.unique {c : String} (hb : p.GoesOn context a b) (hc : p.GoesOn context a c) :
    b = c := by
  obtain ⟨n, hnode, hb⟩ := hb
  obtain ⟨m, hm, hc⟩ := hc
  obtain rfl := Option.some.inj (hnode.symm.trans hm)
  exact Option.some.inj (Except.ok.inj (hb.symm.trans hc))

theorem EndsAt.not_goesOn (ha : p.EndsAt context a) : ¬ p.GoesOn context a b := by
  rintro ⟨n, hnode, hexit⟩
  obtain ⟨m, hm, hnone⟩ := ha
  obtain rfl := Option.some.inj (hnode.symm.trans hm)
  cases hexit.symm.trans hnone

theorem nodup_of_chain (hp : p.IsRunnable) {l : List String}
    (hl : l.IsChain (p.GoesOn context)) : l.Nodup := by
  have hchain : l.IsChain (Relation.TransGen p.Leads) :=
    hl.imp fun _ _ h => .single h.leads
  refine (List.isChain_iff_pairwise.mp hchain).imp fun {a b} hab heq => ?_
  subst heq
  exact hp.not_transGen_self a hab

/-- From each node the walk comes to an end. -/
theorem exists_rest (hp : p.IsRunnable) (context : Record) (a : String) :
    ∃ rest, (a :: rest).IsChain (p.GoesOn context) ∧
      ∀ c, (a :: rest).getLast? = some c → ∀ b, ¬ p.GoesOn context c b := by
  induction a using hp.wellFounded.induction with
  | _ a ih =>
    by_cases h : ∃ b, p.GoesOn context a b
    · obtain ⟨b, hab⟩ := h
      obtain ⟨rest, hchain, hlast⟩ := ih b hab.leads
      refine ⟨b :: rest, .cons_cons hab hchain, ?_⟩
      rwa [List.getLast?_cons_cons]
    · refine ⟨[], .singleton a, fun c hc b hcb => h ⟨b, ?_⟩⟩
      obtain rfl : a = c := by simpa using hc
      exact hcb

/-- Every way from the trigger is the beginning of a walk. -/
theorem exists_isWalk (hp : p.IsRunnable) {l : List String} (a : String)
    (hhead : (l ++ [a]).head? = some p.triggerId)
    (hchain : (l ++ [a]).IsChain (p.GoesOn context)) :
    ∃ walk, p.IsWalk context walk ∧ l ++ [a] <+: walk := by
  obtain ⟨rest, hrest, hlast⟩ := exists_rest hp context a
  have hsplit : l ++ [a] ++ rest = l ++ a :: rest := by simp
  refine ⟨l ++ [a] ++ rest, ⟨?_, ?_, ?_⟩, List.prefix_append _ _⟩
  · rw [List.head?_append_of_ne_nil _ (by simp)]
    exact hhead
  · rw [hsplit]
    exact List.isChain_split.mpr ⟨hchain, hrest⟩
  · intro c hc
    rw [hsplit, List.getLast?_append_of_ne_nil _ (by simp)] at hc
    exact hlast c hc

theorem exists_walk (hp : p.IsRunnable) (context : Record) : ∃ walk, p.IsWalk context walk := by
  obtain ⟨walk, hwalk, -⟩ := exists_isWalk hp (l := []) p.triggerId rfl (.singleton _)
  exact ⟨walk, hwalk⟩

theorem rest_unique {l l' : List String}
    (hl : (a :: l).IsChain (p.GoesOn context)) (hl' : (a :: l').IsChain (p.GoesOn context))
    (hlast : ∀ c, (a :: l).getLast? = some c → ∀ b, ¬ p.GoesOn context c b)
    (hlast' : ∀ c, (a :: l').getLast? = some c → ∀ b, ¬ p.GoesOn context c b) : l = l' := by
  induction l generalizing a l' with
  | nil =>
    cases l' with
    | nil => rfl
    | cons b l' => exact absurd (List.isChain_cons_cons.mp hl').1 (hlast a rfl b)
  | cons b l ih =>
    obtain ⟨hab, hl⟩ := List.isChain_cons_cons.mp hl
    cases l' with
    | nil => exact absurd hab (hlast' a rfl b)
    | cons c l' =>
      obtain ⟨hac, hl'⟩ := List.isChain_cons_cons.mp hl'
      obtain rfl := hab.unique hac
      rw [List.getLast?_cons_cons] at hlast hlast'
      rw [ih hl hl' hlast hlast']

/-- A plan has one walk with the data of an event. -/
theorem IsWalk.unique {walk walk' : List String} (hw : p.IsWalk context walk)
    (hw' : p.IsWalk context walk') : walk = walk' := by
  obtain ⟨l, rfl⟩ := List.head?_eq_some_iff.mp hw.head
  obtain ⟨l', rfl⟩ := List.head?_eq_some_iff.mp hw'.head
  rw [rest_unique hw.chain hw'.chain hw.last hw'.last]

end Plan
end WorkflowEngine

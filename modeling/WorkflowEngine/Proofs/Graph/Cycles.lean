import WorkflowEngine.Proofs.Graph.Colouring
import WorkflowEngine.Proofs.Graph.Found
import WorkflowEngine.Proofs.Graph.Traversal

/-!
# Cycles

The search from every node reports edges that lie on cycles, and one at least of every cycle, so
that nothing leads round once they are gone. It is meant for any table of edges, with parallel edges
and edges from a node to itself.
-/
namespace WorkflowEngine.Search

open Relation

variable {α ε : Type}

/-- A table that lists every edge at the node that it leaves, for some nodes without repetition. -/
structure IsTable (source : ε → α) (outgoing : α → List ε) (nodes : List α) : Prop where
  nodup : nodes.Nodup
  source : ∀ a, ∀ e ∈ outgoing a, source e = a
  nodes : ∀ a, a ∉ nodes → outgoing a = []

/-- Edges of a table each of which goes on where the one before it ends, the first where the last
one ends. -/
structure IsCycle (source target : ε → α) (outgoing : α → List ε) (cycle : List ε) : Prop where
  listed : ∀ e ∈ cycle, e ∈ outgoing (source e)
  joined : cycle.IsChain fun d e => target d = source e
  closed : ∃ first ∈ cycle.head?, ∃ last ∈ cycle.getLast?, target last = source first

/-- What a search for cycles is to report. -/
structure FindsCycles [DecidableEq α] (source target : ε → α) (outgoing : α → List ε)
    (nodes : List α) (reported : List ε) : Prop where
  /-- Run step by step the search ends, after two steps for each node and one for each edge, having
  tried every edge once, and this is what it reports. -/
  ends : ∃ t, Colouring.Steps target outgoing (2 * nodes.length + (nodes.flatMap outgoing).length)
      (.start nodes) t ∧
    t.next? target outgoing = none ∧ t.tried.Perm (nodes.flatMap outgoing) ∧ t.reported = reported
  /-- Every edge that is reported lies on a cycle. -/
  onCycles : ∀ e ∈ reported, ∃ cycle, IsCycle source target outgoing cycle ∧ e ∈ cycle
  /-- An edge of every cycle is reported. -/
  ofAll : ∀ cycle, IsCycle source target outgoing cycle → ∃ e ∈ cycle, e ∈ reported
  /-- Nothing leads round without two nodes that are the ends of a reported edge. -/
  breaks : ∀ a, ¬ TransGen (fun a b => (∃ e ∈ outgoing a, target e = b) ∧
    (a, b) ∉ reported.map fun e => (source e, target e)) a a
  acyclic : reported = [] ↔ ∀ cycle, ¬ IsCycle source target outgoing cycle

section Walks

variable {source target : ε → α} {outgoing : α → List ε} {a b : α} {e : ε}

/-- An edge that ends where a path begins goes on along the path. -/
theorem exists_walk (hsource : ∀ a, ∀ e ∈ outgoing a, source e = a)
    (h : ReflTransGen (Below target outgoing) a b) (he : target e = b) :
    ∃ walk, (∀ d ∈ walk, d ∈ outgoing (source d)) ∧
      (e :: walk).IsChain (fun d e => target d = source e) ∧
      ∃ last ∈ (e :: walk).getLast?, target last = a := by
  induction h generalizing e with
  | refl => exact ⟨[], by simp, List.isChain_singleton e, e, rfl, he⟩
  | @tail c b _ hbelow ih =>
    obtain ⟨f, hf, hfc⟩ := hbelow
    have hfb := hsource b f hf
    obtain ⟨walk, hlisted, hjoined, hlast⟩ := ih hfc
    refine ⟨f :: walk, ?_, List.isChain_cons_cons.mpr ⟨he.trans hfb.symm, hjoined⟩, ?_⟩
    · intro d hd
      rcases List.mem_cons.mp hd with rfl | hd
      · rwa [hfb]
      · exact hlisted d hd
    · rwa [List.getLast?_cons_cons]

/-- An edge of a table that ends where a path to its source begins lies on a cycle. -/
theorem exists_cycle (hsource : ∀ a, ∀ e ∈ outgoing a, source e = a) (he : e ∈ outgoing a)
    (h : ReflTransGen (Below target outgoing) a (target e)) :
    ∃ cycle, IsCycle source target outgoing cycle ∧ e ∈ cycle := by
  obtain ⟨walk, hlisted, hjoined, last, hlast, htarget⟩ := exists_walk hsource h rfl
  have hea := hsource a e he
  refine ⟨e :: walk, ⟨fun d hd => ?_, hjoined, e, rfl, last, hlast, htarget.trans hea.symm⟩,
    List.mem_cons_self⟩
  rcases List.mem_cons.mp hd with rfl | hd
  · rwa [hea]
  · exact hlisted d hd

theorem transGen_of_walk {first last : ε} {walk : List ε}
    (hlisted : ∀ e ∈ first :: walk, e ∈ outgoing (source e))
    (hjoined : (first :: walk).IsChain fun d e => target d = source e)
    (hlast : last ∈ (first :: walk).getLast?) :
    TransGen (Below target outgoing) (target last) (source first) := by
  induction walk generalizing first with
  | nil =>
    obtain rfl : first = last := by simpa using hlast
    exact .single ⟨first, hlisted first List.mem_cons_self, rfl⟩
  | cons second walk ih =>
    obtain ⟨hnext, hjoined⟩ := List.isChain_cons_cons.mp hjoined
    rw [List.getLast?_cons_cons] at hlast
    have hrest := ih (fun e he => hlisted e (List.mem_cons_of_mem _ he)) hjoined hlast
    rw [← hnext] at hrest
    exact hrest.tail ⟨first, hlisted first List.mem_cons_self, rfl⟩

/-- A cycle leads from a node back to it, along edges of any table that has all of its edges. -/
theorem IsCycle.exists_transGen {kept : α → List ε} {cycle : List ε}
    (h : IsCycle source target outgoing cycle) (hkept : ∀ e ∈ cycle, e ∈ kept (source e)) :
    ∃ a, TransGen (Below target kept) a a := by
  obtain ⟨first, hfirst, last, hlast, hclosed⟩ := h.closed
  obtain ⟨walk, rfl⟩ : ∃ walk, cycle = first :: walk := List.head?_eq_some_iff.mp hfirst
  have hround := transGen_of_walk hkept h.joined hlast
  rw [hclosed] at hround
  exact ⟨_, hround⟩

end Walks

/-- A search from every node finds the cycles of a table. -/
theorem findsCycles_backEdges [DecidableEq α] {source target : ε → α} {outgoing : α → List ε}
    {nodes : List α} (h : IsTable source outgoing nodes) :
    FindsCycles source target outgoing nodes (backEdges target outgoing nodes []) := by
  classical
  -- What is left of the table without the edges that are reported leads nowhere round.
  let kept (a : α) := (outgoing a).filter fun e => e ∉ backEdges target outgoing nodes []
  have hkept : WellFounded (Below target kept) :=
    wellFounded_of_backEdges h.nodes (fun _ => List.filter_sublist.subset)
      fun a e he => by simpa using (List.mem_filter.mp he).2
  have hround (a : α) : ¬ TransGen (Below target kept) a a := hkept.transGen.irrefl.irrefl a
  have onCycles : ∀ e ∈ backEdges target outgoing nodes [],
      ∃ cycle, IsCycle source target outgoing cycle ∧ e ∈ cycle := by
    intro e he
    obtain ⟨a, hout, hpath⟩ := reflTransGen_of_mem_backEdges (.idle h.nodup) he
    exact exists_cycle h.source hout hpath
  have ofAll : ∀ cycle, IsCycle source target outgoing cycle →
      ∃ e ∈ cycle, e ∈ backEdges target outgoing nodes [] := by
    intro cycle hcycle
    by_contra hnone
    push Not at hnone
    have hspared : ∀ e ∈ cycle, e ∈ kept (source e) := fun e he =>
      List.mem_filter.mpr ⟨hcycle.listed e he, by simpa using hnone e he⟩
    obtain ⟨a, ha⟩ := hcycle.exists_transGen hspared
    exact hround a ha
  refine ⟨Colouring.ends_start h.nodup, onCycles, ofAll, fun a ha => hround a ?_, ?_, ?_⟩
  · refine transGen_swap.mp (TransGen.mono (fun b c => ?_) a a ha)
    rintro ⟨⟨e, he, rfl⟩, hspared⟩
    refine ⟨e, List.mem_filter.mpr ⟨he, ?_⟩, rfl⟩
    rw [decide_eq_true_iff]
    exact fun hreported => hspared (List.mem_map.mpr ⟨e, hreported, by rw [h.source b e he]⟩)
  · intro hnil cycle hcycle
    obtain ⟨e, -, he⟩ := ofAll cycle hcycle
    simp [hnil] at he
  · intro hnone
    refine List.eq_nil_iff_forall_not_mem.mpr fun e he => ?_
    obtain ⟨cycle, hcycle, -⟩ := onCycles e he
    exact hnone cycle hcycle

end WorkflowEngine.Search

namespace WorkflowEngine

/-- The edges that can be followed are a table of the nodes of a graph. -/
theorem Graph.isTable_outgoing (g : Graph) : Search.IsTable Edge.source g.outgoing g.ids where
  nodup := nodup_ids
  source _ _ he := (isUsable_of_mem_outgoing he).2
  nodes _ := outgoing_eq_nil

namespace Sample

/-- Two edges from one node to the next, one back, one from that node to itself, and one that leads
on. -/
def tangled : Graph where
  id := "g"
  name := ""
  version := "1"
  nodes := ["a", "b", "c"].map fun id => ⟨id, "", .delay 1 none⟩
  edges := [⟨"a", "b", none⟩, ⟨"b", "a", none⟩, ⟨"a", "b", none⟩, ⟨"b", "b", none⟩,
    ⟨"b", "c", none⟩]
  enabled := true
  description := ""

theorem findsCycles_tangled :
    tangled.cycleDefects = [.cycle ⟨"b", "a", none⟩, .cycle ⟨"b", "b", none⟩] ∧
      Search.IsTable Edge.source tangled.outgoing tangled.ids ∧
      Search.FindsCycles Edge.source Edge.target tangled.outgoing tangled.ids
        [⟨"b", "a", none⟩, ⟨"b", "b", none⟩] := by
  have hfound : Search.backEdges Edge.target tangled.outgoing tangled.ids [] =
      [⟨"b", "a", none⟩, ⟨"b", "b", none⟩] := by
    cbv
  have htable := tangled.isTable_outgoing
  refine ⟨by rw [Graph.cycleDefects, hfound]; rfl, htable, ?_⟩
  rw [← hfound]
  exact Search.findsCycles_backEdges htable

end Sample

end WorkflowEngine

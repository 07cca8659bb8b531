import Mathlib.Data.List.Nodup
import Mathlib.Logic.Function.Basic
import WorkflowEngine.Graph.Search

/-!
# Searches that colour the nodes

The search for edges that lead back can also be run one step at a time, with a colour for each node:
white before the node is entered, grey while the search stands in it, black once it has been left.
Each step takes something off what is left to be done, so that the number of steps is known
beforehand. The search ends having tried every edge once, and reports what `backEdges` lists.
-/
namespace WorkflowEngine.Search

variable {α ε : Type}

inductive Colour where
  | white
  | grey
  | black
  deriving DecidableEq, Repr

/-- The state of a search that colours the nodes. -/
structure Colouring (α ε : Type) where
  colour : α → Colour
  /-- The nodes from which the search is still to be started, unless it has been there by then. -/
  roots : List α
  /-- The nodes in which the search stands, each with the edges still to be tried. -/
  stack : List (α × List ε)
  tried : List ε
  reported : List ε

variable [DecidableEq α] {target : ε → α} {outgoing : α → List ε}

section Equations

variable {fresh : List α} {stack : List (α × List ε)} {a : α} {e : ε} {es : List ε}

theorem backEdges_restart : backEdges target outgoing (a :: fresh) [] =
    backEdges target outgoing fresh [(a, outgoing a)] := by
  rw [backEdges]

theorem backEdges_leave : backEdges target outgoing fresh ((a, []) :: stack) =
    backEdges target outgoing fresh stack := by
  rw [backEdges]

theorem backEdges_report (he : target e ∈ a :: stack.map (·.1)) :
    backEdges target outgoing fresh ((a, e :: es) :: stack) =
      e :: backEdges target outgoing fresh ((a, es) :: stack) := by
  rw [backEdges, if_pos (List.mem_cons.mp he)]

theorem backEdges_enter (he : target e ∉ a :: stack.map (·.1)) (hfresh : target e ∈ fresh) :
    backEdges target outgoing fresh ((a, e :: es) :: stack) =
      backEdges target outgoing (fresh.erase (target e))
        ((target e, outgoing (target e)) :: (a, es) :: stack) := by
  rw [backEdges, if_neg (mt List.mem_cons.mpr he), if_pos hfresh]

theorem backEdges_pass (he : target e ∉ a :: stack.map (·.1)) (hfresh : target e ∉ fresh) :
    backEdges target outgoing fresh ((a, e :: es) :: stack) =
      backEdges target outgoing fresh ((a, es) :: stack) := by
  rw [backEdges, if_neg (mt List.mem_cons.mpr he), if_neg hfresh]

end Equations

namespace Colouring

/-- Before the search all nodes are white; what is no node counts as black. -/
def start (nodes : List α) : Colouring α ε where
  colour a := if a ∈ nodes then .white else .black
  roots := nodes
  stack := []
  tried := []
  reported := []

def paint (s : Colouring α ε) (a : α) (c : Colour) : Colouring α ε :=
  { s with colour := Function.update s.colour a c }

/-- One step of the search; there is none when it has ended. -/
def next? (target : ε → α) (outgoing : α → List ε) (s : Colouring α ε) :
    Option (Colouring α ε) :=
  match s.stack, s.roots with
  | [], [] => none
  | [], root :: roots =>
    match s.colour root with
    | .white => some { s.paint root .grey with roots, stack := [(root, outgoing root)] }
    | .grey | .black => some { s with roots }
  | (a, []) :: stack, _ => some { s.paint a .black with stack }
  | (a, e :: es) :: stack, _ =>
    let s := { s with tried := s.tried ++ [e], stack := (a, es) :: stack }
    match s.colour (target e) with
    | .white =>
      some { s.paint (target e) .grey with stack := (target e, outgoing (target e)) :: s.stack }
    | .grey => some { s with reported := s.reported ++ [e] }
    | .black => some s

/-- A number of steps that lead from one state to another. -/
inductive Steps (target : ε → α) (outgoing : α → List ε) :
    Nat → Colouring α ε → Colouring α ε → Prop
  | none (s : Colouring α ε) : Steps target outgoing 0 s s
  | next {n : Nat} {s t u : Colouring α ε} (hnext : s.next? target outgoing = some t)
      (hrest : Steps target outgoing n t u) : Steps target outgoing (n + 1) s u

/-- Only a node that is still to be started from can be white, and just the nodes in which the
search stands are grey. -/
structure IsSound (s : Colouring α ε) : Prop where
  roots : s.roots.Nodup
  stack : (s.stack.map (·.1)).Nodup
  white : ∀ a, s.colour a = .white → a ∈ s.roots
  grey : ∀ a, s.colour a = .grey ↔ a ∈ s.stack.map (·.1)

/-- The nodes that the search has not entered. -/
def fresh (s : Colouring α ε) : List α := s.roots.filter fun a => s.colour a = .white

/-- The edges that are still to be tried. -/
def pending (outgoing : α → List ε) (s : Colouring α ε) : List ε :=
  s.stack.flatMap (·.2) ++ s.fresh.flatMap outgoing

/-- The number of steps that are still to be made: one for each root, for each node that is still to
be left and for each edge that is still to be tried. -/
def remaining (outgoing : α → List ε) (s : Colouring α ε) : Nat :=
  s.roots.length + s.fresh.length + s.stack.length + (s.pending outgoing).length

/-- What one step does: it counts as one, it keeps the edges that are tried in the end, and what is
reported in the end. -/
structure Progress (target : ε → α) (outgoing : α → List ε) (s t : Colouring α ε) : Prop where
  sound : t.IsSound
  remaining : t.remaining outgoing + 1 = s.remaining outgoing
  tried : (t.tried ++ t.pending outgoing).Perm (s.tried ++ s.pending outgoing)
  reported : t.reported ++ backEdges target outgoing t.fresh t.stack =
    s.reported ++ backEdges target outgoing s.fresh s.stack

section Paint

variable {s : Colouring α ε} {a b : α} {c : Colour}

theorem paint_eq_white_iff (hc : c ≠ .white) :
    (s.paint a c).colour b = .white ↔ b ≠ a ∧ s.colour b = .white := by
  by_cases hb : b = a <;> simp [paint, hb, hc]

theorem paint_grey_eq_grey_iff :
    (s.paint a .grey).colour b = .grey ↔ b = a ∨ s.colour b = .grey := by
  by_cases hb : b = a <;> simp [paint, hb]

theorem paint_black_eq_grey_iff :
    (s.paint a .black).colour b = .grey ↔ b ≠ a ∧ s.colour b = .grey := by
  by_cases hb : b = a <;> simp [paint, hb]

end Paint

section Fresh

variable {colour : α → Colour} {nodes : List α} {a : α}

theorem filter_white_update_grey (hnodes : nodes.Nodup) :
    (nodes.filter fun b => Function.update colour a .grey b = .white) =
      (nodes.filter fun b => colour b = .white).erase a := by
  rw [(hnodes.filter _).erase_eq_filter, List.filter_filter]
  apply List.filter_congr
  intro b _
  by_cases hb : b = a <;> simp [hb]

theorem filter_white_update_of_ne {c : Colour} (ha : colour a ≠ .white) (hc : c ≠ .white) :
    (nodes.filter fun b => Function.update colour a c b = .white) =
      nodes.filter fun b => colour b = .white := by
  apply List.filter_congr
  intro b _
  by_cases hb : b = a
  · rw [hb, Function.update_self, decide_eq_false ha, decide_eq_false hc]
  · rw [Function.update_of_ne hb]

end Fresh

section Moves

variable {s : Colouring α ε} {a root : α} {e : ε} {es : List ε} {roots : List α}
  {stack : List (α × List ε)}

omit [DecidableEq α] in
theorem mem_fresh_iff (h : s.IsSound) : a ∈ s.fresh ↔ s.colour a = .white := by
  simp only [fresh, List.mem_filter, decide_eq_true_eq, and_iff_right_iff_imp]
  exact h.white a

theorem progress_restart (h : s.IsSound) (hstack : s.stack = []) (hroots : s.roots = root :: roots)
    (hroot : s.colour root = .white) : Progress target outgoing s
      { s.paint root .grey with roots, stack := [(root, outgoing root)] } := by
  have hnodup := h.roots
  rw [hroots, List.nodup_cons] at hnodup
  set t : Colouring α ε := { s.paint root .grey with roots, stack := [(root, outgoing root)] }
  have hroots' : t.roots = roots := rfl
  have hstack' : t.stack = [(root, outgoing root)] := rfl
  have hfresh : s.fresh = root :: t.fresh := by
    have herase : (roots.filter fun b => Function.update s.colour root .grey b = .white) =
        (roots.filter fun b => s.colour b = .white).erase root :=
      filter_white_update_grey hnodup.2
    rw [List.erase_of_not_mem fun hmem => hnodup.1 (List.mem_of_mem_filter hmem)] at herase
    rw [fresh, hroots, List.filter_cons_of_pos (by simpa using hroot), ← herase]
    rfl
  refine ⟨⟨hnodup.2, by simp [hstack'], fun b hb => ?_, fun b => ?_⟩, ?_, ?_, ?_⟩
  · obtain ⟨hne, hb⟩ := (paint_eq_white_iff (by decide)).mp hb
    have hwhite := h.white b hb
    rw [hroots, List.mem_cons] at hwhite
    exact hwhite.resolve_left hne
  · refine paint_grey_eq_grey_iff.trans ?_
    rw [h.grey, hstack, hstack']
    simp
  · simp only [remaining, pending, hstack, hroots, hfresh, hroots', hstack', List.length_append,
      List.length_cons, List.length_nil, List.flatMap_cons, List.flatMap_nil]
    omega
  · simp [pending, hstack, hfresh, t, paint]
  · rw [hstack, hfresh, backEdges_restart]
    rfl

theorem progress_skip (h : s.IsSound) (hroots : s.roots = root :: roots)
    (hroot : s.colour root ≠ .white) : Progress target outgoing s { s with roots } := by
  have hnodup := h.roots
  rw [hroots, List.nodup_cons] at hnodup
  have hfresh : s.fresh = fresh { s with roots } := by
    rw [fresh, hroots, List.filter_cons_of_neg (by simpa using hroot)]
    rfl
  refine ⟨⟨hnodup.2, h.stack, fun b hb => ?_, h.grey⟩, ?_, ?_, ?_⟩
  · have hwhite := h.white b hb
    rw [hroots, List.mem_cons] at hwhite
    exact hwhite.resolve_left fun heq => hroot (heq ▸ hb)
  · simp only [remaining, pending, hroots, hfresh, List.length_cons]
    omega
  · simp only [pending, hfresh, List.Perm.refl]
  · rw [hfresh]

theorem progress_leave (h : s.IsSound) (hstack : s.stack = (a, []) :: stack) :
    Progress target outgoing s { s.paint a .black with stack } := by
  have hnodup := h.stack
  rw [hstack, List.map_cons, List.nodup_cons] at hnodup
  have hgrey : s.colour a = .grey := (h.grey a).mpr (by simp [hstack])
  set t : Colouring α ε := { s.paint a .black with stack }
  have hstack' : t.stack = stack := rfl
  have hfresh : t.fresh = s.fresh :=
    filter_white_update_of_ne (by simp [hgrey]) (by simp)
  refine ⟨⟨h.roots, hnodup.2, fun b hb => ?_, fun b => ?_⟩, ?_, ?_, ?_⟩
  · exact h.white b ((paint_eq_white_iff (by decide)).mp hb).2
  · refine paint_black_eq_grey_iff.trans ?_
    rw [h.grey, hstack, hstack', List.map_cons, List.mem_cons]
    constructor
    · rintro ⟨hne, hb⟩
      exact hb.resolve_left hne
    · intro hb
      exact ⟨fun heq => hnodup.1 (heq ▸ hb), .inr hb⟩
  · have hroots' : t.roots = s.roots := rfl
    simp only [remaining, pending, hstack, hfresh, hstack', hroots', List.length_append,
      List.length_cons, List.flatMap_cons, List.nil_append]
    omega
  · simp only [pending, hstack, hfresh, hstack', List.flatMap_cons, List.nil_append]
    exact .refl _
  · rw [hfresh, hstack, backEdges_leave]
    rfl

/-- An edge that does not lead to a white node is done with, whatever is reported. -/
theorem progress_try {reported : List ε} (h : s.IsSound) (hstack : s.stack = (a, e :: es) :: stack)
    (hreported : reported ++ backEdges target outgoing s.fresh ((a, es) :: stack) =
      s.reported ++ backEdges target outgoing s.fresh s.stack) :
    Progress target outgoing s
      { s with tried := s.tried ++ [e], stack := (a, es) :: stack, reported } := by
  have hnodup := h.stack
  have hgrey := h.grey
  rw [hstack] at hnodup hgrey
  refine ⟨⟨h.roots, hnodup, h.white, hgrey⟩, ?_, ?_, hreported⟩
  · simp only [remaining, pending, hstack, fresh, List.length_append, List.length_cons,
      List.flatMap_cons, List.cons_append]
    omega
  · simp [pending, hstack, fresh]

theorem progress_enter (h : s.IsSound) (hstack : s.stack = (a, e :: es) :: stack)
    (he : s.colour (target e) = .white) : Progress target outgoing s
      { s.paint (target e) .grey with
        tried := s.tried ++ [e]
        stack := (target e, outgoing (target e)) :: (a, es) :: stack } := by
  have hnodup := h.stack
  have hnew : target e ∉ a :: stack.map (·.1) := by
    have hgrey := (h.grey (target e)).not.mp (by simp [he])
    rwa [hstack] at hgrey
  rw [hstack] at hnodup
  have hmem : target e ∈ s.fresh := (mem_fresh_iff h).mpr he
  set t : Colouring α ε := { s.paint (target e) .grey with
    tried := s.tried ++ [e]
    stack := (target e, outgoing (target e)) :: (a, es) :: stack }
  have hroots' : t.roots = s.roots := rfl
  have hstack' : t.stack = (target e, outgoing (target e)) :: (a, es) :: stack := rfl
  have hfresh : t.fresh = s.fresh.erase (target e) := filter_white_update_grey h.roots
  have hperm : s.fresh.Perm (target e :: t.fresh) := by
    rw [hfresh]
    exact List.perm_cons_erase hmem
  have hedges := hperm.flatMap_right outgoing
  rw [List.flatMap_cons] at hedges
  refine ⟨⟨h.roots, List.nodup_cons.mpr ⟨hnew, hnodup⟩, fun b hb => ?_, fun b => ?_⟩, ?_, ?_, ?_⟩
  · exact h.white b ((paint_eq_white_iff (by decide)).mp hb).2
  · refine paint_grey_eq_grey_iff.trans ?_
    rw [h.grey, hstack, hstack', List.map_cons, List.map_cons, List.map_cons]
    exact List.mem_cons.symm
  · have hcount := hperm.length_eq
    have hlength := hedges.length_eq
    simp only [remaining, pending, hstack, hstack', hroots', List.length_append, List.length_cons,
      List.flatMap_cons, List.cons_append] at hcount hlength ⊢
    omega
  · classical
    refine List.perm_iff_count.mpr fun d => ?_
    have hcount := hedges.count_eq d
    have htried : t.tried = s.tried ++ [e] := rfl
    simp only [pending, hstack, hstack', htried, List.count_append, List.flatMap_cons,
      List.cons_append, List.count_cons, List.count_nil] at hcount ⊢
    omega
  · rw [hfresh, hstack, backEdges_enter hnew hmem]
    rfl

variable (target outgoing) in
/-- A search that has not ended makes progress. -/
theorem exists_next (h : s.IsSound) :
    (s.next? target outgoing = none ∧ s.roots = [] ∧ s.stack = []) ∨
      ∃ t, s.next? target outgoing = some t ∧ Progress target outgoing s t := by
  rcases hstack : s.stack with _ | ⟨⟨a, _ | ⟨e, es⟩⟩, stack⟩
  · rcases hroots : s.roots with _ | ⟨root, roots⟩
    · exact .inl ⟨by simp [next?, hstack, hroots], rfl, rfl⟩
    · refine .inr ?_
      cases hroot : s.colour root with
      | white =>
        exact ⟨_, by simp [next?, hstack, hroots, hroot],
          progress_restart h hstack hroots hroot⟩
      | grey | black =>
        exact ⟨_, by simp [next?, hstack, hroots, hroot],
          progress_skip h hroots (by simp [hroot])⟩
  · exact .inr ⟨_, by simp [next?, hstack], progress_leave h hstack⟩
  · refine .inr ?_
    have hentered : s.colour (target e) = .grey ↔ target e ∈ a :: stack.map (·.1) := by
      rw [h.grey, hstack, List.map_cons]
    cases he : s.colour (target e) with
    | white => exact ⟨_, by simp [next?, hstack, he, paint], progress_enter h hstack he⟩
    | grey =>
      refine ⟨{ s with
        tried := s.tried ++ [e]
        stack := (a, es) :: stack
        reported := s.reported ++ [e] }, by simp [next?, hstack, he], progress_try h hstack ?_⟩
      rw [hstack, backEdges_report (hentered.mp he), List.append_assoc, List.singleton_append]
    | black =>
      refine ⟨{ s with tried := s.tried ++ [e], stack := (a, es) :: stack },
        by simp [next?, hstack, he], progress_try h hstack ?_⟩
      rw [hstack, backEdges_pass]
      · exact fun hmem => by simp [hentered.mpr hmem] at he
      · exact fun hmem => by simp [(mem_fresh_iff h).mp hmem] at he

end Moves

variable (target outgoing) in
/-- A search ends after the number of steps that remain. By then it has tried the edges that were
pending, each once, and has reported those that lead back. -/
theorem ends (s : Colouring α ε) (h : s.IsSound) :
    ∃ t, Steps target outgoing (s.remaining outgoing) s t ∧ t.next? target outgoing = none ∧
      t.tried.Perm (s.tried ++ s.pending outgoing) ∧
      t.reported = s.reported ++ backEdges target outgoing s.fresh s.stack := by
  induction hn : s.remaining outgoing generalizing s with
  | zero =>
    rcases exists_next target outgoing h with
      ⟨hnone, hroots, hstack⟩ | ⟨t, -, hprogress⟩
    · refine ⟨s, .none s, hnone, ?_, ?_⟩
      · simp [pending, fresh, hroots, hstack]
      · simp [fresh, hroots, hstack, backEdges]
    · have hremaining := hprogress.remaining
      omega
  | succ n ih =>
    rcases exists_next target outgoing h with
      ⟨-, hroots, hstack⟩ | ⟨t, hnext, hprogress⟩
    · simp [remaining, pending, fresh, hroots, hstack] at hn
    · have hremaining := hprogress.remaining
      obtain ⟨u, hsteps, hnone, htried, hreported⟩ := ih t hprogress.sound (by omega)
      exact ⟨u, .next hnext hsteps, hnone, htried.trans hprogress.tried,
        hreported.trans hprogress.reported⟩

section Start

variable {nodes : List α}

theorem isSound_start (h : nodes.Nodup) : (start nodes : Colouring α ε).IsSound where
  roots := h
  stack := List.nodup_nil
  white a ha := by
    by_contra hmem
    simp [start, show a ∉ nodes from hmem] at ha
  grey a := by
    by_cases ha : a ∈ nodes <;> simp [start, ha]

theorem fresh_start : (start nodes : Colouring α ε).fresh = nodes := by
  refine List.filter_eq_self.mpr fun a ha => ?_
  simpa [start] using ha

/-- A search from every one of some nodes makes two steps for each node and one for each edge. -/
theorem ends_start (h : nodes.Nodup) :
    ∃ t, Steps target outgoing (2 * nodes.length + (nodes.flatMap outgoing).length)
        (start nodes) t ∧
      t.next? target outgoing = none ∧ t.tried.Perm (nodes.flatMap outgoing) ∧
      t.reported = backEdges target outgoing nodes [] := by
  have hpending : (start nodes).pending outgoing = nodes.flatMap outgoing := by
    rw [pending, fresh_start]
    rfl
  have hremaining : (start nodes).remaining outgoing =
      2 * nodes.length + (nodes.flatMap outgoing).length := by
    rw [remaining, hpending, fresh_start]
    simp only [start, List.length_nil]
    omega
  obtain ⟨t, hsteps, hnone, htried, hreported⟩ :=
    ends target outgoing (start nodes) (isSound_start h)
  rw [hremaining] at hsteps
  rw [hpending] at htried
  rw [fresh_start] at hreported
  exact ⟨t, hsteps, hnone, htried, hreported⟩

end Start

end Colouring

end WorkflowEngine.Search

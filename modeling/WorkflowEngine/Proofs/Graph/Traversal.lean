import Mathlib.Data.List.Chain
import Mathlib.Data.List.Nodup
import Mathlib.Logic.Relation
import WorkflowEngine.Proofs.Graph.Acyclic

/-!
# What a search visits, and in which order

The stack of a search is a path of nodes that it has entered. So it leaves just the nodes that it
can reach, each of them once and the first one last; it leaves a node after the successors of the
node, unless one of them leads back; and every edge that it reports closes a loop, so that it reports
none where no path leads back.
-/
namespace WorkflowEngine.Search

open Relation

variable {α ε : Type} {target : ε → α} {outgoing : α → List ε}

/-- The state of a search. Each node on the stack was entered from the one below it, and the edges
there that are no longer to be tried lead to nodes that the search has entered. -/
structure Underway (target : ε → α) (outgoing : α → List ε) (fresh : List α)
    (stack : List (α × List ε)) : Prop where
  nodup : (stack.map (·.1) ++ fresh).Nodup
  path : (stack.map (·.1)).IsChain (Below target outgoing)
  untried : ∀ frame ∈ stack, frame.2 ⊆ outgoing frame.1
  tried : ∀ frame ∈ stack, ∀ e ∈ outgoing frame.1, e ∈ frame.2 ∨ target e ∉ fresh

namespace Underway

variable {fresh : List α} {stack : List (α × List ε)} {a b : α} {e : ε} {es : List ε}

theorem idle (h : fresh.Nodup) : Underway target outgoing fresh [] :=
  ⟨by simpa using h, by simp, by simp, by simp⟩

theorem restart (h : Underway target outgoing (a :: fresh) []) :
    Underway target outgoing fresh [(a, outgoing a)] := by
  refine ⟨by simpa using h.nodup, by simp, ?_, ?_⟩
  · intro frame hframe
    obtain rfl : frame = (a, outgoing a) := by simpa using hframe
    exact List.Subset.refl _
  · intro frame hframe e he
    obtain rfl : frame = (a, outgoing a) := by simpa using hframe
    exact .inl he

theorem leave (h : Underway target outgoing fresh ((a, es) :: stack)) :
    Underway target outgoing fresh stack where
  nodup := (List.nodup_cons.mp h.nodup).2
  path := h.path.tail
  untried frame hframe := h.untried frame (List.mem_cons_of_mem _ hframe)
  tried frame hframe := h.tried frame (List.mem_cons_of_mem _ hframe)

theorem skip (h : Underway target outgoing fresh ((a, e :: es) :: stack)) (he : target e ∉ fresh) :
    Underway target outgoing fresh ((a, es) :: stack) where
  nodup := h.nodup
  path := h.path
  untried frame hframe := by
    rcases List.mem_cons.mp hframe with rfl | hframe
    · exact (List.cons_subset.mp (h.untried _ List.mem_cons_self)).2
    · exact h.untried frame (List.mem_cons_of_mem _ hframe)
  tried frame hframe d hd := by
    rcases List.mem_cons.mp hframe with rfl | hframe
    · rcases h.tried _ List.mem_cons_self d hd with hes | hfresh
      · rcases List.mem_cons.mp hes with rfl | hes
        · exact .inr he
        · exact .inl hes
      · exact .inr hfresh
    · exact h.tried frame (List.mem_cons_of_mem _ hframe) d hd

theorem below (h : Underway target outgoing fresh ((a, e :: es) :: stack)) :
    Below target outgoing (target e) a :=
  ⟨e, h.untried _ List.mem_cons_self List.mem_cons_self, rfl⟩

variable [DecidableEq α]

theorem start {nodes : List α} (hnodes : nodes.Nodup) :
    Underway target outgoing (nodes.erase a) [(a, outgoing a)] := by
  have hout : a ∉ nodes.erase a := fun hmem => (hnodes.mem_erase_iff.mp hmem).1 rfl
  exact (idle (List.nodup_cons.mpr ⟨hout, hnodes.erase a⟩)).restart

theorem enter (h : Underway target outgoing fresh ((a, e :: es) :: stack)) (he : target e ∈ fresh) :
    Underway target outgoing (fresh.erase (target e))
      ((target e, outgoing (target e)) :: (a, es) :: stack) := by
  have hfresh : fresh.Nodup := (List.nodup_append.mp h.nodup).2.1
  have hgone : target e ∉ fresh.erase (target e) := fun hmem => (hfresh.mem_erase_iff.mp hmem).1 rfl
  have hnodup : ((a :: stack.map (·.1)) ++ fresh.erase (target e)).Nodup :=
    h.nodup.sublist ((List.Sublist.refl _).append List.erase_sublist)
  have hnew : target e ∉ a :: stack.map (·.1) := fun hmem =>
    (List.nodup_append.mp h.nodup).2.2 _ hmem _ he rfl
  have hrest : Underway target outgoing (fresh.erase (target e)) ((a, e :: es) :: stack) := by
    refine ⟨hnodup, h.path, h.untried, fun frame hframe d hd => ?_⟩
    exact (h.tried frame hframe d hd).imp_right fun hd hmem => hd (List.mem_of_mem_erase hmem)
  have hskip := hrest.skip hgone
  refine ⟨?_, ?_, ?_, ?_⟩
  · exact List.nodup_cons.mpr ⟨List.not_mem_append hnew hgone, hnodup⟩
  · exact List.isChain_cons_cons.mpr ⟨h.below, h.path⟩
  · intro frame hframe
    rcases List.mem_cons.mp hframe with rfl | hframe
    · exact List.Subset.refl _
    · exact hskip.untried frame hframe
  · intro frame hframe d hd
    rcases List.mem_cons.mp hframe with rfl | hframe
    · exact .inl hd
    · exact hskip.tried frame hframe d hd

omit [DecidableEq α] in
/-- The node in which a search stands can be reached from every node on the stack. -/
theorem reflTransGen (h : Underway target outgoing fresh ((a, es) :: stack))
    (hb : b ∈ a :: stack.map (·.1)) : ReflTransGen (Below target outgoing) a b := by
  have reach : ∀ {nodes : List α} {a : α}, (a :: nodes).IsChain (Below target outgoing) →
      b ∈ a :: nodes → ReflTransGen (Below target outgoing) a b := by
    intro nodes
    induction nodes with
    | nil =>
      intro a _ hb
      obtain rfl : b = a := by simpa using hb
      exact .refl
    | cons c nodes ih =>
      intro a hpath hb
      obtain ⟨hbelow, hpath⟩ := List.isChain_cons_cons.mp hpath
      rcases List.mem_cons.mp hb with rfl | hb
      · exact .refl
      · exact .head hbelow (ih hpath hb)
  exact reach h.path hb

end Underway

variable [DecidableEq α]

/-- An edge that the search reports leads back to a node from which the search has come. -/
theorem reflTransGen_of_mem_backEdges {fresh : List α} {stack : List (α × List ε)} {e : ε}
    (h : Underway target outgoing fresh stack) (he : e ∈ backEdges target outgoing fresh stack) :
    ∃ a, e ∈ outgoing a ∧ ReflTransGen (Below target outgoing) a (target e) := by
  fun_induction backEdges target outgoing fresh stack with
  | case1 => cases he
  | case2 root fresh ih => exact ih h.restart he
  | case3 fresh a stack ih => exact ih h.leave he
  | case4 fresh a d ds stack hback ih =>
    simp only [List.map_subtype, List.unattach_attach] at hback
    rw [if_pos hback] at he
    have hentered : target d ∈ a :: stack.map (·.1) := List.mem_cons.mpr hback
    rcases List.mem_cons.mp he with rfl | he
    · exact ⟨a, h.untried _ List.mem_cons_self List.mem_cons_self, h.reflTransGen hentered⟩
    · exact ih (h.skip fun hfresh => (List.nodup_append.mp h.nodup).2.2 _ hentered _ hfresh rfl) he
  | case5 fresh a d ds stack hback hfresh ih =>
    simp only [List.map_subtype, List.unattach_attach] at hback
    rw [if_neg hback, if_pos hfresh] at he
    exact ih (h.enter hfresh) he
  | case6 fresh a d ds stack hback hfresh ih =>
    simp only [List.map_subtype, List.unattach_attach] at hback
    rw [if_neg hback, if_neg hfresh] at he
    exact ih (h.skip hfresh) he

/-- A search over edges none of which closes a loop meets no back edge. -/
theorem backEdges_eq_nil {fresh : List α} {stack : List (α × List ε)}
    (hacyclic : ∀ a, ¬ TransGen (Below target outgoing) a a)
    (h : Underway target outgoing fresh stack) : backEdges target outgoing fresh stack = [] := by
  refine List.eq_nil_iff_forall_not_mem.mpr fun e he => ?_
  obtain ⟨a, hout, hpath⟩ := reflTransGen_of_mem_backEdges h he
  exact hacyclic _ (TransGen.head' ⟨e, hout, rfl⟩ hpath)

section Finishing

variable {successors : α → List α} {fresh : List α} {stack : List (α × List α)} {a b : α}

theorem mem_finishOrder_of_mem_stack (h : b ∈ stack.map (·.1)) :
    b ∈ finishOrder successors fresh stack := by
  fun_induction finishOrder successors fresh stack with
  | case1 => exact h
  | case2 fresh a stack ih =>
    rcases List.mem_cons.mp h with rfl | h
    · exact List.mem_cons_self
    · exact List.mem_cons_of_mem _ (ih h)
  | case3 fresh a c cs stack hc ih => exact ih (List.mem_cons_of_mem _ h)
  | case4 fresh a c cs stack hc ih => exact ih h

theorem mem_of_mem_finishOrder (h : b ∈ finishOrder successors fresh stack) :
    b ∈ stack.map (·.1) ∨ b ∈ fresh := by
  fun_induction finishOrder successors fresh stack with
  | case1 => cases h
  | case2 fresh a stack ih =>
    rcases List.mem_cons.mp h with rfl | h
    · exact .inl List.mem_cons_self
    · exact (ih h).imp_left (List.mem_cons_of_mem _)
  | case3 fresh a c cs stack hc ih =>
    rcases ih h with h | h
    · rcases List.mem_cons.mp h with rfl | h
      · exact .inr hc
      · exact .inl h
    · exact .inr (List.mem_of_mem_erase h)
  | case4 fresh a c cs stack hc ih => exact ih h

theorem nodup_finishOrder (h : Underway id successors fresh stack) :
    (finishOrder successors fresh stack).Nodup := by
  fun_induction finishOrder successors fresh stack with
  | case1 => exact List.nodup_nil
  | case2 fresh a stack ih =>
    have hnew : a ∉ stack.map (·.1) ++ fresh := (List.nodup_cons.mp h.nodup).1
    refine List.nodup_cons.mpr ⟨fun hmem => hnew ?_, ih h.leave⟩
    exact List.mem_append.mpr (mem_of_mem_finishOrder hmem)
  | case3 fresh a c cs stack hc ih => exact ih (h.enter hc)
  | case4 fresh a c cs stack hc ih => exact ih (h.skip hc)

/-- The node that was entered first is left last. -/
theorem getLast?_finishOrder :
    (finishOrder successors fresh stack).getLast? = (stack.map (·.1)).getLast? := by
  fun_induction finishOrder successors fresh stack with
  | case1 => rfl
  | case2 fresh a stack ih => simp only [List.map_cons, List.getLast?_cons, ih]
  | case3 fresh a c cs stack hc ih => simpa [List.getLast?_cons] using ih
  | case4 fresh a c cs stack hc ih => exact ih

theorem reflTransGen_of_mem_finishOrder (h : Underway id successors fresh stack)
    (hstack : ∀ c ∈ stack.map (·.1), ReflTransGen (Below id successors) c a)
    (hb : b ∈ finishOrder successors fresh stack) : ReflTransGen (Below id successors) b a := by
  fun_induction finishOrder successors fresh stack with
  | case1 => cases hb
  | case2 fresh d stack ih =>
    rcases List.mem_cons.mp hb with rfl | hb
    · exact hstack _ List.mem_cons_self
    · exact ih h.leave (fun c hc => hstack c (List.mem_cons_of_mem _ hc)) hb
  | case3 fresh d c cs stack hc ih =>
    refine ih (h.enter hc) (fun x hx => ?_) hb
    rcases List.mem_cons.mp hx with rfl | hx
    · exact .head h.below (hstack d List.mem_cons_self)
    · exact hstack x hx
  | case4 fresh d c cs stack hc ih => exact ih (h.skip hc) hstack hb

/-- When a node is left, each of its successors has been left before, is still to be left and leads
back to the node, or had been left when the search was in the given state. -/
theorem left_of_finishOrder_eq (h : Underway id successors fresh stack) {pre post : List α}
    (hsplit : finishOrder successors fresh stack = pre ++ a :: post) (hb : b ∈ successors a) :
    b ∈ pre ∨ (b ∈ a :: post ∧ ReflTransGen (Below id successors) a b) ∨
      (b ∉ stack.map (·.1) ∧ b ∉ fresh) := by
  fun_induction finishOrder successors fresh stack generalizing pre with
  | case1 => simp at hsplit
  | case2 fresh c stack ih =>
    rcases List.cons_eq_append_iff.mp hsplit with ⟨rfl, hhead⟩ | ⟨pre, rfl, hrest⟩
    · obtain ⟨rfl, rfl⟩ := List.cons_eq_cons.mp hhead
      -- The node is left now, so that all of its successors have been tried.
      have hentered : b ∉ fresh := by
        simpa using h.tried _ List.mem_cons_self b hb
      by_cases hstack : b ∈ a :: stack.map (·.1)
      · refine .inr (.inl ⟨?_, h.reflTransGen hstack⟩)
        rcases List.mem_cons.mp hstack with rfl | hmem
        · exact List.mem_cons_self
        · exact List.mem_cons_of_mem _ (mem_finishOrder_of_mem_stack hmem)
      · exact .inr (.inr ⟨hstack, hentered⟩)
    · rcases ih h.leave hrest with hpre | hback | ⟨hstack, hfresh⟩
      · exact .inl (List.mem_cons_of_mem _ hpre)
      · exact .inr (.inl hback)
      · by_cases hbc : b = c
        · exact .inl (hbc ▸ List.mem_cons_self)
        · exact .inr (.inr ⟨by simpa [hbc] using hstack, hfresh⟩)
  | case3 fresh d c cs stack hc ih =>
    rcases ih (h.enter hc) hsplit with hpre | hback | ⟨hstack, hfresh⟩
    · exact .inl hpre
    · exact .inr (.inl hback)
    · rw [List.map_cons, List.mem_cons, not_or] at hstack
      obtain ⟨hbc, hstack⟩ := hstack
      exact .inr (.inr ⟨hstack, fun hmem => hfresh ((List.mem_erase_of_ne hbc).mpr hmem)⟩)
  | case4 fresh d c cs stack hc ih => exact ih (h.skip hc) hsplit

variable {nodes : List α}

theorem left_of_visited_eq (hnodes : nodes.Nodup) (hclosed : ∀ b ∈ nodes, successors b ⊆ nodes)
    (ha : a ∈ nodes) {c : α} {pre post : List α}
    (hsplit : finishOrder successors (nodes.erase a) [(a, successors a)] = pre ++ b :: post)
    (hc : c ∈ successors b) :
    c ∈ pre ∨ (c ∈ b :: post ∧ ReflTransGen (Below id successors) b c) := by
  have hb : b ∈ nodes := by
    have hmem : b ∈ finishOrder successors (nodes.erase a) [(a, successors a)] := by
      rw [hsplit]
      simp
    rcases mem_of_mem_finishOrder hmem with hba | hfresh
    · obtain rfl : b = a := by simpa using hba
      exact ha
    · exact List.mem_of_mem_erase hfresh
  rcases left_of_finishOrder_eq (.start hnodes) hsplit hc with hpre | hback | ⟨hstack, hfresh⟩
  · exact .inl hpre
  · exact .inr hback
  · have hne : c ≠ a := by simpa using hstack
    exact absurd ((List.mem_erase_of_ne hne).mpr (hclosed b hb hc)) hfresh

omit [DecidableEq α] in
theorem below_id : Below id successors = Function.swap fun a b => b ∈ successors a := by
  funext b a
  simp [Below, Function.swap]

/-- A search from one of some nodes visits what can be reached from it. -/
theorem mem_visited_iff (hnodes : nodes.Nodup) (hclosed : ∀ b ∈ nodes, successors b ⊆ nodes)
    (ha : a ∈ nodes) :
    b ∈ finishOrder successors (nodes.erase a) [(a, successors a)] ↔
      ReflTransGen (fun a b => b ∈ successors a) a b := by
  rw [← reflTransGen_swap, ← below_id]
  constructor
  · intro hb
    refine reflTransGen_of_mem_finishOrder (.start hnodes) (fun c hc => ?_) hb
    obtain rfl : c = a := by simpa using hc
    exact .refl
  · intro hreach
    induction hreach using ReflTransGen.head_induction_on with
    | refl => exact mem_finishOrder_of_mem_stack (by simp)
    | head hbelow _ ih =>
      obtain ⟨c, hc, rfl⟩ := hbelow
      obtain ⟨pre, post, hsplit⟩ := List.append_of_mem ih
      rw [hsplit, List.mem_append]
      exact (left_of_visited_eq hnodes hclosed ha hsplit hc).imp_right And.left

/-- Where no path leads back, a search leaves every node after its successors. -/
theorem mem_of_visited_eq (hnodes : nodes.Nodup) (hclosed : ∀ b ∈ nodes, successors b ⊆ nodes)
    (hacyclic : ∀ c, ¬ TransGen (fun a b => b ∈ successors a) c c) (ha : a ∈ nodes) {c : α}
    {pre post : List α}
    (hsplit : finishOrder successors (nodes.erase a) [(a, successors a)] = pre ++ b :: post)
    (hc : c ∈ successors b) : c ∈ pre := by
  rcases left_of_visited_eq hnodes hclosed ha hsplit hc with hpre | ⟨-, hback⟩
  · exact hpre
  · rw [below_id, reflTransGen_swap] at hback
    exact absurd (TransGen.tail' hback hc) (hacyclic c)

end Finishing

end WorkflowEngine.Search

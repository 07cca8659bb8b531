import WorkflowEngine.Graph.Search

/-!
# What a search leaves below a node

A node that a search has left is accessible along the edges that do not lead back to a node in which
the search stood: no path of such edges goes on for ever, and in particular none closes a loop. If
no edge of a search over all nodes leads back, this holds of every node and all edges.
-/
namespace WorkflowEngine.Search

variable {α ε : Type} {target : ε → α} {outgoing : α → List ε}

/-- A node is below another if an edge leads down to it. -/
def Below (target : ε → α) (outgoing : α → List ε) (b a : α) : Prop :=
  ∃ e ∈ outgoing a, target e = b

/-- Each edge of a node on the stack is still to be tried, leads to an accessible node, or leads to
the node that was entered from it. -/
def Tried (target : ε → α) (outgoing : α → List ε) : Option α → List (α × List ε) → Prop
  | _, [] => True
  | entered, (a, es) :: stack =>
    (∀ e ∈ outgoing a, e ∈ es ∨ Acc (Below target outgoing) (target e) ∨
      some (target e) = entered) ∧
    Tried target outgoing (some a) stack

theorem Tried.leave {a : α} {stack : List (α × List ε)}
    (ha : Acc (Below target outgoing) a) (h : Tried target outgoing (some a) stack) :
    Tried target outgoing none stack := by
  cases stack with
  | nil => trivial
  | cons frame stack =>
    obtain ⟨b, es⟩ := frame
    refine ⟨fun e he => ?_, h.2⟩
    rcases h.1 e he with hs | hs | hs
    · exact .inl hs
    · exact .inr (.inl hs)
    · obtain rfl : target e = a := by simpa using hs
      exact .inr (.inl ha)

theorem Tried.acc {a : α} {stack : List (α × List ε)}
    (h : Tried target outgoing none ((a, []) :: stack)) : Acc (Below target outgoing) a := by
  refine ⟨a, ?_⟩
  rintro b ⟨e, he, rfl⟩
  simpa using h.1 e he

theorem Tried.skip {a : α} {e : ε} {es : List ε} {stack : List (α × List ε)}
    {entered : Option α}
    (he : Acc (Below target outgoing) (target e) ∨ some (target e) = entered)
    (h : Tried target outgoing none ((a, e :: es) :: stack)) :
    Tried target outgoing entered ((a, es) :: stack) := by
  refine ⟨fun d hd => ?_, h.2⟩
  rcases h.1 d hd with hs | hs | hs
  · rcases List.mem_cons.mp hs with rfl | hs
    · exact .inr he
    · exact .inl hs
  · exact .inr (.inl hs)
  · cases hs

theorem Tried.drop {a : α} {e : ε} {es : List ε} {stack : List (α × List ε)}
    (he : e ∉ outgoing a) (h : Tried target outgoing none ((a, e :: es) :: stack)) :
    Tried target outgoing none ((a, es) :: stack) := by
  refine ⟨fun d hd => ?_, h.2⟩
  rcases h.1 d hd with hs | hs
  · rcases List.mem_cons.mp hs with rfl | hs
    · exact absurd hd he
    · exact .inl hs
  · exact .inr hs

variable [DecidableEq α]

/-- What the search has left, and what it never had to enter, is accessible along edges that the
search does not report. -/
theorem acc_of_backEdges {kept : α → List ε} (hkept : ∀ a, kept a ⊆ outgoing a) {fresh : List α}
    {stack : List (α × List ε)}
    (hspared : ∀ a, ∀ e ∈ kept a, e ∉ backEdges target outgoing fresh stack)
    (hleft : ∀ a, a ∉ fresh → a ∉ stack.map (·.1) → Acc (Below target kept) a)
    (htried : Tried target kept none stack) (a : α) : Acc (Below target kept) a := by
  fun_induction backEdges target outgoing fresh stack with
  | case1 => exact hleft a (by simp) (by simp)
  | case2 root fresh ih =>
    refine ih hspared (fun b hb hs => hleft b ?_ (by simp)) ⟨fun e he => .inl (hkept _ he), trivial⟩
    simp only [List.map_cons, List.map_nil, List.mem_singleton] at hs
    simp [hb, hs]
  | case3 fresh b stack ih =>
    refine ih hspared (fun c hc hs => ?_) (htried.2.leave htried.acc)
    by_cases hcb : c = b
    · exact hcb ▸ htried.acc
    · exact hleft c hc (by simpa [hcb] using hs)
  | case4 fresh b e es stack hback ih =>
    simp only [List.map_subtype, List.unattach_attach] at hback
    rw [if_pos hback] at hspared
    have hdropped : e ∉ kept b := fun he => hspared b e he List.mem_cons_self
    refine ih (fun c d hd hmem => hspared c d hd (List.mem_cons_of_mem _ hmem)) ?_
      (htried.drop hdropped)
    simpa using hleft
  | case5 fresh b e es stack hback hfresh ih =>
    simp only [List.map_subtype, List.unattach_attach] at hback
    rw [if_neg hback, if_pos hfresh] at hspared
    refine ih hspared (fun c hc hs => ?_)
      ⟨fun d hd => .inl (hkept _ hd), htried.skip (.inr rfl)⟩
    simp only [List.map_cons, List.mem_cons, not_or] at hs
    refine hleft c (fun hm => hc ?_) (by simpa using hs.2)
    exact (List.mem_erase_of_ne hs.1).mpr hm
  | case6 fresh b e es stack hback hfresh ih =>
    simp only [List.map_subtype, List.unattach_attach] at hback
    rw [if_neg hback, if_neg hfresh] at hspared
    have hout : target e ∉ ((b, e :: es) :: stack).map (·.1) := by
      simpa using hback
    exact ih hspared (by simpa using hleft) (htried.skip (.inl (hleft _ hfresh hout)))

/-- A search from every node shows that the edges that it does not report are well-founded, if no
edge leaves anything but the nodes. -/
theorem wellFounded_of_backEdges {nodes : List α} {kept : α → List ε}
    (hout : ∀ a, a ∉ nodes → outgoing a = []) (hkept : ∀ a, kept a ⊆ outgoing a)
    (hspared : ∀ a, ∀ e ∈ kept a, e ∉ backEdges target outgoing nodes []) :
    WellFounded (Below target kept) := by
  refine ⟨acc_of_backEdges hkept hspared (fun a ha _ => ⟨a, ?_⟩) trivial⟩
  rintro b ⟨e, he, _⟩
  have hnone := hkept a he
  simp [hout a ha] at hnone

theorem wellFounded_of_backEdges_eq_nil {nodes : List α}
    (hout : ∀ a, a ∉ nodes → outgoing a = [])
    (hnone : backEdges target outgoing nodes [] = []) : WellFounded (Below target outgoing) :=
  wellFounded_of_backEdges hout (fun _ => List.Subset.refl _) (by simp [hnone])

end WorkflowEngine.Search

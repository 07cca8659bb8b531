import Mathlib.Data.List.Sort
import WorkflowEngine.Span

/-!
# Pages of sorted lists

A list can be sorted by a key in several ways, which differ in the order of items with one key. The
keys on a page are the same in all of them, and so are the items, unless the page takes some items
with a key and leaves others. Merging leaves items with one key in the order in which they were.
-/
namespace WorkflowEngine.Span

/-- So many items from a position on. -/
def page {α : Type} (start count : Nat) (items : List α) : List α := (items.drop start).take count

/-- Whether one of two items with the same key stands on a page and the other does not. -/
def CutsTie {κ : Type} (start count : Nat) (keys : List κ) : Prop :=
  ∃ key ∈ page start count keys, key ∈ keys.take start ++ keys.drop (start + count)

variable {α κ : Type}

theorem map_page (key : α → κ) (start count : Nat) (items : List α) :
    (page start count items).map key = page start count (items.map key) := by
  rw [page, page, List.map_take, List.map_drop]

theorem between_eq_page (start count : Nat) (items : List α) :
    between start (start + count) items = page start count items := by
  have h := between_nonneg start (start + count) items
  rw [Int.natCast_add] at h
  rw [h, List.drop_take, Nat.add_sub_cancel_left, page]

theorem upTo_eq_page (count : Nat) (items : List α) : upTo count items = page 0 count items := by
  have h := between_eq_page 0 count items
  rwa [Int.natCast_zero, Int.zero_add] at h

theorem limited_eq_page (start count : Nat) (items : List α) :
    limited count (items.drop start) = page start count items := by
  rw [limited, if_neg (by omega), Int.toNat_natCast, page]

/-- A page that cuts no tie holds all items with the keys on it. -/
theorem filter_eq_page [DecidableEq κ] (key : α → κ) {start count : Nat} {items : List α}
    (hcut : ¬CutsTie start count (items.map key)) :
    items.filter (fun a => key a ∈ page start count (items.map key)) = page start count items := by
  have hsplit : items.take start ++ (page start count items ++ items.drop (start + count)) =
      items := by
    rw [page, ← List.drop_drop, List.take_append_drop, List.take_append_drop]
  have houtside : ∀ a ∈ items.take start ++ items.drop (start + count),
      key a ∉ page start count (items.map key) := by
    intro a ha hkey
    refine hcut ⟨key a, hkey, ?_⟩
    rw [← List.map_take, ← List.map_drop, ← List.map_append]
    exact List.mem_map_of_mem ha
  have hinside : ∀ a ∈ page start count items, key a ∈ page start count (items.map key) := by
    intro a ha
    rw [← map_page]
    exact List.mem_map_of_mem ha
  generalize page start count (items.map key) = keys at houtside hinside
  have hhead : (items.take start).filter (fun a => key a ∈ keys) = [] := by
    simpa using fun a ha => houtside a (List.mem_append_left _ ha)
  have htail : (items.drop (start + count)).filter (fun a => key a ∈ keys) = [] := by
    simpa using fun a ha => houtside a (List.mem_append_right _ ha)
  have hpage : (page start count items).filter (fun a => key a ∈ keys) =
      page start count items := by simpa using hinside
  calc items.filter (fun a => key a ∈ keys)
    _ = (items.take start ++ (page start count items ++ items.drop (start + count))).filter
        (fun a => key a ∈ keys) := by rw [hsplit]
    _ = page start count items := by
      rw [List.filter_append, List.filter_append, hhead, hpage, htail, List.nil_append,
        List.append_nil]

/-- Items that are sorted by a key in two ways make up the same pages, unless a tie is cut. -/
theorem perm_page [DecidableEq κ] {key : α → κ} {start count : Nat} {items items' : List α}
    {f : α → α} (hf : ∀ a, key (f a) = key a) (hperm : items'.Perm (items.map f))
    (hkeys : items'.map key = items.map key) (hcut : ¬CutsTie start count (items.map key)) :
    (page start count items').Perm ((page start count items).map f) := by
  have hfilter : (items.map f).filter (fun a => key a ∈ page start count (items.map key)) =
      (items.filter fun a => key a ∈ page start count (items.map key)).map f := by
    rw [List.filter_map]
    congr 1
    exact List.filter_congr fun a _ => by simp only [Function.comp, hf]
  rw [← filter_eq_page key hcut, ← filter_eq_page key (hkeys ▸ hcut), hkeys, ← hfilter]
  exact hperm.filter _

/-- Lists with the same keys in some order have them in the same order when they are sorted. -/
theorem map_mergeSort_eq [LinearOrder κ] {key : α → κ} {items items' : List α}
    {le le' : α → α → Bool} (hperm : (items'.map key).Perm (items.map key))
    (hle : ∀ a ∈ items, ∀ b ∈ items, le a b = decide (key a ≤ key b))
    (hle' : ∀ a ∈ items', ∀ b ∈ items', le' a b = decide (key a ≤ key b)) :
    (items'.mergeSort le').map key = (items.mergeSort le).map key := by
  rw [List.map_mergeSort (s := fun k l => decide (k ≤ l)) hle,
    List.map_mergeSort (s := fun k l => decide (k ≤ l)) hle']
  refine List.Perm.eq_of_sortedLE List.sortedLE_mergeSort List.sortedLE_mergeSort ?_
  exact (List.mergeSort_perm _ _).trans (hperm.trans (List.mergeSort_perm _ _).symm)

/-- Of two items of a list one comes before the other. -/
theorem pair_sublist_or {items : List α} {a b : α} (ha : a ∈ items) (hb : b ∈ items) (hne : a ≠ b) :
    [a, b].Sublist items ∨ [b, a].Sublist items := by
  obtain ⟨before, after, rfl⟩ := List.append_of_mem ha
  rcases List.mem_append.mp hb with hb | hb
  · right
    exact (List.singleton_sublist.mpr hb).append (List.singleton_sublist.mpr List.mem_cons_self)
  · left
    have hb : b ∈ after := (List.mem_cons.mp hb).resolve_left (Ne.symm hne)
    exact ((List.singleton_sublist.mpr hb).cons_cons a).trans (List.sublist_append_right _ _)

/-- Sorting by a key leaves items with one key in the order in which they were. -/
theorem pairwise_mergeSort [LinearOrder κ] {key : α → κ} {le : α → α → Bool}
    (hle : ∀ a b, le a b = decide (key a ≤ key b)) {items : List α} (hnodup : items.Nodup) :
    (items.mergeSort le).Pairwise fun a b =>
      key a < key b ∨ key a = key b ∧ [a, b].Sublist items := by
  have htrans (a b c : α) (hab : le a b = true) (hbc : le b c = true) : le a c = true := by
    simp only [hle, decide_eq_true_eq] at hab hbc ⊢
    exact hab.trans hbc
  have htotal (a b : α) : (le a b || le b a) = true := by
    simpa [hle] using le_total (key a) (key b)
  have hperm := List.mergeSort_perm items le
  have hsorted := hperm.nodup_iff.mpr hnodup
  refine List.pairwise_iff_forall_sublist.mpr fun {a b} hpair => ?_
  have hkeys : key a ≤ key b := by
    have := List.pairwise_iff_forall_sublist.mp (List.pairwise_mergeSort htrans htotal items) hpair
    simpa [hle] using this
  rcases hkeys.lt_or_eq with hlt | heq
  · exact .inl hlt
  have hne : a ≠ b := by simpa using hsorted.sublist hpair
  refine .inr ⟨heq, ?_⟩
  have hmem {x : α} (hx : x ∈ [a, b]) : x ∈ items := hperm.mem_iff.mp (hpair.subset hx)
  have horder := pair_sublist_or (hmem (by simp)) (hmem (by simp)) hne
  refine horder.resolve_right fun hswapped => hne ?_
  -- Otherwise the sorted list would have the two in both orders.
  have hkept : [b, a].Sublist (items.mergeSort le) :=
    List.pair_sublist_mergeSort htrans htotal (by simp [hle, heq]) hswapped
  have hsame := (hsorted.perm_iff_eq_of_sublist hpair hkept).mp (List.Perm.swap b a [])
  exact (List.cons.inj hsame).1

/-- The first items of a list hold as many with a property as they may, if and only if they all have
it or no other does. -/
theorem countP_take_eq_min_iff {p : α → Bool} {count : Nat} {items : List α} :
    (items.take count).countP p = min count (items.countP p) ↔
      (∀ a ∈ items.take count, p a = true) ∨ ∀ a ∈ items.drop count, ¬p a = true := by
  have hsplit : (items.take count).countP p + (items.drop count).countP p = items.countP p := by
    rw [← List.countP_append, List.take_append_drop]
  have hfirst : (items.take count).countP p ≤ (items.take count).length := List.countP_le_length
  have hrest : (items.drop count).countP p ≤ (items.drop count).length := List.countP_le_length
  rw [List.length_take] at hfirst
  rw [List.length_drop] at hrest
  rw [← List.countP_eq_length, ← List.countP_eq_zero, List.length_take]
  omega

end WorkflowEngine.Span

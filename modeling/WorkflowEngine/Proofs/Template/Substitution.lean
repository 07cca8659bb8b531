import Mathlib.Data.List.Infix
import Mathlib.Data.List.TakeWhile
import WorkflowEngine.Template

/-!
# Placeholders in templates

A placeholder stands for its text wherever it is written: what is before it and what is after it are
rendered as if it were not there. No placeholder begins before another one and ends within it,
because a brace that opens has no place in either of them after the first two characters.
-/
namespace WorkflowEngine

namespace Text

variable {α : Type} {blank : α → Bool}

theorem dropWhile_of_head {cs : List α} (h : ∀ c ∈ cs.head?, blank c = false) :
    cs.dropWhile blank = cs := by
  cases cs with
  | nil => rfl
  | cons c rest => simp [h c (by simp)]

theorem takeWhile_of_head {cs : List α} (h : ∀ c ∈ cs.head?, blank c = false) :
    cs.takeWhile blank = [] := by
  cases cs with
  | nil => rfl
  | cons c rest => simp [h c (by simp)]

end Text

namespace Template

open Text

/-! ## How a placeholder is written -/

/-- The code points of layout characters. -/
def layoutCodes : List Nat :=
  [0x9, 0xa, 0xb, 0xc, 0xd, 0x1c, 0x1d, 0x1e, 0x1f, 0x20, 0x85, 0xa0, 0x1680, 0x2000, 0x2001,
    0x2002, 0x2003, 0x2004, 0x2005, 0x2006, 0x2007, 0x2008, 0x2009, 0x200a, 0x2028, 0x2029, 0x202f,
    0x205f, 0x3000]

theorem toNat_mem_layoutCodes {c : Char} (h : isLayout c = true) : c.toNat ∈ layoutCodes := by
  simp only [isLayout, isWhiteSpace, Bool.or_eq_true, Bool.and_eq_true, decide_eq_true_eq,
    beq_iff_eq] at h
  simp only [layoutCodes, List.mem_cons, List.not_mem_nil, or_false]
  omega

theorem isPathChar_eq_false_of_isLayout {c : Char} (h : isLayout c = true) :
    isPathChar c = false := by
  have hcodes : ∀ n ∈ layoutCodes, isPathChar (Char.ofNat n) = false := by decide +kernel
  have hc := hcodes _ (toNat_mem_layoutCodes h)
  rwa [Char.ofNat_toNat] at hc

theorem isLayout_eq_false_of_isPathChar {c : Char} (h : isPathChar c = true) :
    isLayout c = false := by
  by_contra hlayout
  rw [Bool.not_eq_false] at hlayout
  rw [isPathChar_eq_false_of_isLayout hlayout] at h
  cases h

/-- A path with layout on both sides of it, as it may stand between the braces. -/
structure IsPlaceholder (before path after : List Char) : Prop where
  leading : ∀ c ∈ before, isLayout c = true
  inPath : ∀ c ∈ path, isPathChar c = true
  ne_nil : path ≠ []
  trailing : ∀ c ∈ after, isLayout c = true

/-- A placeholder within its braces, and the rest of the template. -/
def spelled (before path after rest : List Char) : List Char :=
  '\x7b' :: '\x7b' :: (before ++ (path ++ (after ++ '\x7d' :: '\x7d' :: rest)))

theorem close?_eq_some_iff {cs rest : List Char} :
    close? cs = some rest ↔ cs = '\x7d' :: '\x7d' :: rest := by
  unfold close?
  split
  · simp
  · rename_i h
    refine iff_of_false (by simp) ?_
    rintro rfl
    exact h rest rfl

section
variable {before path after rest cs : List Char}

/-- What closes a placeholder is found after its path and the layout around it. -/
theorem IsPlaceholder.body?_eq (h : IsPlaceholder before path after) :
    body? (before ++ (path ++ (after ++ '\x7d' :: '\x7d' :: rest))) = some (path, rest) := by
  obtain ⟨c, path, rfl⟩ := List.exists_cons_of_ne_nil h.ne_nil
  have hpath : ∀ d ∈ (c :: path ++ (after ++ '\x7d' :: '\x7d' :: rest)).head?,
      isLayout d = false := by
    rintro d ⟨⟩
    exact isLayout_eq_false_of_isPathChar (h.inPath c List.mem_cons_self)
  have hafter : ∀ d ∈ (after ++ '\x7d' :: '\x7d' :: rest).head?, isPathChar d = false := by
    cases after with
    | nil =>
      rintro d ⟨⟩
      decide +kernel
    | cons e after =>
      rintro d ⟨⟩
      exact isPathChar_eq_false_of_isLayout (h.trailing e List.mem_cons_self)
  have hclose : ∀ d ∈ ('\x7d' :: '\x7d' :: rest).head?, isLayout d = false := by
    rintro d ⟨⟩
    decide
  unfold body?
  simp only [List.dropWhile_append_of_pos h.leading, dropWhile_of_head hpath,
    List.takeWhile_append_of_pos h.inPath, takeWhile_of_head hafter,
    List.dropWhile_append_of_pos h.inPath, dropWhile_of_head hafter,
    List.dropWhile_append_of_pos h.trailing, dropWhile_of_head hclose, List.append_nil,
    List.isEmpty_cons, Bool.false_eq_true, if_false, close?, Option.map_some]

theorem exists_of_body? (h : body? cs = some (path, rest)) : ∃ before after,
    IsPlaceholder before path after ∧
      cs = before ++ (path ++ (after ++ '\x7d' :: '\x7d' :: rest)) := by
  unfold body? at h
  dsimp only at h
  split at h
  · cases h
  · rename_i hne
    obtain ⟨rest', hclose, heq⟩ := Option.map_eq_some_iff.mp h
    obtain ⟨rfl, rfl⟩ := Prod.mk.inj heq
    rw [close?_eq_some_iff] at hclose
    refine ⟨cs.takeWhile isLayout,
      ((cs.dropWhile isLayout).dropWhile isPathChar).takeWhile isLayout,
      ⟨fun c => List.mem_takeWhile_imp, fun c => List.mem_takeWhile_imp, by simpa using hne,
        fun c => List.mem_takeWhile_imp⟩, ?_⟩
    rw [← hclose, List.takeWhile_append_dropWhile, List.takeWhile_append_dropWhile,
      List.takeWhile_append_dropWhile]

/-- A placeholder is found exactly where one is written. -/
theorem placeholder?_eq_some_iff : placeholder? cs = some (path, rest) ↔
    ∃ before after, IsPlaceholder before path after ∧ cs = spelled before path after rest := by
  constructor
  · intro h
    unfold placeholder? at h
    split at h
    · obtain ⟨before, after, hspelled, rfl⟩ := exists_of_body? h
      exact ⟨before, after, hspelled, rfl⟩
    · cases h
  · rintro ⟨before, after, h, rfl⟩
    exact h.body?_eq

/-- A placeholder after its opening braces. -/
def closing (before path after : List Char) : List Char :=
  before ++ (path ++ (after ++ ['\x7d', '\x7d']))

theorem spelled_eq (before path after rest : List Char) : spelled before path after rest =
    '\x7b' :: '\x7b' :: (closing before path after ++ rest) := by
  simp [spelled, closing]

theorem spelled_append (more : List Char) :
    spelled before path after rest ++ more = spelled before path after (rest ++ more) := by
  simp [spelled]

theorem closing_ne_nil (before path after : List Char) : closing before path after ≠ [] := by
  simp [closing]

/-- No brace opens after the first two characters of a placeholder. -/
theorem IsPlaceholder.brace_notMem (h : IsPlaceholder before path after) :
    '\x7b' ∉ closing before path after := by
  have hlayout {c : Char} (hc : isLayout c = true) : '\x7b' ≠ c := by
    rintro rfl
    revert hc
    decide
  have hpath {c : Char} (hc : isPathChar c = true) : '\x7b' ≠ c := by
    rintro rfl
    revert hc
    decide +kernel
  simp only [closing, List.mem_append, not_or]
  exact ⟨fun hmem => hlayout (h.leading _ hmem) rfl, fun hmem => hpath (h.inPath _ hmem) rfl,
    fun hmem => hlayout (h.trailing _ hmem) rfl, by decide⟩

/-- A placeholder is found whatever follows it. -/
theorem placeholder?_append (h : placeholder? cs = some (path, rest)) (more : List Char) :
    placeholder? (cs ++ more) = some (path, rest ++ more) := by
  obtain ⟨before, after, hspelled, rfl⟩ := placeholder?_eq_some_iff.mp h
  exact placeholder?_eq_some_iff.mpr ⟨before, after, hspelled, spelled_append more⟩

/-- What is no placeholder by itself does not become one with the beginning of the next: the brace
that opens the next would stand where none can. -/
theorem placeholder?_append_spelled (before path after rest : List Char) (hne : cs ≠ [])
    (hnone : placeholder? cs = none) :
    placeholder? (cs ++ spelled before path after rest) = none := by
  by_contra hsome
  obtain ⟨⟨path', rest'⟩, hfound⟩ := Option.ne_none_iff_exists'.mp hsome
  obtain ⟨before', after', hspelled, heq⟩ := placeholder?_eq_some_iff.mp hfound
  have hbrace := hspelled.brace_notMem
  have hwhole (more : List Char) : cs ≠ spelled before' path' after' more := fun hcs => by
    rw [placeholder?_eq_some_iff.mpr ⟨before', after', hspelled, hcs⟩] at hnone
    cases hnone
  simp only [spelled_eq before'] at heq hwhole
  match cs, hne with
  | [c], _ =>
    obtain ⟨d, more, hmore⟩ := List.exists_cons_of_ne_nil (closing_ne_nil before' path' after')
    simp only [spelled, hmore, List.cons_append, List.nil_append, List.cons.injEq] at heq
    exact hbrace (by simp [hmore, ← heq.2.2.1])
  | c :: d :: cs, _ =>
    simp only [List.cons_append, List.cons.injEq] at heq
    obtain ⟨rfl, rfl, heq⟩ := heq
    rcases List.append_eq_append_iff.mp heq with ⟨inner, hinner, hrest⟩ | ⟨inner, rfl, -⟩
    · cases inner with
      | nil => exact hwhole [] (by simp [hinner])
      | cons e inner =>
        simp only [spelled, List.cons_append, List.cons.injEq] at hrest
        exact hbrace (by simp [hinner, ← hrest.1])
    · exact hwhole inner rfl

end

/-! ## What a template renders to -/

section
variable {value : List Char → List Char} {cs path rest : List Char}

theorem substitute_cons {c : Char} (h : placeholder? (c :: rest) = none) :
    substitute value (c :: rest) = c :: substitute value rest := by
  rw [substitute]
  split
  · next hfound => simp [h] at hfound
  · rfl

theorem substitute_of_placeholder? (h : placeholder? cs = some (path, rest)) :
    substitute value cs = value path ++ substitute value rest := by
  rw [substitute]
  split
  · next hfound =>
    rw [h] at hfound
    obtain ⟨rfl, rfl⟩ := Prod.mk.inj (Option.some.inj hfound)
    rfl
  · next hfound => simp [h] at hfound

/-- A placeholder is replaced by its text, and what stands before it and after it is rendered
apart. -/
theorem substitute_spelled {before after : List Char} (h : IsPlaceholder before path after)
    (front : List Char) : substitute value (front ++ spelled before path after rest) =
      substitute value front ++ (value path ++ substitute value rest) := by
  fun_induction substitute value front with
  | case1 front path' rest' hfound ih =>
    rw [substitute_of_placeholder? (placeholder?_append hfound _), ih, List.append_assoc]
  | case2 =>
    exact substitute_of_placeholder? (placeholder?_eq_some_iff.mpr ⟨before, after, h, rfl⟩)
  | case3 c front hnone ih =>
    have hstill :=
      placeholder?_append_spelled before path after rest (List.cons_ne_nil c front) hnone
    rw [List.cons_append] at hstill ⊢
    rw [substitute_cons hstill, ih, List.cons_append]

/-- Without placeholders there is nothing to replace. -/
theorem substitute_of_plain (h : ∀ front before path after rest,
    IsPlaceholder before path after → cs ≠ front ++ spelled before path after rest) :
    substitute value cs = cs := by
  fun_induction substitute value cs with
  | case1 cs path rest hfound ih =>
    obtain ⟨before, after, hspelled, rfl⟩ := placeholder?_eq_some_iff.mp hfound
    exact absurd rfl (h [] before path after rest hspelled)
  | case2 => rfl
  | case3 c cs hnone ih =>
    rw [ih fun front before path after rest hspelled hcs =>
      h (c :: front) before path after rest hspelled (congrArg (c :: ·) hcs)]

end

theorem toList_render (now : WallClock) (context : Value) (s : String) :
    (render now context s).toList =
      substitute (fun path => (valueText now context (String.ofList path)).toList) s.toList := by
  rw [render, String.toList_ofList]

/-- The text that a path stands for at a time, given the data of an event. -/
inductive StandsFor (now : WallClock) (context : Value) (path : String) : String → Prop
  | value {v : Value} (hresolves : Path.resolve? context path = some v) (hgiven : v ≠ .null) :
      StandsFor now context path v.display
  | null (hresolves : Path.resolve? context path = some .null) : StandsFor now context path ""
  | date (hmissing : Path.resolve? context path = none) (hname : path = "date") :
      StandsFor now context path now.dateText
  | time (hmissing : Path.resolve? context path = none) (hname : path = "time") :
      StandsFor now context path now.timeText
  | missing (hmissing : Path.resolve? context path = none) (hdate : path ≠ "date")
      (htime : path ≠ "time") : StandsFor now context path ""

theorem standsFor_iff {now : WallClock} {context : Value} {path text : String} :
    StandsFor now context path text ↔ text = valueText now context path := by
  constructor
  · intro h
    unfold valueText builtin
    cases h with
    | value hresolves hgiven =>
      rw [hresolves]
      split <;> simp_all
    | null hresolves => rw [hresolves]
    | date hmissing hname => rw [hmissing, hname]; rfl
    | time hmissing hname => rw [hmissing, hname]; rfl
    | missing hmissing hdate htime => simp [hmissing, hdate, htime]
  · rintro rfl
    unfold valueText builtin
    split
    · rename_i hmissing
      split
      · exact .date hmissing ‹_›
      · split
        · exact .time hmissing ‹_›
        · exact .missing hmissing ‹_› ‹_›
    · exact .null ‹_›
    · rename_i v hgiven hresolves
      exact .value hresolves hgiven

/-- A placeholder as it is written in a template. -/
def placeholder (before path after : String) : String :=
  "\x7b\x7b" ++ before ++ path ++ after ++ "\x7d\x7d"

theorem toList_placeholder (front before path after back : String) :
    (front ++ placeholder before path after ++ back).toList =
      front.toList ++ spelled before.toList path.toList after.toList back.toList := by
  simp [placeholder, spelled]

/-- A template has no placeholder if none is found at any place of it. -/
theorem ne_of_tails {template : String}
    (hnone : ∀ suffix ∈ template.toList.tails, placeholder? suffix = none)
    (front before path after back : String)
    (h : IsPlaceholder before.toList path.toList after.toList) :
    template ≠ front ++ placeholder before path after ++ back := by
  rintro rfl
  rw [toList_placeholder] at hnone
  have hfound := hnone _ ((List.mem_tails _ _).mpr (List.suffix_append _ _))
  rw [placeholder?_eq_some_iff.mpr ⟨_, _, h, rfl⟩] at hfound
  cases hfound

/-- Each placeholder is replaced by the text that its path stands for, once and as it is, and
everything else is copied. -/
theorem render_compositional (now : WallClock) (context : Value) :
    (∀ front before path after back : String,
      IsPlaceholder before.toList path.toList after.toList →
        ∃ text, StandsFor now context path text ∧
          render now context (front ++ placeholder before path after ++ back) =
            render now context front ++ text ++ render now context back) ∧
      ∀ template : String,
        (∀ front before path after back : String,
          IsPlaceholder before.toList path.toList after.toList →
            template ≠ front ++ placeholder before path after ++ back) →
          render now context template = template := by
  constructor
  · intro front before path after back h
    refine ⟨_, standsFor_iff.mpr rfl, String.toList_injective ?_⟩
    rw [toList_render, toList_placeholder, substitute_spelled h, ← toList_render]
    simp [toList_render]
  · intro template h
    apply String.toList_injective
    rw [toList_render]
    refine substitute_of_plain fun front before path after back hspelled heq => ?_
    refine h (String.ofList front) (String.ofList before) (String.ofList path)
      (String.ofList after) (String.ofList back) (by simpa using hspelled) ?_
    apply String.toList_injective
    rw [toList_placeholder, heq]
    simp

end Template
namespace Sample

open Template

/-- The data of an event that looks like a template. -/
def braced : Value := .object [("lead", .object [("name", .text "\x7b\x7bdate\x7d\x7d")])]

def noon : WallClock := ⟨2026, 3, 2, 12, 0, 0, 0⟩

/-- Between braces that open and close nothing, a placeholder is replaced by a text that looks like
another one, which stays as it is. -/
theorem render_braced : IsPlaceholder " ".toList "lead.name".toList "\t".toList ∧
    render noon braced
        ("\x7b\x7b a \x7b" ++ placeholder " " "lead.name" "\t" ++ "\x7d \x7b\x7btime") =
      "\x7b\x7b a \x7b" ++ "\x7b\x7bdate\x7d\x7d" ++ "\x7d \x7b\x7btime" := by
  have hspelled : IsPlaceholder " ".toList "lead.name".toList "\t".toList :=
    ⟨by simp; decide, by simp; decide +kernel, by decide +kernel, by simp; decide⟩
  have hvalue : valueText noon braced "lead.name" = "\x7b\x7bdate\x7d\x7d" := by decide +kernel
  obtain ⟨happly, hplain⟩ := render_compositional noon braced
  obtain ⟨text, hstands, hrender⟩ :=
    happly "\x7b\x7b a \x7b" " " "lead.name" "\t" "\x7d \x7b\x7btime" hspelled
  have hfront := hplain "\x7b\x7b a \x7b" (ne_of_tails (by decide +kernel))
  have hback := hplain "\x7d \x7b\x7btime" (ne_of_tails (by decide +kernel))
  refine ⟨hspelled, ?_⟩
  rw [hrender, hfront, hback, standsFor_iff.mp hstands, hvalue]

end Sample
end WorkflowEngine

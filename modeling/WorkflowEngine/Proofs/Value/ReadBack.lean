import Mathlib.Tactic.SplitIfs
import WorkflowEngine.Proofs.Number.ReadBack
import WorkflowEngine.Value.Json
import WorkflowEngine.Value.JsonReader

/-!
# Canonical JSON reads back

The reader inverts the writer, up to the order of fields: what is written for a value is read as
that value with its fields sorted. Two values therefore have the same canonical text just if they
are the same when their fields are sorted.
-/
namespace WorkflowEngine.Value

/-- Induction over a value, its items and the values of its fields. -/
theorem induction_parts {motive : Value → Prop} (null : motive .null)
    (bool : ∀ b, motive (.bool b)) (int : ∀ n, motive (.int n)) (float : ∀ x, motive (.float x))
    (text : ∀ s, motive (.text s)) (list : ∀ items, (∀ v ∈ items, motive v) → motive (.list items))
    (object : ∀ fields, (∀ f ∈ fields, motive f.2) → motive (.object fields)) (v : Value) :
    motive v := by
  refine @Value.rec motive (fun items => ∀ v ∈ items, motive v)
    (fun fields => ∀ f ∈ fields, motive f.2) (fun f => motive f.2) null bool int float text list
    object ?_ ?_ ?_ ?_ (fun _ _ h => h) v
  · exact fun v hv => absurd hv List.not_mem_nil
  · exact fun v items hv hitems => List.forall_mem_cons.mpr ⟨hv, hitems⟩
  · exact fun f hf => absurd hf List.not_mem_nil
  · exact fun f fields hf hfields => List.forall_mem_cons.mpr ⟨hf, hfields⟩

mutual

/-- A value with the fields of every object in the order of their names. -/
def sorted : Value → Value
  | .list items => .list (sortedItems items)
  | .object fields => .object (Json.sortByName (sortedFields fields))
  | v => v

def sortedItems : List Value → List Value
  | [] => []
  | v :: rest => sorted v :: sortedItems rest

def sortedFields : List (String × Value) → List (String × Value)
  | [] => []
  | (name, v) :: rest => (name, sorted v) :: sortedFields rest

end

theorem sortedItems_eq (items : List Value) : sortedItems items = items.map sorted := by
  induction items with
  | nil => rfl
  | cons v rest ih => rw [sortedItems, ih, List.map_cons]

theorem sortedFields_eq (fields : Record) :
    sortedFields fields = fields.map fun f => (f.1, f.2.sorted) := by
  induction fields with
  | nil => rfl
  | cons f rest ih => rw [sortedFields, ih, List.map_cons]

theorem sorted_list (items : List Value) :
    (Value.list items).sorted = .list (items.map sorted) := by
  rw [sorted, sortedItems_eq]

theorem sorted_object (fields : Record) : (Value.object fields).sorted =
    .object (Json.sortByName (fields.map fun f => (f.1, f.2.sorted))) := by
  rw [sorted, sortedFields_eq]

namespace Json

theorem sortByName_map {α β : Type} (g : String × α → β) (entries : List (String × α)) :
    sortByName (entries.map fun f => (f.1, g f)) =
      (sortByName entries).map fun f => (f.1, g f) :=
  (List.map_mergeSort (f := fun f : String × α => (f.1, g f)) fun _ _ _ _ => rfl).symm

theorem pairwise_sortByName {α : Type} (entries : List (String × α)) :
    (sortByName entries).Pairwise fun a b => a.1 ≤ b.1 := by
  refine (List.pairwise_mergeSort (fun a b c hab hbc => ?_) (fun a b => ?_) entries).imp fun h =>
    of_decide_eq_true h
  · exact decide_eq_true (String.le_trans (of_decide_eq_true hab) (of_decide_eq_true hbc))
  · simpa using String.le_total a.1 b.1

theorem sortByName_sortByName {α : Type} (entries : List (String × α)) :
    sortByName (sortByName entries) = sortByName entries :=
  List.mergeSort_of_pairwise ((pairwise_sortByName entries).imp fun h => decide_eq_true h)

theorem writeItems_eq (items : List Value) : writeItems items = items.map write := by
  induction items with
  | nil => rfl
  | cons v rest ih => rw [writeItems, ih, List.map_cons]

/-- A field as it is written. -/
def writeField (f : String × Value) : List Char := writeText f.1 ++ ':' :: write f.2

theorem writeFields_eq (fields : Record) :
    writeFields fields = fields.map fun f => (f.1, writeField f) := by
  induction fields with
  | nil => rfl
  | cons f rest ih => rw [writeFields, ih, List.map_cons, writeField]

theorem write_list (items : List Value) :
    write (.list items) = '[' :: separate (items.map write) ++ [']'] := by
  rw [write, writeItems_eq]

theorem write_object (fields : Record) : write (.object fields) =
    '\x7b' :: separate ((sortByName fields).map writeField) ++ ['\x7d'] := by
  rw [write, writeFields_eq, sortByName_map, List.map_map]
  rfl

end Json

namespace JsonReader

open Number (Binary64)

/-- What follows a value: nothing, a comma or a closing bracket. -/
def EndsToken (rest : List Char) : Prop := ∀ c ∈ rest.head?, c = ',' ∨ c = ']' ∨ c = '\x7d'

/-! ## Numbers -/

section Digits

variable {digits rest : List Char}

theorem digitsValue_eq : digitsValue digits = Nat.ofDigitChars 10 digits 0 := rfl

theorem EndsToken.head_ne (h : EndsToken rest) : ∀ c ∈ rest.head?,
    c.isDigit = false ∧ c ≠ '.' ∧ c ≠ 'e' ∧ c ≠ 'E' ∧ isBlank c = false := by
  intro c hc
  rcases h c hc with rfl | rfl | rfl <;> decide

theorem takeWhile_digits (hdigits : ∀ c ∈ digits, c.isDigit = true)
    (hrest : ∀ c ∈ rest.head?, c.isDigit = false) :
    (digits ++ rest).takeWhile Char.isDigit = digits := by
  rw [List.takeWhile_append_of_pos hdigits]
  cases rest with
  | nil => simp
  | cons c rest => simp [hrest c rfl]

theorem dropWhile_digits (hdigits : ∀ c ∈ digits, c.isDigit = true)
    (hrest : ∀ c ∈ rest.head?, c.isDigit = false) :
    (digits ++ rest).dropWhile Char.isDigit = rest := by
  rw [List.dropWhile_append_of_pos hdigits]
  cases rest with
  | nil => simp
  | cons c rest => simp [hrest c rfl]

end Digits

/-- The parts of a number as it is written. -/
structure Parts where
  negative : Bool
  whole : List Char
  fraction : Option (List Char)
  exponent : Option Int
  whole_ne_nil : whole ≠ []
  isDigit_of_mem : ∀ c ∈ whole ++ fraction.getD [], c.isDigit = true

namespace Parts

def signText (p : Parts) : List Char := if p.negative then ['-'] else []

def fractionText (p : Parts) : List Char := (p.fraction.map ('.' :: ·)).getD []

def exponentText (p : Parts) : List Char :=
  (p.exponent.map ('e' :: Binary64.exponentText ·)).getD []

def text (p : Parts) : List Char := p.signText ++ (p.whole ++ (p.fractionText ++ p.exponentText))

/-- All digits as one number. -/
def digits (p : Parts) : Nat := digitsValue (p.whole ++ p.fraction.getD [])

/-- The power of ten that goes with all digits. -/
def scale (p : Parts) : Int := p.exponent.getD 0 - (p.fraction.getD []).length

/-- The number that is written, an integer if there is neither a point nor an exponent. -/
def value? (p : Parts) : Option Value :=
  if p.fraction = none ∧ p.exponent = none then
    some (.int (if p.negative then -(p.digits : Int) else p.digits))
  else (Binary64.ofScientific? p.negative p.digits p.scale).map .float

end Parts

theorem isDigit_of_mem_exponentText {e : Int} {c : Char}
    (h : c ∈ (Binary64.exponentText e).tail) : c.isDigit = true := by
  simp only [Binary64.exponentText, List.tail_cons, List.mem_append, List.mem_replicate] at h
  rcases h with ⟨-, rfl⟩ | h
  · rfl
  · exact Nat.isDigit_of_mem_toDigits (by decide) (by decide) h

theorem digitsValue_exponentText (e : Int) :
    digitsValue (Binary64.exponentText e).tail = e.natAbs := by
  simp only [Binary64.exponentText, List.tail_cons, digitsValue_eq, Nat.ofDigitChars_append,
    Nat.ofDigitChars_replicate_zero, Nat.mul_zero, Nat.ofDigitChars_ten_toDigits]

theorem readExponent_exponentText {rest : List Char} (hrest : EndsToken rest) (e : Option Int) :
    readExponent ((e.map ('e' :: Binary64.exponentText ·)).getD [] ++ rest) = some (e, rest) := by
  cases e with
  | none =>
    cases rest with
    | nil => rfl
    | cons c rest =>
      obtain ⟨-, -, he, hE, -⟩ := hrest.head_ne c rfl
      simp [readExponent, he, hE]
  | some e =>
    have hdigits : ∀ c ∈ (Binary64.exponentText e).tail, c.isDigit = true :=
      fun c => isDigit_of_mem_exponentText
    have hends : ∀ c ∈ rest.head?, c.isDigit = false := fun c hc => (hrest.head_ne c hc).1
    have htext : Binary64.exponentText e =
        (if e < 0 then '-' else '+') :: (Binary64.exponentText e).tail := rfl
    have hne : (Binary64.exponentText e).tail ≠ [] := by
      simp [Binary64.exponentText, Nat.toDigits_ne_nil]
    have hvalue := digitsValue_exponentText e
    rw [Option.map_some, Option.getD_some, htext]
    generalize (Binary64.exponentText e).tail = digits at *
    by_cases hneg : e < 0 <;>
      simp only [readExponent, hneg, List.cons_append, takeWhile_digits hdigits hends,
        dropWhile_digits hdigits hends, hvalue, List.isEmpty_iff, hne, beq_self_eq_true,
        Bool.true_or, Bool.false_eq_true, if_true, if_false] <;>
      congr 3 <;> omega

/-- A leading minus sign and the rest. -/
def takeSign : List Char → Bool × List Char
  | '-' :: rest => (true, rest)
  | rest => (false, rest)

/-- The digits after a leading point and the rest. -/
def takeFraction : List Char → Option (List Char) × List Char
  | '.' :: rest => (some (rest.takeWhile Char.isDigit), rest.dropWhile Char.isDigit)
  | rest => (none, rest)

/-- The number with the parts that were read, and the rest. -/
def assemble (negative : Bool) (whole : List Char) (fraction : Option (List Char))
    (read : Option Int × List Char) : Option (Value × List Char) :=
  match fraction, read.1 with
  | none, none =>
    let n : Int := digitsValue whole
    some (.int (if negative then -n else n), read.2)
  | fraction, exponent =>
    let fraction := fraction.getD []
    (Binary64.ofScientific? negative (digitsValue (whole ++ fraction))
      (exponent.getD 0 - fraction.length)).bind fun x => some (.float x, read.2)

theorem readNumber_eq (cs : List Char) : readNumber cs =
    let (negative, cs) := takeSign cs
    let whole := cs.takeWhile Char.isDigit
    let (fraction, cs) := takeFraction (cs.dropWhile Char.isDigit)
    if whole.isEmpty then none else (readExponent cs).bind (assemble negative whole fraction) :=
  rfl

theorem takeSign_signText (p : Parts) (after : List Char) :
    takeSign (p.signText ++ (p.whole ++ after)) = (p.negative, p.whole ++ after) := by
  unfold Parts.signText
  split
  · next hnegative => rw [hnegative]; rfl
  · next hpositive =>
    obtain ⟨c, whole, hwhole⟩ := List.exists_cons_of_ne_nil p.whole_ne_nil
    have hdigit : c.isDigit = true := p.isDigit_of_mem c (by simp [hwhole])
    have hne : c ≠ '-' := by rintro rfl; exact absurd hdigit (by decide)
    simp [takeSign, hwhole, hne, Bool.eq_false_iff.mpr hpositive]

theorem takeFraction_fractionText (p : Parts) {after : List Char}
    (hafter : ∀ c ∈ after.head?, c.isDigit = false ∧ c ≠ '.') :
    takeFraction (p.fractionText ++ after) = (p.fraction, after) := by
  unfold Parts.fractionText
  cases hfraction : p.fraction with
  | none =>
    cases after with
    | nil => rfl
    | cons c after => simp [takeFraction, (hafter c rfl).2]
  | some digits =>
    have hdigits : ∀ c ∈ digits, c.isDigit = true := fun c hc =>
      p.isDigit_of_mem c (by simp [hfraction, hc])
    have hends : ∀ c ∈ after.head?, c.isDigit = false := fun c hc => (hafter c hc).1
    simp [takeFraction, takeWhile_digits hdigits hends, dropWhile_digits hdigits hends]

/-- A number is read as its parts say. -/
theorem readNumber_text (p : Parts) {rest : List Char} (hrest : EndsToken rest) :
    readNumber (p.text ++ rest) = p.value?.map (·, rest) := by
  have hexponent : readExponent (p.exponentText ++ rest) = some (p.exponent, rest) :=
    readExponent_exponentText hrest p.exponent
  have hafter : ∀ c ∈ (p.exponentText ++ rest).head?, c.isDigit = false ∧ c ≠ '.' := by
    unfold Parts.exponentText
    intro c hc
    cases hexponent : p.exponent with
    | none =>
      rw [hexponent] at hc
      exact ⟨(hrest.head_ne c hc).1, (hrest.head_ne c hc).2.1⟩
    | some e =>
      rw [hexponent] at hc
      obtain rfl : 'e' = c := Option.some.inj hc
      decide
  have hwhole : ∀ c ∈ p.whole, c.isDigit = true := fun c hc =>
    p.isDigit_of_mem c (List.mem_append_left _ hc)
  have hends : ∀ c ∈ (p.fractionText ++ (p.exponentText ++ rest)).head?, c.isDigit = false := by
    unfold Parts.fractionText
    intro c hc
    cases hfraction : p.fraction with
    | none =>
      rw [hfraction] at hc
      exact (hafter c hc).1
    | some digits =>
      rw [hfraction] at hc
      obtain rfl : '.' = c := Option.some.inj hc
      decide
  have hassemble : assemble p.negative p.whole p.fraction (p.exponent, rest) =
      p.value?.map (·, rest) := by
    unfold assemble Parts.value? Parts.digits Parts.scale
    cases p.fraction <;> cases p.exponent <;>
      simp [Option.map_eq_bind, Option.bind_assoc]
  simp only [Parts.text, List.append_assoc, readNumber_eq, takeSign_signText,
    takeWhile_digits hwhole hends, dropWhile_digits hwhole hends,
    takeFraction_fractionText p hafter, hexponent, Option.bind_some, hassemble, List.isEmpty_iff,
    p.whole_ne_nil, if_false]

/-- However the digits of a double are set out, they are read as the same decimal. -/
theorem exists_parts_layout (negative : Bool) {digits : List Char} (hne : digits ≠ [])
    (hdigits : ∀ c ∈ digits, c.isDigit = true) (point : Int) :
    ∃ p : Parts, p.negative = negative ∧
      p.whole ++ (p.fractionText ++ p.exponentText) = Binary64.layout digits point ∧
      (p.fraction.isSome ∨ p.exponent.isSome) ∧
      Binary64.ofDecimal negative p.digits p.scale =
        Binary64.ofDecimal negative (digitsValue digits) (point - digits.length) := by
  have hzeros {k : Nat} : ∀ c ∈ List.replicate k '0', c.isDigit = true := fun c hc => by
    rw [List.eq_of_mem_replicate hc]
    rfl
  unfold Binary64.layout
  split
  · split
    · next hsmall =>
      refine ⟨⟨negative, ['0'], some (List.replicate (-point).toNat '0' ++ digits), none,
        List.cons_ne_nil _ _, ?_⟩, rfl, ?_, .inl rfl, ?_⟩
      · simp only [Option.getD_some, List.mem_append, List.mem_singleton]
        rintro c (rfl | hc | hc)
        · rfl
        · exact hzeros c hc
        · exact hdigits c hc
      · simp [Parts.fractionText, Parts.exponentText]
      · simp only [Parts.digits, Parts.scale, digitsValue_eq, Option.getD_some, Option.getD_none,
          Nat.ofDigitChars_append, Nat.ofDigitChars_replicate_zero, List.length_append,
          List.length_replicate]
        congr 1
        push_cast
        omega
    · split
      · next hwhole =>
        refine ⟨⟨negative, digits ++ List.replicate (point.toNat - digits.length) '0', some ['0'],
          none, by simp [hne], ?_⟩, rfl, ?_, .inl rfl, ?_⟩
        · simp only [Option.getD_some, List.mem_append, List.mem_singleton]
          rintro c ((hc | hc) | rfl)
          · exact hdigits c hc
          · exact hzeros c hc
          · rfl
        · simp [Parts.fractionText, Parts.exponentText]
        · have hvalue : digitsValue
              (digits ++ List.replicate (point.toNat - digits.length) '0' ++ ['0']) =
              digitsValue digits * 10 ^ (point.toNat - digits.length + 1) := by
            simp only [digitsValue_eq, Nat.ofDigitChars_append, Nat.ofDigitChars_replicate_zero,
              Nat.ofDigitChars_cons, Nat.ofDigitChars_nil, Nat.sub_self, Nat.add_zero]
            ring
          simp only [Parts.digits, Parts.scale, Option.getD_some, Option.getD_none, hvalue,
            Binary64.ofDecimal_mul_pow, List.length_singleton]
          congr 1
          push_cast
          omega
      · next hinside =>
        refine ⟨⟨negative, digits.take point.toNat, some (digits.drop point.toNat), none, ?_, ?_⟩,
          rfl, ?_, .inl rfl, ?_⟩
        · simp [hne]
          omega
        · simpa using hdigits
        · simp [Parts.fractionText, Parts.exponentText]
        · simp [Parts.digits, Parts.scale]
          congr 1
          omega
  · match digits with
    | [] => exact absurd rfl hne
    | [d] =>
      refine ⟨⟨negative, [d], none, some (point - 1), by simp, by simpa using hdigits⟩,
        rfl, rfl, .inr rfl, ?_⟩
      simp [Parts.digits, Parts.scale]
    | d :: e :: rest =>
      refine ⟨⟨negative, [d], some (e :: rest), some (point - 1), by simp, by simpa using hdigits⟩,
        rfl, rfl, .inr rfl, ?_⟩
      simp [Parts.digits, Parts.scale]
      congr 1
      omega

/-- The text of a double, in parts that are read as that double. -/
theorem exists_parts_float (x : Binary64) :
    ∃ p : Parts, p.text = x.text.toList ∧ p.value? = some (.float x) := by
  suffices hmagnitude : ∃ p : Parts, p.negative = x.negative ∧
      p.whole ++ (p.fractionText ++ p.exponentText) = x.magnitudeText ∧
      (p.fraction.isSome ∨ p.exponent.isSome) ∧
      Binary64.ofDecimal p.negative p.digits p.scale = some x by
    obtain ⟨p, hnegative, htext, hpart, hvalue⟩ := hmagnitude
    refine ⟨p, ?_, ?_⟩
    · simp only [Parts.text, Parts.signText, htext, hnegative, Binary64.text, String.toList_ofList]
      split <;> rfl
    · rw [Parts.value?, if_neg, Binary64.ofScientific?_eq_ofDecimal, hvalue, Option.map_some]
      rintro ⟨hfraction, hexponent⟩
      simp [hfraction, hexponent] at hpart
  unfold Binary64.magnitudeText
  split
  · next hzero =>
    have hx := Binary64.eq_zero_of_significand (x := x) (by simpa [Binary64.isZero] using hzero)
    refine ⟨⟨x.negative, ['0'], some ['0'], none, by simp, by simp⟩, rfl, rfl, .inl rfl, ?_⟩
    exact congrArg some hx.symm
  · obtain ⟨p, hnegative, htext, hpart, hvalue⟩ := exists_parts_layout x.negative
      (Nat.toDigits_ne_nil : Nat.toDigits 10 x.shortest.digits ≠ [])
      (fun c => Nat.isDigit_of_mem_toDigits (by decide) (by decide))
      ((Nat.toDigits 10 x.shortest.digits).length + x.shortest.exponent)
    refine ⟨p, hnegative, htext, hpart, ?_⟩
    rw [hnegative, hvalue, digitsValue_eq, Nat.ofDigitChars_ten_toDigits, add_sub_cancel_left,
      Binary64.ofDecimal_shortest]

/-- The text of an integer, in parts that are read as that integer. -/
theorem exists_parts_int (n : Int) :
    ∃ p : Parts, p.text = (toString n).toList ∧ p.value? = some (.int n) := by
  have hdigits (m : Nat) : ∀ c ∈ Nat.toDigits 10 m ++ [], c.isDigit = true := by
    rw [List.append_nil]
    exact fun c => Nat.isDigit_of_mem_toDigits (by decide) (by decide)
  have htext (m : Nat) : (toString m).toList = Nat.toDigits 10 m := by
    rw [Nat.toString_eq_ofList_toDigits, String.toList_ofList]
  cases n with
  | ofNat m =>
    refine ⟨⟨false, Nat.toDigits 10 m, none, none, Nat.toDigits_ne_nil, hdigits m⟩, ?_, ?_⟩
    · exact (List.append_nil _).trans (htext m).symm
    · simp [Parts.value?, Parts.digits, digitsValue_eq, Nat.ofDigitChars_ten_toDigits]
  | negSucc m =>
    refine ⟨⟨true, Nat.toDigits 10 (m + 1), none, none, Nat.toDigits_ne_nil, hdigits _⟩, ?_, ?_⟩
    · rw [show toString (Int.negSucc m) = "-" ++ toString (m + 1) from rfl, String.toList_append,
        htext]
      simp [Parts.text, Parts.signText, Parts.fractionText, Parts.exponentText]
    · simp [Parts.value?, Parts.digits, digitsValue_eq, Nat.ofDigitChars_ten_toDigits,
        Int.negSucc_eq]

/-! ## Texts -/

section Texts

open Text Json

theorem write_succ {width : Nat} (h : 0 < width) (n : Nat) :
    Hex.write (width + 1) n = Hex.write width (n / 16) ++ [(n % 16).digitChar] := by
  unfold Hex.write
  rcases Nat.lt_or_ge n 16 with hlt | hle
  · rw [Nat.toDigits_of_lt_base hlt, Nat.div_eq_of_lt hlt, Nat.toDigits_zero, Nat.mod_eq_of_lt hlt]
    obtain ⟨width, rfl⟩ := Nat.exists_eq_add_of_lt h
    simp [← List.replicate_succ', List.replicate_succ]
  · rw [Nat.toDigits_of_base_le (by decide) hle]
    simp [Nat.add_sub_add_right]

theorem write_one {n : Nat} (h : n < 16) : Hex.write 1 n = [n.digitChar] := by
  unfold Hex.write
  rw [Nat.toDigits_of_lt_base h]
  rfl

theorem digit?_digitChar : ∀ {n : Nat}, n < 16 → Hex.digit? n.digitChar = some n := by
  decide

theorem readUnit_write {n : Nat} (h : n < 0x10000) (rest : List Char) :
    readUnit (Hex.write 4 n ++ rest) = some (n, rest) := by
  have hmod (m : Nat) : Hex.digit? (m % 16).digitChar = some (m % 16) :=
    digit?_digitChar (Nat.mod_lt m (by decide))
  rw [write_succ (by decide), write_succ (by decide), write_succ (by decide),
    write_one (by omega)]
  have hfirst : Hex.digit? (n / 16 / 16 / 16).digitChar = some (n / 16 / 16 / 16) :=
    digit?_digitChar (by omega)
  simp [readUnit, hmod, hfirst]
  omega

/-- The form in which a character stands inside a string. -/
theorem escapeChar_cases (c : Char) :
    (∃ letter, escapeChar c = ['\\', letter] ∧ letter ≠ 'u' ∧ shortEscape? letter = some c) ∨
      (escapeChar c = [c] ∧ c ≠ '\x22' ∧ c ≠ '\\' ∧ 0x20 ≤ c.toNat) ∨
      (escapeChar c = escapeUnit c.toNat ∧ c.toNat < 0x10000) ∨
      (escapeChar c = escapeUnit (0xd800 + (c.toNat - 0x10000) / 0x400) ++
        escapeUnit (0xdc00 + (c.toNat - 0x10000) % 0x400) ∧ 0x10000 ≤ c.toNat) := by
  unfold escapeChar
  dsimp only
  split_ifs with hself hline hreturn htab hfeed hback hplain hunit
  · rcases Bool.or_eq_true_iff.mp hself with hself | hself <;> obtain rfl := eq_of_beq hself <;>
      exact .inl ⟨_, rfl, by decide, rfl⟩
  · obtain rfl := eq_of_beq hline
    exact .inl ⟨_, rfl, by decide, rfl⟩
  · obtain rfl := eq_of_beq hreturn
    exact .inl ⟨_, rfl, by decide, rfl⟩
  · obtain rfl := eq_of_beq htab
    exact .inl ⟨_, rfl, by decide, rfl⟩
  · obtain rfl : c = '\x0c' := Char.toNat_inj.mp (eq_of_beq hfeed)
    exact .inl ⟨_, rfl, by decide, rfl⟩
  · obtain rfl : c = '\x08' := Char.toNat_inj.mp (eq_of_beq hback)
    exact .inl ⟨_, rfl, by decide, rfl⟩
  · rw [Bool.or_eq_true_iff, not_or, beq_iff_eq, beq_iff_eq] at hself
    rw [Bool.and_eq_true, decide_eq_true_eq, decide_eq_true_eq] at hplain
    exact .inr (.inl ⟨rfl, hself.1, hself.2, hplain.1⟩)
  · exact .inr (.inr (.inl ⟨rfl, by omega⟩))
  · exact .inr (.inr (.inr ⟨rfl, by omega⟩))

theorem escapeChar_ne_nil (c : Char) : escapeChar c ≠ [] := by
  rcases escapeChar_cases c with ⟨letter, h, -⟩ | ⟨h, -⟩ | ⟨h, -⟩ | ⟨h, -⟩ <;> rw [h] <;>
    exact List.cons_ne_nil _ _

theorem readEscape_write (c : Char) (h : c.toNat < 0x10000) (rest : List Char) :
    readEscape (Hex.write 4 c.toNat ++ rest) = some (c, rest) := by
  have hlone : ¬(0xd800 ≤ c.toNat ∧ c.toNat ≤ 0xdbff) := by
    have hvalid : c.toNat < 0xd800 ∨ 0xdfff < c.toNat ∧ c.toNat < 0x110000 := c.valid
    omega
  have hlone : (decide (0xd800 ≤ c.toNat) && decide (c.toNat ≤ 0xdbff)) = false := by
    simpa using hlone
  unfold readEscape
  rw [readUnit_write h, Option.bind_eq_bind, Option.bind_some]
  dsimp only
  rw [hlone, Char.ofNat_toNat]
  rfl

theorem readEscape_write_pair (c : Char) (h : 0x10000 ≤ c.toNat) (rest : List Char) :
    readEscape (Hex.write 4 (0xd800 + (c.toNat - 0x10000) / 0x400) ++
      '\\' :: 'u' :: (Hex.write 4 (0xdc00 + (c.toNat - 0x10000) % 0x400) ++ rest)) =
      some (c, rest) := by
  have hmost : c.toNat < 0x110000 := by
    have hvalid : c.toNat < 0xd800 ∨ 0xdfff < c.toNat ∧ c.toNat < 0x110000 := c.valid
    omega
  obtain ⟨high, hhigh⟩ : ∃ high, 0xd800 + (c.toNat - 0x10000) / 0x400 = high := ⟨_, rfl⟩
  obtain ⟨low, hlow⟩ : ∃ low, 0xdc00 + (c.toNat - 0x10000) % 0x400 = low := ⟨_, rfl⟩
  have hhighRange : (decide (0xd800 ≤ high) && decide (high ≤ 0xdbff)) = true := by
    rw [Bool.and_eq_true, decide_eq_true_eq, decide_eq_true_eq]
    omega
  have hlowRange : (decide (0xdc00 ≤ low) && decide (low ≤ 0xdfff)) = true := by
    rw [Bool.and_eq_true, decide_eq_true_eq, decide_eq_true_eq]
    omega
  have hsum : 0x10000 + (high - 0xd800) * 0x400 + (low - 0xdc00) = c.toNat := by omega
  rw [hhigh, hlow]
  unfold readEscape
  rw [readUnit_write (by omega), Option.bind_eq_bind, Option.bind_some]
  dsimp only
  rw [if_pos hhighRange]
  change (readUnit (Hex.write 4 low ++ rest)).bind _ = _
  rw [readUnit_write (by omega), Option.bind_some]
  dsimp only
  rw [if_pos hlowRange, hsum, Char.ofNat_toNat]
  rfl

theorem readString_escape (steps : Nat) (read cs : List Char) :
    readString (steps + 1) read ('\\' :: 'u' :: cs) =
      (readEscape cs).bind fun (c, rest) => readString steps (c :: read) rest :=
  rfl

/-- Each character of a text is read in one step. -/
theorem readString_escapeChar (steps : Nat) (read : List Char) (c : Char) (rest : List Char) :
    readString (steps + 1) read (escapeChar c ++ rest) = readString steps (c :: read) rest := by
  rcases escapeChar_cases c with ⟨letter, h, hletter, hshort⟩ | ⟨h, hquote, hslash, hplain⟩ |
    ⟨h, hunit⟩ | ⟨h, hpair⟩ <;> rw [h]
  · simp [readString, hshort]
  · simp [readString, hslash, hplain.not_gt]
  · rw [escapeUnit, List.cons_append, List.cons_append, readString_escape,
      readEscape_write c hunit, Option.bind_some]
  · rw [List.append_assoc, escapeUnit, escapeUnit, List.cons_append, List.cons_append,
      List.cons_append, List.cons_append, readString_escape, readEscape_write_pair c hpair,
      Option.bind_some]

/-- A text is read up to its closing quote. -/
theorem readString_write {steps : Nat} (cs read rest : List Char) (h : cs.length < steps) :
    readString steps read (cs.flatMap escapeChar ++ '\x22' :: rest) =
      some (String.ofList (read.reverse ++ cs), rest) := by
  induction cs generalizing steps read with
  | nil =>
    obtain ⟨steps, rfl⟩ := Nat.exists_eq_add_of_lt h
    simp [readString]
  | cons c cs ih =>
    obtain ⟨steps, rfl⟩ : ∃ n, steps = n + 1 := ⟨steps - 1, by omega⟩
    rw [List.flatMap_cons, List.append_assoc, readString_escapeChar,
      ih _ (Nat.lt_of_succ_lt_succ h), List.reverse_cons, List.append_assoc]
    rfl

theorem length_le_flatMap_escapeChar (cs : List Char) :
    cs.length ≤ (cs.flatMap escapeChar).length := by
  induction cs with
  | nil => exact Nat.le_refl 0
  | cons c cs ih =>
    have := List.length_pos_iff.mpr (escapeChar_ne_nil c)
    simp only [List.flatMap_cons, List.length_append, List.length_cons]
    omega

theorem readString_writeText (s : String) (rest : List Char) :
    ∃ body, writeText s ++ rest = '\x22' :: body ∧
      readString body.length.succ [] body = some (s, rest) := by
  refine ⟨s.toList.flatMap escapeChar ++ '\x22' :: rest, by simp [writeText], ?_⟩
  have := length_le_flatMap_escapeChar s.toList
  rw [readString_write _ _ _ (by simp only [List.length_append]; omega)]
  simp

end Texts

/-! ## Values -/

open Json

theorem skip_cons {c : Char} (h : isBlank c = false) (cs : List Char) : skip (c :: cs) = c :: cs :=
  List.dropWhile_cons_of_neg (by simp [h])

theorem EndsToken.skip_eq {rest : List Char} (h : EndsToken rest) : skip rest = rest := by
  cases rest with
  | nil => rfl
  | cons c rest => exact skip_cons (h.head_ne c rfl).2.2.2.2 rest

theorem Parts.exists_text_eq_cons (p : Parts) :
    ∃ c cs, p.text = c :: cs ∧ (c = '-' ∨ c.isDigit = true) := by
  obtain ⟨c, cs, hwhole⟩ := List.exists_cons_of_ne_nil p.whole_ne_nil
  unfold Parts.text Parts.signText
  split
  · exact ⟨_, _, rfl, .inl rfl⟩
  · exact ⟨c, _, by rw [hwhole]; rfl, .inr (p.isDigit_of_mem c (by simp [hwhole]))⟩

/-- Characters with which no number begins. -/
theorem not_mem_of_begins_number {c : Char} (h : c = '-' ∨ c.isDigit = true) :
    c ∉ [' ', '\t', '\n', '\r', '\x22', '[', '\x7b', ']', '\x7d', 'n', 't', 'f'] := by
  intro hc
  have hothers : [' ', '\t', '\n', '\r', '\x22', '[', '\x7b', ']', '\x7d', 'n', 't', 'f'].all
      (fun d => !(d == '-' || d.isDigit)) = true := by decide
  have hother := List.all_eq_true.mp hothers c hc
  rcases h with rfl | h
  · simp at hother
  · simp [h] at hother

/-- How the text of a value begins. -/
theorem exists_write_eq_cons (v : Value) :
    ∃ c cs, write v = c :: cs ∧ isBlank c = false ∧ c ≠ ']' ∧ c ≠ '\x7d' := by
  have hnumber (p : Parts) :
      ∃ c cs, p.text = c :: cs ∧ isBlank c = false ∧ c ≠ ']' ∧ c ≠ '\x7d' := by
    obtain ⟨c, cs, htext, hc⟩ := p.exists_text_eq_cons
    have hne := not_mem_of_begins_number hc
    simp only [List.mem_cons, not_or] at hne
    exact ⟨c, cs, htext, by simp [isBlank, hne], by simp [hne], by simp [hne]⟩
  cases v with
  | null => exact ⟨'n', _, rfl, by decide⟩
  | bool b => cases b <;> exact ⟨_, _, rfl, by decide⟩
  | int n =>
    obtain ⟨p, htext, -⟩ := exists_parts_int n
    rw [write, ← htext]
    exact hnumber p
  | float x =>
    obtain ⟨p, htext, -⟩ := exists_parts_float x
    rw [write, ← htext]
    exact hnumber p
  | text s => exact ⟨'\x22', _, rfl, by decide⟩
  | list items => exact ⟨'[', _, rfl, by decide⟩
  | object fields => exact ⟨'\x7b', _, rfl, by decide⟩

theorem length_write_pos (v : Value) : 0 < (write v).length := by
  obtain ⟨c, cs, h, -⟩ := exists_write_eq_cons v
  rw [h]
  exact Nat.succ_pos _

theorem readValue_number (p : Parts) {steps : Nat} (h : 0 < steps) (rest : List Char) :
    readValue steps (p.text ++ rest) = readNumber (p.text ++ rest) := by
  obtain ⟨c, cs, htext, hc⟩ := p.exists_text_eq_cons
  obtain ⟨steps, rfl⟩ := Nat.exists_eq_add_of_lt h
  have hne := not_mem_of_begins_number hc
  simp only [List.mem_cons, not_or] at hne
  have hblank : isBlank c = false := by simp [isBlank, hne]
  rw [htext, readValue, List.cons_append, skip_cons hblank]
  simp [hne]

/-- A value that is read from its text with its fields sorted. -/
def ReadsBack (v : Value) : Prop :=
  ∀ steps rest, EndsToken rest → (write v).length ≤ steps →
    readValue steps (write v ++ rest) = some (v.sorted, rest)

theorem endsToken_cons {c : Char} (h : c = ',' ∨ c = ']' ∨ c = '\x7d') (rest : List Char) :
    EndsToken (c :: rest) := by
  intro d hd
  obtain rfl : c = d := Option.some.inj hd
  exact h

theorem readItems_write {items : List Value} (hne : items ≠ [])
    (hitems : ∀ v ∈ items, ReadsBack v) {steps : Nat}
    (hsteps : (separate (items.map write)).length < steps) (rest : List Char) :
    readItems steps (separate (items.map write) ++ ']' :: rest) =
      some (items.map sorted, rest) := by
  induction items generalizing steps with
  | nil => exact absurd rfl hne
  | cons v items ih =>
    obtain ⟨steps, rfl⟩ : ∃ n, steps = n + 1 := ⟨steps - 1, by omega⟩
    have hv := hitems v List.mem_cons_self
    have hpos := length_write_pos v
    cases items with
    | nil =>
      have hends := endsToken_cons (.inr (.inl rfl)) rest
      simp only [List.map_cons, List.map_nil, separate] at hsteps ⊢
      rw [readItems, hv steps _ hends (by omega), Option.bind_eq_bind, Option.bind_some]
      simp [hends.skip_eq]
    | cons w items =>
      simp only [List.map_cons, separate, List.length_append, List.length_cons, List.append_assoc,
        List.cons_append] at hsteps ⊢
      have hends := endsToken_cons (.inl rfl)
        (separate (write w :: items.map write) ++ ']' :: rest)
      have hshort : (separate ((w :: items).map write)).length < steps := by
        rw [List.map_cons]
        omega
      have hrest := ih (List.cons_ne_nil w items)
        (fun u hu => hitems u (List.mem_cons_of_mem v hu)) hshort
      rw [readItems, hv steps _ hends (by omega), Option.bind_eq_bind, Option.bind_some]
      simp only [List.map_cons] at hrest
      simp [hends.skip_eq, hrest]

/-- One field is read, and what follows it is looked at. -/
theorem readFields_writeField {f : String × Value} (hf : ReadsBack f.2) {steps : Nat}
    (hsteps : (writeField f).length ≤ steps) {c : Char} (hc : c = ',' ∨ c = '\x7d')
    (rest : List Char) :
    readFields (steps + 1) (writeField f ++ c :: rest) =
      if c = ',' then
        (readFields steps rest).map fun (fields, rest) => ((f.1, f.2.sorted) :: fields, rest)
      else some ([(f.1, f.2.sorted)], rest) := by
  obtain ⟨body, hbody, hread⟩ := readString_writeText f.1 (':' :: (write f.2 ++ c :: rest))
  have hends := endsToken_cons (hc.imp_right .inr) rest
  have hvalue := hf steps (c :: rest) hends (by
    simp only [writeField, List.length_append, List.length_cons] at hsteps
    omega)
  rw [writeField, List.append_assoc, List.cons_append, hbody]
  change (readString body.length.succ [] body).bind _ = _
  rw [hread, Option.bind_some]
  change (readValue steps (write f.2 ++ c :: rest)).bind _ = _
  rw [hvalue, Option.bind_some]
  rcases hc with rfl | rfl
  · rw [if_pos rfl]
    simp [hends.skip_eq, Option.map_eq_bind]
  · simp [hends.skip_eq]

theorem readFields_write {fields : Record} (hne : fields ≠ [])
    (hfields : ∀ f ∈ fields, ReadsBack f.2) {steps : Nat}
    (hsteps : (separate (fields.map writeField)).length < steps) (rest : List Char) :
    readFields steps (separate (fields.map writeField) ++ '\x7d' :: rest) =
      some (fields.map fun f => (f.1, f.2.sorted), rest) := by
  induction fields generalizing steps with
  | nil => exact absurd rfl hne
  | cons f fields ih =>
    obtain ⟨steps, rfl⟩ : ∃ n, steps = n + 1 := ⟨steps - 1, by omega⟩
    have hf := hfields f List.mem_cons_self
    cases fields with
    | nil =>
      simp only [List.map_cons, List.map_nil, separate] at hsteps ⊢
      rw [readFields_writeField hf (by omega) (.inr rfl), if_neg (by decide)]
    | cons f' fields =>
      simp only [List.map_cons, separate, List.length_append, List.length_cons, List.append_assoc,
        List.cons_append] at hsteps ⊢
      have hshort : (separate ((f' :: fields).map writeField)).length < steps := by
        rw [List.map_cons]
        omega
      have hrest := ih (List.cons_ne_nil f' fields)
        (fun g hg => hfields g (List.mem_cons_of_mem f hg)) hshort
      rw [List.map_cons] at hrest
      rw [readFields_writeField hf (by omega) (.inl rfl), if_pos rfl, hrest]
      rfl

theorem ReadsBack.of_succ {v : Value}
    (h : ∀ steps rest, EndsToken rest → (write v).length ≤ steps + 1 →
      readValue (steps + 1) (write v ++ rest) = some (v.sorted, rest)) : ReadsBack v := by
  intro steps rest hrest hsteps
  have hpos := length_write_pos v
  obtain ⟨steps, rfl⟩ : ∃ n, steps = n + 1 := ⟨steps - 1, by omega⟩
  exact h steps rest hrest hsteps

theorem exists_separate_eq_cons {text : List Char} {c : Char} {cs : List Char} (h : text = c :: cs)
    (texts : List (List Char)) (rest : List Char) :
    ∃ cs', separate (text :: texts) ++ rest = c :: cs' := by
  subst h
  cases texts <;> exact ⟨_, rfl⟩

theorem readValue_list {c : Char} (hblank : isBlank c = false) (hbracket : c ≠ ']') (steps : Nat)
    (cs : List Char) : readValue (steps + 1) ('[' :: c :: cs) =
      (readItems steps (c :: cs)).bind fun (items, rest) => some (Value.list items, rest) := by
  have hopening : skip ('[' :: c :: cs) = '[' :: c :: cs := rfl
  simp only [readValue, hopening, skip_cons hblank]
  simp [hbracket]

theorem readValue_object {c : Char} (hblank : isBlank c = false) (hbrace : c ≠ '\x7d')
    (steps : Nat) (cs : List Char) : readValue (steps + 1) ('\x7b' :: c :: cs) =
      (readFields steps (c :: cs)).bind fun (fields, rest) => some (Value.object fields, rest) := by
  have hopening : skip ('\x7b' :: c :: cs) = '\x7b' :: c :: cs := rfl
  simp only [readValue, hopening, skip_cons hblank]
  simp [hbrace]

theorem readsBack_list {items : List Value} (hitems : ∀ v ∈ items, ReadsBack v) :
    ReadsBack (.list items) := by
  refine .of_succ fun steps rest _ hsteps => ?_
  rw [write_list, List.length_append, List.length_cons, List.length_singleton] at hsteps
  rw [write_list, sorted_list, List.cons_append, List.cons_append, List.append_assoc,
    List.singleton_append]
  cases items with
  | nil => rfl
  | cons v items =>
    obtain ⟨c, cs, hv, hblank, hbracket, -⟩ := exists_write_eq_cons v
    obtain ⟨cs', htext⟩ := exists_separate_eq_cons hv (items.map write) (']' :: rest)
    have hsteps : (separate ((v :: items).map write)).length < steps := by omega
    have hread := readItems_write (List.cons_ne_nil v items) hitems hsteps rest
    rw [List.map_cons, htext] at hread ⊢
    rw [readValue_list hblank hbracket, hread]
    rfl

theorem readsBack_object {fields : Record} (hfields : ∀ f ∈ fields, ReadsBack f.2) :
    ReadsBack (.object fields) := by
  have hsorted : ∀ f ∈ sortByName fields, ReadsBack f.2 := fun f hf =>
    hfields f (List.mem_mergeSort.mp hf)
  refine .of_succ fun steps rest _ hsteps => ?_
  rw [write_object, List.length_append, List.length_cons, List.length_singleton] at hsteps
  rw [write_object, sorted_object, sortByName_map, List.cons_append, List.cons_append,
    List.append_assoc, List.singleton_append]
  generalize sortByName fields = fields at *
  cases fields with
  | nil => rfl
  | cons f fields =>
    obtain ⟨cs', htext⟩ := exists_separate_eq_cons (show writeField f = '\x22' :: _ from rfl)
      (fields.map writeField) ('\x7d' :: rest)
    have hsteps : (separate ((f :: fields).map writeField)).length < steps := by omega
    have hread := readFields_write (List.cons_ne_nil f fields) hsorted hsteps rest
    rw [List.map_cons, htext] at hread ⊢
    rw [readValue_object (by decide) (by decide), hread]
    rfl

/-- What is written for a value is read as the value with its fields sorted. -/
theorem readsBack (v : Value) : ReadsBack v := by
  induction v using induction_parts with
  | null => exact .of_succ fun _ _ _ _ => rfl
  | bool b => exact .of_succ fun _ _ _ _ => by cases b <;> rfl
  | int n =>
    refine .of_succ fun steps rest hrest _ => ?_
    obtain ⟨p, htext, hvalue⟩ := exists_parts_int n
    rw [write, ← htext, readValue_number p (Nat.succ_pos _), readNumber_text p hrest, hvalue]
    rfl
  | float x =>
    refine .of_succ fun steps rest hrest _ => ?_
    obtain ⟨p, htext, hvalue⟩ := exists_parts_float x
    rw [write, ← htext, readValue_number p (Nat.succ_pos _), readNumber_text p hrest, hvalue]
    rfl
  | text s =>
    refine .of_succ fun steps rest hrest _ => ?_
    obtain ⟨body, hbody, hread⟩ := readString_writeText s rest
    rw [write, hbody]
    change (readString body.length.succ [] body).bind _ = _
    rw [hread]
    rfl
  | list items hitems => exact readsBack_list hitems
  | object fields hfields => exact readsBack_object hfields

end JsonReader

open JsonReader

/-- The canonical text of a value denotes the value with its fields sorted. -/
theorem ofJson?_json (v : Value) : ofJson? v.json = some v.sorted := by
  have hread := readsBack v (2 * (Json.write v).length + 2) [] (by simp [EndsToken]) (by omega)
  rw [List.append_nil] at hread
  rw [ofJson?, json, String.toList_ofList, hread]
  rfl

theorem write_sorted (v : Value) : Json.write v.sorted = Json.write v := by
  induction v using induction_parts with
  | list items hitems =>
    rw [sorted_list, Json.write_list, Json.write_list, List.map_map]
    congr 3
    exact List.map_congr_left hitems
  | object fields hfields =>
    rw [sorted_object, Json.sortByName_map, Json.write_object, Json.write_object,
      Json.sortByName_map, Json.sortByName_sortByName, List.map_map]
    congr 3
    refine List.map_congr_left fun f hf => ?_
    exact congrArg (Json.writeText f.1 ++ ':' :: ·) (hfields f (List.mem_mergeSort.mp hf))
  | _ => rfl

/-- Two values have one canonical text just if they are the same with their fields sorted. -/
theorem json_eq_json_iff (v w : Value) : v.json = w.json ↔ v.sorted = w.sorted := by
  constructor
  · intro h
    have hv := ofJson?_json v
    rw [h, ofJson?_json] at hv
    exact (Option.some.inj hv).symm
  · intro h
    rw [json, json, ← write_sorted v, h, write_sorted]

end WorkflowEngine.Value

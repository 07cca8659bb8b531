import Mathlib.Algebra.Order.Field.Basic
import Mathlib.Algebra.Order.Field.Power
import Mathlib.Data.Nat.Log
import Mathlib.Data.Rat.Cast.Order
import Mathlib.Tactic.FieldSimp
import Mathlib.Tactic.Linarith
import Mathlib.Tactic.Positivity
import Mathlib.Tactic.Ring
import WorkflowEngine.Number.Shortest

/-!
# Doubles and their decimals

Rounding a quotient to a double depends on its value alone, and a value that is a double is rounded
to itself. Therefore the decimal that is chosen for a double, in whatever digits it is written,
reads back as that double.
-/
namespace WorkflowEngine.Number

/-- A power with any exponent as a quotient of powers. -/
theorem zpow_mul_pow_toNat {b : ℚ} (hb : b ≠ 0) (e : Int) :
    b ^ e * b ^ (-e).toNat = b ^ e.toNat := by
  rw [← zpow_natCast, ← zpow_natCast, ← zpow_add₀ hb]
  congr 1
  omega

/-- The rounding of a quotient depends on its value alone. -/
theorem roundDiv_congr {num den num' den' : Nat} (hden : 0 < den) (hden' : 0 < den')
    (h : num * den' = num' * den) : roundDiv num den = roundDiv num' den' := by
  have hscale {n d k : Nat} (hk : 0 < k) : roundDiv (k * n) (k * d) = roundDiv n d := by
    have htwice (m : Nat) : 2 * (k * m) = k * (2 * m) := by ring
    simp only [roundDiv, Nat.mul_div_mul_left _ _ hk, Nat.mul_mod_mul_left, htwice,
      Nat.mul_lt_mul_left hk]
  calc roundDiv num den = roundDiv (den' * num) (den' * den) := (hscale hden').symm
    _ = roundDiv (den * num') (den * den') := by
      rw [Nat.mul_comm den' num, h, Nat.mul_comm num' den, Nat.mul_comm den' den]
    _ = roundDiv num' den' := hscale hden

namespace Binary64

/-- The exponent at which a magnitude has 53 binary digits, or the least exponent. -/
structure IsExponentOf (q : ℚ) (e : Int) : Prop where
  least : -1074 ≤ e
  above : q < 2 ^ 53 * 2 ^ e
  below : e = -1074 ∨ 2 ^ 52 * 2 ^ e ≤ q

theorem IsExponentOf.le {q : ℚ} {e e' : Int} (h : IsExponentOf q e) (h' : IsExponentOf q e') :
    e ≤ e' := by
  by_contra hlt
  rcases h.below with rfl | hbelow
  · exact hlt h'.least
  · have hpow : (2 : ℚ) ^ (e' + 1) ≤ 2 ^ e := zpow_le_zpow_right₀ (by norm_num) (by omega)
    rw [zpow_add_one₀ (by norm_num)] at hpow
    linarith [h'.above]

theorem IsExponentOf.unique {q : ℚ} {e e' : Int} (h : IsExponentOf q e) (h' : IsExponentOf q e') :
    e = e' := le_antisymm (h.le h') (h'.le h)

section Quotients

variable {num den : Nat} (hden : 0 < den)

include hden

variable (num) in
theorem unscale_pos (e : Int) : 0 < (unscale num den e).2 :=
  Nat.mul_pos hden (Nat.pow_pos (by decide))

variable (num) in
theorem unscale_eq (e : Int) :
    ((unscale num den e).1 : ℚ) / (unscale num den e).2 = (num / den : ℚ) / 2 ^ e := by
  have hden : (den : ℚ) ≠ 0 := by exact_mod_cast hden.ne'
  have htwo : (2 : ℚ) ^ e ≠ 0 := by positivity
  simp only [unscale, Nat.pow_eq, Nat.cast_mul, Nat.cast_pow, Nat.cast_ofNat,
    ← zpow_mul_pow_toNat two_ne_zero e]
  field_simp

theorem le_unscale_div_iff {m : Nat} (e : Int) :
    m ≤ (unscale num den e).1 / (unscale num den e).2 ↔ (m : ℚ) * 2 ^ e ≤ num / den := by
  have hpos : (0 : ℚ) < (unscale num den e).2 := by exact_mod_cast unscale_pos num hden e
  have htwo : (0 : ℚ) < 2 ^ e := by positivity
  rw [Nat.le_div_iff_mul_le (unscale_pos num hden e), ← le_div_iff₀ htwo, ← unscale_eq num hden e,
    le_div_iff₀ hpos]
  exact_mod_cast Iff.rfl

/-- The numbers of binary digits enclose a quotient. -/
theorem two_zpow_log2_lt (hnum : 0 < num) :
    (2 : ℚ) ^ ((num.log2 : Int) - den.log2 - 1) < num / den ∧
      (num / den : ℚ) < 2 ^ ((num.log2 : Int) - den.log2 + 1) := by
  have hpos : (0 : ℚ) < den := by exact_mod_cast hden
  have hlow {n : Nat} (hn : 0 < n) : (2 : ℚ) ^ (n.log2 : Int) ≤ n := by
    exact_mod_cast Nat.log2_self_le hn.ne'
  have hhigh (n : Nat) : (n : ℚ) < 2 ^ ((n.log2 : Int) + 1) := by
    exact_mod_cast Nat.lt_log2_self
  constructor
  · rw [lt_div_iff₀ hpos]
    calc (2 : ℚ) ^ ((num.log2 : Int) - den.log2 - 1) * den
        < 2 ^ ((num.log2 : Int) - den.log2 - 1) * 2 ^ ((den.log2 : Int) + 1) :=
          mul_lt_mul_of_pos_left (hhigh den) (by positivity)
      _ = 2 ^ (num.log2 : Int) := by
          rw [← zpow_add₀ (by norm_num)]
          congr 1
          ring
      _ ≤ num := hlow hnum
  · rw [div_lt_iff₀ hpos]
    calc (num : ℚ) < 2 ^ ((num.log2 : Int) + 1) := hhigh num
      _ = 2 ^ ((num.log2 : Int) - den.log2 + 1) * 2 ^ (den.log2 : Int) := by
          rw [← zpow_add₀ (by norm_num)]
          congr 1
          ring
      _ ≤ 2 ^ ((num.log2 : Int) - den.log2 + 1) * den :=
          mul_le_mul_of_nonneg_left (hlow hden) (by positivity)

theorem isExponentOf_exponentOf (hnum : 0 < num) :
    IsExponentOf (num / den) (exponentOf num den) := by
  obtain ⟨hlow, hhigh⟩ := two_zpow_log2_lt hden hnum
  have hshift (k : Nat) (e : Int) : (2 : ℚ) ^ k * 2 ^ e = 2 ^ (k + e) := by
    rw [← zpow_natCast, ← zpow_add₀ (by norm_num)]
  unfold exponentOf
  dsimp only
  generalize hestimate : max ((num.log2 : Int) - den.log2 - 53) (-1074) = estimate
  split
  · next hbig =>
    rw [Nat.pow_eq, le_unscale_div_iff hden] at hbig
    push_cast at hbig
    refine ⟨by omega, hhigh.trans_le ?_, .inr ?_⟩
    · rw [hshift]
      exact zpow_le_zpow_right₀ (by norm_num) (by push_cast; omega)
    · rw [zpow_add_one₀ (by norm_num)]
      linarith
  · next hsmall =>
    rw [Nat.pow_eq, le_unscale_div_iff hden] at hsmall
    push_cast at hsmall
    refine ⟨by omega, not_le.mp hsmall, ?_⟩
    by_cases hleast : estimate = -1074
    · exact .inl hleast
    · refine .inr (le_trans ?_ hlow.le)
      rw [hshift]
      exact zpow_le_zpow_right₀ (by norm_num) (by push_cast; omega)

end Quotients

/-- The double nearest to a quotient depends on the value of the quotient alone. -/
theorem ofRatio_congr {negative : Bool} {num den num' den' : Nat} (hden : 0 < den)
    (hden' : 0 < den') (h : num * den' = num' * den) :
    ofRatio negative num den = ofRatio negative num' den' := by
  rcases Nat.eq_zero_or_pos num with rfl | hnum
  · obtain rfl : num' = 0 := by
      rw [Nat.zero_mul, eq_comm, Nat.mul_eq_zero] at h
      omega
    rfl
  · have hnum' : 0 < num' := by
      refine Nat.pos_of_ne_zero fun hzero => ?_
      rw [hzero, Nat.zero_mul, Nat.mul_eq_zero] at h
      omega
    have hvalue : (num / den : ℚ) = num' / den' := by
      rw [div_eq_div_iff (by exact_mod_cast hden.ne') (by exact_mod_cast hden'.ne')]
      exact_mod_cast h
    have hexponent : exponentOf num den = exponentOf num' den' :=
      (isExponentOf_exponentOf hden hnum).unique (hvalue ▸ isExponentOf_exponentOf hden' hnum')
    have hround : roundDiv (unscale num den (exponentOf num' den')).1
          (unscale num den (exponentOf num' den')).2 =
        roundDiv (unscale num' den' (exponentOf num' den')).1
          (unscale num' den' (exponentOf num' den')).2 := by
      refine roundDiv_congr (unscale_pos num hden _) (unscale_pos num' hden' _) ?_
      have hscaled := (unscale_eq num hden (exponentOf num' den')).trans
        ((congrArg (· / _) hvalue).trans (unscale_eq num' hden' (exponentOf num' den')).symm)
      have hpos := unscale_pos num hden (exponentOf num' den')
      have hpos' := unscale_pos num' hden' (exponentOf num' den')
      rw [div_eq_div_iff (by exact_mod_cast hpos.ne') (by exact_mod_cast hpos'.ne')] at hscaled
      exact_mod_cast hscaled
    simp only [ofRatio, if_neg hnum.ne', if_neg hnum'.ne', hexponent, hround]

theorem ratio_eq (x : Binary64) :
    (x.ratio.1 : ℚ) / x.ratio.2 = x.significand * 2 ^ x.exponent := by
  simp only [ratio, Nat.pow_eq, Nat.cast_mul, Nat.cast_pow, Nat.cast_ofNat,
    ← zpow_mul_pow_toNat two_ne_zero x.exponent]
  field_simp

theorem eq_zero_of_significand {x : Binary64} (h : x.significand = 0) : x = zero x.negative := by
  obtain ⟨negative, significand, exponent, hcanonical⟩ := x
  obtain rfl : significand = 0 := h
  obtain rfl : exponent = -1074 := hcanonical.2.2.2.resolve_left (by decide)
  rfl

/-- A double is the nearest to its own value. -/
theorem ofRatio_ratio (x : Binary64) : ofRatio x.negative x.ratio.1 x.ratio.2 = some x := by
  obtain ⟨hbelow, hleast, -, hfull⟩ := x.canonical
  rw [Nat.pow_eq] at hbelow hfull
  rcases Nat.eq_zero_or_pos x.significand with hzero | hpos
  · have hnum : x.ratio.1 = 0 := by simp only [ratio, hzero, Nat.zero_mul]
    rw [ofRatio, if_pos hnum, ← eq_zero_of_significand hzero]
  · have hnum : 0 < x.ratio.1 := Nat.mul_pos hpos (Nat.pow_pos (by decide))
    have htwo : (0 : ℚ) < 2 ^ x.exponent := by positivity
    have hown : IsExponentOf (x.ratio.1 / x.ratio.2) x.exponent := by
      rw [ratio_eq]
      have hbelow : (x.significand : ℚ) < 2 ^ 53 := by exact_mod_cast hbelow
      refine ⟨hleast, mul_lt_mul_of_pos_right hbelow htwo, ?_⟩
      rcases hfull with hfull | hfull
      · exact .inr (mul_le_mul_of_nonneg_right (by exact_mod_cast hfull) htwo.le)
      · exact .inl hfull
    have hexponent : exponentOf x.ratio.1 x.ratio.2 = x.exponent :=
      (isExponentOf_exponentOf x.ratio_pos hnum).unique hown
    have hscaled : (unscale x.ratio.1 x.ratio.2 x.exponent).1 =
        x.significand * (unscale x.ratio.1 x.ratio.2 x.exponent).2 := by
      simp only [unscale, ratio]
      ring
    have hround : roundDiv (unscale x.ratio.1 x.ratio.2 x.exponent).1
        (unscale x.ratio.1 x.ratio.2 x.exponent).2 = x.significand := by
      rw [hscaled, roundDiv_mul_left (unscale_pos _ x.ratio_pos _)]
    have hne : x.significand ≠ Nat.pow 2 53 := hbelow.ne
    simp only [ofRatio, if_neg hnum.ne', hexponent, hround, if_neg hne, ofParts?_self]

/-- Tens may pass between the digits of a decimal and its exponent. -/
theorem ofDecimal_mul_ten (negative : Bool) (digits : Nat) (exponent : Int) :
    ofDecimal negative (digits * 10) exponent = ofDecimal negative digits (exponent + 1) := by
  refine ofRatio_congr (Nat.pow_pos (by decide)) (Nat.pow_pos (by decide)) ?_
  rcases lt_or_ge exponent 0 with hneg | hnonneg
  · obtain ⟨k, hk⟩ : ∃ k : Nat, (-exponent).toNat = k + 1 := ⟨(-exponent).toNat - 1, by omega⟩
    have hk' : (-(exponent + 1)).toNat = k := by omega
    have hzero : exponent.toNat = 0 := by omega
    have hzero' : (exponent + 1).toNat = 0 := by omega
    simp only [hk, hk', hzero, hzero', Nat.pow_eq]
    ring
  · obtain ⟨k, hk⟩ : ∃ k : Nat, exponent.toNat = k := ⟨_, rfl⟩
    have hk' : (exponent + 1).toNat = k + 1 := by omega
    have hzero : (-exponent).toNat = 0 := by omega
    have hzero' : (-(exponent + 1)).toNat = 0 := by omega
    simp only [hk, hk', hzero, hzero', Nat.pow_eq]
    ring

theorem ofDecimal_mul_pow (negative : Bool) (digits : Nat) (exponent : Int) (k : Nat) :
    ofDecimal negative (digits * 10 ^ k) exponent = ofDecimal negative digits (exponent + k) := by
  induction k generalizing exponent with
  | zero => rw [pow_zero, Nat.mul_one, Nat.cast_zero, add_zero]
  | succ k ih =>
    rw [pow_succ, ← Nat.mul_assoc, ofDecimal_mul_ten, ih]
    congr 1
    push_cast
    ring

theorem ofDecimal_dropZeros (negative : Bool) (n : Nat) (d : Decimal) :
    ofDecimal negative (d.dropZeros n).digits (d.dropZeros n).exponent =
      ofDecimal negative d.digits d.exponent := by
  induction n generalizing d with
  | zero => rfl
  | succ n ih =>
    rw [Decimal.dropZeros]
    split
    · next htens =>
      rw [ih, ← ofDecimal_mul_ten, Nat.div_mul_cancel (Nat.dvd_of_mod_eq_zero htens.2)]
    · rfl

theorem ofDecimal_exact (x : Binary64) :
    ofDecimal x.negative x.exact.digits x.exact.exponent = some x := by
  have hsame : x.exact.digits * Nat.pow 10 x.exact.exponent.toNat * x.ratio.2 =
      x.ratio.1 * Nat.pow 10 (-x.exact.exponent).toNat := by
    have hzero : (min x.exponent 0).toNat = 0 := by omega
    have hneg : (-min x.exponent 0).toNat = (-x.exponent).toNat := by omega
    have hten (k : Nat) : 10 ^ k = 2 ^ k * 5 ^ k := mul_pow 2 5 k
    simp only [exact, ratio, hzero, hneg, Nat.pow_eq, hten (-x.exponent).toNat]
    ring
  exact (ofRatio_congr (Nat.pow_pos (by decide)) x.ratio_pos hsame).trans (ofRatio_ratio x)

theorem readsBack_of_nearest?_eq_some {x : Binary64} {point : Int} {count : Nat} {d : Decimal}
    (h : x.nearest? point count = some d) : x.readsBack d = true := by
  unfold nearest? at h
  dsimp only at h
  split at h
  · next hbelow habove =>
    split at h <;> cases h
    · exact hbelow
    · exact habove
  · next hbelow _ => cases h; exact hbelow
  · next _ habove => cases h; exact habove
  · cases h

/-- The decimal chosen for a double rounds to it. -/
theorem ofDecimal_shortest (x : Binary64) :
    ofDecimal x.negative x.shortest.digits x.shortest.exponent = some x := by
  unfold shortest
  dsimp only
  split
  · next d hfound =>
    obtain ⟨i, -, hnearest⟩ := List.exists_of_findSome?_eq_some hfound
    rw [ofDecimal_dropZeros]
    exact beq_iff_eq.mp (readsBack_of_nearest?_eq_some hnearest)
  · exact ofDecimal_exact x

theorem exponent_of_ofParts?_eq_some {negative : Bool} {significand : Nat} {exponent : Int}
    {x : Binary64} (h : ofParts? negative significand exponent = some x) : exponent ≤ 971 := by
  unfold ofParts? at h
  split at h
  · next hcanonical => exact hcanonical.2.2.1
  · cases h

/-- Below half of the least positive double everything is rounded to zero. -/
theorem ofRatio_of_lt {negative : Bool} {num den : Nat} (hden : 0 < den)
    (h : (num / den : ℚ) < 2 ^ (-1075 : Int)) :
    ofRatio negative num den = some (zero negative) := by
  rcases Nat.eq_zero_or_pos num with rfl | hnum
  · rfl
  · have hown := isExponentOf_exponentOf hden hnum
    have hexponent : exponentOf num den = -1074 := by
      refine hown.below.resolve_right fun hbelow => ?_
      have hpow : (2 : ℚ) ^ (-1074 : Int) ≤ 2 ^ exponentOf num den :=
        zpow_le_zpow_right₀ (by norm_num) hown.least
      have htwice : (2 : ℚ) ^ (-1074 : Int) = 2 ^ (-1075 : Int) * 2 := by
        rw [← zpow_add_one₀ (by norm_num)]
        rfl
      have hpos : (0 : ℚ) < 2 ^ (-1075 : Int) := by positivity
      linarith
    obtain ⟨n, hn⟩ : ∃ n, (unscale num den (-1074)).1 = n := ⟨_, rfl⟩
    obtain ⟨d, hd⟩ : ∃ d, (unscale num den (-1074)).2 = d := ⟨_, rfl⟩
    have hsmall : 2 * n < d := by
      have hscaled := unscale_eq num hden (-1074)
      have hpos : (0 : ℚ) < d := by
        rw [← hd]
        exact_mod_cast unscale_pos num hden (-1074)
      have hhalf : (num / den : ℚ) / 2 ^ (-1074 : Int) < 1 / 2 := by
        rw [div_lt_iff₀ (by positivity)]
        refine h.trans_eq ?_
        rw [show (-1075 : Int) = -1074 - 1 from rfl, zpow_sub_one₀ (by norm_num)]
        ring
      rw [hn, hd] at hscaled
      rw [← hscaled, div_lt_div_iff₀ hpos (by norm_num), one_mul] at hhalf
      have : n * 2 < d := by exact_mod_cast hhalf
      omega
    have hround : roundDiv n d = 0 := by
      have hlt : n < d := by omega
      simp only [roundDiv, Nat.div_eq_of_lt hlt, Nat.mod_eq_of_lt hlt, if_pos hsmall]
    have hzero : ofParts? negative 0 (-1074) = some (zero negative) := ofParts?_self (zero negative)
    simp only [ofRatio, if_neg hnum.ne', hexponent, hn, hd, hround, hzero]
    rw [if_neg (by decide)]

/-- Beyond the largest double there is none. -/
theorem ofRatio_of_le {negative : Bool} {num den : Nat} (hden : 0 < den)
    (h : 2 ^ 1024 ≤ (num / den : ℚ)) : ofRatio negative num den = none := by
  have hnum : 0 < num := by
    refine Nat.pos_of_ne_zero fun hzero => ?_
    rw [hzero, Nat.cast_zero, zero_div] at h
    exact h.not_gt (by positivity)
  have hlarge : 971 < exponentOf num den := by
    refine not_le.mp fun hle => h.not_gt ?_
    calc (num / den : ℚ) < 2 ^ 53 * 2 ^ exponentOf num den :=
          (isExponentOf_exponentOf hden hnum).above
      _ ≤ 2 ^ 53 * 2 ^ (971 : Int) := by gcongr; norm_num
      _ = 2 ^ 1024 := by
          rw [← zpow_natCast, ← zpow_natCast, ← zpow_add₀ (by norm_num)]
          rfl
  rw [Option.eq_none_iff_forall_ne_some]
  intro x hx
  simp only [ofRatio, if_neg hnum.ne'] at hx
  split at hx <;> have := exponent_of_ofParts?_eq_some hx <;> omega

theorem two_pow_le_ten_pow (k : Nat) : (2 : ℚ) ^ (3 * k) ≤ 10 ^ k := by
  rw [pow_mul]
  exact pow_le_pow_left₀ (by norm_num) (by norm_num) k

theorem ten_pow_length_le {n : Nat} (h : 0 < n) : 10 ^ ((Nat.toDigits 10 n).length - 1) ≤ n := by
  have hcount : 0 < (Nat.toDigits 10 n).length := Nat.length_toDigits_pos
  rcases Nat.eq_zero_or_pos ((Nat.toDigits 10 n).length - 1) with hone | hmore
  · rw [hone]
    exact h
  · refine not_lt.mp fun hlt => ?_
    have := (Nat.length_toDigits_le_iff (by decide) hmore).mpr hlt
    omega

theorem ofDecimal_ratio (digits : Nat) (exponent : Int) :
    ((digits * Nat.pow 10 exponent.toNat : Nat) / (Nat.pow 10 (-exponent).toNat : Nat) : ℚ) =
      digits * 10 ^ exponent := by
  have hten : (10 : ℚ) ≠ 0 := by norm_num
  simp only [Nat.pow_eq, Nat.cast_mul, Nat.cast_pow, Nat.cast_ofNat,
    ← zpow_mul_pow_toNat hten exponent]
  field_simp

/-- What is decided by the number of digits alone is what the rounding gives. -/
theorem ofScientific?_eq_ofDecimal (negative : Bool) (digits : Nat) (exponent : Int) :
    ofScientific? negative digits exponent = ofDecimal negative digits exponent := by
  have hden : 0 < Nat.pow 10 (-exponent).toNat := Nat.pow_pos (by decide)
  rcases Nat.eq_zero_or_pos digits with rfl | hpos
  · simp [ofScientific?, ofDecimal, ofRatio]
  · have hcount : 0 < (Nat.toDigits 10 digits).length := Nat.length_toDigits_pos
    simp only [ofScientific?, Bool.or_eq_true, decide_eq_true_eq, hpos.ne', false_or]
    split
    · next hsmall =>
      have hbelow : (digits : ℚ) < 10 ^ ((Nat.toDigits 10 digits).length : Int) := by
        exact_mod_cast (Nat.length_toDigits_le_iff (by decide) hcount).mp le_rfl
      refine (ofRatio_of_lt hden ?_).symm
      calc _ = (digits : ℚ) * 10 ^ exponent := ofDecimal_ratio digits exponent
        _ ≤ 10 ^ ((Nat.toDigits 10 digits).length : Int) * 10 ^ exponent :=
          mul_le_mul_of_nonneg_right hbelow.le (by positivity)
        _ ≤ 10 ^ (-401 : Int) := by
          rw [← zpow_add₀ (by norm_num)]
          exact zpow_le_zpow_right₀ (by norm_num) (by omega)
        _ < 2 ^ (-1075 : Int) := by
          rw [zpow_neg, zpow_neg, zpow_ofNat, zpow_ofNat]
          refine inv_strictAnti₀ (by positivity) (lt_of_lt_of_le ?_ (two_pow_le_ten_pow 401))
          exact pow_lt_pow_right₀ (by norm_num) (by norm_num)
    · split
      · next hlarge =>
        have habove : (10 : ℚ) ^ ((Nat.toDigits 10 digits).length - 1 : Int) ≤ digits := by
          rw [← Nat.cast_pred hcount]
          exact_mod_cast ten_pow_length_le hpos
        refine (ofRatio_of_le hden ?_).symm
        calc (2 : ℚ) ^ 1024 ≤ 2 ^ (3 * 400) := pow_le_pow_right₀ (by norm_num) (by norm_num)
          _ ≤ 10 ^ (400 : Int) := two_pow_le_ten_pow 400
          _ ≤ 10 ^ ((Nat.toDigits 10 digits).length - 1 : Int) * 10 ^ exponent := by
            rw [← zpow_add₀ (by norm_num)]
            exact zpow_le_zpow_right₀ (by norm_num) (by omega)
          _ ≤ digits * 10 ^ exponent := mul_le_mul_of_nonneg_right habove (by positivity)
          _ = _ := (ofDecimal_ratio digits exponent).symm
      · rfl

end Binary64
end WorkflowEngine.Number

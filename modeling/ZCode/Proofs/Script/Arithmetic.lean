import Mathlib.Data.Rat.Floor
import ZCode.Proofs.Word
import ZCode.Script.Run

set_option autoImplicit false

namespace ZCode.Script

namespace Number

theorem round_intCast {n : Int} (small : n.natAbs ≤ 2 ^ 53) : round (n : Rat) = n := by
  rw [round, if_pos ⟨Rat.den_intCast n, by simpa using small⟩]

theorem truncate_intCast (n : Int) : truncate (n : Rat) = n := by
  rw [truncate, Rat.ceil_intCast, Rat.floor_intCast, ite_self]

theorem add_ofInt {a b : Int} (small : (a + b).natAbs ≤ 2 ^ 53) :
    (ofInt a).add (ofInt b) = ofInt (a + b) := by
  simp only [ofInt, add]
  rw [← Rat.intCast_add, round_intCast small]

theorem neg_ofInt (a : Int) : (ofInt a).neg = ofInt (-a) := by
  rw [ofInt, neg, ofInt, Rat.intCast_neg]

theorem sub_ofInt {a b : Int} (small : (a - b).natAbs ≤ 2 ^ 53) :
    (ofInt a).sub (ofInt b) = ofInt (a - b) := by
  rw [sub, neg_ofInt, add_ofInt small, Int.sub_eq_add_neg]

theorem mul_ofInt {a b : Int} (small : (a * b).natAbs ≤ 2 ^ 53) :
    (ofInt a).mul (ofInt b) = ofInt (a * b) := by
  simp only [ofInt, mul]
  rw [← Rat.intCast_mul, round_intCast small]

theorem less_ofInt (a b : Int) : (ofInt a).less (ofInt b) = decide (a < b) := by
  simp [ofInt, less]

theorem same_ofInt (a b : Int) : (ofInt a).same (ofInt b) = decide (a = b) := by
  simp [ofInt, same]

theorem whole?_ofInt (n : Int) : (ofInt n).whole? = some n := by
  rw [ofInt, whole?, truncate_intCast]

theorem toUInt16_ofInt (n : Int) : (ofInt n).toUInt16 = UInt16.ofInt n := by
  rw [toUInt16, whole?_ofInt, Option.getD_some]

theorem toUInt8_ofInt (n : Int) : (ofInt n).toUInt8 = UInt8.ofInt n := by
  rw [toUInt8, whole?_ofInt, Option.getD_some]

theorem toInt32_ofInt (n : Int) : (ofInt n).toInt32 = Int32.ofInt n := by
  rw [toInt32, whole?_ofInt, Option.getD_some]

theorem roundDiv_cases (num den : Nat) :
    roundDiv num den = num / den ∨ roundDiv num den = num / den + 1 := by
  simp only [roundDiv]
  split
  · exact .inl rfl
  split
  · exact .inr rfl
  split
  · exact .inl rfl
  · exact .inr rfl

-- Rounded to a multiple of `1 / scale`, a quotient keeps its whole part: it is at least `1 / den`
-- below the next integer, and that is more than the rounding adds.
theorem roundDiv_scaled {num den scale : Nat} (positive : 0 < den) (fine : den < scale) :
    roundDiv (num * scale) den / scale = num / den := by
  have split : num * scale / den = num / den * scale + num % den * scale / den := by
    conv_lhs => rw [← Nat.div_add_mod num den, Nat.add_mul, Nat.mul_assoc]
    rw [Nat.mul_add_div positive]
  have part : num % den * scale / den + 1 < scale := by
    have below : num % den ≤ den - 1 := Nat.le_sub_one_of_lt (Nat.mod_lt num positive)
    have most : num % den * scale ≤ (den - 1) * scale := Nat.mul_le_mul_right scale below
    have gap : (den - 1) * scale < (scale - 1) * den := by
      rw [Nat.sub_mul, Nat.sub_mul, Nat.mul_comm scale den]
      have room : scale ≤ den * scale := Nat.le_mul_of_pos_left scale positive
      omega
    have quotient : num % den * scale / den < scale - 1 :=
      (Nat.div_lt_iff_lt_mul positive).mpr (Nat.lt_of_le_of_lt most gap)
    omega
  have near : ∃ r, r < scale ∧ roundDiv (num * scale) den = scale * (num / den) + r := by
    rw [Nat.mul_comm scale]
    rcases roundDiv_cases (num * scale) den with same | same
    · exact ⟨_, Nat.lt_of_succ_lt part, same.trans split⟩
    · exact ⟨_, part, by rw [same, split, Nat.add_assoc]⟩
  obtain ⟨r, small, same⟩ := near
  rw [same, Nat.mul_add_div (Nat.zero_lt_of_lt fine), Nat.div_eq_of_lt small, Nat.add_zero]

theorem exists_scale {num : Nat} (small : num < 2 ^ 26) (den : Nat) :
    ∃ k : Nat, den < 2 ^ k ∧
      roundPositive num den = (roundDiv (num * 2 ^ k) den : Rat) / (2 ^ k : Nat) := by
  have magnitude : num.log2 < 26 := by
    by_cases zero : num = 0
    · simp [zero]
    · exact (Nat.log2_lt zero).mpr small
  have scaled (k : Int) (high : 52 - ((num.log2 : Int) - den.log2) ≤ k) :
      0 ≤ k ∧ den < 2 ^ k.toNat := by
    refine ⟨by omega, Nat.lt_of_lt_of_le Nat.lt_log2_self (Nat.pow_le_pow_right (by decide) ?_)⟩
    omega
  simp only [roundPositive, Nat.shiftLeft_eq, Nat.one_mul]
  generalize 52 - ((num.log2 : Int) - den.log2) = shift at scaled
  obtain ⟨whole, wide⟩ := scaled shift (Int.le_refl _)
  obtain ⟨wholeNext, wideNext⟩ := scaled (shift + 1) (by omega)
  simp only [whole, if_true]
  by_cases near : num * 2 ^ shift.toNat < den * 2 ^ 52
  · exact ⟨_, wideNext, by simp only [near, wholeNext, if_true]⟩
  · exact ⟨_, wide, by simp only [near, whole, if_true, if_false]⟩

theorem floor_roundPositive {num den : Nat} (positive : 0 < den) (small : num < 2 ^ 26) :
    (roundPositive num den).floor = (num / den : Nat) := by
  obtain ⟨k, wide, rounded⟩ := exists_scale small den
  rw [rounded, ← roundDiv_scaled positive wide]
  exact Rat.floor_natCast_div_natCast _ _

theorem roundPositive_nonneg {num : Nat} (small : num < 2 ^ 26) (den : Nat) :
    0 ≤ roundPositive num den := by
  obtain ⟨k, -, rounded⟩ := exists_scale small den
  rw [rounded]
  exact div_nonneg (Nat.cast_nonneg _) (Nat.cast_nonneg _)

theorem truncate_of_nonneg {q : Rat} (nonneg : 0 ≤ q) : truncate q = q.floor := by
  rw [truncate, if_neg (Rat.not_lt.mpr nonneg)]

theorem truncate_neg (q : Rat) : truncate (-q) = -truncate q := by
  rcases lt_trichotomy q 0 with negative | rfl | positive
  · have other : 0 ≤ -q := by linarith
    rw [truncate_of_nonneg other, truncate, if_pos negative, Rat.ceil_eq_neg_floor_neg, Int.neg_neg]
  · rfl
  · have other : -q < 0 := by linarith
    rw [truncate_of_nonneg positive.le, truncate, if_pos other, Rat.ceil_eq_neg_floor_neg, neg_neg]

theorem round_neg (q : Rat) : round (-q) = -round q := by
  simp only [round, Rat.neg_den, Rat.neg_num, Int.natAbs_neg]
  by_cases whole : q.den = 1 ∧ q.num.natAbs ≤ 1 <<< 53
  · rw [if_pos whole, if_pos whole]
  rw [if_neg whole, if_neg whole]
  have nonzero : q ≠ 0 := by
    rintro rfl
    exact whole ⟨rfl, by decide⟩
  rcases lt_or_gt_of_ne nonzero with negative | positive
  · rw [if_pos negative, if_neg (by linarith), neg_neg]
  · rw [if_pos (by linarith), if_neg (by linarith)]

theorem truncate_round {q : Rat} (small : q.num.natAbs < 2 ^ 26) :
    truncate (round q) = truncate q := by
  -- numbers below zero are rounded as their opposites
  have upward (q : Rat) (small : q.num.natAbs < 2 ^ 26) (nonneg : 0 ≤ q) :
      truncate (round q) = truncate q := by
    by_cases whole : q.den = 1 ∧ q.num.natAbs ≤ 1 <<< 53
    · rw [round, if_pos whole]
    have rounded : round q = roundPositive q.num.natAbs q.den := by
      rw [round, if_neg whole, if_neg (Rat.not_lt.mpr nonneg)]
    have floor := floor_roundPositive q.den_pos small
    have above := roundPositive_nonneg small q.den
    rw [rounded, truncate_of_nonneg above, truncate_of_nonneg nonneg, floor, Rat.floor_def]
    have top : (q.num.natAbs : Int) = q.num := Int.natAbs_of_nonneg (Rat.num_nonneg.mpr nonneg)
    rw [Int.natCast_ediv, top]
  rcases le_total 0 q with nonneg | nonpos
  · exact upward q small nonneg
  · have other := upward (-q) (by simpa using small) (by linarith)
    rwa [round_neg, truncate_neg, truncate_neg, Int.neg_inj] at other

theorem truncate_div (a b : Int) : truncate ((a : Rat) / b) = a.tdiv b := by
  have naturals (m n : Nat) : truncate ((m : Rat) / n) = (m / n : Nat) := by
    rw [truncate_of_nonneg (by positivity)]
    exact Rat.floor_natCast_div_natCast m n
  obtain ⟨m, rfl | rfl⟩ := a.eq_nat_or_neg <;> obtain ⟨n, rfl | rfl⟩ := b.eq_nat_or_neg
  · simpa using naturals m n
  · simpa [div_neg, truncate_neg] using naturals m n
  · simpa [neg_div, truncate_neg] using naturals m n
  · simpa [neg_div_neg_eq] using naturals m n

theorem whole?_div {a b : Int} (small : a.natAbs < 2 ^ 26) :
    (((ofInt a).div (ofInt b)).whole?).getD 0 = a.tdiv b := by
  by_cases zero : b = 0
  · subst zero
    by_cases none_ : a = 0 <;> simp [ofInt, div, whole?, none_]
  have divisor : (b : Rat) ≠ 0 := by exact_mod_cast zero
  have top : ((a : Rat) / b).num ∣ a := by
    rw [← Rat.divInt_eq_div]
    exact Rat.num_dvd a zero
  have smaller : ((a : Rat) / b).num.natAbs < 2 ^ 26 := by
    by_cases none_ : a = 0
    · simp [none_]
    · exact Nat.lt_of_le_of_lt (Int.natAbs_le_of_dvd_ne_zero top none_) small
  simp only [ofInt, div, divisor, if_false, whole?, Option.getD_some]
  rw [truncate_round smaller, truncate_div]

theorem rem_ofInt {a b : Int} (nonzero : b ≠ 0) : (ofInt a).rem (ofInt b) = ofInt (a.tmod b) := by
  have divisor : (b : Rat) ≠ 0 := by exact_mod_cast nonzero
  simp only [ofInt, rem, divisor, if_false, truncate_div, Int.tmod_def]
  push_cast
  rfl

end Number

namespace Value

def word (v : Value) : UInt16 :=
  v.toNumber.toUInt16

theorem word_ofInt (n : Int) : (ofInt n).word = UInt16.ofInt n :=
  Number.toUInt16_ofInt n

theorem word_ofWord (w : UInt16) : (ofWord w).word = w := by
  rw [ofWord, word_ofInt, Word.ofInt_toNat]

theorem toInt_ofInt (n : Int) : (ofInt n).toInt = n := by
  rw [toInt, ofInt, toNumber, Number.whole?_ofInt, Option.getD_some]

theorem truthy_ofInt (n : Int) : (ofInt n).truthy = decide (n ≠ 0) := by
  have zero : (0 : Number) = .finite 0 := rfl
  simp [ofInt, truthy, Number.ofInt, zero, bne, beq_eq_decide]

end Value

theorem applyBinary_add {a b : Int} (small : (a + b).natAbs ≤ 2 ^ 53) :
    applyBinary .add (.ofInt a) (.ofInt b) = .ofInt (a + b) :=
  congrArg Value.number (Number.add_ofInt small)

theorem applyBinary_sub {a b : Int} (small : (a - b).natAbs ≤ 2 ^ 53) :
    applyBinary .sub (.ofInt a) (.ofInt b) = .ofInt (a - b) :=
  congrArg Value.number (Number.sub_ofInt small)

theorem applyBinary_mul {a b : Int} (small : (a * b).natAbs ≤ 2 ^ 53) :
    applyBinary .mul (.ofInt a) (.ofInt b) = .ofInt (a * b) :=
  congrArg Value.number (Number.mul_ofInt small)

theorem applyBinary_less (a b : Int) :
    applyBinary .less (.ofInt a) (.ofInt b) = .bool (decide (a < b)) :=
  congrArg Value.bool (Number.less_ofInt a b)

theorem applyBinary_greater (a b : Int) :
    applyBinary .greater (.ofInt a) (.ofInt b) = .bool (decide (b < a)) :=
  congrArg Value.bool (Number.less_ofInt b a)

theorem applyBinary_same (a b : Int) :
    applyBinary .same (.ofInt a) (.ofInt b) = .bool (decide (a = b)) :=
  congrArg Value.bool (Number.same_ofInt a b)

theorem low_toInt32 (x : Number) : Word.low x.toInt32 = x.toUInt16 :=
  Word.low_ofInt _

theorem word_bitOr (a b : Value) : (applyBinary .bitOr a b).word = a.word ||| b.word := by
  rw [applyBinary, onInt32, Value.word_ofInt]
  exact (Word.low_or _ _).trans (congrArg₂ (· ||| ·) (low_toInt32 _) (low_toInt32 _))

theorem word_bitAnd (a b : Value) : (applyBinary .bitAnd a b).word = a.word &&& b.word := by
  rw [applyBinary, onInt32, Value.word_ofInt]
  exact (Word.low_and _ _).trans (congrArg₂ (· &&& ·) (low_toInt32 _) (low_toInt32 _))

theorem word_complement (a : Value) : (applyUnary .complement a).word = ~~~ a.word := by
  rw [applyUnary, Value.word_ofInt]
  exact (Word.low_not _).trans (congrArg (~~~ ·) (low_toInt32 _))

theorem word_div {a b : Int} (small : a.natAbs < 2 ^ 26) :
    (applyBinary .div (.ofInt a) (.ofInt b)).word = UInt16.ofInt (a.tdiv b) :=
  congrArg UInt16.ofInt (Number.whole?_div small)

theorem word_rem (a b : Int) : (applyBinary .rem (.ofInt a) (.ofInt b)).word =
    if b = 0 then 0 else UInt16.ofInt (a.tmod b) := by
  split
  next zero =>
    subst zero
    rfl
  next nonzero =>
    rw [← Value.word_ofInt]
    exact congrArg Number.toUInt16 (Number.rem_ofInt nonzero)

theorem signExtend (w : UInt16) :
    applyBinary .shiftRight (applyBinary .shiftLeft (.ofWord w) (.ofInt 16)) (.ofInt 16) =
      .ofInt w.toInt16.toInt := by
  have amount : (Value.ofInt 16).toNumber.toInt32 = Int32.ofInt 16 := Number.toInt32_ofInt 16
  have word : (Value.ofWord w).toNumber.toInt32 = Int32.ofInt w.toNat := Number.toInt32_ofInt w.toNat
  have whole (z : Int32) : (Value.ofInt z.toInt).toNumber.toInt32 = z :=
    (Number.toInt32_ofInt z.toInt).trans (Int32.ofInt_toInt z)
  rw [applyBinary, applyBinary, onInt32, onInt32, amount, word, whole, Word.shift_low]

end ZCode.Script

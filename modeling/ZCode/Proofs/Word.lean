import Mathlib.Tactic.Common

set_option autoImplicit false

namespace ZCode.Word

theorem toInt_toInt16 (w : UInt16) :
    w.toInt16.toInt = if w.toNat < 32768 then (w.toNat : Int) else (w.toNat : Int) - 65536 := by
  rw [← Int16.toInt_toBitVec, UInt16.toBitVec_toInt16, BitVec.toInt_eq_toNat_cond, UInt16.toNat_toBitVec]
  simp only [Nat.reducePow]
  split_ifs <;> omega

theorem toInt16_bounds (w : UInt16) : -32768 ≤ w.toInt16.toInt ∧ w.toInt16.toInt ≤ 32767 := by
  have bound := w.toNat_lt
  rw [toInt_toInt16]
  split_ifs <;> omega

theorem ofInt_congr {m n : Int} (same : m % 65536 = n % 65536) :
    UInt16.ofInt m = UInt16.ofInt n := by
  simp only [UInt16.ofInt, Int.reducePow, same]

theorem ofInt_toNat (w : UInt16) : UInt16.ofInt w.toNat = w := by
  have bound := w.toNat_lt
  rw [← UInt16.toNat_inj]
  simp only [UInt16.ofInt, UInt16.toNat_ofNat']
  omega

theorem ofInt_toNat_byte (w : UInt16) : UInt8.ofInt w.toNat = w.toUInt8 := by
  rw [← UInt8.toNat_inj, UInt16.toNat_toUInt8]
  simp only [UInt8.ofInt, UInt8.toNat_ofNat']
  omega

theorem ofInt_toInt16 (w : UInt16) : UInt16.ofInt w.toInt16.toInt = w := by
  have same : UInt16.ofInt w.toInt16.toInt = UInt16.ofInt w.toNat := by
    apply ofInt_congr
    rw [toInt_toInt16]
    split_ifs <;> omega
  rw [same, ofInt_toNat]

theorem ofInt_sub (m n : Int) : UInt16.ofInt (m - n) = UInt16.ofInt m - UInt16.ofInt n := by
  rw [eq_comm, UInt16.sub_eq_iff_eq_add, ← UInt16.ofInt_add, Int.sub_add_cancel]

theorem toInt16_inj {a b : UInt16} : a.toInt16.toInt = b.toInt16.toInt ↔ a = b := by
  constructor
  · intro same
    rw [← ofInt_toInt16 a, same, ofInt_toInt16]
  · rintro rfl
    rfl

theorem toBitVec_ofInt (n : Int) : (UInt16.ofInt n).toBitVec = BitVec.ofInt 16 n := by
  apply BitVec.eq_of_toNat_eq
  simp [UInt16.ofInt, BitVec.toNat_ofInt]
  omega

def low (z : Int32) : UInt16 :=
  UInt16.ofInt z.toInt

theorem toBitVec_low (z : Int32) : (low z).toBitVec = z.toBitVec.setWidth 16 := by
  rw [low, toBitVec_ofInt, ← Int32.toInt_toBitVec]
  apply BitVec.eq_of_toNat_eq
  rw [BitVec.toNat_ofInt, BitVec.toNat_setWidth, BitVec.toInt_eq_toNat_cond]
  split_ifs <;> omega

theorem low_ofInt (n : Int) : low (Int32.ofInt n) = UInt16.ofInt n := by
  rw [low, Int32.toInt_ofInt]
  apply ofInt_congr
  rw [Int.bmod, Int32.size]
  split_ifs <;> omega

theorem low_or (y z : Int32) : low (y ||| z) = low y ||| low z := by
  rw [← UInt16.toBitVec_inj]
  simp [toBitVec_low]

theorem low_and (y z : Int32) : low (y &&& z) = low y &&& low z := by
  rw [← UInt16.toBitVec_inj]
  simp [toBitVec_low]

theorem low_not (z : Int32) : low (~~~ z) = ~~~ low z := by
  rw [← UInt16.toBitVec_inj]
  simp [toBitVec_low, BitVec.setWidth_not]

theorem shift_low (w : UInt16) :
    (Int32.ofInt w.toNat <<< Int32.ofInt 16 >>> Int32.ofInt 16).toInt = w.toInt16.toInt := by
  have bound := w.toNat_lt
  have amount : (Int32.ofInt 16).toBitVec.smod 32 = 16#32 := rfl
  have top : (Int32.ofInt w.toNat <<< Int32.ofInt 16).toBitVec.toNat = w.toNat * 65536 := by
    rw [Int32.toBitVec_shiftLeft, amount, Int32.toBitVec_ofInt, BitVec.shiftLeft_eq',
      BitVec.toNat_shiftLeft, BitVec.toNat_ofInt, Nat.shiftLeft_eq]
    simp only [BitVec.toNat_ofNat, Nat.reducePow, Nat.reduceMod]
    omega
  rw [← Int32.toInt_toBitVec, Int32.toBitVec_shiftRight, amount, BitVec.toInt_sshiftRight',
    Int.shiftRight_eq_div_pow, BitVec.toInt_eq_toNat_cond, top, toInt_toInt16]
  simp only [BitVec.toNat_ofNat, Nat.reducePow, Nat.reduceMod]
  split_ifs <;> omega

end ZCode.Word

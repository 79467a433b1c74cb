import Mathlib.Data.List.Basic
import Mathlib.Data.Nat.Bitwise
import ZCode.Proofs.Instruction.Layout
import ZCode.Proofs.Word

set_option autoImplicit false

namespace ZCode

theorem Reading.bind_eq_ok_iff {α β : Type} (read : Reading α) (f : α → Reading β)
    (pos next : UInt32) (b : β) :
    (read >>= f) pos = .ok (b, next) ↔
      ∃ a mid, read pos = .ok (a, mid) ∧ f a mid = .ok (b, next) := by
  simp only [bind, StateT.bind]
  cases read pos with
  | error o => simp [Except.bind]
  | ok result =>
    obtain ⟨a, mid⟩ := result
    simp only [Except.bind, Except.ok.injEq, Prod.mk.injEq]
    exact ⟨fun h => ⟨a, mid, ⟨rfl, rfl⟩, h⟩, fun ⟨_, _, ⟨rfl, rfl⟩, h⟩ => h⟩

theorem Reading.pure_eq_ok_iff {α : Type} (a b : α) (pos next : UInt32) :
    (pure a : Reading α) pos = .ok (b, next) ↔ b = a ∧ next = pos := by
  have returned : (pure a : Reading α) pos = .ok (a, pos) := rfl
  simp [returned, eq_comm]

namespace Image

theorem byte_eq_ok_iff (img : Image) (pos next : UInt32) (b : UInt8) :
    img.byte pos = .ok (b, next) ↔
      img.Holds pos.toNat [b] ∧ next.toNat = pos.toNat + 1 := by
  have bounded := img.size_lt
  simp only [byte, u8, Holds, and_true]
  cases read : img.bytes[pos.toNat]? with
  | none => simp [bind, Except.bind]
  | some found =>
    have inside : pos.toNat < img.bytes.size := (Array.getElem?_eq_some_iff.mp read).1
    have step : (pos + 1).toNat = pos.toNat + 1 := by
      simp only [UInt32.toNat_add, UInt32.toNat_one]
      omega
    simp [bind, Except.bind, pure, Except.pure, ← UInt32.toNat_inj, step, eq_comm]

theorem wordAt_eq_ok_iff (img : Image) (pos next : UInt32) (w : UInt16) :
    img.wordAt pos = .ok (w, next) ↔
      img.Holds pos.toNat (wordBytes w) ∧ next.toNat = pos.toNat + 2 := by
  have bounded := img.size_lt
  simp only [wordAt, u16]
  cases readHigh : img.bytes[pos.toNat]? with
  | none => simp [bind, Except.bind, Holds, wordBytes, readHigh]
  | some high =>
    cases readLow : img.bytes[pos.toNat + 1]? with
    | none => simp [bind, Except.bind, Holds, wordBytes, readLow]
    | some low =>
      have inside : pos.toNat + 1 < img.bytes.size := (Array.getElem?_eq_some_iff.mp readLow).1
      have step : (pos + 2).toNat = pos.toNat + 2 := by
        simp only [UInt32.toNat_add, UInt32.reduceToNat]
        omega
      have held : img.Holds pos.toNat (wordBytes w) ↔ w = word high low := by
        constructor
        next =>
          intro held
          have same : wordBytes w = [high, low] := by
            simpa [wordBytes, Holds, readHigh, readLow, eq_comm] using held
          exact (word_of_wordBytes same).symm
        next =>
          rintro rfl
          simp [wordBytes_word, Holds, readHigh, readLow]
      simp [bind, Except.bind, pure, Except.pure, held, ← UInt32.toNat_inj, step, eq_comm]

theorem and_topBit (w : UInt16) : (w &&& 0x8000 == 0) = decide (w.toNat < 32768) := by
  have bound := w.toNat_lt
  have mask := Nat.and_two_pow w.toNat 15
  rw [Nat.testBit_eq_decide_div_mod_eq] at mask
  rw [Bool.eq_iff_iff, beq_iff_eq, decide_eq_true_eq, ← UInt16.toNat_inj, UInt16.toNat_and]
  by_cases low : w.toNat < 32768
  next =>
    have clear : w.toNat / 32768 = 0 := by omega
    simpa [clear, low] using mask
  next =>
    have set : w.toNat / 32768 = 1 := by omega
    simp only [Nat.reducePow, set, decide_true, Bool.toNat_true, Nat.one_mul] at mask
    simp [mask, low]

theorem passText_succ (img : Image) (fuel : Nat) :
    img.passText (fuel + 1) =
      img.wordAt >>= fun w => if w.toNat < 32768 then img.passText fuel else pure () := by
  funext pos
  simp only [passText, wordAt, bind, StateT.bind]
  cases img.u16 pos with
  | error o => rfl
  | ok w =>
    by_cases low : w.toNat < 32768
    · simp [Except.bind, pure, Except.pure, and_topBit, low]
    · simp only [Except.bind, pure, Except.pure, and_topBit, low, decide_false]
      rfl

theorem passText_eq_ok_iff (img : Image) (fuel : Nat) (pos next : UInt32) (done : Unit) :
    img.passText fuel pos = .ok (done, next) ↔
      ∃ words, Terminated words ∧ words.length ≤ fuel ∧
        img.Holds pos.toNat (words.flatMap wordBytes) ∧
        next.toNat = pos.toNat + 2 * words.length := by
  induction fuel generalizing pos with
  | zero =>
    simp only [passText, reduceCtorEq, Nat.le_zero, List.length_eq_zero_iff, false_iff]
    rintro ⟨words, ended, rfl, -⟩
    exact ended
  | succ fuel ih =>
    rw [passText_succ, Reading.bind_eq_ok_iff]
    simp only [wordAt_eq_ok_iff]
    constructor
    next =>
      rintro ⟨w, mid, ⟨held, middle⟩, later⟩
      by_cases low : w.toNat < 32768
      next =>
        rw [if_pos low, ih] at later
        obtain ⟨words, ended, short, heldLater, last⟩ := later
        refine ⟨w :: words, ?_, by simpa using short, ?_, ?_⟩
        · simpa [Terminated, low] using ended
        · rw [List.flatMap_cons, holds_append]
          exact ⟨held, by simpa [middle, wordBytes] using heldLater⟩
        · simp only [List.length_cons]
          omega
      next =>
        rw [if_neg low, Reading.pure_eq_ok_iff] at later
        obtain ⟨-, rfl⟩ := later
        exact ⟨[w], by simp [Terminated]; omega, by simp, by simpa using held, by simpa using middle⟩
    next =>
      rintro ⟨words, ended, short, held, last⟩
      cases words with
      | nil => exact absurd ended id
      | cons w rest =>
        rw [List.flatMap_cons, holds_append] at held
        have inside := held.1.within (by simp [wordBytes])
        have bounded := img.size_lt
        have middle : (UInt32.ofNat (pos.toNat + 2)).toNat = pos.toNat + 2 := by
          simp only [wordBytes, List.length_cons, List.length_nil, length] at inside
          rw [UInt32.toNat_ofNat', Nat.mod_eq_of_lt (by omega)]
        refine ⟨w, UInt32.ofNat (pos.toNat + 2), ⟨held.1, middle⟩, ?_⟩
        simp only [List.length_cons] at short last
        by_cases low : w.toNat < 32768
        next =>
          rw [if_pos low, ih]
          have heldLater := held.2
          simp only [wordBytes, List.length_cons, List.length_nil] at heldLater
          refine ⟨rest, by simpa [Terminated, low] using ended, by omega, ?_, by omega⟩
          rw [middle]
          exact heldLater
        next =>
          have alone : rest = [] := by simpa [Terminated, low] using ended
          rw [if_neg low, Reading.pure_eq_ok_iff, ← UInt32.toNat_inj, middle]
          simpa [alone] using last

end Image

theorem toNat_and_3 (b : UInt8) : (b &&& 3).toNat = b.toNat % 4 :=
  Nat.and_two_pow_sub_one_eq_mod b.toNat 2

theorem typeCodes_eq (types : UInt8) :
    typeCodes types = [types >>> 6, types >>> 4, types >>> 2, types].map fun c => (c &&& 3).toNat := by
  have bound := types.toNat_lt
  simp only [typeCodes, List.map_cons, List.map_nil, toNat_and_3, UInt8.toNat_shiftRight,
    UInt8.reduceToNat, Nat.reduceMod, Nat.shiftRight_eq_div_pow, Nat.reducePow]
  congr 1
  omega

namespace Encoding

theorem ofCode?_eq_some_iff (c : UInt8) (e : Encoding) : ofCode? c = some e ↔ c.toNat = e.code := by
  unfold ofCode?
  split
  next => cases e <;> decide
  next => cases e <;> decide
  next => cases e <;> decide
  next notLarge notSmall notNumber =>
    simp only [← UInt8.toNat_inj, imp_false] at notLarge notSmall notNumber
    cases e <;> simpa [code]

theorem code_lt (e : Encoding) : e.code < 3 := by
  cases e <;> decide

theorem takeWhile_ofCode?_eq_iff (codes : List UInt8) (es : List Encoding)
    (small : ∀ c ∈ codes, c.toNat < 4) :
    ((codes.map ofCode?).takeWhile Option.isSome).filterMap id = es ↔
      es.map code = codes.map UInt8.toNat ∨ es.map code ++ [3] <+: codes.map UInt8.toNat := by
  induction codes generalizing es with
  | nil => cases es <;> simp
  | cons c codes ih =>
    have later (es : List Encoding) := ih es fun d member => small d (List.mem_cons_of_mem c member)
    cases read : ofCode? c with
    | none =>
      have omitted : c.toNat = 3 := by
        have bound := small c List.mem_cons_self
        have notLarge := (ofCode?_eq_some_iff c .large).not.mp (by simp [read])
        have notSmall := (ofCode?_eq_some_iff c .small).not.mp (by simp [read])
        have notNumber := (ofCode?_eq_some_iff c .byNumber).not.mp (by simp [read])
        simp only [code] at notLarge notSmall notNumber
        omega
      cases es with
      | nil => simp [read, omitted]
      | cons e es =>
        have distinct : ¬ e.code = 3 := Nat.ne_of_lt e.code_lt
        simp [read, omitted, distinct]
    | some e =>
      have known := (ofCode?_eq_some_iff c e).mp read
      cases es with
      | nil =>
        have distinct : ¬ 3 = e.code := (Nat.ne_of_lt e.code_lt).symm
        simp [read, known, distinct]
      | cons f es =>
        have same : e = f ↔ f.code = e.code := by cases e <;> cases f <;> decide
        simp only [List.map_cons, read, List.takeWhile_cons, Option.isSome_some, if_true,
          List.filterMap_cons, id_eq, List.cons.injEq, known, List.cons_append, same,
          List.cons_prefix_cons, ← and_or_left]
        exact and_congr_right fun _ => later es

theorem ofTypes_eq_iff (types : UInt8) (es : List Encoding) :
    ofTypes types = es ↔ Describes types es := by
  have small (c : UInt8) (member : c ∈ [types >>> 6, types >>> 4, types >>> 2, types].map (· &&& 3)) :
      c.toNat < 4 := by
    obtain ⟨shifted, -, rfl⟩ := List.mem_map.mp member
    rw [toNat_and_3]
    omega
  rw [ofTypes, takeWhile_ofCode?_eq_iff _ _ small, Describes, typeCodes_eq]
  simp

end Encoding

def Opening.form : Opening → Instruction.Form
  | .extended _ => .extended
  | o => match o.encodings? with
    | some encodings => .fixed o.opcode encodings
    | none => .typed o.opcode

namespace Instruction

theorem globalAddr_eq (p : Profile) (v : UInt8) (isGlobal : 15 < v.toNat) :
    p.globalAddr v = UInt16.ofNat (p.globals.toNat + 2 * (v.toNat - 16)) := by
  have below : (v - 16).toNat = v.toNat - 16 := by
    have bound : 16 ≤ v := UInt8.le_iff_toNat_le.mpr (Nat.succ_le_of_lt isGlobal)
    rw [UInt8.toNat_sub_of_le v 16 bound]
    rfl
  rw [Profile.globalAddr, ← UInt16.toNat_inj, UInt16.toNat_add, UInt16.toNat_mul,
    UInt8.toNat_toUInt16, below, UInt16.toNat_ofNat']
  simp only [UInt16.reduceToNat]
  omega

theorem variableOperand_eq (p : Profile) (signed : Bool) (v : UInt8) :
    variableOperand p signed v = (Written.byNumber v).operand p signed := by
  have isZero : (v == 0) = decide (v.toNat = 0) := by
    rw [Bool.eq_iff_iff, beq_iff_eq, decide_eq_true_eq, ← UInt8.toNat_inj]
    rfl
  by_cases zero : v.toNat = 0
  next => simp [variableOperand, Written.operand, isZero, zero]
  by_cases inLocals : v.toNat ≤ 15
  next =>
    have isLocal : v < 16 := by
      rw [UInt8.lt_iff_toNat_lt]
      exact Nat.lt_succ_of_le inLocals
    have slot : (v - 1).toUInt16 = UInt16.ofNat (v.toNat - 1) := by
      have bound : 1 ≤ v := UInt8.le_iff_toNat_le.mpr (Nat.pos_of_ne_zero zero)
      rw [← UInt16.toNat_inj, UInt8.toNat_toUInt16, UInt8.toNat_sub_of_le v 1 bound,
        UInt16.toNat_ofNat', Nat.mod_eq_of_lt (by omega)]
      rfl
    simp only [variableOperand, Written.operand, isZero, zero, decide_false, inLocals, isLocal,
      slot, if_true, if_false, Bool.false_eq_true]
  next =>
    have isGlobal : ¬ v < 16 := by
      rw [UInt8.lt_iff_toNat_lt]
      exact fun isLocal => inLocals (Nat.le_of_lt_succ isLocal)
    simp only [variableOperand, Written.operand, isZero, zero, decide_false, inLocals, isGlobal,
      globalAddr_eq p v (Nat.lt_of_not_le inLocals), if_false, Bool.false_eq_true]

theorem readOperand_eq_ok_iff (img : Image) (p : Profile) (signed : Bool) (e : Encoding)
    (pos next : UInt32) (op : Operand) :
    readOperand img p signed e pos = .ok (op, next) ↔
      ∃ w : Written, w.encoding = e ∧ op = w.operand p signed ∧
        img.Holds pos.toNat w.bytes ∧ next.toNat = pos.toNat + w.bytes.length := by
  cases e with
  | large =>
    simp only [readOperand, Reading.bind_eq_ok_iff, Reading.pure_eq_ok_iff, Image.wordAt_eq_ok_iff]
    constructor
    next =>
      rintro ⟨w, _, ⟨held, step⟩, rfl, rfl⟩
      exact ⟨.large w, rfl, rfl, held, step⟩
    next =>
      rintro ⟨written, known, rfl, held, step⟩
      cases written <;> simp only [Written.encoding, reduceCtorEq] at known
      exact ⟨_, next, ⟨held, step⟩, rfl, rfl⟩
  | small =>
    simp only [readOperand, Reading.bind_eq_ok_iff, Reading.pure_eq_ok_iff, Image.byte_eq_ok_iff]
    constructor
    next =>
      rintro ⟨b, _, ⟨held, step⟩, rfl, rfl⟩
      exact ⟨.small b, rfl, by simp [Written.operand], held, step⟩
    next =>
      rintro ⟨written, known, rfl, held, step⟩
      cases written <;> simp only [Written.encoding, reduceCtorEq] at known
      exact ⟨_, next, ⟨held, step⟩, by simp [Written.operand], rfl⟩
  | byNumber =>
    simp only [readOperand, Reading.bind_eq_ok_iff, Reading.pure_eq_ok_iff, Image.byte_eq_ok_iff,
      variableOperand_eq]
    constructor
    next =>
      rintro ⟨v, _, ⟨held, step⟩, rfl, rfl⟩
      exact ⟨.byNumber v, rfl, rfl, held, step⟩
    next =>
      rintro ⟨written, known, rfl, held, step⟩
      cases written <;> simp only [Written.encoding, reduceCtorEq] at known
      exact ⟨_, next, ⟨held, step⟩, rfl, rfl⟩

theorem toNat_behind {img : Image} {pos : UInt32} {bs : List UInt8}
    (held : img.Holds pos.toNat bs) :
    (UInt32.ofNat (pos.toNat + bs.length)).toNat = pos.toNat + bs.length := by
  have bounded := img.size_lt
  have start := pos.toNat_lt
  by_cases none : bs = []
  next =>
    rw [none, UInt32.toNat_ofNat']
    exact Nat.mod_eq_of_lt start
  next =>
    have inside := held.within none
    rw [Image.length] at inside
    rw [UInt32.toNat_ofNat', Nat.mod_eq_of_lt (by omega)]

theorem exists_behind {img : Image} {pos : UInt32} {bs : List UInt8}
    (held : img.Holds pos.toNat bs) : ∃ next : UInt32, next.toNat = pos.toNat + bs.length :=
  ⟨_, toNat_behind held⟩

theorem readOperands_eq_ok_iff (img : Image) (p : Profile) (shape : Shape) (i : Nat)
    (es : List Encoding) (pos next : UInt32) (ops : List Operand) :
    readOperands img p shape i es pos = .ok (ops, next) ↔
      ∃ ws : List Written, ws.map Written.encoding = es ∧
        ops = (ws.mapIdx fun k w => w.operand p (shape.signedAt (i + k))) ∧
        img.Holds pos.toNat (ws.flatMap Written.bytes) ∧
        next.toNat = pos.toNat + (ws.flatMap Written.bytes).length := by
  induction es generalizing i pos next ops with
  | nil =>
    simp only [readOperands, Reading.pure_eq_ok_iff]
    constructor
    next =>
      rintro ⟨rfl, rfl⟩
      exact ⟨[], rfl, rfl, trivial, rfl⟩
    next =>
      rintro ⟨ws, none, rfl, -, step⟩
      cases List.map_eq_nil_iff.mp none
      exact ⟨rfl, UInt32.toNat_inj.mp step⟩
  | cons e es ih =>
    simp only [readOperands, Reading.bind_eq_ok_iff, Reading.pure_eq_ok_iff, readOperand_eq_ok_iff, ih]
    constructor
    next =>
      rintro ⟨_, mid, ⟨w, rfl, rfl, held, step⟩, _, _, ⟨ws, rfl, rfl, heldLater, stepLater⟩, rfl, rfl⟩
      refine ⟨w :: ws, rfl, ?_, ?_, ?_⟩
      · simp [List.mapIdx_cons, Nat.add_assoc, Nat.add_comm 1]
      · rw [List.flatMap_cons, Image.holds_append]
        exact ⟨held, step ▸ heldLater⟩
      · simp only [List.flatMap_cons, List.length_append]
        omega
    next =>
      rintro ⟨ws, known, rfl, held, step⟩
      obtain ⟨w, ws, rfl, rfl, rfl⟩ := List.map_eq_cons_iff.mp known
      rw [List.flatMap_cons, Image.holds_append] at held
      have mid := toNat_behind held.1
      simp only [List.flatMap_cons, List.length_append] at step
      refine ⟨_, _, ⟨w, rfl, rfl, held.1, mid⟩, _, next, ⟨ws, rfl, rfl, ?_, by omega⟩, ?_, rfl⟩
      · rw [mid]
        exact held.2
      · simp [List.mapIdx_cons, Nat.add_assoc, Nat.add_comm 1]

theorem toNat_and_63 (b : UInt8) : (b &&& 0x3F).toNat = b.toNat % 64 :=
  Nat.and_two_pow_sub_one_eq_mod b.toNat 6

theorem and_twoPow_bne (b : UInt8) {k : Nat} (small : k < 8) :
    (b &&& UInt8.ofNat (2 ^ k) != 0) = decide (b.toNat / 2 ^ k % 2 = 1) := by
  have mask : (UInt8.ofNat (2 ^ k)).toNat = 2 ^ k :=
    UInt8.toNat_ofNat_of_lt (Nat.pow_lt_pow_right (by omega) small)
  have bit : (b &&& UInt8.ofNat (2 ^ k)).toNat = (b.toNat.testBit k).toNat * 2 ^ k := by
    rw [UInt8.toNat_and, mask, Nat.and_two_pow]
  rw [← Nat.testBit_eq_decide_div_mod_eq, Bool.eq_iff_iff, bne_iff_ne, ne_eq, ← UInt8.toNat_inj, bit]
  cases b.toNat.testBit k <;> simp

theorem and_64_bne (b : UInt8) : (b &&& 0x40 != 0) = decide (b.toNat / 64 % 2 = 1) :=
  and_twoPow_bne b (k := 6) (by omega)

theorem and_128_bne (b : UInt8) : (b &&& 0x80 != 0) = decide (128 ≤ b.toNat) := by
  have bound := b.toNat_lt
  have top : b.toNat / 128 % 2 = 1 ↔ 128 ≤ b.toNat := by omega
  rw [← decide_eq_decide.mpr top]
  exact and_twoPow_bne b (k := 7) (by omega)

-- Shifting an offset of 14 bits to the top of a word and back extends its sign.
theorem shift_far (raw : UInt16) (bound : raw.toNat < 16384) :
    (raw <<< 2).toInt16 >>> 2 =
      Int16.ofInt (if raw.toNat < 8192 then raw.toNat else (raw.toNat : Int) - 16384) := by
  have shifted : (raw <<< 2).toNat = 4 * raw.toNat := by
    simp only [UInt16.toNat_shiftLeft, UInt16.reduceToNat, Nat.shiftLeft_eq, Nat.reduceMod,
      Nat.reducePow]
    omega
  have value : ((raw <<< 2).toInt16 >>> 2).toInt = (raw <<< 2).toInt16.toInt / 4 := by
    rw [← Int16.toInt_toBitVec, Int16.toBitVec_shiftRight]
    have amount : BitVec.smod (2 : Int16).toBitVec 16 = BitVec.ofNat 16 2 := by decide
    rw [amount, BitVec.sshiftRight'_ofNat_eq_sshiftRight, BitVec.toInt_sshiftRight,
      Int.shiftRight_eq_div_pow]
    rfl
  rw [← Int16.toInt_inj, value, Word.toInt_toInt16, shifted]
  split_ifs with a b b
  · rw [Int16.toInt_ofInt_of_le] <;> omega
  · omega
  · omega
  · rw [Int16.toInt_ofInt_of_le] <;> omega

theorem ofNat_topBit_add (b : UInt8) :
    UInt8.ofNat (128 * (decide (128 ≤ b.toNat)).toNat + b.toNat % 128) = b := by
  have bound := b.toNat_lt
  rw [← UInt8.toNat_inj, UInt8.toNat_ofNat']
  by_cases top : 128 ≤ b.toNat <;> simp only [top, decide_true, decide_false, Bool.toNat_true,
    Bool.toNat_false] <;> omega

theorem toNat_ofNat_topBit (top : Bool) {n : Nat} (bound : n < 128) :
    (UInt8.ofNat (128 * top.toNat + n)).toNat = 128 * top.toNat + n := by
  rw [UInt8.toNat_ofNat']
  cases top <;> simp only [Bool.toNat_true, Bool.toNat_false] <;> omega

theorem readBranch_of_holds {img : Image} {pos next : UInt32} (s : Suffix)
    (held : img.Holds pos.toNat s.bytes) (step : next.toNat = pos.toNat + s.bytes.length) :
    readBranch img pos = .ok (s.branch, next) := by
  simp only [readBranch, Reading.bind_eq_ok_iff, Image.byte_eq_ok_iff, and_64_bne, and_128_bne]
  cases s with
  | near ifTrue offset =>
    have value := toNat_ofNat_topBit ifTrue (n := 64 + offset) (by omega)
    rw [← Nat.add_assoc] at value
    have sixth : (128 * ifTrue.toNat + 64 + offset.val) / 64 % 2 = 1 := by omega
    have top : decide (128 ≤ 128 * ifTrue.toNat + 64 + offset.val) = ifTrue := by
      cases ifTrue <;> simp only [Bool.toNat_true, Bool.toNat_false, decide_eq_true_eq,
        decide_eq_false_iff_not] <;> omega
    have kept : (UInt8.ofNat (128 * ifTrue.toNat + 64 + offset.val) &&& 0x3F).toUInt16 =
        UInt16.ofNat offset := by
      rw [← UInt16.toNat_inj, UInt8.toNat_toUInt16, toNat_and_63, value, UInt16.toNat_ofNat']
      omega
    refine ⟨_, next, ⟨held, step⟩, ?_⟩
    simp only [value, sixth, top, kept, decide_true, if_true, Reading.pure_eq_ok_iff,
      UInt16.toInt16_ofNat', and_true]
    rfl
  | far ifTrue offset =>
    have value := toNat_ofNat_topBit ifTrue (n := offset / 256) (by omega)
    have sixth : ¬ (128 * ifTrue.toNat + offset.val / 256) / 64 % 2 = 1 := by omega
    have top : decide (128 ≤ 128 * ifTrue.toNat + offset.val / 256) = ifTrue := by
      cases ifTrue <;> simp only [Bool.toNat_true, Bool.toNat_false, decide_eq_true_eq,
        decide_eq_false_iff_not] <;> omega
    have raw : (Image.word (UInt8.ofNat (128 * ifTrue.toNat + offset.val / 256) &&& 0x3F)
        (UInt8.ofNat (offset.val % 256))).toNat = offset := by
      rw [Image.toNat_word, toNat_and_63, value, UInt8.toNat_ofNat']
      omega
    have first : img.Holds pos.toNat [UInt8.ofNat (128 * ifTrue.toNat + offset.val / 256)] :=
      ⟨held.1, trivial⟩
    have mid := toNat_behind first
    refine ⟨_, _, ⟨first, mid⟩, ?_⟩
    simp only [value, sixth, top, decide_false, Bool.false_eq_true, if_false,
      Reading.bind_eq_ok_iff, Image.byte_eq_ok_iff, Reading.pure_eq_ok_iff]
    refine ⟨UInt8.ofNat (offset.val % 256), next, ⟨?_, ?_⟩, ?_, rfl⟩
    · rw [mid]
      exact held.2
    · rw [mid]
      exact step
    · rw [shift_far _ (by omega), raw]
      rfl

theorem exists_suffix_of_readBranch {img : Image} {pos next : UInt32} {br : Branch}
    (read : readBranch img pos = .ok (br, next)) :
    ∃ s : Suffix, img.Holds pos.toNat s.bytes ∧ next.toNat = pos.toNat + s.bytes.length := by
  simp only [readBranch, Reading.bind_eq_ok_iff, Image.byte_eq_ok_iff, and_64_bne] at read
  obtain ⟨first, mid, ⟨held, middle⟩, later⟩ := read
  have whole := ofNat_topBit_add first
  by_cases near : first.toNat / 64 % 2 = 1
  · simp only [near, decide_true, if_true, Reading.pure_eq_ok_iff] at later
    obtain ⟨-, rfl⟩ := later
    refine ⟨.near (decide (128 ≤ first.toNat)) ⟨first.toNat % 64, by omega⟩, ?_, middle⟩
    have rest : first.toNat % 128 = 64 + first.toNat % 64 := by omega
    rw [rest, ← Nat.add_assoc] at whole
    rwa [Suffix.bytes, whole]
  · simp only [near, decide_false, Bool.false_eq_true, if_false, Reading.bind_eq_ok_iff,
      Image.byte_eq_ok_iff, Reading.pure_eq_ok_iff] at later
    obtain ⟨second, _, ⟨heldSecond, step⟩, -, rfl⟩ := later
    have small := second.toNat_lt
    refine ⟨.far (decide (128 ≤ first.toNat)) ⟨256 * (first.toNat % 64) + second.toNat, by omega⟩,
      ?_, ?_⟩
    · have rest : first.toNat % 128 = (256 * (first.toNat % 64) + second.toNat) / 256 := by omega
      have low : (256 * (first.toNat % 64) + second.toNat) % 256 = second.toNat := by omega
      rw [rest] at whole
      simp only [Suffix.bytes, whole, low, UInt8.ofNat_toNat]
      exact ⟨held.1, middle ▸ heldSecond⟩
    · simp only [Suffix.bytes, List.length_cons, List.length_nil]
      omega

theorem readBranch_eq_ok_iff (img : Image) (pos next : UInt32) (br : Branch) :
    readBranch img pos = .ok (br, next) ↔
      ∃ s : Suffix, br = s.branch ∧ img.Holds pos.toNat s.bytes ∧
        next.toNat = pos.toNat + s.bytes.length := by
  constructor
  next =>
    intro read
    obtain ⟨s, held, step⟩ := exists_suffix_of_readBranch read
    -- the branch is the one of these bytes, since reading them gives one answer
    have same := read.symm.trans (readBranch_of_holds s held step)
    exact ⟨s, congrArg Prod.fst (Except.ok.inj same), held, step⟩
  next =>
    rintro ⟨s, rfl, held, step⟩
    exact readBranch_of_holds s held step

theorem hasSecondTypes_iff (opcode : UInt16) :
    hasSecondTypes opcode = true ↔ opcode = 236 ∨ opcode = 250 := by
  have first : Op.callVs2.number = 236 := rfl
  have second : Op.callVn2.number = 250 := rfl
  simp [hasSecondTypes, first, second]

theorem storesOnResume_iff (opcode : UInt16) :
    storesOnResume opcode = true ↔ opcode ∈ [25, 136, 224, 236, 1010] := by
  have numbers : [Op.call2s, .call1s, .callVs, .callVs2, .restoreUndo].map Op.number =
      [25, 136, 224, 236, 1010] := rfl
  simp only [storesOnResume, ← numbers, List.any_eq_true, List.mem_map, beq_iff_eq]

theorem hasText_iff (opcode : UInt16) : hasText opcode = true ↔ opcode ∈ [178, 179] := by
  have numbers : [Op.print.number, Op.printRet.number] = [178, 179] := rfl
  simp [hasText, ← numbers]

theorem readTypes_eq_ok_iff (img : Image) (opcode : UInt16) (pos next : UInt32)
    (es : List Encoding) :
    readTypes img opcode pos = .ok (es, next) ↔
      ∃ ts : List (UInt8 × List Encoding),
        ts.length = (if opcode = 236 ∨ opcode = 250 then 2 else 1) ∧ (∀ t ∈ ts, Describes t.1 t.2) ∧
        es = ts.flatMap Prod.snd ∧ img.Holds pos.toNat (ts.map Prod.fst) ∧
        next.toNat = pos.toNat + ts.length := by
  simp only [readTypes, Reading.bind_eq_ok_iff, Image.byte_eq_ok_iff, hasSecondTypes_iff,
    ← Encoding.ofTypes_eq_iff]
  by_cases second : opcode = 236 ∨ opcode = 250
  next =>
    simp only [second, if_true, Reading.bind_eq_ok_iff, Image.byte_eq_ok_iff, Reading.pure_eq_ok_iff]
    constructor
    next =>
      rintro ⟨t, mid, ⟨held, middle⟩, u, _, ⟨heldLater, step⟩, rfl, rfl⟩
      refine ⟨[(t, Encoding.ofTypes t), (u, Encoding.ofTypes u)], rfl, by simp, by simp,
        ⟨held.1, middle ▸ heldLater⟩, ?_⟩
      simp only [List.length_cons, List.length_nil]
      omega
    next =>
      rintro ⟨ts, two, described, rfl, held, step⟩
      obtain ⟨⟨t, es⟩, ⟨u, fs⟩, rfl⟩ := List.length_eq_two.mp two
      have knownFirst := described (t, es) (by simp)
      have knownSecond := described (u, fs) (by simp)
      have first : img.Holds pos.toNat [t] := ⟨held.1, trivial⟩
      have mid := toNat_behind first
      refine ⟨t, _, ⟨first, mid⟩, u, next, ⟨?_, ?_⟩, by simp [knownFirst, knownSecond], rfl⟩
      · rw [mid]
        exact held.2
      · rw [mid]
        exact step
  next =>
    simp only [second, if_false, Reading.pure_eq_ok_iff]
    constructor
    next =>
      rintro ⟨t, _, ⟨held, step⟩, rfl, rfl⟩
      exact ⟨[(t, Encoding.ofTypes t)], rfl, by simp, by simp, held, step⟩
    next =>
      rintro ⟨ts, one, described, rfl, held, step⟩
      obtain ⟨⟨t, es⟩, rfl⟩ := List.length_eq_one_iff.mp one
      have known := described (t, es) (by simp)
      exact ⟨t, next, ⟨held, step⟩, by simp [known], rfl⟩

theorem readIf_eq_ok_iff {α σ : Type} (img : Image) (present : Bool) (read : Reading α)
    (pos : UInt32) (legal : σ → Prop) (value : σ → α) (bytes : σ → List UInt8)
    (accepts : ∀ a next, read pos = .ok (a, next) ↔
      ∃ s, legal s ∧ a = value s ∧ img.Holds pos.toNat (bytes s) ∧
        next.toNat = pos.toNat + (bytes s).length)
    (next : UInt32) (a : Option α) :
    readIf present read pos = .ok (a, next) ↔
      ∃ s : Option σ, s.isSome = present ∧ (∀ part ∈ s, legal part) ∧ a = s.map value ∧
        img.Holds pos.toNat ((s.map bytes).getD []) ∧
        next.toNat = pos.toNat + ((s.map bytes).getD []).length := by
  cases present with
  | false =>
    simp only [readIf, Bool.false_eq_true, if_false, Reading.pure_eq_ok_iff]
    constructor
    next =>
      rintro ⟨rfl, rfl⟩
      exact ⟨none, rfl, by simp, rfl, trivial, rfl⟩
    next =>
      rintro ⟨s, absent, -, rfl, -, step⟩
      obtain rfl : s = none := by simpa using absent
      exact ⟨rfl, UInt32.toNat_inj.mp step⟩
  | true =>
    simp only [readIf, if_true, map_eq_pure_bind, Reading.bind_eq_ok_iff, Reading.pure_eq_ok_iff,
      accepts]
    constructor
    next =>
      rintro ⟨_, _, ⟨s, fine, rfl, held, step⟩, rfl, rfl⟩
      exact ⟨some s, rfl, by simpa using fine, rfl, held, step⟩
    next =>
      rintro ⟨s, here, fine, rfl, held, step⟩
      obtain ⟨part, rfl⟩ := Option.isSome_iff_exists.mp here
      exact ⟨_, next, ⟨part, fine part rfl, rfl, held, step⟩, rfl, rfl⟩

theorem readText_eq_ok_iff (img : Image) (pos next start : UInt32) :
    readText img pos = .ok (start, next) ↔
      ∃ words, Terminated words ∧ start = pos ∧
        img.Holds pos.toNat (words.flatMap Image.wordBytes) ∧
        next.toNat = pos.toNat + (words.flatMap Image.wordBytes).length := by
  have size (words : List UInt16) : (words.flatMap Image.wordBytes).length = 2 * words.length := by
    induction words with
    | nil => rfl
    | cons w rest ih =>
      rw [List.flatMap_cons, List.length_append, ih, List.length_cons]
      simp only [Image.wordBytes, List.length_cons, List.length_nil]
      omega
  have readStart : (get : Reading UInt32) pos = .ok (pos, pos) := rfl
  simp only [readText, Reading.bind_eq_ok_iff, readStart, Except.ok.injEq, Prod.mk.injEq,
    Reading.pure_eq_ok_iff, Image.passText_eq_ok_iff, size]
  constructor
  next =>
    rintro ⟨_, _, ⟨rfl, rfl⟩, _, _, ⟨words, ended, -, held, step⟩, rfl, rfl⟩
    exact ⟨words, ended, rfl, held, step⟩
  next =>
    rintro ⟨words, ended, rfl, held, step⟩
    -- the words lie in the image, so its length bounds their number
    have short : words.length ≤ img.length := by
      cases words with
      | nil => exact absurd ended id
      | cons w rest =>
        have inside := held.within (by simp [Image.wordBytes])
        rw [size] at inside
        omega
    exact ⟨_, _, ⟨rfl, rfl⟩, (), next, ⟨words, ended, short, held, step⟩, rfl, rfl⟩

theorem readEncodings_eq_ok_iff (img : Image) (opening : Opening) (pos next : UInt32)
    (es : List Encoding) :
    readEncodings img opening.opcode opening.encodings? pos = .ok (es, next) ↔
      ∃ ts : List (UInt8 × List Encoding),
        ts.length = opening.typeBytes ∧ (∀ t ∈ ts, Describes t.1 t.2) ∧
        es = opening.encodings?.getD (ts.flatMap Prod.snd) ∧
        img.Holds pos.toNat (ts.map Prod.fst) ∧ next.toNat = pos.toNat + ts.length := by
  rw [Opening.typeBytes]
  cases opening.encodings? with
  | some known =>
    simp only [readEncodings, Reading.pure_eq_ok_iff, Option.isSome_some, if_true, List.length_eq_zero_iff,
      Option.getD_some]
    constructor
    next =>
      rintro ⟨rfl, rfl⟩
      exact ⟨[], rfl, by simp, rfl, trivial, rfl⟩
    next =>
      rintro ⟨ts, rfl, -, rfl, -, step⟩
      exact ⟨rfl, UInt32.toNat_inj.mp step⟩
  | none =>
    simp only [readEncodings, readTypes_eq_ok_iff, Option.isSome_none, Bool.false_eq_true, if_false,
      Option.getD_none]

theorem readBody_eq_ok_iff (img : Image) (p : Profile) (addr : UInt32) (opening : Opening)
    (legal : opening ≠ .bare 14) (pos next : UInt32) (i : Instruction) :
    readBody img p addr opening.opcode opening.encodings? pos = .ok (i, next) ↔
      ∃ l : Layout, l.opening = opening ∧ l.Fits p.version ∧
        img.Holds pos.toNat (l.body ++ l.textBytes) ∧
        next.toNat = pos.toNat + (l.body ++ l.textBytes).length ∧
        i = { l.instruction p addr with
          text := l.text.map fun _ => UInt32.ofNat (pos.toNat + l.body.length)
          next := next } := by
  have suffixes (pos : UInt32) := readIf_eq_ok_iff img
    (Shape.of p.version opening.opcode).branches (readBranch img) pos (fun _ => True)
    Suffix.branch Suffix.bytes (by simpa using fun br next => readBranch_eq_ok_iff img pos next br)
  have results (pos : UInt32) := readIf_eq_ok_iff img
    ((Shape.of p.version opening.opcode).stores || storesOnResume opening.opcode) img.byte pos
    (fun _ => True) id (fun b => [b]) (by simp [Image.byte_eq_ok_iff])
  have texts (pos : UInt32) := readIf_eq_ok_iff img (hasText opening.opcode) (readText img) pos
    Terminated (fun _ => pos) (fun words => words.flatMap Image.wordBytes)
    (fun start next => readText_eq_ok_iff img pos next start)
  have single (r : Option UInt8) : (r.map fun b => [b]).getD [] = r.toList := by cases r <;> rfl
  have textSpelled (t : Option (List UInt16)) :
      (t.map fun words => words.flatMap Image.wordBytes).getD [] =
        (t.getD []).flatMap Image.wordBytes := by cases t <;> rfl
  have current (pos : UInt32) : (get : Reading UInt32) pos = .ok (pos, pos) := rfl
  simp only [readBody, Reading.bind_eq_ok_iff, Reading.pure_eq_ok_iff, readEncodings_eq_ok_iff,
    readOperands_eq_ok_iff, suffixes, results, texts, current, single, textSpelled]
  constructor
  next =>
    rintro ⟨_, p1, ⟨types, count, described, rfl, heldTypes, step1⟩,
      _, p2, ⟨operands, encoded, rfl, heldOperands, step2⟩,
      _, p3, ⟨result, hasResult, -, rfl, heldResult, step3⟩,
      _, p4, ⟨suffix, hasSuffix, -, rfl, heldSuffix, step4⟩,
      _, p5, ⟨text, hasWords, ended, rfl, heldText, step5⟩,
      _, _, ⟨rfl, rfl⟩, rfl, rfl⟩
    refine ⟨⟨opening, types, operands, result, suffix, text⟩, rfl,
      ⟨legal, count, described, encoded, ?_, ?_, ?_, ended⟩, ?_, ?_, ?_⟩
    · simp [hasResult, storesOnResume_iff, Layout.opcode]
    · simp [hasSuffix, Layout.opcode]
    · simp [hasWords, hasText_iff, Layout.opcode]
    · simp only [Layout.body, Layout.textBytes, Image.holds_append, List.length_append,
        List.length_map, ← Nat.add_assoc, ← step1, ← step2, ← step3, ← step4]
      exact ⟨⟨⟨⟨heldTypes, heldOperands⟩, heldResult⟩, heldSuffix⟩, heldText⟩
    · simp only [Layout.body, Layout.textBytes, List.length_append, List.length_map,
        ← Nat.add_assoc, ← step1, ← step2, ← step3, ← step4, ← step5]
    · have start : pos.toNat + (Layout.body ⟨opening, types, operands, result, suffix, text⟩).length =
          p4.toNat := by
        simp only [Layout.body, List.length_append, List.length_map, ← Nat.add_assoc, ← step1,
          ← step2, ← step3, ← step4]
      simp [Layout.instruction, Layout.opcode, start]
  next =>
    rintro ⟨⟨o, types, operands, result, suffix, text⟩, rfl,
      ⟨-, count, described, encoded, hasResult, hasSuffix, hasWords, ended⟩, held, step, rfl⟩
    simp only [Layout.body, Layout.textBytes, Image.holds_append, List.length_append,
      ← Nat.add_assoc] at held step
    obtain ⟨⟨⟨⟨heldTypes, heldOperands⟩, heldResult⟩, heldSuffix⟩, heldText⟩ := held
    -- one position behind each part
    obtain ⟨p1, step1⟩ := exists_behind heldTypes
    rw [← step1] at heldOperands heldResult heldSuffix heldText step
    obtain ⟨p2, step2⟩ := exists_behind heldOperands
    rw [← step2] at heldResult heldSuffix heldText step
    obtain ⟨p3, step3⟩ := exists_behind heldResult
    rw [← step3] at heldSuffix heldText step
    obtain ⟨p4, step4⟩ := exists_behind heldSuffix
    rw [← step4] at heldText step
    refine ⟨_, p1, ⟨types, count, described, rfl, heldTypes, by simpa using step1⟩,
      _, p2, ⟨operands, encoded, rfl, heldOperands, step2⟩,
      _, p3, ⟨result, ?_, by simp, rfl, heldResult, step3⟩,
      _, p4, ⟨suffix, ?_, by simp, rfl, heldSuffix, step4⟩,
      _, next, ⟨text, ?_, ended, rfl, heldText, step⟩,
      next, next, rfl, ?_, rfl⟩
    · rw [Bool.eq_iff_iff, hasResult, Bool.or_eq_true, storesOnResume_iff]
      rfl
    · rw [Bool.eq_iff_iff, hasSuffix]
      rfl
    · rw [Bool.eq_iff_iff, hasWords, hasText_iff]
      rfl
    · have start : pos.toNat +
          (Layout.body ⟨o, types, operands, result, suffix, text⟩).length = p4.toNat := by
        simp only [Layout.body, List.length_append, ← Nat.add_assoc, ← step1, ← step2, ← step3,
          ← step4]
      simp [Layout.instruction, Layout.opcode, start]

theorem form_head (o : Opening) (legal : o ≠ .bare 14) :
    ∀ b ∈ o.bytes.head?, form b = o.form := by
  intro b head
  -- the byte is put in place first, so that only the numbers are left to run through
  cases o with
  | long number first second =>
    cases head
    revert number first second
    decide +kernel
  | short number encoding =>
    cases head
    cases encoding <;> revert number <;> decide +kernel
  | bare number =>
    cases head
    revert number
    decide +kernel
  | typedTwo number | typed number =>
    cases head
    revert number
    decide +kernel
  | extended number =>
    cases head
    rfl

theorem exists_opening (b : UInt8) (plain : b.toNat ≠ 190) :
    ∃ o : Opening, o ≠ .bare 14 ∧ o.bytes = [b] := by
  have bound := b.toNat_lt
  have same {n : Nat} (value : n = b.toNat) : [UInt8.ofNat n] = [b] := by simp [value]
  by_cases isLong : b.toNat < 128
  next =>
    refine ⟨.long ⟨b.toNat % 32, by omega⟩ (decide (64 ≤ b.toNat)) (decide (32 ≤ b.toNat % 64)),
      by simp, same ?_⟩
    by_cases first : 64 ≤ b.toNat <;> by_cases second : 32 ≤ b.toNat % 64 <;>
      simp only [first, second, decide_true, decide_false, Bool.toNat_true, Bool.toNat_false] <;>
      omega
  by_cases isShort : b.toNat < 176
  next =>
    have number : b.toNat % 16 < 16 := by omega
    by_cases isLarge : b.toNat < 144
    · exact ⟨.short ⟨b.toNat % 16, number⟩ .large, by simp, same (by simp [Encoding.code]; omega)⟩
    by_cases isSmall : b.toNat < 160
    · exact ⟨.short ⟨b.toNat % 16, number⟩ .small, by simp, same (by simp [Encoding.code]; omega)⟩
    · exact ⟨.short ⟨b.toNat % 16, number⟩ .byNumber, by simp, same (by simp [Encoding.code]; omega)⟩
  by_cases isBare : b.toNat < 192
  next =>
    refine ⟨.bare ⟨b.toNat - 176, by omega⟩, ?_, same (by simp; omega)⟩
    simp only [ne_eq, Opening.bare.injEq, Fin.ext_iff]
    omega
  by_cases isTwo : b.toNat < 224
  next => exact ⟨.typedTwo ⟨b.toNat - 192, by omega⟩, by simp, same (by simp; omega)⟩
  next => exact ⟨.typed ⟨b.toNat - 224, by omega⟩, by simp, same (by simp; omega)⟩

theorem u8_eq_ok_iff (img : Image) (pos : UInt32) (b : UInt8) :
    img.u8 pos = .ok b ↔ img.bytes[pos.toNat]? = some b := by
  rw [Image.u8]
  cases img.bytes[pos.toNat]? <;> simp

theorem decode_of_opening {img : Image} {addr : UInt32} {o : Opening} (p : Profile)
    (legal : o ≠ .bare 14) (held : img.Holds addr.toNat o.bytes) :
    decode img p addr =
      finish img p addr o.opcode o.encodings? (UInt32.ofNat (addr.toNat + o.bytes.length)) := by
  have shape := form_head o legal
  have behind (n : Nat) : addr + UInt32.ofNat n = UInt32.ofNat (addr.toNat + n) := by simp
  cases o with
  | extended number =>
    have first : img.Holds addr.toNat [190] := ⟨held.1, trivial⟩
    have second : (addr + 1).toNat = addr.toNat + 1 := by
      simpa [← behind] using toNat_behind first
    have readFirst := (u8_eq_ok_iff img addr 190).mpr held.1
    have readSecond := (u8_eq_ok_iff img (addr + 1) number).mpr (second ▸ held.2.1)
    have opcode : extendedBase + number.toUInt16 = UInt16.ofNat (1000 + number.toNat) := by
      simp [extendedBase, UInt16.ofNat_add]
    simp only [decode, readFirst, shape 190 rfl, Opening.form, readSecond, opcode]
    rw [Opening.opcode, Opening.encodings?, Opening.bytes, ← behind]
    rfl
  | _ =>
    simp only [decode, (u8_eq_ok_iff img addr _).mpr held.1, shape _ rfl, Opening.form,
      Opening.encodings?, Opening.bytes, List.length_singleton, ← behind]
    rfl

theorem opening_of_decode {img : Image} {p : Profile} {addr : UInt32} {i : Instruction}
    (decoded : decode img p addr = .ok i) :
    ∃ o : Opening, o ≠ .bare 14 ∧ img.Holds addr.toNat o.bytes := by
  cases readFirst : img.u8 addr with
  | error o => simp [decode, readFirst] at decoded
  | ok b =>
    have first := (u8_eq_ok_iff img addr b).mp readFirst
    by_cases plain : b.toNat = 190
    next =>
      obtain rfl : b = 190 := UInt8.toNat_inj.mp plain
      cases readSecond : img.u8 (addr + 1) with
      | error o => simp [decode, readFirst, form, readSecond] at decoded
      | ok number =>
        have second := (u8_eq_ok_iff img (addr + 1) number).mp readSecond
        have held : img.Holds addr.toNat [190] := ⟨first, trivial⟩
        have behind : (addr + 1).toNat = addr.toNat + 1 := by
          simpa using toNat_behind held
        exact ⟨.extended number, by simp, first, behind ▸ second, trivial⟩
    next =>
      obtain ⟨o, legal, spelled⟩ := exists_opening b plain
      exact ⟨o, legal, by rw [spelled]; exact ⟨first, trivial⟩⟩

theorem finish_eq_ok_iff (img : Image) (p : Profile) (addr : UInt32) (opcode : UInt16)
    (encodings : Option (List Encoding)) (pos : UInt32) (i : Instruction) :
    finish img p addr opcode encodings pos = .ok i ↔
      ∃ next, readBody img p addr opcode encodings pos = .ok (i, next) := by
  simp only [finish, StateT.run]
  cases readBody img p addr opcode encodings pos with
  | error o => simp
  | ok result => simp [Prod.ext_iff]

theorem decode_eq_ok_iff (img : Image) (p : Profile) (addr : UInt32) (i : Instruction) :
    decode img p addr = .ok i ↔
      ∃ l : Layout, l.Fits p.version ∧ img.Holds addr.toNat l.bytes ∧ i = l.instruction p addr := by
  constructor
  next =>
    intro decoded
    obtain ⟨o, legal, held⟩ := opening_of_decode decoded
    have behind := toNat_behind held
    rw [decode_of_opening p legal held, finish_eq_ok_iff] at decoded
    obtain ⟨next, read⟩ := decoded
    obtain ⟨l, rfl, fits, later, step, rfl⟩ := (readBody_eq_ok_iff img p addr o legal _ _ _).mp read
    rw [behind] at later step
    have whole : img.Holds addr.toNat l.bytes := by
      rw [Layout.bytes, List.append_assoc, Image.holds_append]
      exact ⟨held, later⟩
    refine ⟨l, fits, whole, ?_⟩
    have last : next = UInt32.ofNat (addr.toNat + l.bytes.length) := by
      rw [← UInt32.toNat_inj, toNat_behind whole, step]
      simp only [Layout.bytes, List.length_append]
      omega
    simp only [Layout.instruction, behind, last, List.length_append, Nat.add_assoc]
  next =>
    rintro ⟨l, fits, held, rfl⟩
    have whole := toNat_behind held
    rw [Layout.bytes, List.append_assoc, Image.holds_append] at held
    have behind := toNat_behind held.1
    rw [decode_of_opening p fits.opening held.1, finish_eq_ok_iff]
    refine ⟨UInt32.ofNat (addr.toNat + l.bytes.length), ?_⟩
    rw [readBody_eq_ok_iff _ _ _ _ fits.opening, behind, whole]
    refine ⟨l, rfl, fits, held.2, ?_, ?_⟩
    · simp only [Layout.bytes, List.length_append]
      omega
    · simp [Layout.instruction, Nat.add_assoc]

theorem exists_overrun {img : Image} {p : Profile} {addr : UInt32} {fault : Fault}
    (failed : decode img p addr = .error fault) :
    ∃ opcode read, fault = .decode opcode addr read := by
  have finished (opcode : UInt16) (encodings : Option (List Encoding)) (pos : UInt32)
      (failed : finish img p addr opcode encodings pos = .error fault) :
      ∃ opcode read, fault = .decode opcode addr read := by
    simp only [finish] at failed
    split at failed
    · cases failed
    · cases failed
      exact ⟨_, _, rfl⟩
  simp only [decode] at failed
  split at failed
  · cases failed
    exact ⟨_, _, rfl⟩
  split at failed
  · exact finished _ _ _ failed
  · exact finished _ _ _ failed
  split at failed
  · cases failed
    exact ⟨_, _, rfl⟩
  · exact finished _ _ _ failed

theorem condition_of_decode_error {img : Image} {p : Profile} {addr : UInt32} {fault : Fault}
    (failed : decode img p addr = .error fault) : fault.condition? = some .imageOverrun := by
  obtain ⟨opcode, read, rfl⟩ := exists_overrun failed
  rfl

/-- Decoding accepts exactly the layouts: where the image holds one it gives the instruction of that
layout and ends behind it, it gives nothing else, and it fails only by running past the image. -/
theorem decode_exactly_layouts (img : Image) (p : Profile) (addr : UInt32) :
    (∀ l : Layout, l.Fits p.version → img.Holds addr.toNat l.bytes →
      decode img p addr = .ok (l.instruction p addr) ∧
        (l.instruction p addr).next.toNat = addr.toNat + l.bytes.length) ∧
    (∀ i, decode img p addr = .ok i →
      ∃ l : Layout, l.Fits p.version ∧ img.Holds addr.toNat l.bytes ∧ i = l.instruction p addr) ∧
    ∀ fault, decode img p addr = .error fault → fault.condition? = some .imageOverrun := by
  refine ⟨?_, ?_, ?_⟩
  · intro l fits held
    exact ⟨(decode_eq_ok_iff img p addr _).mpr ⟨l, fits, held, rfl⟩, toNat_behind held⟩
  · intro i decoded
    exact (decode_eq_ok_iff img p addr i).mp decoded
  · intro fault failed
    exact condition_of_decode_error failed

-- A call with two type bytes, whose first stops at its fourth code and whose second stops at its
-- second.
theorem decode_exactly_layouts_call :
    let img : Image := ⟨#[9, 0xEC, 0x1B, 0xBF, 0x12, 0x34, 7, 0, 17, 3], by decide⟩
    let l : Layout :=
      { opening := .typed 12
        types := [(0x1B, [.large, .small, .byNumber]), (0xBF, [.byNumber])]
        operands := [.large 0x1234, .small 7, .byNumber 0, .byNumber 17]
        result := some 3 }
    l.Fits 5 ∧ decode img ⟨5, 0xFFFF⟩ 1 = .ok (l.instruction ⟨5, 0xFFFF⟩ 1) ∧
      (l.instruction ⟨5, 0xFFFF⟩ 1).next.toNat = 10 := by
  intro img l
  have fits : l.Fits 5 := by
    constructor <;> decide
  exact ⟨fits, (decode_exactly_layouts img ⟨5, 0xFFFF⟩ 1).1 l fits (by decide)⟩

end Instruction

end ZCode

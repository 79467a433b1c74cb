import ZCode.Instruction.Decode

set_option autoImplicit false

namespace ZCode

namespace Image

def Holds (img : Image) (pos : Nat) : List UInt8 → Prop
  | [] => True
  | b :: rest => img.bytes[pos]? = some b ∧ img.Holds (pos + 1) rest

instance instDecidableHolds (img : Image) (pos : Nat) : (bs : List UInt8) → Decidable (img.Holds pos bs)
  | [] => .isTrue trivial
  | b :: rest =>
    have := instDecidableHolds img (pos + 1) rest
    inferInstanceAs (Decidable (img.bytes[pos]? = some b ∧ img.Holds (pos + 1) rest))

theorem holds_append (img : Image) (pos : Nat) (as bs : List UInt8) :
    img.Holds pos (as ++ bs) ↔ img.Holds pos as ∧ img.Holds (pos + as.length) bs := by
  induction as generalizing pos with
  | nil => simp [Holds]
  | cons a as ih =>
    have position : pos + 1 + as.length = pos + (as.length + 1) := by omega
    simp [Holds, ih, and_assoc, position]

theorem Holds.within {img : Image} {pos : Nat} {bs : List UInt8} (held : img.Holds pos bs)
    (some : bs ≠ []) : pos + bs.length ≤ img.length := by
  induction bs generalizing pos with
  | nil => exact absurd rfl some
  | cons b rest ih =>
    obtain ⟨first, later⟩ := held
    have inside : pos < img.bytes.size := (Array.getElem?_eq_some_iff.mp first).1
    by_cases last : rest = []
    next =>
      simp only [last, List.length_singleton, length]
      omega
    next =>
      have bound := ih later last
      simp only [List.length_cons]
      omega

theorem Holds.congr {img other : Image} {pos : Nat} {bs : List UInt8} (held : img.Holds pos bs)
    (agree : ∀ k, pos ≤ k → k < pos + bs.length → other.bytes[k]? = img.bytes[k]?) :
    other.Holds pos bs := by
  induction bs generalizing pos with
  | nil => trivial
  | cons b rest ih =>
    refine ⟨?_, ih held.2 fun k low high => agree k (by omega) ?_⟩
    · rw [agree pos (Nat.le_refl _) (by simp), held.1]
    · simp only [List.length_cons]
      omega

def wordBytes (w : UInt16) : List UInt8 :=
  [UInt8.ofNat (w.toNat / 256), UInt8.ofNat (w.toNat % 256)]

theorem toNat_word (high low : UInt8) : (word high low).toNat = 256 * high.toNat + low.toNat := by
  have small : low.toNat < 2 ^ 8 := low.toNat_lt
  have shifted : high.toNat * 256 % 65536 = high.toNat * 256 := by
    have := high.toNat_lt
    omega
  have disjoint : high.toNat * 256 + low.toNat = high.toNat * 256 ||| low.toNat := by
    simpa [Nat.mul_comm] using Nat.two_pow_add_eq_or_of_lt small high.toNat
  simp only [word, UInt16.toNat_or, UInt16.toNat_shiftLeft, UInt8.toNat_toUInt16,
    UInt16.reduceToNat, Nat.shiftLeft_eq, Nat.reducePow, Nat.reduceMod, shifted]
  omega

theorem wordBytes_word (high low : UInt8) : wordBytes (word high low) = [high, low] := by
  have highBound := high.toNat_lt
  have lowBound := low.toNat_lt
  simp only [wordBytes, toNat_word, List.cons.injEq, and_true, ← UInt8.toNat_inj,
    UInt8.toNat_ofNat']
  omega

theorem word_of_wordBytes {w : UInt16} {high low : UInt8} (same : wordBytes w = [high, low]) :
    word high low = w := by
  simp only [wordBytes, List.cons.injEq, and_true] at same
  have bound := w.toNat_lt
  rw [← UInt16.toNat_inj, toNat_word, ← same.1, ← same.2, UInt8.toNat_ofNat', UInt8.toNat_ofNat']
  omega

end Image

inductive Written where
  | large (w : UInt16)
  | small (b : UInt8)
  | byNumber (v : UInt8)
  deriving DecidableEq, Repr

namespace Written

def encoding : Written → Encoding
  | large _ => .large
  | small _ => .small
  | byNumber _ => .byNumber

def bytes : Written → List UInt8
  | large w => Image.wordBytes w
  | small b => [b]
  | byNumber v => [v]

def operand (p : Profile) (signed : Bool) : Written → Operand
  | large w => ⟨if signed then .signedConstant else .constant, w⟩
  | small b => ⟨if signed then .signedConstant else .constant, UInt16.ofNat b.toNat⟩
  | byNumber v =>
    if v.toNat = 0 then ⟨if signed then .signedStack else .stack, 0⟩
    else if v.toNat ≤ 15 then
      ⟨if signed then .signedSlot else .slot, UInt16.ofNat (v.toNat - 1)⟩
    else
      ⟨if signed then .signedGlobal else .global,
        UInt16.ofNat (p.globals.toNat + 2 * (v.toNat - 16))⟩

end Written

def Encoding.code : Encoding → Nat
  | .large => 0
  | .small => 1
  | .byNumber => 2

def typeCodes (types : UInt8) : List Nat :=
  [types.toNat / 64, types.toNat / 16 % 4, types.toNat / 4 % 4, types.toNat % 4]

/-- The encodings are what a type byte says: all four codes, or those before the first omitted
one. Codes behind it mean nothing. -/
def Describes (types : UInt8) (encodings : List Encoding) : Prop :=
  encodings.map Encoding.code = typeCodes types ∨
    encodings.map Encoding.code ++ [3] <+: typeCodes types

instance (types : UInt8) (encodings : List Encoding) : Decidable (Describes types encodings) :=
  inferInstanceAs (Decidable (_ ∨ _))

/-- How an instruction opens. Two-operand opcodes have a long form and one
with type bytes. -/
inductive Opening where
  | long (number : Fin 32) (firstByNumber secondByNumber : Bool)
  | short (number : Fin 16) (encoding : Encoding)
  | bare (number : Fin 16)
  | typedTwo (number : Fin 32)
  | typed (number : Fin 32)
  | extended (number : UInt8)
  deriving DecidableEq, Repr

namespace Opening

def bytes : Opening → List UInt8
  | long number first second =>
    [UInt8.ofNat (64 * first.toNat + 32 * second.toNat + number)]
  | short number encoding => [UInt8.ofNat (128 + 16 * encoding.code + number)]
  | bare number => [UInt8.ofNat (176 + number)]
  | typedTwo number => [UInt8.ofNat (192 + number)]
  | typed number => [UInt8.ofNat (224 + number)]
  | extended number => [190, number]

def opcode : Opening → UInt16
  | long number _ _ | typedTwo number => UInt16.ofNat number
  | short number _ => UInt16.ofNat (128 + number)
  | bare number => UInt16.ofNat (176 + number)
  | typed number => UInt16.ofNat (224 + number)
  | extended number => UInt16.ofNat (1000 + number.toNat)

def encodings? : Opening → Option (List Encoding)
  | long _ first second => some [if first then .byNumber else .small,
      if second then .byNumber else .small]
  | short _ encoding => some [encoding]
  | bare _ => some []
  | typedTwo _ | typed _ | extended _ => none

def typeBytes (o : Opening) : Nat :=
  if o.encodings?.isSome then 0 else if o.opcode = 236 ∨ o.opcode = 250 then 2 else 1

end Opening

inductive Suffix where
  | near (ifTrue : Bool) (offset : Fin 64)
  | far (ifTrue : Bool) (offset : Fin 16384)
  deriving DecidableEq, Repr

namespace Suffix

def bytes : Suffix → List UInt8
  | near ifTrue offset => [UInt8.ofNat (128 * ifTrue.toNat + 64 + offset)]
  | far ifTrue offset =>
    [UInt8.ofNat (128 * ifTrue.toNat + offset / 256), UInt8.ofNat (offset % 256)]

def branch : Suffix → Branch
  | near ifTrue offset => ⟨ifTrue, Int16.ofNat offset⟩
  | far ifTrue offset =>
    ⟨ifTrue, Int16.ofInt (if offset.val < 8192 then offset else (offset : Int) - 16384)⟩

end Suffix

/-- Words up to the first one with its top bit set, that one included. -/
def Terminated : List UInt16 → Prop
  | [] => False
  | w :: rest => if w.toNat < 32768 then Terminated rest else rest = []

instance instDecidableTerminated : (words : List UInt16) → Decidable (Terminated words)
  | [] => .isFalse id
  | w :: rest =>
    have := instDecidableTerminated rest
    inferInstanceAs (Decidable (if w.toNat < 32768 then Terminated rest else rest = []))

structure Layout where
  opening : Opening
  types : List (UInt8 × List Encoding) := []
  operands : List Written := []
  result : Option UInt8 := none
  suffix : Option Suffix := none
  text : Option (List UInt16) := none
  deriving DecidableEq, Repr

namespace Layout

def opcode (l : Layout) : UInt16 :=
  l.opening.opcode

def body (l : Layout) : List UInt8 :=
  l.types.map Prod.fst ++ l.operands.flatMap Written.bytes ++ l.result.toList
    ++ (l.suffix.map Suffix.bytes).getD []

def textBytes (l : Layout) : List UInt8 :=
  (l.text.getD []).flatMap Image.wordBytes

def bytes (l : Layout) : List UInt8 :=
  l.opening.bytes ++ l.body ++ l.textBytes

/-- The parts that an instruction of the opcode has in stories of a version. Opcodes 25, 136, 224,
236 and 1010 have a store byte though the table does not mark them; 178 and 179 have text. -/
structure Fits (version : UInt8) (l : Layout) : Prop where
  opening : l.opening ≠ .bare 14
  types : l.types.length = l.opening.typeBytes
  described : ∀ t ∈ l.types, Describes t.1 t.2
  operands : l.operands.map Written.encoding =
    l.opening.encodings?.getD (l.types.flatMap Prod.snd)
  result : l.result.isSome ↔
    (Shape.of version l.opcode).stores ∨ l.opcode ∈ [25, 136, 224, 236, 1010]
  suffix : l.suffix.isSome ↔ (Shape.of version l.opcode).branches
  text : l.text.isSome ↔ l.opcode ∈ [178, 179]
  terminated : ∀ words ∈ l.text, Terminated words

def instruction (p : Profile) (addr : UInt32) (l : Layout) : Instruction :=
  let shape := Shape.of p.version l.opcode
  { addr
    opcode := l.opcode
    operands := l.operands.mapIdx fun k w => w.operand p (shape.signedAt k)
    result := l.result
    stores := shape.stores
    branch := l.suffix.map Suffix.branch
    branches := shape.branches && !shape.pauses
    text := l.text.map fun _ => UInt32.ofNat (addr.toNat + (l.opening.bytes ++ l.body).length)
    next := UInt32.ofNat (addr.toNat + l.bytes.length)
    endsBlock := shape.endsBlock
    pauses := shape.pauses }

end Layout

end ZCode

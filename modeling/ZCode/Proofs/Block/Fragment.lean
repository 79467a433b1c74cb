import ZCode.Proofs.Block.Suspension

set_option autoImplicit false

namespace ZCode

open Statement

theorem packedMultiplier_le (version : UInt8) : (packedMultiplier version).toNat ≤ 8 := by
  rw [packedMultiplier]
  split_ifs <;> decide

namespace Instruction

/-- The instruction calls the routine at a packed address that is known before it runs. Address 0
is no routine. -/
def CallsConstant (version : UInt8) (i : Instruction) (routine : UInt16) : Prop :=
  i.isCall version = true ∧ (∃ rest, i.operands = ⟨.constant, routine⟩ :: rest) ∧ routine ≠ 0

end Instruction

namespace Block

variable {img : Image} {p : Profile} {cap : Nat} {addr : UInt32} {i : Instruction}

theorem callTarget?_eq (p : Profile) (i : Instruction) : callTarget? p i = match i.operands with
    | ⟨.constant, r⟩ :: _ =>
      if i.isCall p.version && r != 0 then some (r.toUInt32 * packedMultiplier p.version) else none
    | _ => none := by
  unfold callTarget? Instruction.isCall
  cases i.op? with
  | none => rfl
  | some op => cases op <;> rfl

theorem callTarget?_eq_some_iff {target : UInt32} : callTarget? p i = some target ↔
    ∃ r, i.CallsConstant p.version r ∧ target = r.toUInt32 * packedMultiplier p.version := by
  rw [callTarget?_eq]
  constructor
  · intro found
    split at found
    next r rest operands =>
      split at found
      next both =>
        rw [Bool.and_eq_true, bne_iff_ne] at both
        cases found
        exact ⟨r, ⟨both.1, ⟨rest, operands⟩, both.2⟩, rfl⟩
      next => cases found
    next => cases found
  · rintro ⟨r, ⟨isCall, ⟨rest, operands⟩, some⟩, rfl⟩
    simp [operands, isCall, some]

theorem toNat_target (version : UInt8) (r : UInt16) :
    (r.toUInt32 * packedMultiplier version).toNat = r.toNat * (packedMultiplier version).toNat := by
  -- eight times a word of sixteen bits fits into thirty-two
  have factor := packedMultiplier_le version
  have word := r.toNat_lt
  rw [UInt32.toNat_mul, UInt16.toNat_toUInt32]
  refine Nat.mod_eq_of_lt (Nat.lt_of_le_of_lt (Nat.mul_le_mul_left _ factor) ?_)
  omega

theorem ends_of_isCall {pos : UInt32} (decoded : Instruction.decode img p pos = .ok i)
    (call : i.isCall p.version = true) : i.endsBlock = true := by
  obtain ⟨op, known, isCall⟩ : ∃ op, i.op? = some op ∧ op.isCall p.version = true := by
    simpa [Instruction.isCall, Option.any_eq_true] using call
  have shaped := shaped_of_decode (Nat.le_refl _) decoded known
  rw [shaped.endsBlock, (meant_of_isCall i [] isCall).2]
  rfl

theorem calls_of_decode {init : List Instruction} {last : Instruction}
    (decoded : decode img p cap addr = .ok ⟨addr, init ++ [last]⟩) :
    (init ++ [last]).filterMap (callTarget? p) = (callTarget? p last).toList := by
  obtain ⟨members, stays⟩ := forall_of_decode decoded
  have before : init.filterMap (callTarget? p) = [] := by
    refine List.filterMap_eq_nil_iff.mpr fun i inside => ?_
    obtain ⟨pos, met⟩ := members i (by simp [inside])
    refine Option.eq_none_iff_forall_ne_some.mpr fun target found => ?_
    rw [callTarget?_eq_some_iff] at found
    obtain ⟨r, calls, -⟩ := found
    -- a call ends the block, so it does not stand before the last instruction
    have ends := ends_of_isCall met calls.1
    rw [stays i (by simpa using inside)] at ends
    cases ends
  rw [List.filterMap_append, before, List.nil_append]
  cases target : callTarget? p last <;> simp [target]

end Block

namespace Fragment

variable {img : Image} {p : Profile} {cap : Nat} {addr : UInt32} {b : Block} {f : Fragment}

-- The text is what a script holds for the instruction.
def IsLine (p : Profile) (i : Instruction) (text : String) : Prop :=
  ∃ statement, render p i = .ok statement ∧ text = line i statement

theorem mapM_render_iff {is : List Instruction} {lines : List String} :
    (∃ statements, is.mapM (render p) = .ok statements ∧
      List.zipWith line is statements = lines) ↔ List.Forall₂ (IsLine p) is lines := by
  simp only [mapM_eq_ok_iff]
  constructor
  · rintro ⟨statements, made, rfl⟩
    induction made with
    | nil => exact .nil
    | cons first _ ih => exact .cons ⟨_, first, rfl⟩ ih
  · intro each
    induction each with
    | nil => exact ⟨[], .nil, rfl⟩
    | cons first _ ih =>
      obtain ⟨statement, first, rfl⟩ := first
      obtain ⟨statements, later, rfl⟩ := ih
      exact ⟨statement :: statements, .cons first later, rfl⟩

-- What a fragment holds, given the lines of its script.
def ofLines (p : Profile) (b : Block) (lines : List String) : Fragment :=
  { addr := b.addr
    code := prologue ++ String.join lines
    next := (b.last?.map Instruction.next).getD b.addr
    instructions := b.instructions.length
    calls := b.instructions.filterMap (Block.callTarget? p)
    pauses := b.instructions.any (·.pauses) }

theorem ofBlock_eq_ok_iff : ofBlock p b = .ok f ↔
    ∃ lines, List.Forall₂ (IsLine p) b.instructions lines ∧ f = ofLines p b lines := by
  constructor
  · intro made
    obtain ⟨statements, each, made⟩ := ok_of_bind made
    cases made
    refine ⟨_, ?_, rfl⟩
    rw [← mapM_render_iff]
    exact ⟨statements, each, rfl⟩
  · rintro ⟨lines, each, rfl⟩
    rw [← mapM_render_iff] at each
    obtain ⟨statements, made, rfl⟩ := each
    rw [ofBlock, made]
    rfl

theorem generate_eq_ok_iff : generate img p cap addr = .ok f ↔
    ∃ b, Block.decode img p cap addr = .ok b ∧ ofBlock p b = .ok f := by
  constructor
  · exact fun generated => ok_of_bind generated
  · rintro ⟨b, decoded, made⟩
    rw [generate, decoded]
    exact made

theorem safety_of_ofBlock (made : ofBlock p b = .ok f) :
    f.safety = .ofInstructions b.instructions := by
  rw [ofBlock_eq_ok_iff] at made
  obtain ⟨lines, -, rfl⟩ := made
  -- a fragment knows only the number of instructions, the block has them
  have none : ((b.instructions.length : Int) == 0) = b.instructions.isEmpty := by
    cases b.instructions with
    | nil => rfl
    | cons i rest =>
      rw [List.isEmpty_cons, beq_eq_false_iff_ne, List.length_cons]
      omega
  simp only [safety, ofLines, Safety.ofInstructions, none]
  rfl

/-- A fragment counts the instructions of its block, ends where the last one does and is as safe as
they are together. It pauses if the last one does, and it calls what that one calls with a constant:
no earlier instruction pauses or calls. -/
theorem metadata_of_last (generated : generate img p cap addr = .ok f) :
    ∃ b last, Block.decode img p cap addr = .ok b ∧ b.last? = some last ∧ f.addr = addr ∧
      f.instructions = b.instructions.length ∧ f.next = last.next ∧
      f.safety = .ofInstructions b.instructions ∧
      f.pauses = last.pauses ∧ (∀ i ∈ b.instructions.dropLast, i.pauses = false) ∧
      f.calls.length ≤ 1 ∧
      (∀ r, last.CallsConstant p.version r →
        f.calls.map UInt32.toNat = [r.toNat * (packedMultiplier p.version).toNat]) ∧
      ((∀ r, ¬ last.CallsConstant p.version r) → f.calls = []) := by
  rw [generate_eq_ok_iff] at generated
  obtain ⟨b, decoded, made⟩ := generated
  have safety := safety_of_ofBlock made
  obtain ⟨init, stop, last, -, -, -, -, rfl⟩ := (Block.decode_eq_ok_iff cap b).mp decoded
  have going := Block.going_of_decode decoded made
  rw [ofBlock_eq_ok_iff] at made
  obtain ⟨lines, -, rfl⟩ := made
  have final : (⟨addr, init ++ [last]⟩ : Block).last? = some last := by simp [Block.last?]
  have calls : (ofLines p ⟨addr, init ++ [last]⟩ lines).calls = (Block.callTarget? p last).toList :=
    Block.calls_of_decode decoded
  have next : (ofLines p ⟨addr, init ++ [last]⟩ lines).next = last.next := by
    rw [ofLines, final]
    rfl
  have pauses : (ofLines p ⟨addr, init ++ [last]⟩ lines).pauses = last.pauses := by
    have before : init.any (·.pauses) = false := List.any_eq_false.mpr fun i inside => by
      simp [going i inside]
    simp [ofLines, before]
  refine ⟨⟨addr, init ++ [last]⟩, last, decoded, final, rfl, rfl, next, safety, pauses, ?_, ?_, ?_, ?_⟩
  · simpa using going
  · rw [calls]
    exact Option.length_toList_le
  · intro r constant
    have target : Block.callTarget? p last =
        some (r.toUInt32 * packedMultiplier p.version) := by
      rw [Block.callTarget?_eq_some_iff]
      exact ⟨r, constant, rfl⟩
    rw [calls, target, Option.toList_some, List.map_singleton, Block.toNat_target]
  · intro none
    have noTarget : Block.callTarget? p last = .none := by
      refine Option.eq_none_iff_forall_ne_some.mpr fun target found => ?_
      rw [Block.callTarget?_eq_some_iff] at found
      obtain ⟨r, constant, -⟩ := found
      exact none r constant
    rw [calls, noTarget, Option.toList_none]

-- Opcode 143 behind another instruction, in version 5 where it is a call.
theorem metadata_of_last_call : ∃ f,
    generate ⟨#[0xB4, 0x8F, 0x12, 0x34], by decide⟩ ⟨5, 16⟩ 0 0 = .ok f ∧ f.instructions = 2 ∧
      f.calls.map UInt32.toNat = [0x1234 * 4] ∧ f.next = 4 ∧ f.safety = .safe := by
  have renders : (generate ⟨#[0xB4, 0x8F, 0x12, 0x34], by decide⟩ ⟨5, 16⟩ 0 0).toOption.isSome =
      true := by
    decide +kernel
  obtain ⟨f, found⟩ := Option.isSome_iff_exists.mp renders
  have generated := Block.ok_of_toOption found
  have decoded : Block.decode ⟨#[0xB4, 0x8F, 0x12, 0x34], by decide⟩ ⟨5, 16⟩ 0 0 =
      .ok ⟨0, [{ addr := 0, opcode := 180, next := 1 },
        { addr := 1, opcode := 143, operands := [⟨.constant, 0x1234⟩], next := 4,
          endsBlock := true }]⟩ := by
    decide +kernel
  obtain ⟨b, last, same, final, -, count, next, safety, -, -, -, called, -⟩ :=
    metadata_of_last generated
  rw [decoded] at same
  cases same
  cases final
  exact ⟨f, generated, count, called 0x1234 ⟨by decide, ⟨[], rfl⟩, by decide⟩, next, safety⟩

end Fragment

end ZCode

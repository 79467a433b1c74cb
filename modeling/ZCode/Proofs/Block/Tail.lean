import ZCode.Proofs.Block.Fragment
import ZCode.Proofs.Session.Sharing

set_option autoImplicit false

namespace ZCode

namespace Block

variable {img : Image} {p : Profile} {cap k : Nat} {addr stop : UInt32} {i last : Instruction}
  {init : List Instruction} {b : Block}

theorem Passes.drop (passed : Passes img p addr init stop)
    (met : Instruction.decode img p stop = .ok last) (at_ : (init ++ [last])[k]? = some i) :
    Passes img p i.addr (init.drop k) stop := by
  induction init generalizing addr k with
  | nil =>
    obtain rfl : last = i := by
      obtain ⟨_, same⟩ := List.getElem?_eq_some_iff.mp at_
      simpa using same
    rw [Instruction.addr_of_decode met, List.drop_nil]
    rfl
  | cons first rest ih =>
    obtain ⟨start, stays, later⟩ := passed
    cases k with
    | zero =>
      obtain rfl : first = i := by simpa using at_
      rw [Instruction.addr_of_decode start]
      exact ⟨start, stays, later⟩
    | succ k => exact ih later (by simpa using at_)

theorem decode_drop (decoded : decode img p cap addr = .ok b) (at_ : b.instructions[k]? = some i) :
    decode img p cap i.addr = .ok ⟨i.addr, b.instructions.drop k⟩ := by
  obtain ⟨init, stop, last, passed, met, ends, within, rfl⟩ := (decode_eq_ok_iff cap b).mp decoded
  have reached : k ≤ init.length := by
    have inside := (List.getElem?_eq_some_iff.mp at_).1
    simp only [List.length_append, List.length_singleton] at inside
    omega
  refine (decode_eq_ok_iff cap _).mpr
    ⟨init.drop k, stop, last, passed.drop met at_, met, ends, ?_, ?_⟩
  · rw [List.length_drop]
    omega
  · rw [List.drop_append_of_le_length reached]

theorem last?_drop (at_ : b.instructions[k]? = some i) (addr : UInt32) :
    (⟨addr, b.instructions.drop k⟩ : Block).last? = b.last? := by
  have inside := (List.getElem?_eq_some_iff.mp at_).1
  simp only [last?, List.getLast?_drop, Nat.not_le.mpr inside, if_false]

theorem decode_of_room (decoded : decode img p cap addr = .ok b) {cap' : Nat}
    (room : cap' = 0 ∨ b.instructions.length ≤ cap') : decode img p cap' addr = .ok b := by
  obtain ⟨init, stop, last, passed, met, ends, -, rfl⟩ := (decode_eq_ok_iff cap b).mp decoded
  simp only [List.length_append, List.length_singleton] at room
  exact (decode_eq_ok_iff cap' _).mpr
    ⟨init, stop, last, passed, met, ends, room.imp_right Nat.lt_of_succ_le, rfl⟩

theorem decode_of_no_room (decoded : decode img p cap addr = .ok b) {cap' : Nat}
    (limited : 0 < cap') (long : cap' < b.instructions.length) :
    decode img p cap' addr = .error (.blockTooLong addr cap') := by
  obtain ⟨init, stop, last, passed, -, -, -, rfl⟩ := (decode_eq_ok_iff cap b).mp decoded
  simp only [List.length_append, List.length_singleton] at long
  exact decode_of_cut_off passed limited (Nat.le_of_lt_succ long)

end Block

namespace Fragment

variable {img : Image} {p : Profile} {cap : Nat} {addr : UInt32} {b : Block}

/-- Entered at one of its instructions, a block is what it is from there on, with the same end, and
its script has the lines from there on behind the prologue. Under a cap with room for it the block
and its fragment stay as they are; under any other it is too long. -/
theorem entered_midway_or_capped (decoded : Block.decode img p cap addr = .ok b) :
    (∀ k i, b.instructions[k]? = some i →
      Block.decode img p cap i.addr = .ok ⟨i.addr, b.instructions.drop k⟩ ∧
      ∀ f, generate img p cap addr = .ok f →
        ∃ lines g, List.Forall₂ (IsLine p) b.instructions lines ∧
          f.code = prologue ++ String.join lines ∧
          generate img p cap i.addr = .ok g ∧ g.next = f.next ∧
          g.code = prologue ++ String.join (lines.drop k)) ∧
    ∀ cap',
      (cap' = 0 ∨ b.instructions.length ≤ cap' → Block.decode img p cap' addr = .ok b ∧
        generate img p cap' addr = generate img p cap addr) ∧
      (0 < cap' → cap' < b.instructions.length →
        Block.decode img p cap' addr = .error (.blockTooLong addr cap') ∧
        generate img p cap' addr = .error (.blockTooLong addr cap')) := by
  refine ⟨fun k i at_ => ?_, fun cap' => ⟨fun room => ?_, fun limited long => ?_⟩⟩
  · have tail := Block.decode_drop decoded at_
    refine ⟨tail, fun f generated => ?_⟩
    obtain ⟨b', again, made⟩ := generate_eq_ok_iff.mp generated
    obtain rfl : b = b' := Except.ok.inj (decoded.symm.trans again)
    obtain ⟨lines, each, rfl⟩ := ofBlock_eq_ok_iff.mp made
    have rest : ofBlock p ⟨i.addr, b.instructions.drop k⟩ =
        .ok (ofLines p ⟨i.addr, b.instructions.drop k⟩ (lines.drop k)) :=
      ofBlock_eq_ok_iff.mpr ⟨_, List.forall₂_drop k each, rfl⟩
    refine ⟨lines, _, each, rfl, generate_eq_ok_iff.mpr ⟨_, tail, rest⟩, ?_, rfl⟩
    -- the fallback for an empty block is never used: the block has an instruction at `k`
    have last : b.last? = some (b.instructions.getLast (List.ne_nil_of_mem
        (List.mem_of_getElem? at_))) := List.getLast?_eq_some_getLast _
    simp only [ofLines, Block.last?_drop at_, last, Option.map_some, Option.getD_some]
  · have same := Block.decode_of_room decoded room
    exact ⟨same, by rw [generate, generate, same, decoded]⟩
  · have cut := Block.decode_of_no_room decoded limited long
    refine ⟨cut, ?_⟩
    rw [generate, cut]
    rfl

-- A block of three instructions, entered at the second one and capped at two.
theorem entered_midway_or_capped_three :
    let img : Image := ⟨#[0xB4, 0xB4, 0xB0], by decide⟩
    ∃ b g, Block.decode img ⟨3, 16⟩ 3 0 = .ok b ∧ b.instructions.length = 3 ∧
      Block.decode img ⟨3, 16⟩ 3 1 = .ok ⟨1, b.instructions.drop 1⟩ ∧
      generate img ⟨3, 16⟩ 3 1 = .ok g ∧ g.next = 3 ∧ Block.decode img ⟨3, 16⟩ 0 0 = .ok b ∧
      generate img ⟨3, 16⟩ 2 0 = .error (.blockTooLong 0 2) := by
  intro img
  have decoded : Block.decode img ⟨3, 16⟩ 3 0 = .ok ⟨0, [
      { addr := 0, opcode := 180, next := 1 }, { addr := 1, opcode := 180, next := 2 },
      { addr := 2, opcode := 176, next := 3, endsBlock := true }]⟩ := by
    decide +kernel
  have renders : (generate img ⟨3, 16⟩ 3 0).toOption.map Fragment.next = some 3 := by decide +kernel
  obtain ⟨f, found, next⟩ := Option.map_eq_some_iff.mp renders
  obtain ⟨midway, capped⟩ := entered_midway_or_capped decoded
  obtain ⟨tail, scripts⟩ := midway 1 _ rfl
  obtain ⟨lines, g, -, -, generated, same, -⟩ := scripts f (Block.ok_of_toOption found)
  exact ⟨_, g, decoded, rfl, tail, generated, same.trans next, ((capped 0).1 (.inl rfl)).1,
    ((capped 2).2 (by decide) (by decide)).2⟩

end Fragment

end ZCode

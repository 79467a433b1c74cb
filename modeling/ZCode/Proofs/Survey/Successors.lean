import ZCode.Proofs.Block.Flow
import ZCode.Proofs.Block.Fragment

set_option autoImplicit false

namespace ZCode

namespace Instruction

-- Offsets count from two bytes before the end of the instruction, and addresses wrap around.
def Aims (i : Instruction) (offset : Int) (target : UInt32) : Prop :=
  (target.toNat : Int) = (i.next.toNat + offset - 2) % 4294967296

theorem aims_iff {i : Instruction} {offset : Int} {target : UInt32} :
    i.Aims offset target ↔ i.jumpTarget offset = target := by
  have value : ((i.jumpTarget offset).toNat : Int) = (i.next.toNat + offset - 2) % 4294967296 := by
    have small : ((i.next.toNat + offset - 2) % 4294967296).toNat < 4294967296 := by omega
    rw [jumpTarget, UInt32.ofInt, UInt32.toNat_ofNat']
    omega
  rw [Aims, ← value, ← UInt32.toNat_inj]
  omega

theorem destination?_eq_some_iff {i : Instruction} {target : UInt32} :
    i.destination? = some target ↔ ∃ br, i.branch = some br ∧ br.offset ≠ 0 ∧ br.offset ≠ 1 ∧
      i.Aims br.offset.toInt target := by
  rw [destination?]
  cases i.branch with
  | none => simp
  | some br =>
    by_cases returns : br.returns = true
    · rw [Branch.returns, Bool.or_eq_true, beq_iff_eq, beq_iff_eq] at returns
      rcases returns with zero | one
      · simp [Branch.returns, zero]
      · simp [Branch.returns, one]
    · have away : br.offset ≠ 0 ∧ br.offset ≠ 1 := by simpa [Branch.returns] using returns
      simp [returns, away, aims_iff]

end Instruction

namespace Block

variable {img : Image} {p : Profile} {cap : Nat} {a target : UInt32} {b : Block} {f : Fragment}

/-- Execution can go on at an address inside the routine: a branch leads there and does not return,
the last instruction jumps there by a constant, or it ends there and neither jumps, returns nor
stops. -/
inductive GoesOn (b : Block) (target : UInt32) : Prop
  | branch (i : Instruction) (br : Branch) (member : i ∈ b.instructions) (has : i.branch = some br)
    (away : br.offset ≠ 0 ∧ br.offset ≠ 1) (aims : i.Aims br.offset.toInt target)
  | jump (last : Instruction) (offset : UInt16) (final : b.instructions.getLast? = some last)
    (jumps : last.op? = some .jump) (constant : last.operands = [⟨.signedConstant, offset⟩])
    (aims : last.Aims offset.toInt16.toInt target)
  | next (last : Instruction) (final : b.instructions.getLast? = some last)
    (stays : last.op? ∉ [Op.rtrue, .rfalse, .ret, .retPopped, .printRet, .quit, .restart, .throw,
      .jump].map some)
    (behind : last.next = target)

/-- The address is the first instruction of a routine that the block calls with a constant: it stands
behind the count of locals and, before version 5, a word for each of them. -/
def CallsInto (img : Image) (version : UInt8) (b : Block) (target : UInt32) : Prop :=
  ∃ i ∈ b.instructions, ∃ routine locals, i.CallsConstant version routine ∧
    let header := routine.toNat * if version ≤ 3 then 2 else if version = 8 then 8 else 4
    img.bytes[header]? = some locals ∧
      target.toNat = header + 1 + if version < 5 then 2 * locals.toNat else 0

theorem goesOn_of_mem (member : target ∈ b.continuations) : b.GoesOn target := by
  rw [continuations, List.mem_append, List.mem_filterMap] at member
  rcases member with ⟨i, member, destination⟩ | onward
  · rw [Instruction.destination?_eq_some_iff] at destination
    obtain ⟨br, has, zero, one, aims⟩ := destination
    exact .branch i br member has ⟨zero, one⟩ aims
  cases final : b.last? with
  | none => simp [final] at onward
  | some last =>
    simp only [final, List.mem_append] at onward
    rcases onward with jumped | passed
    · split at jumped
      next offset constant =>
        split at jumped
        next jumps =>
          have known : last.op? = some .jump := by
            rw [Instruction.op?, beq_iff_eq.mp jumps, Op.ofNumber?_number]
          rw [List.mem_singleton] at jumped
          exact .jump last offset final known constant (Instruction.aims_iff.mpr jumped.symm)
        next => cases jumped
      next => cases jumped
    · split at passed
      next => cases passed
      next stays =>
        rw [List.mem_singleton] at passed
        exact .next last final (mt returns_iff.mpr stays) passed.symm

theorem GoesOn.mem (goes : b.GoesOn target) : target ∈ b.continuations := by
  cases goes with
  | branch i br member has away aims =>
    refine destination_mem member ?_
    rw [Instruction.destination?_eq_some_iff]
    exact ⟨br, has, away.1, away.2, aims⟩
  | jump last offset final jumps constant aims =>
    rw [Instruction.aims_iff] at aims
    rw [← aims]
    exact target_mem final jumps constant
  | next last final stays behind =>
    rw [← behind]
    exact next_mem_of_stays final (mt returns_iff.mp stays)

theorem mem_continuations_iff : target ∈ b.continuations ↔ b.GoesOn target :=
  ⟨goesOn_of_mem, GoesOn.mem⟩

-- The address where a routine begins that has its header at a packed address.
theorem routineStart_iff {version : UInt8} {routine : UInt16} :
    routineStart img version (routine.toUInt32 * packedMultiplier version) = (target, true) ↔
      target.toNat < img.length ∧ ∃ locals,
        let header := routine.toNat * if version ≤ 3 then 2 else if version = 8 then 8 else 4
        img.bytes[header]? = some locals ∧
          target.toNat = header + 1 + if version < 5 then 2 * locals.toNat else 0 := by
  have factor : (packedMultiplier version).toNat =
      if version ≤ 3 then 2 else if version = 8 then 8 else 4 := by
    rw [packedMultiplier]
    split_ifs <;> simp_all
  have place : (routine.toUInt32 * packedMultiplier version).toNat =
      routine.toNat * if version ≤ 3 then 2 else if version = 8 then 8 else 4 := by
    rw [toNat_target, factor]
  generalize routine.toUInt32 * packedMultiplier version = call at place
  have low : call.toNat ≤ 524280 := by
    have word := routine.toNat_lt
    rw [place]
    split_ifs <;> omega
  rw [← place, routineStart]
  dsimp only
  cases img.bytes[call.toNat]? with
  | none => simp
  | some locals =>
    have byte := locals.toNat_lt
    -- packed addresses are low, so that nothing wraps around
    have start : (if version < 5 then call + 1 + 2 * locals.toUInt32 else call + 1).toNat =
        call.toNat + 1 + if version < 5 then 2 * locals.toNat else 0 := by
      split_ifs <;> simp only [UInt32.toNat_add, UInt32.toNat_mul, UInt8.toNat_toUInt32,
        UInt32.reduceToNat] <;> omega
    simp only [Prod.mk.injEq, decide_eq_true_eq, Option.some.injEq, exists_eq_left', ← start]
    constructor
    · rintro ⟨rfl, inside⟩
      exact ⟨inside, rfl⟩
    · rintro ⟨inside, same⟩
      rw [← UInt32.toNat_inj.mp same]
      exact ⟨rfl, inside⟩

theorem mem_entries {version : UInt8} {calls : List UInt32} :
    target ∈ entries img version calls ↔
      ∃ call ∈ calls, routineStart img version call = (target, true) := by
  rw [entries, List.mem_filterMap]
  refine exists_congr fun call => and_congr_right fun _ => ?_
  rcases routineStart img version call with ⟨start, _ | _⟩ <;> simp

theorem mem_entries_iff (made : Fragment.ofBlock p b = .ok f) :
    target ∈ entries img p.version f.calls ↔
      target.toNat < img.length ∧ b.CallsInto img p.version target := by
  rw [Fragment.ofBlock_eq_ok_iff] at made
  obtain ⟨lines, -, rfl⟩ := made
  simp only [mem_entries, Fragment.ofLines, List.mem_filterMap, callTarget?_eq_some_iff]
  constructor
  · rintro ⟨_, ⟨i, member, routine, calls, rfl⟩, begins⟩
    rw [routineStart_iff] at begins
    obtain ⟨inside, locals, header, start⟩ := begins
    exact ⟨inside, i, member, routine, locals, calls, header, start⟩
  · rintro ⟨inside, i, member, routine, locals, calls, header, start⟩
    refine ⟨_, ⟨i, member, routine, calls, rfl⟩, ?_⟩
    rw [routineStart_iff]
    exact ⟨inside, locals, header, start⟩

end Block

end ZCode

import ZCode.Block
import ZCode.Proofs.Instruction.Grammar

set_option autoImplicit false

namespace ZCode

theorem Instruction.next_of_decode {img : Image} {p : Profile} {addr : UInt32} {i : Instruction}
    (decoded : decode img p addr = .ok i) :
    addr.toNat < i.next.toNat ∧ i.next.toNat ≤ img.length := by
  obtain ⟨l, -, held, rfl⟩ := (decode_eq_ok_iff img p addr i).mp decoded
  have opened : l.opening.bytes ≠ [] := by cases l.opening <;> simp [Opening.bytes]
  have spelled : l.bytes ≠ [] := by simp [Layout.bytes, opened]
  have next : (l.instruction p addr).next.toNat = addr.toNat + l.bytes.length := toNat_behind held
  have size := List.length_pos_iff.mpr spelled
  have inside := held.within spelled
  omega

namespace Block

-- Instructions that follow each other from one address to another, none of which ends a block.
def Passes (img : Image) (p : Profile) : UInt32 → List Instruction → UInt32 → Prop
  | addr, [], stop => stop = addr
  | addr, i :: rest, stop =>
    Instruction.decode img p addr = .ok i ∧ i.endsBlock = false ∧ Passes img p i.next rest stop

variable {img : Image} {p : Profile} {addr stop : UInt32} {init : List Instruction}

theorem Passes.advance (passed : Passes img p addr init stop) :
    addr.toNat + init.length ≤ stop.toNat ∧ (init ≠ [] → stop.toNat ≤ img.length) := by
  induction init generalizing addr with
  | nil =>
    cases passed
    simp
  | cons i rest ih =>
    obtain ⟨decoded, -, later⟩ := passed
    obtain ⟨forward, inside⟩ := Instruction.next_of_decode decoded
    obtain ⟨distance, bound⟩ := ih later
    refine ⟨by simp only [List.length_cons]; omega, fun _ => ?_⟩
    cases rest with
    | nil =>
      cases later
      exact inside
    | cons j rest => exact bound (by simp)

theorem walkFrom_of_passes (passed : Passes img p addr init stop) (limit : Nat)
    (met : List Instruction) :
    walkFrom img p (limit + init.length) addr met = walkFrom img p limit stop (init.reverse ++ met) := by
  induction init generalizing addr met with
  | nil =>
    cases passed
    rfl
  | cons i rest ih =>
    obtain ⟨decoded, open_, later⟩ := passed
    rw [List.length_cons, ← Nat.add_assoc, walkFrom]
    simp only [decoded, open_, Bool.false_eq_true, if_false]
    rw [ih later]
    simp

theorem exists_passes (img : Image) (p : Profile) (addr : UInt32) (limit : Nat) :
    ∃ init stop, Passes img p addr init stop ∧ (init.length = limit ∨ init.length < limit ∧
      ((∃ fault, Instruction.decode img p stop = .error fault) ∨
        ∃ last, Instruction.decode img p stop = .ok last ∧ last.endsBlock = true)) := by
  induction limit generalizing addr with
  | zero => exact ⟨[], addr, rfl, .inl rfl⟩
  | succ limit ih =>
    cases decoded : Instruction.decode img p addr with
    | error fault => exact ⟨[], addr, rfl, .inr ⟨by simp, .inl ⟨fault, decoded⟩⟩⟩
    | ok i =>
      by_cases ends : i.endsBlock = true
      next => exact ⟨[], addr, rfl, .inr ⟨by simp, .inr ⟨i, decoded, ends⟩⟩⟩
      next =>
        obtain ⟨init, stop, passed, reason⟩ := ih i.next
        refine ⟨i :: init, stop, ⟨decoded, by simpa using ends, passed⟩, ?_⟩
        simpa using reason

theorem Passes.exists_limit {cap : Nat} (passed : Passes img p addr init stop)
    (within : cap = 0 ∨ init.length < cap) :
    ∃ left, (if cap = 0 then img.length + 1 else cap) = left + 1 + init.length := by
  obtain ⟨distance, bound⟩ := passed.advance
  by_cases free : cap = 0
  next =>
    refine ⟨img.length - init.length, ?_⟩
    rw [if_pos free]
    cases init with
    | nil => rfl
    | cons i rest =>
      have inside := bound (by simp)
      omega
  next =>
    refine ⟨cap - 1 - init.length, ?_⟩
    rw [if_neg free]
    omega

theorem walk_of_passes_of_ends {last : Instruction} {cap : Nat}
    (passed : Passes img p addr init stop) (decoded : Instruction.decode img p stop = .ok last)
    (ends : last.endsBlock = true) (within : cap = 0 ∨ init.length < cap) :
    walk img p cap addr = ⟨init ++ [last], .complete⟩ := by
  obtain ⟨left, limit⟩ := passed.exists_limit within
  rw [walk, limit, walkFrom_of_passes passed, walkFrom]
  simp [decoded, ends]

theorem walk_of_passes_of_fault {fault : Fault} {cap : Nat}
    (passed : Passes img p addr init stop) (failed : Instruction.decode img p stop = .error fault)
    (within : cap = 0 ∨ init.length < cap) :
    walk img p cap addr = ⟨init, .broken fault⟩ := by
  obtain ⟨left, limit⟩ := passed.exists_limit within
  rw [walk, limit, walkFrom_of_passes passed, walkFrom]
  simp [failed]

theorem walk_of_passes_of_cap (passed : Passes img p addr init stop) (some : init ≠ []) :
    walk img p init.length addr = ⟨init, .tooLong⟩ := by
  have positive : init.length ≠ 0 := by simpa using some
  have passing := walkFrom_of_passes passed 0 []
  rw [Nat.zero_add] at passing
  rw [walk, if_neg positive, passing, walkFrom]
  simp

theorem walk_cases (img : Image) (p : Profile) (cap : Nat) (addr : UInt32) :
    (∃ init stop last, Passes img p addr init stop ∧ Instruction.decode img p stop = .ok last ∧
      last.endsBlock = true ∧ (cap = 0 ∨ init.length < cap)) ∨
    (∃ init stop fault, Passes img p addr init stop ∧
      Instruction.decode img p stop = .error fault ∧ (cap = 0 ∨ init.length < cap)) ∨
    ∃ init stop, Passes img p addr init stop ∧ init ≠ [] ∧ init.length = cap := by
  obtain ⟨init, stop, passed, reason⟩ :=
    exists_passes img p addr (if cap = 0 then img.length + 1 else cap)
  obtain ⟨distance, bound⟩ := passed.advance
  have short : init.length ≤ img.length := by
    cases init with
    | nil => simp
    | cons i rest =>
      have inside := bound (by simp)
      omega
  have within (below : init.length < if cap = 0 then img.length + 1 else cap) :
      cap = 0 ∨ init.length < cap := by
    by_cases free : cap = 0
    · exact .inl free
    · exact .inr (by simpa [free] using below)
  rcases reason with full | ⟨below, ⟨fault, failed⟩ | ⟨last, decoded, ends⟩⟩
  next =>
    -- every instruction takes a byte, so only a cap stops a walk that meets no end
    by_cases free : cap = 0
    next =>
      rw [if_pos free] at full
      omega
    next =>
      rw [if_neg free] at full
      refine .inr (.inr ⟨init, stop, passed, ?_, full⟩)
      intro none
      exact free (by simpa [none] using full.symm)
  next => exact .inr (.inl ⟨init, stop, fault, passed, failed, within below⟩)
  next => exact .inl ⟨init, stop, last, passed, decoded, ends, within below⟩

theorem decode_eq_ok_iff (cap : Nat) (b : Block) :
    decode img p cap addr = .ok b ↔
      ∃ init stop last, Passes img p addr init stop ∧ Instruction.decode img p stop = .ok last ∧
        last.endsBlock = true ∧ (cap = 0 ∨ init.length < cap) ∧ b = ⟨addr, init ++ [last]⟩ := by
  constructor
  next =>
    intro decoded
    rw [decode] at decoded
    split at decoded
    · cases decoded
    rcases walk_cases img p cap addr with
      ⟨init, stop, last, passed, met, ends, within⟩ | ⟨init, stop, fault, passed, failed, within⟩ |
        ⟨init, stop, passed, some, rfl⟩
    · rw [walk_of_passes_of_ends passed met ends within] at decoded
      cases decoded
      exact ⟨init, stop, last, passed, met, ends, within, rfl⟩
    · rw [walk_of_passes_of_fault passed failed within] at decoded
      cases decoded
    · rw [walk_of_passes_of_cap passed some] at decoded
      cases decoded
  next =>
    rintro ⟨init, stop, last, passed, met, ends, within, rfl⟩
    have inside : ¬ img.length ≤ addr.toNat := by
      have := passed.advance.1
      have := Instruction.next_of_decode met
      omega
    rw [decode, if_neg inside, walk_of_passes_of_ends passed met ends within]

theorem Passes.forall (passed : Passes img p addr init stop) :
    ∀ i ∈ init, (∃ pos, Instruction.decode img p pos = .ok i) ∧ i.endsBlock = false := by
  induction init generalizing addr with
  | nil => simp
  | cons i rest ih =>
    obtain ⟨decoded, stays, later⟩ := passed
    intro j member
    rcases List.mem_cons.mp member with rfl | member
    · exact ⟨⟨addr, decoded⟩, stays⟩
    · exact ih later j member

theorem forall_of_decode {cap : Nat} {b : Block} (decoded : decode img p cap addr = .ok b) :
    (∀ i ∈ b.instructions, ∃ pos, Instruction.decode img p pos = .ok i) ∧
      ∀ i ∈ b.instructions.dropLast, i.endsBlock = false := by
  obtain ⟨init, stop, last, passed, met, -, -, rfl⟩ := (decode_eq_ok_iff cap b).mp decoded
  constructor
  · intro i member
    rcases List.mem_append.mp member with inside | final
    · exact (passed.forall i inside).1
    · rw [List.mem_singleton.mp final]
      exact ⟨stop, met⟩
  · intro i member
    rw [List.dropLast_concat] at member
    exact (passed.forall i member).2

end Block

end ZCode

import ZCode.Proofs.Block.Line

set_option autoImplicit false

namespace ZCode

open ZCode.Script Statement

def Operand.isConstant (op : Operand) : Bool :=
  op.kind == .constant || op.kind == .signedConstant

-- The other openings give opcodes of other ranges.
theorem Opening.encodings_of_jump {o : Opening} (number : o.opcode = 140) :
    ∃ encoding, o.encodings? = some [encoding] := by
  have same : o.opcode.toNat = 140 := congrArg UInt16.toNat number
  cases o with
  | short k encoding => exact ⟨encoding, rfl⟩
  | long k | bare k | typedTwo k | typed k =>
    have small := k.isLt
    rw [Opening.opcode, UInt16.toNat_ofNat'] at same
    omega
  | extended k =>
    have small := k.toNat_lt
    rw [Opening.opcode, UInt16.toNat_ofNat'] at same
    omega

theorem Instruction.operands_of_jump {img : Image} {p : Profile} {pos : UInt32} {i : Instruction}
    (decoded : decode img p pos = .ok i) (isJump : i.op? = some .jump)
    (constant : ∀ op ∈ i.operands, op.isConstant = true) :
    ∃ offset, i.operands = [⟨.signedConstant, offset⟩] := by
  obtain ⟨l, fits, -, rfl⟩ := (decode_eq_ok_iff img p pos i).mp decoded
  have number : l.opening.opcode = 140 := (Op.number_of_ofNumber? isJump).symm
  have shape : (Shape.of p.version l.opcode).signedAt 0 = true := by
    have found : Op.ofNumber? l.opcode = some .jump := isJump
    rw [Shape.of, found]
    rfl
  obtain ⟨encoding, one⟩ := Opening.encodings_of_jump number
  have written := fits.operands
  rw [one, Option.getD_some, List.map_eq_singleton_iff] at written
  obtain ⟨w, only, -⟩ := written
  have operands : (l.instruction p pos).operands = [w.operand p true] := by
    simp [Layout.instruction, only, shape]
  rw [operands] at constant ⊢
  have isConstant := constant _ (List.mem_singleton_self _)
  cases w with
  | large w => exact ⟨w, rfl⟩
  | small b => exact ⟨_, rfl⟩
  | byNumber v =>
    simp only [Written.operand] at isConstant
    split at isConstant
    · cases isConstant
    split at isConstant <;> cases isConstant

namespace Block

theorem destination_mem {b : Block} {i : Instruction} {a : UInt32} (member : i ∈ b.instructions)
    (destination : i.destination? = some a) : a ∈ b.continuations :=
  List.mem_append_left _ (List.mem_filterMap.mpr ⟨i, member, destination⟩)

theorem returns_iff {i : Instruction} : returns i.opcode = true ↔
    i.op? ∈ [Op.rtrue, .rfalse, .ret, .retPopped, .printRet, .quit, .restart, .throw, .jump].map
      some := by
  have same (op : Op) : (op.number == i.opcode) = true ↔ some op = i.op? := by
    rw [beq_iff_eq]
    constructor
    · intro number
      rw [Instruction.op?, ← number, Op.ofNumber?_number]
    · exact fun known => Op.number_of_ofNumber? known.symm
  simp only [returns, List.any_eq_true, List.mem_map, same]

theorem kind_of_returns {i : Instruction} {op : Op} (known : i.op? = some op)
    (returned : returns i.opcode = true) :
    op.returnsValue = true ∨ op = .quit ∨ op = .restart ∨ op = .jump := by
  rw [returns_iff, known, List.mem_map_of_injective (Option.some_injective Op)] at returned
  revert returned
  cases op <;> decide

theorem next_mem_of_stays {b : Block} {i : Instruction} (last : b.last? = some i)
    (stays : ¬ returns i.opcode = true) : i.next ∈ b.continuations := by
  simp [continuations, last, stays]

theorem next_mem {b : Block} {i : Instruction} {op : Op} (last : b.last? = some i)
    (known : i.op? = some op) (goes : op.returnsValue = false) (noQuit : op ≠ .quit)
    (noRestart : op ≠ .restart) (noJump : op ≠ .jump) : i.next ∈ b.continuations := by
  refine next_mem_of_stays last fun returned => ?_
  rcases kind_of_returns known returned with value | rfl | rfl | rfl
  · rw [goes] at value
    cases value
  · exact noQuit rfl
  · exact noRestart rfl
  · exact noJump rfl

theorem goes_of_isCall {version : UInt8} {op : Op} (isCall : op.isCall version = true) :
    op.returnsValue = false ∧ op ≠ .quit ∧ op ≠ .restart ∧ op ≠ .jump := by
  cases op with
  | call2s | call2n | call1s | callVs | callVs2 | callVn | callVn2 | notOrCall1n => decide
  | _ => cases isCall

theorem target_mem {b : Block} {i : Instruction} {offset : UInt16} (last : b.last? = some i)
    (known : i.op? = some .jump) (constant : i.operands = [⟨.signedConstant, offset⟩]) :
    i.jumpTarget offset.toInt16.toInt ∈ b.continuations := by
  have number : i.opcode = Op.jump.number := (Op.number_of_ofNumber? known).symm
  simp [continuations, last, constant, number]

/-- The script of the first `k` instructions runs to its end and does not return. -/
def RunsThrough (p : Profile) (b : Block) (m : Machine) (k : Nat) : Prop :=
  ∃ f body s, Fragment.ofBlock p ⟨b.addr, b.instructions.take k⟩ = .ok f ∧
    parse? f.code = some body ∧
    Gives (execAll body) { machine := m, scope := [("e", .object .runtime)] } .normal s

def machineAt? (p : Profile) (b : Block) (m : Machine) (k : Nat) : Option Machine := do
  let f ← (Fragment.ofBlock p ⟨b.addr, b.instructions.take k⟩).toOption
  let body ← parse? f.code
  match (execAll body).run.run { machine := m, scope := [("e", .object .runtime)] } with
  | (.ok .normal, s) => some s.machine
  | _ => none

/-- The run of a block ends at an instruction that gives a value. -/
def LeavesWithValue (p : Profile) (b : Block) (m : Machine) : Prop :=
  ∃ k i, b.instructions[k]? = some i ∧ i.givesValue = true ∧ b.RunsThrough p m k ∧
    ¬ b.RunsThrough p m (k + 1)

def Sensible (p : Profile) (i : Instruction) : Prop :=
  ∃ n op cs, Shaped p n op i ∧ sense p i = some cs ∧ stmts p i = Clause.stmts cs

theorem ok_of_toOption {α : Type} {x : Except Fault α} {a : α} (found : x.toOption = some a) :
    x = .ok a := by
  cases x with
  | error fault => cases found
  | ok b => exact congrArg _ (Option.some.inj found)

theorem exists_of_machineAt? {p : Profile} {b : Block} {m m₁ : Machine} {k : Nat}
    (found : b.machineAt? p m k = some m₁) : ∃ f body s,
      Fragment.ofBlock p ⟨b.addr, b.instructions.take k⟩ = .ok f ∧ parse? f.code = some body ∧
      Gives (execAll body) { machine := m, scope := [("e", .object .runtime)] } .normal s ∧
      s.machine = m₁ := by
  simp only [machineAt?, Option.bind_eq_bind, Option.bind_eq_some_iff] at found
  obtain ⟨f, made, body, read, ended⟩ := found
  split at ended
  next s ran => exact ⟨f, body, s, ok_of_toOption made, read, ran, Option.some.inj ended⟩
  · cases ended

theorem runsThrough_of_machineAt? {p : Profile} {b : Block} {m m₁ : Machine} {k : Nat}
    (found : b.machineAt? p m k = some m₁) : b.RunsThrough p m k := by
  obtain ⟨f, body, s, made, read, ran, -⟩ := exists_of_machineAt? found
  exact ⟨f, body, s, made, read, ran⟩

section Runs

variable {p : Profile} {is : List Instruction} {s s' : State} {c : Completion}

theorem bound_of_run (sensible : ∀ i ∈ is, Sensible p i) (bound : Bound s)
    (ran : Gives (execAll (is.flatMap (stmts p))) s c s') : Bound s' := by
  induction is generalizing s with
  | nil =>
    obtain ⟨-, rfl⟩ := gives_pure_iff.mp ran
    exact bound
  | cons i rest ih =>
    obtain ⟨n, op, cs, shaped, found, line⟩ := sensible i (by simp)
    rw [List.flatMap_cons, line] at ran
    rcases gives_append_iff.mp ran with ⟨s₁, first, later⟩ | ⟨v, rfl, first⟩
    · have between := bound_of_line shaped found bound first
      exact ih (fun j member => sensible j (by simp [member])) between later
    · exact bound_of_line shaped found bound first

theorem normal_or_left (ran : Gives (execAll (is.flatMap (stmts p))) s c s') :
    c = .normal ∨ ∃ k i s₁ v, is[k]? = some i ∧ c = .returned v ∧
      Gives (execAll ((is.take k).flatMap (stmts p))) s .normal s₁ ∧
      Gives (execAll (stmts p i)) s₁ (.returned v) s' := by
  induction is generalizing s with
  | nil => exact .inl (gives_pure_iff.mp ran).1.symm
  | cons i rest ih =>
    rw [List.flatMap_cons] at ran
    rcases gives_append_iff.mp ran with ⟨s₁, first, later⟩ | ⟨v, rfl, first⟩
    · rcases ih later with normal | ⟨k, j, s₂, v, at_, returned, before, last⟩
      · exact .inl normal
      · refine .inr ⟨k + 1, j, s₂, v, at_, returned, ?_, last⟩
        rw [List.take_succ_cons, List.flatMap_cons]
        exact first.append before
    · exact .inr ⟨0, i, s, v, rfl, rfl, gives_done, first⟩

theorem through_of_le {k j : Nat} (fewer : k ≤ j)
    (ran : ∃ s', Gives (execAll ((is.take j).flatMap (stmts p))) s .normal s') :
    ∃ s', Gives (execAll ((is.take k).flatMap (stmts p))) s .normal s' := by
  obtain ⟨s', ran⟩ := ran
  have split : is.take j = is.take k ++ (is.drop k).take (j - k) := by
    rw [← List.take_add, Nat.add_sub_cancel' fewer]
  rw [split, List.flatMap_append] at ran
  rcases gives_append_iff.mp ran with ⟨s₁, first, -⟩ | ⟨v, impossible, -⟩
  · exact ⟨s₁, first⟩
  · cases impossible

theorem not_through_of_left {k : Nat} {i : Instruction} {s₁ : State} {v : Value}
    (at_ : is[k]? = some i)
    (before : Gives (execAll ((is.take k).flatMap (stmts p))) s .normal s₁)
    (leaving : Gives (execAll (stmts p i)) s₁ (.returned v) s') :
    ¬ ∃ s', Gives (execAll ((is.take (k + 1)).flatMap (stmts p))) s .normal s' := by
  rintro ⟨s₂, ran⟩
  rw [List.take_add_one, at_, Option.toList_some, List.flatMap_append,
    List.flatMap_singleton] at ran
  have returned := before.append leaving
  cases (ran.unique returned).1

theorem not_reached_of_left {init : List Instruction} {last i : Instruction} {k : Nat}
    {s₁ : State} {v : Value} (sensible : Sensible p last) (call : last.isCall p.version = true)
    (at_ : (init ++ [last])[k]? = some i) (bound : Bound s₁)
    (before : Gives (execAll (((init ++ [last]).take k).flatMap (stmts p))) s .normal s₁)
    (leaving : Gives (execAll (stmts p i)) s₁ (.returned v) s') :
    ¬ ∃ s', Gives (execAll (((init ++ [last]).take init.length).flatMap (stmts p))) s .normal s' := by
  intro reached
  have inside : k < (init ++ [last]).length := (List.getElem?_eq_some_iff.mp at_).1
  by_cases earlier : k + 1 ≤ init.length
  · exact not_through_of_left at_ before leaving (through_of_le earlier reached)
  · have position : k = init.length := by
      rw [List.length_append, List.length_singleton] at inside
      omega
    obtain rfl : last = i := by simpa [position] using at_
    obtain ⟨n, op, cs, shaped, found, line⟩ := sensible
    rw [Instruction.isCall, shaped.known, Option.any_some] at call
    rw [line] at leaving
    cases (calls_of_line shaped call found bound leaving).1

end Runs

section Prefixes

variable {α β : Type} {f : α → Except Fault β}

theorem mapM_take {as : List α} {bs : List β} (made : as.mapM f = .ok bs) (k : Nat) :
    (as.take k).mapM f = .ok (bs.take k) := by
  rw [mapM_eq_ok_iff] at made ⊢
  exact List.forall₂_take k made

theorem exists_of_mapM {as : List α} {bs : List β} (made : as.mapM f = .ok bs) :
    ∀ a ∈ as, ∃ b, f a = .ok b := by
  rw [mapM_eq_ok_iff] at made
  induction made with
  | nil => simp
  | @cons a b rest later first _ ih => exact List.forall_mem_cons.mpr ⟨⟨b, first⟩, ih⟩

end Prefixes

section Scripts

variable {img : Image} {p : Profile} {b : Block} {f : Fragment} {body : List Stmt} {m m' : Machine}

theorem body_of_read (decoded : ∀ i ∈ b.instructions, ∃ pos, Instruction.decode img p pos = .ok i)
    (made : Fragment.ofBlock p b = .ok f) (read : parse? f.code = some body) :
    b.instructions.any bare = false ∧
      body = Fragment.declaration :: b.instructions.flatMap (stmts p) := by
  rw [Fragment.parse?_code decoded made] at read
  split at read
  · cases read
  next whole =>
    cases read
    exact ⟨Bool.eq_false_of_not_eq_true whole, rfl⟩

theorem sensible_of_read
    (decoded : ∀ i ∈ b.instructions, ∃ pos, Instruction.decode img p pos = .ok i)
    (made : Fragment.ofBlock p b = .ok f) (whole : b.instructions.any bare = false) :
    ∀ i ∈ b.instructions, Sensible p i := by
  intro i member
  obtain ⟨statements, lines, -⟩ := ok_of_bind made
  obtain ⟨pos, met⟩ := decoded i member
  obtain ⟨text, written⟩ := exists_of_mapM lines i member
  obtain ⟨op, shaped⟩ := shaped_of_render met written
  have full : ¬ bare i = true := fun gap => by
    rw [List.any_eq_false] at whole
    exact whole i member gap
  obtain ⟨cs, found⟩ := (exists_sense shaped written).resolve_right full
  exact ⟨_, op, cs, shaped, found, by rw [stmts, found, Option.getD_some]⟩

theorem gives_body_iff {ss : List Stmt} {c : Completion} {s : State} :
    Gives (execAll (Fragment.declaration :: ss))
      { machine := m, scope := [("e", .object .runtime)] } c s ↔
    Gives (execAll ss) (frame m (.ofInt 0)) c s := by
  have declared := Fragment.gives_declaration m
  rw [gives_cons_iff]
  constructor
  · rintro (⟨s₁, first, later⟩ | ⟨v, rfl, first⟩)
    · obtain ⟨-, rfl⟩ := first.unique declared
      exact later
    · cases (first.unique declared).1
  · exact fun later => .inl ⟨_, declared, later⟩

theorem runsThrough_iff
    (decoded : ∀ i ∈ b.instructions, ∃ pos, Instruction.decode img p pos = .ok i)
    (made : Fragment.ofBlock p b = .ok f) (whole : b.instructions.any bare = false) (k : Nat) :
    b.RunsThrough p m k ↔ ∃ s, Gives (execAll ((b.instructions.take k).flatMap (stmts p)))
      (frame m (.ofInt 0)) .normal s := by
  have inside : ∀ i ∈ b.instructions.take k, ∃ pos, Instruction.decode img p pos = .ok i :=
    fun i member => decoded i (List.mem_of_mem_take member)
  constructor
  · rintro ⟨g, body, s, shorter, read, ran⟩
    obtain ⟨-, rfl⟩ := body_of_read (b := ⟨b.addr, b.instructions.take k⟩) inside shorter read
    exact ⟨s, gives_body_iff.mp ran⟩
  · rintro ⟨s, ran⟩
    obtain ⟨statements, lines, -⟩ := ok_of_bind made
    obtain ⟨g, shorter⟩ : ∃ g, Fragment.ofBlock p ⟨b.addr, b.instructions.take k⟩ = .ok g := by
      rw [Fragment.ofBlock, mapM_take lines k]
      exact ⟨_, rfl⟩
    have full : (b.instructions.take k).any bare = false := by
      rw [List.any_eq_false] at whole ⊢
      exact fun i member => whole i (List.mem_of_mem_take member)
    have read := Fragment.parse?_code (b := ⟨b.addr, b.instructions.take k⟩) inside shorter
    rw [full, if_neg Bool.false_ne_true] at read
    exact ⟨g, _, s, shorter, read, gives_body_iff.mpr ran⟩

theorem gives_of_machineAt? {m₁ : Machine} {k : Nat}
    (decoded : ∀ i ∈ b.instructions, ∃ pos, Instruction.decode img p pos = .ok i)
    (found : b.machineAt? p m k = some m₁) :
    ∃ s, Gives (execAll ((b.instructions.take k).flatMap (stmts p))) (frame m (.ofInt 0)) .normal s ∧
      s.machine = m₁ := by
  obtain ⟨g, body, s, shorter, read, ran, same⟩ := exists_of_machineAt? found
  obtain ⟨-, rfl⟩ := body_of_read (b := ⟨b.addr, b.instructions.take k⟩)
    (fun i member => decoded i (List.mem_of_mem_take member)) shorter read
  exact ⟨s, gives_body_iff.mp ran, same⟩

theorem whole_of_reached {addr : UInt32} {init : List Instruction} {last : Instruction}
    (decoded : ∀ i ∈ init ++ [last], ∃ pos, Instruction.decode img p pos = .ok i)
    (full : bare last = false) (reached : RunsThrough p ⟨addr, init ++ [last]⟩ m init.length) :
    (init ++ [last]).any bare = false := by
  obtain ⟨g, body, s, shorter, read, -⟩ := reached
  obtain ⟨first, -⟩ := body_of_read (b := ⟨addr, (init ++ [last]).take init.length⟩)
    (fun i member => decoded i (List.mem_of_mem_take member)) shorter read
  rw [List.take_left] at first
  simp [List.any_append, first, full]

theorem gives_of_finished {v : Option Int} {code : String} (ran : run m code = (.finished v, m')) :
    ∃ body c s, parse? code = some body ∧ s.machine = m' ∧
      Gives (execAll body) { machine := m, scope := [("e", .object .runtime)] } c s := by
  rw [run] at ran
  split at ran
  next body read =>
    rw [runBody] at ran
    split at ran
    next s given =>
      cases ran
      exact ⟨body, _, s, read, rfl, given⟩
    next s given =>
      cases ran
      exact ⟨body, _, s, read, rfl, given⟩
    next v s _ given =>
      cases ran
      exact ⟨body, _, s, read, rfl, given⟩
    · cases ran
  · cases ran

end Scripts

section Ends

variable {p : Profile} {b : Block} {i : Instruction} {s s' : State}

theorem toInt_address (a : UInt32) : UInt32.ofInt (Value.ofInt a.toNat).toInt = a := by
  have small := a.toNat_lt
  have within : ((a.toNat : Int) % 2 ^ 32).toNat = a.toNat := by omega
  rw [Value.toInt_ofInt, UInt32.ofInt, within, UInt32.ofNat_toNat]

theorem pc_mem_of_end {img : Image} {pos : UInt32} {n : Nat} {op : Op} (shaped : Shaped p n op i)
    (met : Instruction.decode img p pos = .ok i) (last : b.last? = some i)
    (ends : i.endsBlock = true) (noCall : op.isCall p.version = false) (noRestart : op ≠ .restart)
    (constant : op = .jump → ∀ operand ∈ i.operands, operand.isConstant = true)
    {cs : List Clause} (found : sense p i = some cs) (bound : Bound s)
    (ran : Gives (execAll (Clause.stmts cs)) s .normal s') :
    UInt32.ofInt s'.machine.pc.toInt ∈ b.continuations := by
  have known := shaped.known
  have next (goes : op.returnsValue = false) (noQuit : op ≠ .quit) (noJump : op ≠ .jump)
      (pc : s'.machine.pc = .ofInt i.next.toNat) :
      UInt32.ofInt s'.machine.pc.toInt ∈ b.continuations := by
    rw [pc, toInt_address]
    exact next_mem last known goes noQuit noRestart noJump
  have goes : op.returnsValue = false := by
    apply Bool.eq_false_of_not_eq_true
    intro returns
    exact not_normal_of_returnsValue shaped returns found bound ran rfl
  have noQuit : op ≠ .quit := by
    rintro rfl
    exact not_gives_quit shaped found bound ran
  rcases ends_cases (shaped.endsBlock ▸ ends) with pauses | call | value | rfl | rfl | rfl
  · have noJump : op ≠ .jump := by
      rintro rfl
      cases pauses
    have noStream : op ≠ .outputStream := by
      rintro rfl
      cases pauses
    -- the counter is set in front of the host call, and nothing behind writes it
    exact next goes noQuit noJump
      (pc_of_pausing shaped (shaped.pauses ▸ pauses) ends noJump noStream found bound ran)
  · rw [noCall] at call
    cases call
  · rw [goes] at value
    cases value
  · exact absurd rfl noRestart
  · obtain ⟨offset, operands⟩ := Instruction.operands_of_jump met known (constant rfl)
    rw [pc_of_jump shaped operands found bound ran]
    exact target_mem last known operands
  · exact next rfl noQuit (by decide) (pc_of_stream shaped found bound ran)

end Ends

/-- The static successors of a block cover every run of its script. A run that completes without
returning a value goes on at one of the continuations of the block: at the program counter that it
leaves, or, if it comes to a call at the end, at the return address that it hands to the host. -/
theorem continuations_cover_runs {img : Image} {p : Profile} {cap : Nat} {addr : UInt32} {b : Block}
    {f : Fragment} {m m' : Machine} {v : Option Int}
    (decoded : decode img p cap addr = .ok b) (made : Fragment.ofBlock p b = .ok f)
    (ran : run m f.code = (.finished v, m')) (noValue : ¬ b.LeavesWithValue p m)
    (noRestart : ∀ i ∈ b.last?, i.op? ≠ some .restart)
    (constant : ∀ i ∈ b.last?, i.op? = some .jump → ∀ op ∈ i.operands, op.isConstant = true) :
    ∃ last, b.last? = some last ∧
      (last.isCall p.version = true ∧ b.RunsThrough p m (b.instructions.length - 1) →
        last.next ∈ b.continuations ∧ ∃ routine arguments earlier, m'.calls =
          ⟨"call", Value.recordedAll [routine, .ofInt (storer last), .ofInt last.next.toNat,
            .array arguments]⟩ :: earlier) ∧
      (¬ (last.isCall p.version = true ∧ b.RunsThrough p m (b.instructions.length - 1)) →
        UInt32.ofInt m'.pc.toInt ∈ b.continuations) := by
  obtain ⟨init, stop, last, -, met, ends, -, rfl⟩ := (decode_eq_ok_iff cap b).mp decoded
  have members := (forall_of_decode decoded).1
  obtain ⟨body, c, s, read, rfl, given⟩ := gives_of_finished ran
  obtain ⟨whole, rfl⟩ := body_of_read members made read
  rw [gives_body_iff] at given
  have sensible := sensible_of_read members made whole
  have through (k : Nat) := runsThrough_iff (m := m) members made whole k
  have final : last? ⟨addr, init ++ [last]⟩ = some last := by simp [last?]
  obtain ⟨n, op, cs, shaped, found, line⟩ := sensible last (by simp)
  have isCall : last.isCall p.version = op.isCall p.version := by
    rw [Instruction.isCall, shaped.known, Option.any_some]
  refine ⟨last, final, ?_⟩
  rcases normal_or_left given with rfl | ⟨k, i, s₁, x, at_, rfl, before, leaving⟩
  · -- the run comes to the last instruction, which decides where to go on
    rw [List.flatMap_append, List.flatMap_singleton] at given
    rcases gives_append_iff.mp given with ⟨s₁, before, ending⟩ | ⟨v, impossible, -⟩
    · rw [line] at ending
      have bound := bound_of_run (fun i member => sensible i (by simp [member]))
        (bound_frame m _) before
      have reached : RunsThrough p ⟨addr, init ++ [last]⟩ m ((init ++ [last]).length - 1) := by
        refine (through _).mpr ⟨s₁, ?_⟩
        simpa using before
      by_cases call : op.isCall p.version = true
      · refine ⟨fun _ => ⟨?_, (calls_of_line shaped call found bound ending).2⟩,
          fun other => absurd ⟨isCall.trans call, reached⟩ other⟩
        obtain ⟨goes, noQuit, noRestart, noJump⟩ := goes_of_isCall call
        exact next_mem final shaped.known goes noQuit noRestart noJump
      · have noCall : op.isCall p.version = false := Bool.eq_false_of_not_eq_true call
        refine ⟨fun both => ?_, fun _ => ?_⟩
        · rw [isCall, noCall] at both
          cases both.1
        · exact pc_mem_of_end shaped met final ends noCall
            (fun same => noRestart last final (same ▸ shaped.known))
            (fun same => constant last final (same ▸ shaped.known)) found bound ending
    · cases impossible
  · -- the run returns at an instruction, by a branch or with a value
    obtain ⟨n', op', cs', shaped', found', line'⟩ := sensible i (List.mem_of_getElem? at_)
    have bound := bound_of_run (fun j member => sensible j (List.mem_of_mem_take member))
      (bound_frame m _) before
    rcases leaves_of_line shaped' found' bound (line' ▸ leaving) with
      value | ⟨a, destination, pc⟩
    · refine absurd ⟨k, i, at_, value, (through k).mpr ⟨s₁, before⟩, fun reached => ?_⟩ noValue
      exact not_through_of_left at_ before leaving ((through _).mp reached)
    · refine ⟨fun ⟨call, reached⟩ => ?_, fun _ => ?_⟩
      · have reached := (through _).mp reached
        rw [List.length_append, List.length_singleton, Nat.add_sub_cancel] at reached
        exact absurd reached
          (not_reached_of_left (sensible last (by simp)) call at_ bound before leaving)
      · rw [pc, toInt_address]
        exact destination_mem (List.mem_of_getElem? at_) destination

-- A local that is not zero is counted up on the way to a call, whose return address is the next
-- instruction; the branch before would go on at 6.
theorem continuations_cover_runs_call :
    let img : Image := ⟨#[0xA0, 1, 0xC5, 0x95, 1, 0xE0, 0x3F, 1, 0, 0], by decide⟩
    let b : Block := ⟨0, [
      { addr := 0, opcode := 128, operands := [⟨.slot, 0⟩], branch := some ⟨true, 5⟩,
        branches := true, next := 3 },
      { addr := 3, opcode := 133, operands := [⟨.constant, 1⟩], next := 5 },
      { addr := 5, opcode := 224, operands := [⟨.constant, 256⟩], result := some 0, next := 10,
        endsBlock := true }]⟩
    let m : Machine :=
      { memory := .zeroed 512, globals := 16, locals := (Array.replicate 15 0).setIfInBounds 0 3 }
    ∃ f m', decode img ⟨3, 16⟩ 4096 0 = .ok b ∧ Fragment.ofBlock ⟨3, 16⟩ b = .ok f ∧
      run m f.code = (.finished none, m') ∧ b.RunsThrough ⟨3, 16⟩ m 2 ∧ b.continuations = [6, 10] ∧
      10 ∈ b.continuations ∧ ∃ routine arguments earlier, m'.calls =
        ⟨"call", Value.recordedAll [routine, .ofInt 0, .ofInt 10, .array arguments]⟩ :: earlier := by
  intro img b m
  have decoded : decode img ⟨3, 16⟩ 4096 0 = .ok b := by decide +kernel
  have result : (Fragment.ofBlock ⟨3, 16⟩ b).toOption.map (fun f => (run m f.code).1) =
      some (.finished none) := by
    decide +kernel
  have onward : (b.machineAt? ⟨3, 16⟩ m 2).isSome = true := by decide +kernel
  obtain ⟨m₁, found⟩ := Option.isSome_iff_exists.mp onward
  have reached := runsThrough_of_machineAt? found
  obtain ⟨f, made, ended⟩ := Option.map_eq_some_iff.mp result
  have built := ok_of_toOption made
  have ran : run m f.code = (.finished none, (run m f.code).2) := Prod.ext ended rfl
  have noValue : ¬ b.LeavesWithValue ⟨3, 16⟩ m := by
    rintro ⟨k, i, at_, value, -⟩
    have none_ : ∀ i ∈ b.instructions, i.givesValue = false := by decide
    rw [none_ i (List.mem_of_getElem? at_)] at value
    cases value
  obtain ⟨last, final, called, -⟩ := continuations_cover_runs decoded built ran noValue
    (by decide) (by decide)
  cases final
  obtain ⟨inside, recorded⟩ := called ⟨by decide, reached⟩
  exact ⟨f, _, decoded, built, ran, reached, by decide, inside, recorded⟩

end Block

end ZCode

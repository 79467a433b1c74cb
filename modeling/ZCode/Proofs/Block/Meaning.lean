import ZCode.Proofs.Block.Script
import ZCode.Proofs.Block.Walk
import ZCode.Proofs.Statement.Meaning
import ZCode.Settings

set_option autoImplicit false

namespace ZCode

open ZCode.Script

namespace Statement

-- The table of globals may wrap around at 2^16, but then memory reaches past it.
theorem globalAddr_inside {p : Profile} {length : Nat}
    (inside : p.globals.toNat + Settings.globalsSize ≤ length) (v : UInt8) (isGlobal : 16 ≤ v) :
    (p.globalAddr v).toNat + 2 ≤ length := by
  have number := v.toNat_lt
  have base := p.globals.toNat_lt
  have above : 16 ≤ v.toNat := UInt8.le_iff_toNat_le.mp isGlobal
  rw [Instruction.globalAddr_eq p v (by omega), UInt16.toNat_ofNat']
  rw [Settings.globalsSize] at inside
  omega

theorem signed_written (p : Profile) (signed : Bool) (w : Written) :
    (w.operand p signed).signed = signed := by
  cases w with
  | large | small => cases signed <;> rfl
  | byNumber v =>
    simp only [Written.operand]
    split
    · cases signed <;> rfl
    split <;> cases signed <;> rfl

theorem reachable_written {p : Profile} {length : Nat}
    (inside : p.globals.toNat + Settings.globalsSize ≤ length) (signed : Bool) (w : Written) :
    Reachable length (w.operand p signed) := by
  cases w with
  | large | small => cases signed <;> trivial
  | byNumber v =>
    simp only [Written.operand]
    split
    · cases signed <;> trivial
    split
    next local_ =>
      have slot : (UInt16.ofNat (v.toNat - 1)).toNat < 15 := by
        rw [UInt16.toNat_ofNat']
        omega
      cases signed <;> exact slot
    next global =>
      have isGlobal : 16 ≤ v := UInt8.le_iff_toNat_le.mpr (Nat.lt_of_not_le global)
      have address := globalAddr_inside inside v isGlobal
      rw [Instruction.globalAddr_eq p v (by omega)] at address
      cases signed <;> exact address

theorem shaped_of_decode {img : Image} {p : Profile} {addr : UInt32} {i : Instruction} {op : Op}
    {length : Nat} (inside : p.globals.toNat + Settings.globalsSize ≤ length)
    (decoded : Instruction.decode img p addr = .ok i) (known : i.op? = some op) :
    Shaped p length op i := by
  obtain ⟨l, fits, -, rfl⟩ := (Instruction.decode_eq_ok_iff img p addr i).mp decoded
  have shape : Shape.of p.version l.opcode = shapeOf p.version op := by
    have found : Op.ofNumber? l.opcode = some op := known
    rw [Shape.of, found]
    rfl
  exact {
    known
    stores := congrArg Shape.stores shape
    result := fun stores => fits.result.mpr (.inl (shape ▸ stores))
    branch := by
      rw [← shape, Bool.eq_iff_iff, ← fits.suffix]
      simp [Layout.instruction]
    endsBlock := congrArg Shape.endsBlock shape
    pauses := congrArg Shape.pauses shape
    signed := by
      intro k operand at_
      simp only [Layout.instruction, List.getElem?_mapIdx, Option.map_eq_some_iff] at at_
      obtain ⟨w, -, rfl⟩ := at_
      rw [signed_written, shape]
    reachable := by
      intro operand member
      simp only [Layout.instruction, List.mem_mapIdx] at member
      obtain ⟨k, _, rfl⟩ := member
      exact reachable_written inside _ _
    globals := globalAddr_inside inside }

end Statement

namespace Fragment

open Statement

def Finishes (c : Completion) : Option UInt16 → Prop
  | none => c = .normal ∨ c = .returned .undefined
  | some w => c = .returned (.ofWord w)

theorem gives_run {p : Profile} {n : Nat} {is : List Instruction}
    (each : ∀ i ∈ is, ∃ cs, clauses p i = some cs ∧ Simulates p n i cs)
    (last : ∀ i ∈ is.dropLast, i.endsBlock = false) {m m' : Machine} {v : Option UInt16}
    (sized : Rules.Sized n m) (ran : (Rules.run p is).run m = some (v, m')) (t : Value) :
    ∃ c t', Gives (execAll (is.flatMap fun i => Clause.stmts ((clauses p i).getD [])))
      (frame m t) c (frame m' t') ∧ Finishes c v := by
  induction is generalizing m t with
  | nil =>
    obtain ⟨rfl, rfl⟩ := Rules.pure_eq_some_iff.mp ran
    exact ⟨.normal, t, gives_done, .inl rfl⟩
  | cons i rest ih =>
    obtain ⟨cs, written, simulates⟩ := each i (by simp)
    obtain ⟨flow, m₁, stepped, later⟩ := Rules.bind_eq_some_iff.mp ran
    obtain ⟨c, t₁, given, completes, sized⟩ := simulates t m flow m₁ sized stepped
    rw [List.flatMap_cons, written, Option.getD_some]
    have tail : ∀ j ∈ rest.dropLast, j.endsBlock = false := by
      intro j member
      cases rest with
      | nil => cases member
      | cons k more => exact last j (by simp [member])
    cases flow with
    | next =>
      obtain rfl : c = .normal := completes
      obtain ⟨c, t', run, finishes⟩ :=
        ih (fun j member => each j (by simp [member])) tail sized later t₁
      exact ⟨c, t', given.append run, finishes⟩
    | leave value =>
      obtain ⟨rfl, rfl⟩ := Rules.pure_eq_some_iff.mp later
      cases value with
      | some w =>
        obtain rfl : c = .returned (.ofWord w) := completes
        exact ⟨_, t₁, given.appendLeave, rfl⟩
      | none =>
        rcases completes with rfl | ⟨rfl, ends⟩
        · exact ⟨_, t₁, given.appendLeave, .inr rfl⟩
        · -- only the last instruction ends the block, so nothing follows
          cases rest with
          | nil => exact ⟨_, t₁, given.append gives_done, .inl rfl⟩
          | cons j more => simp [last i (by simp)] at ends

theorem gives_declaration (m : Machine) :
    Gives (exec declaration) { machine := m, scope := [("e", .object .runtime)] } .normal
      (frame m (.ofInt 0)) :=
  rfl

theorem runBody_of_gives {m m' : Machine} {t : Value} {body : List Stmt} {c : Completion}
    {v : Option UInt16} (given : Gives (execAll body) (frame m (.ofInt 0)) c (frame m' t))
    (finishes : Finishes c v) :
    runBody m (declaration :: body) = (.finished (v.map fun w => (w.toNat : Int)), m') := by
  have run : (execAll (declaration :: body)).run
      { machine := m, scope := [("e", .object .runtime)] } = (.ok c, frame m' t) :=
    (gives_declaration m).andThen given
  rw [runBody, run]
  cases v with
  | none => rcases finishes with rfl | rfl <;> rfl
  | some w =>
    obtain rfl : c = .returned (.ofWord w) := finishes
    exact congrArg (fun n => (Outcome.finished (some n), m')) (Value.toInt_ofInt w.toNat)

theorem exists_parts {img : Image} {p : Profile} {cap length : Nat} {addr : UInt32} {b : Block}
    (inside : p.globals.toNat + Settings.globalsSize ≤ length)
    (decoded : Block.decode img p cap addr = .ok b)
    (free : ∀ i ∈ b.instructions, Rules.HostFree p.version i) :
    ∀ i ∈ b.instructions, (∃ cs, clauses p i = some cs ∧ Simulates p length i cs) ∧
      (i.op? = some .sub → ∀ op ∈ i.operands, op.kind ≠ .signedConstant) := by
  intro i member
  obtain ⟨op, known, count⟩ := free i member
  obtain ⟨pos, met⟩ := (Block.forall_of_decode decoded).1 i member
  have shaped := shaped_of_decode inside met known
  exact ⟨exists_simulation shaped count, shaped.unsigned⟩

theorem globals_of_validate {s : Settings} (valid : s.validate = .ok ()) :
    s.globals.toNat + Settings.globalsSize ≤ s.imageLength.toNat := by
  rw [Settings.validate] at valid
  by_contra outside
  simp only [Nat.lt_of_not_le outside, if_true] at valid
  split_ifs at valid

end Fragment

end ZCode

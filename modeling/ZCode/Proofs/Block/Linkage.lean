import ZCode.Proofs.Block.Counting
import ZCode.Proofs.Block.Suspension

set_option autoImplicit false

namespace ZCode

open ZCode.Script Statement

namespace Script.Value

theorem recorded_ofInt (n : Int) : (ofInt n).recorded = [n] := by
  rw [ofInt, recorded, recordedNumber, Number.whole?_ofInt, Option.getD_some]

theorem recordedAll_words (ws : List UInt16) :
    recordedAll (ws.map ofWord) = ws.map fun w => (w.toNat : Int) := by
  induction ws with
  | nil => rfl
  | cons w rest ih => rw [List.map_cons, recordedAll, ih, ofWord, recorded_ofInt]; rfl

theorem recordedAll_call (w : UInt16) (storer next : Int) (ws : List UInt16) :
    recordedAll [ofWord w, ofInt storer, ofInt next, array (ws.map ofWord)] =
      (w.toNat : Int) :: storer :: next :: ws.map fun w => (w.toNat : Int) := by
  simp only [recordedAll, recorded_ofInt, recorded, ofWord, List.append_nil]
  rw [← recordedAll_words]
  rfl

end Script.Value

namespace Rules

open ZCode.Script (Machine)

theorem exists_operands {m : Machine} (ops : List Operand)
    (deep : (ops.countP Operand.onStack : Int) ≤ m.sp) (high : m.sp ≤ m.stack.size) :
    ∃ ws, (ops.mapM operand).run m =
      some (ws, { m with sp := m.sp - ops.countP Operand.onStack }) ∧ ws.length = ops.length := by
  induction ops generalizing m with
  | nil =>
    have still : ({ m with sp := m.sp - ([] : List Operand).countP Operand.onStack } : Machine) = m := by
      simp
    exact ⟨[], by rw [still]; rfl, rfl⟩
  | cons op rest ih =>
    have count : (op :: rest).countP Operand.onStack =
        rest.countP Operand.onStack + op.onStack.toNat := by
      cases on : op.onStack <;> simp [on]
    rw [count] at deep ⊢
    obtain ⟨w, first⟩ := exists_operand (m := m) op (by omega) high
    have room : ({ m with sp := m.sp - op.onStack.toNat } : Machine).sp ≤ m.stack.size :=
      Int.le_trans (Int.sub_le_self _ (Int.natCast_nonneg _)) high
    obtain ⟨ws, others, length⟩ := ih (m := { m with sp := m.sp - op.onStack.toNat })
      (show _ ≤ m.sp - op.onStack.toNat by omega) room
    have pointer : m.sp - op.onStack.toNat - rest.countP Operand.onStack =
        m.sp - (rest.countP Operand.onStack + op.onStack.toNat : Nat) := by omega
    simp only [pointer] at others
    refine ⟨w :: ws, ?_, congrArg (· + 1) length⟩
    simp only [List.mapM_cons, bind_eq_some_iff, pure_eq_some_iff]
    exact ⟨w, _, first, ws, _, others, rfl, rfl⟩

end Rules

namespace Statement

variable {p : Profile} {n : Nat} {op : Op} {i : Instruction}

theorem Shaped.unsigned_of_isCall (shaped : Shaped p n op i) (isCall : op.isCall p.version = true) :
    ∀ operand ∈ i.operands, operand.signed = false := by
  intro operand member
  obtain ⟨k, at_⟩ := List.mem_iff_getElem?.mp member
  rw [shaped.signed k operand at_, (meant_of_isCall i [] isCall).2]
  rfl

theorem Shaped.not_bare_of_isCall (shaped : Shaped p n op i) (isCall : op.isCall p.version = true) :
    bare i = false := by
  rw [bare, shaped.known, Option.any_some]
  cases op with
  | call2s | call2n | call1s | callVs | callVs2 | callVn | callVn2 | notOrCall1n =>
    exact Bool.and_false _
  | _ => cases isCall

def called (i : Instruction) (w : UInt16) (ws : List UInt16) (m : Machine) : Machine :=
  { m with calls :=
      ⟨"call", w.toNat :: storer i :: i.next.toNat :: ws.map fun w => (w.toNat : Int)⟩ :: m.calls }

theorem gives_call {t : Value} {a : Operand} {rest : List Operand} {w : UInt16} {ws : List UInt16}
    {m m₁ : Machine} (chain : Chain t (a :: rest) (w :: ws) m m₁)
    (unsigned : ∀ op ∈ a :: rest, op.signed = false) (i : Instruction) :
    Gives (eval (callPhrase i ((a :: rest).map operandPhrase)).expr) (frame m t) (.ofInt 0)
      (frame (called i w ws m₁) t) := by
  rw [List.forall_mem_cons] at unsigned
  cases chain with
  | cons first later =>
    rw [number_unsigned unsigned.1] at first
    have arguments := later.all
    rw [later.unsigned unsigned.2] at arguments
    have inside := first.cons ((gives_storer i).cons ((gives_number i.next.toNat).cons
      (arguments.array.cons gives_nil)))
    have applied : Gives (apply (.object (.method (.host "call"))) [.ofWord w, .ofInt (storer i),
        .ofInt i.next.toNat, .array (ws.map .ofWord)]) (frame m₁ t) (.ofInt 0)
        (frame (called i w ws m₁) t) := by
      rw [called, ← Value.recordedAll_call]
      rfl
    exact (gives_runtime "call").call inside applied

theorem gives_call_line (shaped : Shaped p n op i) (isCall : op.isCall p.version = true) {t : Value}
    {w : UInt16} {ws : List UInt16} {m m₁ : Machine} (sized : Rules.Sized n m)
    (read : (i.operands.mapM Rules.operand).run m = some (w :: ws, m₁)) :
    Gives (execAll (stmts p i)) (frame m t) .normal (frame (called i w ws m₁) t) := by
  have unsigned := shaped.unsigned_of_isCall isCall
  obtain ⟨chain, -⟩ := exists_chain (t := t) sized shaped.reachable read
  rw [stmts, sense_of_isCall shaped isCall, Option.getD_some, gives_stmts_iff]
  cases operands : i.operands with
  | nil =>
    -- without operands there would be no word for the routine
    rw [operands] at chain
    cases chain
  | cons a rest =>
    rw [operands] at chain unsigned
    exact (gives_call chain unsigned i).expr.andThen gives_done

end Statement

namespace Block

/-- A run of a block that comes to a call at its end, with enough words on the stack for the operands
of the call, makes one record there: the routine, the store variable or -1, the return address, and
the other operands. Operands are read from left to right, and but for those taken from the stack the
machine is as the call found it. -/
theorem call_hands_over_operands {s : Settings} (valid : s.validate = .ok ()) {img : Image}
    {cap : Nat} {addr : UInt32} {b : Block}
    (decoded : decode img ⟨s.version, s.globals⟩ cap addr = .ok b) {f : Fragment}
    (made : Fragment.ofBlock ⟨s.version, s.globals⟩ b = .ok f) {call : Instruction}
    (final : b.last? = some call) (isCall : call.isCall s.version = true)
    (routine : call.operands ≠ []) {m m₁ : Machine} (sized : Rules.Sized s.imageLength.toNat m)
    (reached : b.machineAt? ⟨s.version, s.globals⟩ m (b.instructions.length - 1) = some m₁)
    (deep : (call.operands.countP Operand.onStack : Int) ≤ m₁.sp) (high : m₁.sp ≤ m₁.stack.size) :
    ∃ w ws m₂, (call.operands.mapM Rules.operand).run m₁ = some (w :: ws, m₂) ∧ ws.length ≤ 7 ∧
      m₂ = { m₁ with sp := m₁.sp - call.operands.countP Operand.onStack } ∧
      run m f.code = (.finished none, { m₂ with
        calls := ⟨"call", w.toNat :: storer call :: call.next.toNat ::
          ws.map fun w => (w.toNat : Int)⟩ :: m₁.calls }) := by
  obtain ⟨init, stop, last, -, met, -, -, rfl⟩ := (decode_eq_ok_iff cap b).mp decoded
  obtain rfl : last = call := by simpa [last?] using final
  have members := (forall_of_decode decoded).1
  have position : (init ++ [last]).length - 1 = init.length := by simp
  rw [position] at reached
  obtain ⟨op, known, isCall⟩ : ∃ op, last.op? = some op ∧ op.isCall s.version = true := by
    simpa [Instruction.isCall, Option.any_eq_true] using isCall
  have shaped := shaped_of_decode (p := ⟨s.version, s.globals⟩) (Fragment.globals_of_validate valid)
    met known
  have whole := whole_of_reached members (shaped.not_bare_of_isCall isCall)
    (runsThrough_of_machineAt? reached)
  have sensible := sensible_of_read members made whole
  obtain ⟨s₁, before, machine⟩ := gives_of_machineAt? members reached
  rw [List.take_left] at before
  -- nothing in front of the call changes a size or binds a name
  obtain ⟨m', t, rfl, sized₁, -⟩ : Framed s.imageLength.toNat m.globals s₁ := by
    have mild := mild_of_going (fun i member => sensible i (by simp [member]))
      (going_of_decode decoded made)
    exact ((lasts_framed _ _).execAll _ fun t member => temporary_of_mild (mild t member)).gives
      before ⟨m, _, rfl, sized, rfl⟩
  obtain rfl : m' = m₁ := machine
  obtain ⟨words, read, length⟩ := Rules.exists_operands last.operands deep high
  have few := Instruction.length_operands_le met
  cases words with
  | nil => exact absurd (List.length_eq_zero_iff.mp length.symm) routine
  | cons w ws =>
    rw [List.length_cons] at length
    refine ⟨w, ws, _, read, by omega, rfl, ?_⟩
    have given := before.append (gives_call_line shaped isCall sized₁ read)
    rw [← List.flatMap_singleton (stmts _) last, ← List.flatMap_append] at given
    have text := Fragment.parse?_code members made
    simp only [whole, Bool.false_eq_true, if_false] at text
    rw [run, text]
    exact Fragment.runBody_of_gives (v := none) given (.inl rfl)

-- Two words are pushed and taken again by a call, the later one first.
theorem call_hands_over_operands_stack :
    let call : Instruction :=
      { addr := 6, opcode := 224, operands := [⟨.constant, 256⟩, ⟨.stack, 0⟩, ⟨.stack, 0⟩],
        result := some 5, next := 13, endsBlock := true }
    let b : Block := ⟨0, [
      { addr := 0, opcode := 232, operands := [⟨.constant, 7⟩], next := 3 },
      { addr := 3, opcode := 232, operands := [⟨.constant, 9⟩], next := 6 }, call]⟩
    let m : Machine := { memory := .zeroed 512, globals := 16 }
    ∃ f m', decode ⟨#[0xE8, 0x7F, 7, 0xE8, 0x7F, 9, 0xE0, 0x2B, 1, 0, 0, 0, 5], by decide⟩
        ⟨5, 16⟩ 0 0 = .ok b ∧ Fragment.ofBlock ⟨5, 16⟩ b = .ok f ∧
      run m f.code = (.finished none, m') ∧ m'.sp = 0 ∧
      m'.calls.head? = some ⟨"call", [256, 5, 13, 9, 7]⟩ := by
  intro call b m
  let s : Settings := { imageLength := 512, version := 5, globals := 16 }
  have valid : s.validate = .ok () := by decide
  have decoded : decode ⟨#[0xE8, 0x7F, 7, 0xE8, 0x7F, 9, 0xE0, 0x2B, 1, 0, 0, 0, 5], by decide⟩
      ⟨5, 16⟩ 0 0 = .ok b := by
    decide +kernel
  have final : b.last? = some call := rfl
  have sized : Rules.Sized 512 m := by
    constructor <;> simp [m, Image.zeroed, Image.length]
  have renders : (Fragment.ofBlock ⟨5, 16⟩ b).toOption.isSome = true := by decide +kernel
  obtain ⟨f, made⟩ := Option.isSome_iff_exists.mp renders
  have found : (b.machineAt? ⟨5, 16⟩ m 2).map (fun m₁ => (m₁.sp, m₁.stack.size,
      ((call.operands.mapM Rules.operand).run m₁).map Prod.fst)) =
        some (2, 1024, some [256, 9, 7]) := by
    decide +kernel
  simp only [Option.map_eq_some_iff, Prod.mk.injEq] at found
  obtain ⟨m₁, reached, pointer, size, ⟨words, m₂⟩, read, rfl⟩ := found
  obtain ⟨w, ws, m₂, again, -, rfl, ran⟩ := call_hands_over_operands valid decoded
    (ok_of_toOption made) final (by decide) (by decide) sized reached (by rw [pointer]; decide)
    (by rw [pointer, size]; decide)
  rw [read] at again
  cases again
  refine ⟨f, _, decoded, ok_of_toOption made, ran, ?_, rfl⟩
  simp only [pointer]
  decide

end Block

end ZCode

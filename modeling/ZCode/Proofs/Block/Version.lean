import ZCode.Proofs.Block.Fragment
import ZCode.Proofs.Session.Faults

set_option autoImplicit false

namespace ZCode

theorem not_lt_four_of_new {v : UInt8} (new : 5 ≤ v) : ¬ v < 4 :=
  UInt8.not_lt.mpr (UInt8.le_trans (by decide) new)

theorem packedMultiplier_of_new {v : UInt8} (new : 5 ≤ v) (other : v ≠ 8) :
    packedMultiplier v = 4 := by
  have above : ¬ v ≤ 3 := UInt8.not_le.mpr (UInt8.lt_of_lt_of_le (by decide) new)
  rw [packedMultiplier, if_neg above, if_neg (by simpa using other)]

namespace Shape

theorem of_new {v v' : UInt8} (new : 5 ≤ v) (new' : 5 ≤ v') : of v = of v' := by
  have four {α : Type} (a b : α) : (if v < 4 then a else b) = if v' < 4 then a else b := by
    rw [if_neg (not_lt_four_of_new new), if_neg (not_lt_four_of_new new')]
  have five {α : Type} (a b : α) : (if v < 5 then a else b) = if v' < 5 then a else b := by
    rw [if_neg (UInt8.not_lt.mpr new), if_neg (UInt8.not_lt.mpr new')]
  have row (op : Op) : row? v op = row? v' op := by
    cases op with
    | save | restore => exact congrArg some (four _ _)
    | showStatus => exact four _ _
    | notOrCall1n | read => exact congrArg some (five _ _)
    | popOrCatch => exact five _ _
    | _ => rfl
  funext opcode
  rw [of, of, funext row]

theorem of_three {opcode : UInt16} (common : opcode ∉ [181, 182, 188]) : of 3 opcode = of 4 opcode := by
  rw [of, of]
  cases known : Op.ofNumber? opcode with
  | none => rfl
  | some op =>
    rw [← Op.number_of_ofNumber? known] at common
    cases op with
    | save | restore | showStatus => exact absurd (by decide) common
    | _ => rfl

end Shape

namespace Instruction

variable {img : Image} {v v' : UInt8} {globals : UInt16} {addr : UInt32} {i : Instruction}

theorem readOperands_of_globals (v v' : UInt8) (shape : Shape) (k : Nat) (encodings : List Encoding) :
    readOperands img ⟨v, globals⟩ shape k encodings =
      readOperands img ⟨v', globals⟩ shape k encodings := by
  induction encodings generalizing k with
  | nil => rfl
  | cons e rest ih =>
    have first : readOperand img ⟨v, globals⟩ (shape.signedAt k) e =
        readOperand img ⟨v', globals⟩ (shape.signedAt k) e := by
      cases e <;> rfl
    rw [readOperands, readOperands, first, ih]

theorem decode_of_shapes (same : Shape.of v = Shape.of v') :
    decode img ⟨v, globals⟩ addr = decode img ⟨v', globals⟩ addr := by
  -- the version is asked for nothing but the shape of the opcode that was read
  have body (opcode : UInt16) (encodings : Option (List Encoding)) :
      readBody img ⟨v, globals⟩ addr opcode encodings =
        readBody img ⟨v', globals⟩ addr opcode encodings := by
    simp only [readBody, same, readOperands_of_globals v v']
  simp only [decode, finish, body]

theorem decode_of_shape (decoded : decode img ⟨v, globals⟩ addr = .ok i)
    (same : Shape.of v i.opcode = Shape.of v' i.opcode) :
    decode img ⟨v', globals⟩ addr = .ok i := by
  obtain ⟨l, fits, held, rfl⟩ := (decode_eq_ok_iff img _ addr i).mp decoded
  have shape : Shape.of v l.opcode = Shape.of v' l.opcode := same
  have fits' : l.Fits v' :=
    { fits with result := shape ▸ fits.result, suffix := shape ▸ fits.suffix }
  refine (decode_eq_ok_iff img _ addr _).mpr ⟨l, fits', held, ?_⟩
  simp only [Layout.instruction, shape]
  rfl

theorem isCall_of_new (new : 5 ≤ v) (new' : 5 ≤ v') (i : Instruction) : i.isCall v = i.isCall v' := by
  have each (op : Op) : op.isCall v = op.isCall v' := by
    cases op <;> simp only [Op.isCall, new, new']
  rw [isCall, isCall, funext each]

end Instruction

namespace Block

variable {img : Image} {v v' : UInt8} {globals : UInt16} {p p' : Profile} {cap : Nat} {addr stop : UInt32}

theorem decode_of_reading
    (same : ∀ pos, Instruction.decode img p pos = Instruction.decode img p' pos) :
    decode img p cap addr = decode img p' cap addr := by
  have walked (limit : Nat) (pos : UInt32) (met : List Instruction) :
      walkFrom img p limit pos met = walkFrom img p' limit pos met := by
    induction limit generalizing pos met with
    | zero => rfl
    | succ limit ih => simp only [walkFrom, same, ih]
  simp only [decode, walk, walked]

theorem Passes.of_reading {is : List Instruction} (passed : Passes img p addr is stop)
    (same : ∀ i ∈ is, ∀ pos, Instruction.decode img p pos = .ok i →
      Instruction.decode img p' pos = .ok i) : Passes img p' addr is stop := by
  induction is generalizing addr with
  | nil => exact passed
  | cons i rest ih =>
    rw [List.forall_mem_cons] at same
    obtain ⟨met, stays, later⟩ := passed
    exact ⟨same.1 addr met, stays, ih later same.2⟩

end Block

namespace Statement

variable {v v' : UInt8} {globals : UInt16} {i : Instruction}

theorem body_of_new (new : 5 ≤ v) (new' : 5 ≤ v') {op : Op} (ops : List String)
    (factor : op = .printPaddr → packedMultiplier v = packedMultiplier v') :
    body ⟨v, globals⟩ i ops op = body ⟨v', globals⟩ i ops op := by
  have notThree {w : UInt8} (w_new : 5 ≤ w) : (w == 3) = false := by
    refine beq_false_of_ne fun three => ?_
    subst three
    exact absurd w_new (by decide)
  cases op with
  | printPaddr => rw [body, body, factor rfl]
  | _ => simp only [body, resumption, notThree new, notThree new', not_lt_four_of_new new,
      not_lt_four_of_new new', UInt8.not_lt.mpr new, UInt8.not_lt.mpr new', if_false]

theorem render_of_new (new : 5 ≤ v) (new' : 5 ≤ v')
    (factor : i.op? = some .printPaddr → packedMultiplier v = packedMultiplier v') :
    render ⟨v, globals⟩ i = render ⟨v', globals⟩ i := by
  cases known : i.op? with
  | none => simp only [render, known]
  | some op =>
    have same : body ⟨v, globals⟩ i (i.operands.map operand) op =
        body ⟨v', globals⟩ i (i.operands.map operand) op :=
      body_of_new new new' _ fun scaled => factor (by rw [known, scaled])
    simp only [render, known, same]
    rfl

theorem Shaped.render_printPaddr {p : Profile} {n : Nat} (shaped : Shaped p n .printPaddr i) :
    render p i = .ok ("e.print(2," ++ nth (i.operands.map operand) 0 ++
      ("*" ++ toString (packedMultiplier p.version) ++ ")")) := by
  have shape : shapeOf p.version .printPaddr = {} := rfl
  have keeps : i.stores = false := by rw [shaped.stores, shape]
  have goes : i.pauses = false := by rw [shaped.pauses, shape]
  have straight : i.branch = none := by simpa [shape] using shaped.branch
  simp only [render, shaped.known, body, keeps, goes, straight, Bool.false_eq_true, if_false,
    String.append_assoc]
  exact congrArg Except.ok (String.empty_append)

end Statement

namespace Fragment

variable {img : Image} {globals : UInt16} {cap : Nat} {addr : UInt32} {b : Block}

/-- The lines of an instruction in versions 5 and 8: the same, unless it prints the text at a packed
address. -/
def Rescaled (i : Instruction) (five eight : String) : Prop :=
  if i.opcode = 141 then ∃ packed, five = line i ("e.print(2," ++ packed ++ "*4)") ∧
    eight = line i ("e.print(2," ++ packed ++ "*8)")
  else eight = five

theorem exists_rescaled {pos : UInt32} {i : Instruction} {text : String}
    (decoded : Instruction.decode img ⟨5, globals⟩ pos = .ok i)
    (written : IsLine ⟨5, globals⟩ i text) :
    ∃ text', IsLine ⟨8, globals⟩ i text' ∧ Rescaled i text text' := by
  obtain ⟨statement, made, rfl⟩ := written
  by_cases scaled : i.opcode = 141
  · have known : i.op? = some .printPaddr := by rw [Instruction.op?, scaled]; rfl
    have decoded' : Instruction.decode img ⟨8, globals⟩ pos = .ok i :=
      Instruction.decode_of_shape decoded (congrFun (Shape.of_new (by decide) (by decide)) _)
    have five := (Statement.shaped_of_decode (Nat.le_refl _) decoded known).render_printPaddr
    have eight := (Statement.shaped_of_decode (Nat.le_refl _) decoded' known).render_printPaddr
    rw [made] at five
    cases five
    refine ⟨_, ⟨_, eight, rfl⟩, ?_⟩
    rw [Rescaled, if_pos scaled]
    have four : "*" ++ toString (packedMultiplier 5) ++ ")" = "*4)" := by decide
    have eight : "*" ++ toString (packedMultiplier 8) ++ ")" = "*8)" := by decide
    exact ⟨_, by rw [four], by rw [eight]⟩
  · have same : Statement.render ⟨5, globals⟩ i = Statement.render ⟨8, globals⟩ i :=
      Statement.render_of_new (by decide) (by decide) fun known =>
        absurd (Op.number_of_ofNumber? known).symm scaled
    exact ⟨_, ⟨statement, same ▸ made, rfl⟩, by rw [Rescaled, if_neg scaled]⟩

theorem ofBlock_of_new {v : UInt8} (new : 5 ≤ v) (other : v ≠ 8) :
    ofBlock ⟨v, globals⟩ b = ofBlock ⟨5, globals⟩ b := by
  have factor : packedMultiplier v = packedMultiplier 5 := packedMultiplier_of_new new other
  have rendered : Statement.render ⟨v, globals⟩ = Statement.render ⟨5, globals⟩ :=
    funext fun i => Statement.render_of_new new (by decide) fun _ => factor
  have called : Block.callTarget? ⟨v, globals⟩ = Block.callTarget? ⟨5, globals⟩ := by
    funext i
    simp only [Block.callTarget?_eq, factor, Instruction.isCall_of_new new (show (5 : UInt8) ≤ 5 by decide)]
  rw [ofBlock, ofBlock, rendered, called]

theorem ofBlock_eq_error_iff_of_eight
    (decoded : Block.decode img ⟨5, globals⟩ cap addr = .ok b)
    (decoded' : Block.decode img ⟨8, globals⟩ cap addr = .ok b) (fault : Fault) :
    ofBlock ⟨8, globals⟩ b = .error fault ↔ ofBlock ⟨5, globals⟩ b = .error fault := by
  have five := ofBlock_of_decoded fun i member => ⟨img, (Block.forall_of_decode decoded).1 i member⟩
  have eight := ofBlock_of_decoded fun i member => ⟨img, (Block.forall_of_decode decoded').1 i member⟩
  -- both fail for the same instruction, the first one without a template
  cases found : firstUnknown? b.instructions with
  | some i =>
    simp only [found] at five eight
    rw [five, eight]
  | none =>
    simp only [found] at five eight
    obtain ⟨f, made⟩ := five
    obtain ⟨f', made'⟩ := eight
    simp [made, made']

theorem exists_rescaled_lines {is : List Instruction} {lines : List String}
    (members : ∀ i ∈ is, ∃ pos, Instruction.decode img ⟨5, globals⟩ pos = .ok i)
    (each : List.Forall₂ (IsLine ⟨5, globals⟩) is lines) :
    ∃ pairs : List (String × String), pairs.map Prod.fst = lines ∧
      List.Forall₂ (fun i pair => IsLine ⟨5, globals⟩ i pair.1 ∧ IsLine ⟨8, globals⟩ i pair.2 ∧
        Rescaled i pair.1 pair.2) is pairs := by
  induction each with
  | nil => exact ⟨[], rfl, .nil⟩
  | @cons i text rest others first _ ih =>
    rw [List.forall_mem_cons] at members
    obtain ⟨⟨pos, met⟩, later⟩ := members
    obtain ⟨text', written, rescaled⟩ := exists_rescaled met first
    obtain ⟨pairs, rfl, each⟩ := ih later
    exact ⟨(text, text') :: pairs, rfl, .cons ⟨first, written, rescaled⟩ each⟩

theorem calls_of_eight (is : List Instruction) :
    (is.filterMap (Block.callTarget? ⟨8, globals⟩)).map UInt32.toNat =
      (is.filterMap (Block.callTarget? ⟨5, globals⟩)).map fun a => 2 * a.toNat := by
  rw [List.map_filterMap, List.map_filterMap]
  refine List.filterMap_congr fun i _ => ?_
  simp only [Block.callTarget?_eq,
    Instruction.isCall_of_new (show (5 : UInt8) ≤ 8 by decide) (show (5 : UInt8) ≤ 5 by decide)]
  split
  · split
    · have double (n : Nat) : n * 8 = 2 * (n * 4) := by omega
      simp only [Option.map_some, Block.toNat_target]
      exact congrArg some (double _)
    · rfl
  · rfl

/-- From version 5 on blocks are the same, faults included, and so are fragments but for version 8.
There a fragment fails as in version 5 or differs from it in two ways: text at a packed address is
printed from eight times that address instead of four times, and the called routines lie at twice the
address. A block of version 4 in which nothing is saved or restored and no status line is shown is
one of version 3. -/
theorem versions_agree (img : Image) (globals : UInt16) (cap : Nat) (addr : UInt32) :
    (∀ v, 5 ≤ v →
      Block.decode img ⟨v, globals⟩ cap addr = Block.decode img ⟨5, globals⟩ cap addr) ∧
    (∀ v, 5 ≤ v → v ≠ 8 →
      generate img ⟨v, globals⟩ cap addr = generate img ⟨5, globals⟩ cap addr) ∧
    (∀ fault, generate img ⟨8, globals⟩ cap addr = .error fault ↔
      generate img ⟨5, globals⟩ cap addr = .error fault) ∧
    (∀ f, generate img ⟨5, globals⟩ cap addr = .ok f →
      ∃ f' b pairs, generate img ⟨8, globals⟩ cap addr = .ok f' ∧
        f' = { f with code := f'.code, calls := f'.calls } ∧
        f'.calls.map UInt32.toNat = f.calls.map (fun a => 2 * a.toNat) ∧
        Block.decode img ⟨5, globals⟩ cap addr = .ok b ∧
        List.Forall₂ (fun i pair => IsLine ⟨5, globals⟩ i pair.1 ∧ Rescaled i pair.1 pair.2)
          b.instructions pairs ∧
        f.code = prologue ++ String.join (pairs.map Prod.fst) ∧
        f'.code = prologue ++ String.join (pairs.map Prod.snd)) ∧
    ∀ b, Block.decode img ⟨4, globals⟩ cap addr = .ok b →
      (∀ i ∈ b.instructions, i.opcode ∉ [181, 182, 188]) →
        Block.decode img ⟨3, globals⟩ cap addr = .ok b := by
  have decoding (v : UInt8) (new : 5 ≤ v) :
      Block.decode img ⟨v, globals⟩ cap addr = Block.decode img ⟨5, globals⟩ cap addr :=
    Block.decode_of_reading fun _ => Instruction.decode_of_shapes (Shape.of_new new (by decide))
  have eight := decoding 8 (by decide)
  refine ⟨decoding, fun v new other => ?_, fun fault => ?_, fun f generated => ?_,
    fun b decoded common => ?_⟩
  · rw [generate, generate, decoding v new]
    exact bind_congr fun _ => ofBlock_of_new new other
  · rw [generate, generate, eight]
    cases decoded : Block.decode img ⟨5, globals⟩ cap addr with
    | error fault => rfl
    | ok b => exact ofBlock_eq_error_iff_of_eight decoded (eight.trans decoded) fault
  · obtain ⟨b, decoded, made⟩ := generate_eq_ok_iff.mp generated
    obtain ⟨lines, each, rfl⟩ := ofBlock_eq_ok_iff.mp made
    obtain ⟨pairs, rfl, both⟩ := exists_rescaled_lines (Block.forall_of_decode decoded).1 each
    have made' : ofBlock ⟨8, globals⟩ b = .ok (ofLines ⟨8, globals⟩ b (pairs.map Prod.snd)) :=
      ofBlock_eq_ok_iff.mpr ⟨_, List.forall₂_map_right_iff.mpr (both.imp fun _ _ all => all.2.1), rfl⟩
    exact ⟨_, b, pairs, generate_eq_ok_iff.mpr ⟨b, eight.trans decoded, made'⟩, rfl,
      calls_of_eight b.instructions, decoded, both.imp fun _ _ all => ⟨all.1, all.2.2⟩, rfl, rfl⟩
  · obtain ⟨init, stop, last, passed, met, ends, within, rfl⟩ :=
      (Block.decode_eq_ok_iff cap b).mp decoded
    have same (i : Instruction) (member : i ∈ init ++ [last]) (pos : UInt32)
        (read : Instruction.decode img ⟨4, globals⟩ pos = .ok i) :
        Instruction.decode img ⟨3, globals⟩ pos = .ok i :=
      Instruction.decode_of_shape read (Shape.of_three (common i member)).symm
    exact (Block.decode_eq_ok_iff cap _).mpr ⟨init, stop, last,
      passed.of_reading fun i inside => same i (List.mem_append_left _ inside),
      same last (by simp) stop met, ends, within, rfl⟩

-- A packed address printed and opcode 143, which calls from version 5 on and stores before.
theorem versions_agree_packed :
    let img : Image := ⟨#[0x8D, 0x12, 0x34, 0x8F, 0, 1, 0xB0, 0xB0], by decide⟩
    ∃ f f' b, generate img ⟨5, 16⟩ 0 0 = .ok f ∧ generate img ⟨7, 16⟩ 0 0 = .ok f ∧
      generate img ⟨8, 16⟩ 0 0 = .ok f' ∧ f.calls = [4] ∧ f'.calls.map UInt32.toNat = [8] ∧
      f'.next = f.next ∧ Block.decode img ⟨3, 16⟩ 0 0 = .ok b ∧ b.instructions.length = 3 := by
  intro img
  obtain ⟨-, generating, -, rescaled, common⟩ := versions_agree img 16 0 0
  have renders : (generate img ⟨5, 16⟩ 0 0).toOption.map Fragment.calls = some [4] := by
    decide +kernel
  obtain ⟨f, found, calls⟩ := Option.map_eq_some_iff.mp renders
  have generated := Block.ok_of_toOption found
  obtain ⟨f', -, -, generated', rest, doubled, -⟩ := rescaled f generated
  have decoded : Block.decode img ⟨4, 16⟩ 0 0 = .ok ⟨0, [
      { addr := 0, opcode := 141, operands := [⟨.constant, 0x1234⟩], next := 3 },
      { addr := 3, opcode := 143, operands := [⟨.constant, 1⟩], result := some 0xB0,
        stores := true, next := 7 },
      { addr := 7, opcode := 176, next := 8, endsBlock := true }]⟩ := by
    decide +kernel
  have three := common _ decoded (by decide)
  refine ⟨f, f', _, generated, (generating 7 (by decide) (by decide)).trans generated, generated',
    calls, ?_, by rw [rest], three, rfl⟩
  rw [doubled, calls]
  rfl

end Fragment

end ZCode

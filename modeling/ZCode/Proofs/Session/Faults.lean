import ZCode.Proofs.Session.Sharing

set_option autoImplicit false

namespace ZCode

/-- The numbers of opcodes with a statement, by ranges: two operands, one, none, any number of them,
and extended. -/
def templateRanges : List (Nat × Nat) :=
  [(1, 28), (128, 143), (176, 189), (191, 191), (224, 255), (1000, 1004), (1009, 1013), (1030, 1030)]

def hasTemplate (opcode : UInt16) : Bool :=
  templateRanges.any fun range => range.1 ≤ opcode.toNat && opcode.toNat ≤ range.2

theorem hasTemplate_number (op : Op) : hasTemplate op.number = true := by
  cases op <;> rfl

theorem isSome_ofNumber?_iff (opcode : UInt16) :
    (Op.ofNumber? opcode).isSome = true ↔ hasTemplate opcode = true := by
  constructor
  · intro known
    obtain ⟨op, found⟩ := Option.isSome_iff_exists.mp known
    rw [← Op.number_of_ofNumber? found]
    exact hasTemplate_number op
  · intro listed
    obtain ⟨range, member, inside⟩ := List.any_eq_true.mp listed
    simp only [Bool.and_eq_true, decide_eq_true_eq] at inside
    -- the ranges are finite, so each number in them can be looked up
    have all : ∀ range ∈ templateRanges, ∀ k < range.2 + 1 - range.1,
        (Op.ofNumber? (UInt16.ofNat (range.1 + k))).isSome = true := by decide +kernel
    have found := all range member (opcode.toNat - range.1) (by omega)
    rwa [Nat.add_sub_cancel' inside.1, UInt16.ofNat_toNat] at found

namespace Op

-- Statements that give the host the store variable, and those that give it inline text.
def givesStorer (version : UInt8) : Op → Bool
  | .read => 5 ≤ version
  | .readChar | .saveUndo => true
  | _ => false

def givesText : Op → Bool
  | .print | .printRet => true
  | _ => false

end Op

namespace Statement

variable {p : Profile} {i : Instruction} {op : Op}

-- All that the statement of an opcode names is there.
structure Equipped (p : Profile) (op : Op) (i : Instruction) : Prop where
  stored : i.stores = true → i.result.isSome = true
  storer : op.givesStorer p.version = true → i.result.isSome = true
  text : op.givesText = true → i.text.isSome = true

theorem equipped_of_decode {img : Image} {addr : UInt32}
    (decoded : Instruction.decode img p addr = .ok i) (known : i.op? = some op) :
    Equipped p op i := by
  obtain ⟨l, fits, -, rfl⟩ := (Instruction.decode_eq_ok_iff img p addr i).mp decoded
  have number : op.number = l.opcode := Op.number_of_ofNumber? known
  have stored (stores : (Shape.of p.version l.opcode).stores = true) : l.result.isSome = true :=
    fits.result.mpr (.inl stores)
  refine ⟨stored, fun gives => stored ?_, fun gives => ?_⟩
  · rw [← number, Shape.of, Op.ofNumber?_number]
    cases op <;> simp only [Op.givesStorer, Bool.false_eq_true, decide_eq_true_eq] at gives
    case read =>
      have new : ¬ p.version < 5 := UInt8.not_lt.mpr gives
      have row : (Shape.row? p.version .read).getD {} = .storingAndPausing := if_neg new
      exact congrArg Shape.stores row
    case readChar | saveUndo => rfl
  · have texts : l.opcode ∈ [178, 179] := by
      rw [← number]
      cases op <;> simp only [Op.givesText, Bool.false_eq_true] at gives <;> decide
    simpa [Layout.instruction] using fits.text.mpr texts

theorem exists_storeVariable (held : i.result.isSome = true) : ∃ v, storeVariable i = .ok v := by
  obtain ⟨v, found⟩ := Option.isSome_iff_exists.mp held
  exact ⟨v, by rw [storeVariable, found]⟩

theorem exists_inlineText (held : i.text.isSome = true) : ∃ start, inlineText i = .ok start := by
  obtain ⟨start, found⟩ := Option.isSome_iff_exists.mp held
  exact ⟨start, by rw [inlineText, found]⟩

theorem exists_body (equipped : Equipped p op i) (ops : List String) :
    ∃ code, body p i ops op = .ok code := by
  cases op
  case print | printRet =>
    obtain ⟨start, found⟩ := exists_inlineText (equipped.text rfl)
    exact ⟨_, by rw [body, found]; rfl⟩
  case readChar | saveUndo =>
    obtain ⟨v, found⟩ := exists_storeVariable (equipped.storer rfl)
    exact ⟨_, by rw [body, found]; rfl⟩
  case read =>
    rw [body]
    split
    next => exact ⟨_, rfl⟩
    next new =>
      have gives : Op.read.givesStorer p.version = true := by
        simpa [Op.givesStorer] using UInt8.not_lt.mp new
      obtain ⟨v, found⟩ := exists_storeVariable (equipped.storer gives)
      exact ⟨_, by rw [found]; rfl⟩
  all_goals exact ⟨_, rfl⟩

theorem exists_statement (known : i.op? = some op) (equipped : Equipped p op i) :
    ∃ code, render p i = .ok code := by
  obtain ⟨effect, made⟩ := exists_body equipped (i.operands.map operand)
  by_cases stores : i.stores = true
  · obtain ⟨v, found⟩ := exists_storeVariable (equipped.stored stores)
    simp only [render, known, made, stores, if_true, found]
    exact ⟨_, rfl⟩
  · simp only [render, known, made, if_neg stores]
    exact ⟨_, rfl⟩

theorem render_of_unknown (unknown : i.op? = none) :
    render p i = .error (.unknownOpcode i.opcode i.addr) := by
  simp only [render, unknown]

theorem render_of_decode {img : Image} {addr : UInt32}
    (decoded : Instruction.decode img p addr = .ok i) :
    (hasTemplate i.opcode = true ∧ ∃ code, render p i = .ok code) ∨
      hasTemplate i.opcode = false ∧ render p i = .error (.unknownOpcode i.opcode i.addr) := by
  cases known : i.op? with
  | none =>
    have missing : hasTemplate i.opcode = false := by
      rw [← Bool.not_eq_true, ← isSome_ofNumber?_iff, ← Instruction.op?, known]
      simp
    exact .inr ⟨missing, render_of_unknown known⟩
  | some op =>
    have listed := (isSome_ofNumber?_iff i.opcode).mp (Option.isSome_of_eq_some known)
    exact .inl ⟨listed, exists_statement known (equipped_of_decode decoded known)⟩

end Statement

namespace Fragment

variable {p : Profile} {is : List Instruction}

-- The first instruction without a template.
def firstUnknown? (is : List Instruction) : Option Instruction :=
  is.find? fun i => !hasTemplate i.opcode

theorem statements_of_decoded
    (decoded : ∀ i ∈ is, ∃ img addr, Instruction.decode img p addr = .ok i) :
    match firstUnknown? is with
    | some i => is.mapM (Statement.render p) = .error (.unknownOpcode i.opcode i.addr)
    | none => ∃ codes, is.mapM (Statement.render p) = .ok codes := by
  induction is with
  | nil => exact ⟨[], rfl⟩
  | cons i rest ih =>
    rw [List.forall_mem_cons] at decoded
    obtain ⟨⟨img, addr, read⟩, others⟩ := decoded
    have later := ih others
    rcases Statement.render_of_decode read with ⟨listed, code, made⟩ | ⟨missing, failed⟩
    · have skipped : firstUnknown? (i :: rest) = firstUnknown? rest := by
        simp [firstUnknown?, listed]
      rw [skipped]
      simp only [List.mapM_cons, made]
      cases found : firstUnknown? rest with
      | some j =>
        rw [found] at later
        simp only [later]
        rfl
      | none =>
        rw [found] at later
        obtain ⟨codes, all⟩ := later
        exact ⟨code :: codes, by rw [all]; rfl⟩
    · have here : firstUnknown? (i :: rest) = some i := by
        simp [firstUnknown?, missing]
      rw [here]
      simp only [List.mapM_cons, failed]
      rfl

theorem ofBlock_of_decoded {b : Block}
    (decoded : ∀ i ∈ b.instructions, ∃ img addr, Instruction.decode img p addr = .ok i) :
    match firstUnknown? b.instructions with
    | some i => ofBlock p b = .error (.unknownOpcode i.opcode i.addr)
    | none => ∃ f, ofBlock p b = .ok f := by
  have made := statements_of_decoded decoded
  cases found : firstUnknown? b.instructions with
  | some i =>
    rw [found] at made
    simp only [ofBlock, made]
    rfl
  | none =>
    rw [found] at made
    obtain ⟨codes, made⟩ := made
    simp only [ofBlock, made]
    exact ⟨_, rfl⟩

end Fragment

namespace Session

variable {d : Session} {img : Image} {stores : Array Store} {writes : Nat} {addr : UInt32}

-- Neither the session nor the store that it uses has a fragment for the address.
structure Misses (d : Session) (img : Image) (writes : Nat) (stores : Array Store)
    (addr : UInt32) : Prop where
  cache : (d.sync writes).cache[addr]? = none
  store : ∀ n, d.store = some n →
    ∀ f, (stores.getD n {}).get ((d.sync writes).imageKey img) addr ≠ .ok (some f)

theorem fragment_of_misses (misses : d.Misses img writes stores addr) :
    d.fragment img writes stores addr =
      (if d.store.isSome then (d.sync writes).withDigest img else d.sync writes).generateAndKeep img
        stores addr := by
  cases attached : d.store with
  | none => simp [fragment, misses.cache, store_sync, attached]
  | some n =>
    have key : ((d.sync writes).withDigest img).imageKey img = (d.sync writes).imageKey img := rfl
    have absent := misses.store n attached
    simp only [fragment, misses.cache, store_sync, attached, key, Option.isSome_some, if_true]
    rcases held : (stores.getD n {}).get ((d.sync writes).imageKey img) addr with fault | none | f
    · rfl
    · rfl
    · exact absurd held (absent f)

theorem answer_of_misses (misses : d.Misses img writes stores addr) :
    (d.fragment img writes stores addr).answer = d.generate img addr := by
  rw [fragment_of_misses misses, generateAndKeep_answer]
  split
  · exact congrFun (generate_sync d img writes) addr
  · exact congrFun (generate_sync d img writes) addr

/-- An instruction that was read has a statement exactly if its opcode has a template, and an
unknown opcode is the fault otherwise. A fragment that has to be generated fails as its block does,
else for the first instruction of the block without a template, and is made if there is none. -/
theorem fails_only_for_unknown_opcodes (d : Session) (img : Image) (addr : UInt32) :
    (∀ i, d.decode img addr = .ok i →
      ((∃ code, Statement.render d.profile i = .ok code) ↔ hasTemplate i.opcode = true) ∧
      (hasTemplate i.opcode = false →
        Statement.render d.profile i = .error (.unknownOpcode i.opcode addr))) ∧
    ∀ writes stores, d.Misses img writes stores addr →
      (∀ fault, d.disassemble img addr = .error fault →
        (d.fragment img writes stores addr).answer = .error fault) ∧
      ∀ b, d.disassemble img addr = .ok b →
        (∀ i, b.instructions.find? (fun i => !hasTemplate i.opcode) = some i →
          (d.fragment img writes stores addr).answer = .error (.unknownOpcode i.opcode i.addr)) ∧
        ((∀ i ∈ b.instructions, hasTemplate i.opcode = true) →
          ∃ f, (d.fragment img writes stores addr).answer = .ok f) := by
  constructor
  · intro i decoded
    rw [decode] at decoded
    split at decoded
    · cases decoded
    have here := Instruction.addr_of_decode decoded
    rcases Statement.render_of_decode decoded with ⟨listed, made⟩ | ⟨missing, failed⟩
    · simp [listed, made]
    · simp [missing, failed, here]
  intro writes stores misses
  rw [answer_of_misses misses, generate, Fragment.generate]
  constructor
  · intro fault failed
    rw [disassemble] at failed
    rw [failed]
    rfl
  intro b decoded
  rw [disassemble] at decoded
  rw [decoded]
  have read : ∀ i ∈ b.instructions, ∃ img addr, Instruction.decode img d.profile addr = .ok i := by
    intro i member
    obtain ⟨pos, read⟩ := (Block.forall_of_decode decoded).1 i member
    exact ⟨img, pos, read⟩
  have made := Fragment.ofBlock_of_decoded read
  constructor
  · intro i found
    rw [Fragment.firstUnknown?, found] at made
    exact made
  · intro listed
    -- nothing is found, so the other case of the match is the one that holds
    have none : Fragment.firstUnknown? b.instructions = none := by
      rw [Fragment.firstUnknown?, List.find?_eq_none]
      intro i member
      simp [listed i member]
    rw [none] at made
    exact made

-- Behind an instruction with a template, two without one: the first of them is the fault.
theorem fails_only_for_unknown_opcodes_first :
    let img := (Image.zeroed 544).write 256 [0xB4, 0x1D, 1, 2, 0xBE, 29, 0xFF, 0xB0]
    ∃ d, ofSettings { imageLength := 544 } = .ok d ∧ d.Misses img 0 #[] 256 ∧
      (d.fragment img 0 #[] 256).answer = .error (.unknownOpcode 29 257) := by
  intro img
  let d : Session := { profile := ⟨5, 0⟩, cap := 4096 }
  have misses : d.Misses img 0 #[] 256 := ⟨by simp [d, sync], by simp [d]⟩
  have found : (d.disassemble img 256).toOption.bind (fun b => (b.instructions.find?
      fun i => !hasTemplate i.opcode).map fun i => (i.opcode, i.addr)) = some (29, 257) := by
    decide +kernel
  simp only [Option.bind_eq_some_iff, Option.map_eq_some_iff, Prod.mk.injEq] at found
  obtain ⟨b, decoded, i, first, opcode, at_⟩ := found
  refine ⟨d, rfl, misses, ?_⟩
  cases answer : d.disassemble img 256 with
  | error fault =>
    rw [answer] at decoded
    cases decoded
  | ok b' =>
    rw [answer] at decoded
    cases decoded
    have failed := ((fails_only_for_unknown_opcodes d img 256).2 0 #[] misses).2 b answer
    rw [failed.1 i first, opcode, at_]

end Session

end ZCode

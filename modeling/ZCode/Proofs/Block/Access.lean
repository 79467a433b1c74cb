import ZCode.Proofs.Block.Fragment
import ZCode.Proofs.Script.Origin
import ZCode.Proofs.Session.Sharing

set_option autoImplicit false

namespace ZCode

open ZCode.Script Statement

inductive Access where
  | read (addr : UInt16)
  | readSigned (addr : UInt16)
  | write (addr : UInt16)
  deriving DecidableEq, Repr

namespace Access

def addr : Access → UInt16
  | read a | readSigned a | write a => a

def text : Access → String
  | read a => s!"e.m.getUint16({a})"
  | readSigned a => s!"e.m.getInt16({a})"
  | write a => s!"e.ram.setUint16({a},t)"

def phrase : Access → Phrase
  | read a => memory "m" "getUint16" [.number a.toNat]
  | readSigned a => memory "m" "getInt16" [.number a.toNat]
  | write a => memory "ram" "setUint16" [.number a.toNat, .name "t"]

theorem text_write (a : UInt16) : (write a).text = s!"e.ram.setUint16({a},t)" := rfl

theorem spells_text (a : Access) : Spells a.text a.phrase := by
  cases a with
  | read a => exact spells_operand ⟨.global, a⟩
  | readSigned a => exact spells_operand ⟨.signedGlobal, a⟩
  | write a =>
    simp [Spells, text_write, phrase, memory, runtime, Phrase.tokens, Phrase.listed, Token.spelling,
      toString_self, toList_word]

theorem parse?_text (a : Access) : parse? (a.text ++ ";") = some [.expr a.phrase.expr] := by
  have fits : [Clause.simple (.expr a.phrase)].all Clause.fits = true := by
    cases a <;> rfl
  have line : a.text.toList ++ [';'] = lineChars [Clause.simple (.expr a.phrase)] :=
    Effect.Written.line (show (Effect.value a.phrase).Written a.text from a.spells_text)
  refine Grammar.parse?_eq_some_iff.mpr ⟨_, ?_, (Clause.derived_line _ fits).body⟩
  rw [String.toList_append, show ";".toList = [';'] from rfl, line, lineChars,
    Lexeme.ofText?_lexemes (Clause.neat_line _ fits), Clause.filterMap_line]

theorem assign_of_isGlobal (p : Profile) {v : UInt8} (isGlobal : 16 ≤ v) (code : String) :
    assign p v code = "t=" ++ code ++ "," ++ (write (p.globalAddr v)).text ++ ",t" := by
  have notLocal : ¬ v < 16 := UInt8.not_lt.mpr isGlobal
  have notStack : ¬ v == 0 := by
    rw [beq_iff_eq]
    rintro rfl
    exact absurd isGlobal (by decide)
  rw [assign, if_neg notStack, if_neg notLocal, ← String.toList_inj]
  simp [text_write, toString_self]

end Access

def Operand.access? (op : Operand) : Option Access :=
  match op.kind with
  | .global => some (.read op.value)
  | .signedGlobal => some (.readSigned op.value)
  | _ => none

theorem Operand.exists_access {op : Operand} (isGlobal : op.isGlobal = true) :
    ∃ a, op.access? = some a := by
  obtain ⟨kind, value⟩ := op
  cases kind with
  | global | signedGlobal => exact ⟨_, rfl⟩
  | _ => cases isGlobal

theorem Operand.of_access {op : Operand} {a : Access} (found : op.access? = some a) :
    op.isGlobal = true ∧ op.value = a.addr ∧ operand op = a.text := by
  obtain ⟨kind, value⟩ := op
  cases kind with
  | global | signedGlobal =>
    cases found
    exact ⟨rfl, rfl, rfl⟩
  | _ => cases found

-- Only a number from 16 on is written as an operand that names a global.
theorem Written.value_of_isGlobal {p : Profile} {signed : Bool} {w : Written}
    (isGlobal : (w.operand p signed).isGlobal = true) :
    ∃ v, 16 ≤ v ∧ (w.operand p signed).value = p.globalAddr v := by
  cases w with
  | large | small => cases signed <;> cases isGlobal
  | byNumber v =>
    by_cases low : v.toNat = 0
    · simp only [Written.operand, if_pos low] at isGlobal
      cases signed <;> cases isGlobal
    by_cases high : v.toNat ≤ 15
    · simp only [Written.operand, if_neg low, if_pos high] at isGlobal
      cases signed <;> cases isGlobal
    have above : 15 < v.toNat := by omega
    refine ⟨v, UInt8.le_iff_toNat_le.mpr above, ?_⟩
    simp only [Written.operand, if_neg low, if_neg high, Instruction.globalAddr_eq p v above]

namespace Instruction

variable {img : Image} {p : Profile} {pos : UInt32} {i : Instruction}

/-- The globals that an instruction reads as operands and writes through its store byte. -/
def accesses (p : Profile) (i : Instruction) : List Access :=
  i.operands.filterMap Operand.access? ++
    if i.stores then (i.result.toList.filter (16 ≤ ·)).map fun v => .write (p.globalAddr v) else []

theorem access_of_stored {v : UInt8} (stores : i.stores = true) (held : i.result = some v)
    (isGlobal : 16 ≤ v) : Access.write (p.globalAddr v) ∈ i.accesses p := by
  simp [accesses, stores, held, isGlobal]

theorem value_of_isGlobal (decoded : decode img p pos = .ok i) {op : Operand}
    (member : op ∈ i.operands) (isGlobal : op.isGlobal = true) :
    ∃ v, 16 ≤ v ∧ op.value = p.globalAddr v := by
  obtain ⟨l, -, -, rfl⟩ := (decode_eq_ok_iff img p pos i).mp decoded
  simp only [Layout.instruction, List.mem_mapIdx] at member
  obtain ⟨k, _, rfl⟩ := member
  exact Written.value_of_isGlobal isGlobal

theorem addr_of_access (decoded : decode img p pos = .ok i) {a : Access}
    (member : a ∈ i.accesses p) : ∃ v, 16 ≤ v ∧ a.addr = p.globalAddr v := by
  rcases List.mem_append.mp member with read | written
  · obtain ⟨op, among, found⟩ := List.mem_filterMap.mp read
    obtain ⟨isGlobal, value, -⟩ := Operand.of_access found
    exact value ▸ value_of_isGlobal decoded among isGlobal
  · split at written
    · obtain ⟨v, among, rfl⟩ := List.mem_map.mp written
      exact ⟨v, by simpa using (List.mem_filter.mp among).2, rfl⟩
    · cases written

end Instruction

namespace Script

variable {α : Type} {s s₁ : State}

theorem Gives.not_throws {x : Run α} {a : α} {ex : Exception} (given : Gives x s a s₁) :
    ¬ Throws x s ex := by
  intro thrown
  rw [Throws, show x.run.run s = _ from given] at thrown
  cases thrown

theorem exists_readWord {a : Nat} (inside : a + 2 ≤ s.machine.memory.length) :
    ∃ w, Gives (readWord (.ofInt a)) s w s := by
  rw [Image.length] at inside
  have first : s.machine.memory.bytes[a]? = some (s.machine.memory.bytes[a]) :=
    Array.getElem?_eq_getElem (by omega)
  have second : s.machine.memory.bytes[a + 1]? = some (s.machine.memory.bytes[a + 1]) :=
    Array.getElem?_eq_getElem (by omega)
  refine ⟨Image.word s.machine.memory.bytes[a] s.machine.memory.bytes[a + 1],
    (gives_offset (Int.natCast_nonneg a)).bind (gives_getMachine.bind ?_)⟩
  rw [Int.toNat_natCast, first, second]
  exact gives_pure _

theorem not_throws_writeWord {a : Nat} (inside : a + 2 ≤ s.machine.memory.length) {w : UInt16}
    {ex : Exception} : ¬ Throws (writeWord (.ofInt a) w) s ex := by
  have place := gives_offset (s := s) (Int.natCast_nonneg a)
  intro thrown
  rcases throws_bind_iff.mp thrown with never | ⟨pos, s₁, located, later⟩
  · exact place.not_throws never
  obtain ⟨rfl, rfl⟩ := located.unique place
  rcases throws_bind_iff.mp later with ⟨⟨⟩⟩ | ⟨m, s₂, read, last⟩
  cases read
  rw [if_neg (by simpa using inside)] at last
  cases last

theorem gives_method {view method : String} {k : Method} (bound : Bound s)
    (viewed : runtimeMember s.machine view = .object .memory)
    (named : memoryMember method = .object (.method k)) :
    Gives (eval (Phrase.member (runtime view) method).expr) s (.object (.method k)) s := by
  have object : Gives (eval (runtime view).expr) s (.object .memory) s := by
    rw [← viewed]
    exact (gives_name bound).member rfl
  refine object.member ?_
  rw [← named]
  exact gives_pure _

end Script

namespace Access

variable {s : State} {a : Access}

theorem not_raises (bound : Bound s) (inside : a.addr.toNat + 2 ≤ s.machine.memory.length) :
    ¬ Raises .rangeError a.phrase.expr s := by
  rintro ⟨callee, arguments, v, vs, s₁, s₂, same, called, passed, thrown⟩
  cases a with
  | read a | readSigned a =>
    cases same
    obtain ⟨rfl, rfl⟩ := called.unique (gives_method bound rfl rfl)
    obtain ⟨rfl, rfl⟩ := passed.unique ((gives_number _).cons gives_nil)
    obtain ⟨w, read⟩ := exists_readWord inside
    exact read.not_throws (throws_first_of_pure thrown)
  | write a =>
    cases same
    obtain ⟨rfl, rfl⟩ := called.unique (gives_method bound rfl rfl)
    obtain ⟨_, ws, s₃, address, others, rfl⟩ := gives_evalAll_cons_iff.mp passed
    obtain ⟨rfl, rfl⟩ := address.unique (gives_number a.toNat)
    obtain ⟨w, _, s₄, value, done, rfl⟩ := gives_evalAll_cons_iff.mp others
    obtain ⟨rfl, rfl⟩ := gives_pure_iff.mp done
    -- looking up the temporary changes nothing
    obtain rfl : s₄ = s₃ := (preserves_lookup (I := (· = s₃)) "t").gives value rfl
    exact not_throws_writeWord inside (throws_first_of_pure thrown)

end Access

-- The runtime object has its name, and memory at least this length.
def Ready (length : Nat) (s : State) : Prop :=
  Bound s ∧ length ≤ s.machine.memory.length

theorem lasts_ready (length : Nat) : Lasts (Ready length) fun t => t ≠ .name "e" where
  words s m resembles := by
    rintro ⟨bound, room⟩
    exact ⟨bound, room.trans_eq resembles.memory.symm⟩
  member f _ v x s := by
    rintro ⟨bound, room⟩
    refine ⟨(keeps_setMember (by simp) v x s).trans bound, ?_⟩
    simp only [setMember]
    split <;> exact room
  name x free v s := by
    rintro ⟨bound, room⟩
    exact ⟨(keeps_declare free.symm v s).trans bound, room⟩

namespace Fragment

variable {img : Image} {p : Profile} {b : Block} {f : Fragment}

theorem unnamed_of_sensible {is : List Instruction} (sensible : ∀ i ∈ is, Block.Sensible p i) :
    ∀ t ∈ (Stmt.block (declaration :: is.flatMap (stmts p))).writes, t ≠ .name "e" := by
  have lines : ∀ t ∈ Stmt.writesAll (is.flatMap (stmts p)), t ≠ .name "e" := by
    rintro t member rfl
    rw [Stmt.writesAll_eq, List.flatMap_assoc, List.mem_flatMap] at member
    obtain ⟨i, inside, written⟩ := member
    obtain ⟨n, op, cs, shaped, found, line⟩ := sensible i inside
    rw [← Stmt.writesAll_eq, line, writesAll_stmts, List.mem_flatMap] at written
    obtain ⟨c, among, at_⟩ := written
    exact tame_sense shaped found c among at_
  exact List.forall_mem_append.mpr ⟨by decide, lines⟩

theorem not_thrownBy_access
    (members : ∀ i ∈ b.instructions, ∃ pos, Instruction.decode img p pos = .ok i)
    (made : ofBlock p b = .ok f) {m : Machine} {a : Access}
    (inside : a.addr.toNat + 2 ≤ m.memory.length) :
    ¬ ThrownBy m f.code .rangeError a.phrase.expr := by
  rintro ⟨body, s, read, reached, raises⟩
  rw [parse?_code members made] at read
  split at read
  · cases read
  next whole =>
    cases read
    have sensible := Block.sensible_of_read members made (Bool.eq_false_of_not_eq_true whole)
    -- when the run comes to the access, the runtime object still has its name and memory its length
    obtain ⟨bound, room⟩ := (lasts_ready (a.addr.toNat + 2)).reachedBy reached
      (unnamed_of_sensible sensible) ⟨rfl, inside⟩
    exact Access.not_raises bound room raises

end Fragment

namespace Session

/-- Settings make a session exactly if they are valid. The instructions of such a session access
globals at addresses of sixteen bits that their statements spell out, and both bytes there are inside
the image, also where the address wraps around. A script leaves memory exactly if it comes to a call
that does, and on a memory of that length none of these accesses is that call. -/
theorem direct_accesses_inside (s : Settings) :
    (∀ fault, ofSettings s = .error fault ↔ s.validate = .error fault) ∧
    ((∃ d, ofSettings s = .ok d) ↔ s.validate = .ok ()) ∧
    ∀ d, ofSettings s = .ok d →
      (∀ img pos i, d.decode img pos = .ok i →
        (∀ op ∈ i.operands, op.isGlobal = true →
          ∃ a ∈ i.accesses d.profile, operand op = a.text) ∧
        (∀ v, i.stores = true → i.result = some v → 16 ≤ v →
          ∃ a ∈ i.accesses d.profile, ∀ code,
            assign d.profile v code = "t=" ++ code ++ "," ++ a.text ++ ",t") ∧
        ∀ a ∈ i.accesses d.profile, a.addr.toNat + 2 ≤ s.imageLength.toNat ∧
          ∃ v : UInt8, 16 ≤ v ∧ a.addr.toNat = (s.globals.toNat + 2 * (v.toNat - 16)) % 65536) ∧
      ∀ img addr b f, d.disassemble img addr = .ok b → d.generate img addr = .ok f →
        ∀ m : Machine, s.imageLength.toNat ≤ m.memory.length →
          ((run m f.code).1 = .thrown .rangeError ↔ ∃ c, ThrownBy m f.code .rangeError c) ∧
          ∀ c, ThrownBy m f.code .rangeError c →
            ∀ i ∈ b.instructions, ∀ a ∈ i.accesses d.profile,
              parse? (a.text ++ ";") ≠ some [.expr c] := by
  refine ⟨ofSettings_eq_error_iff s, exists_ofSettings_iff s, fun d built => ?_⟩
  have room := Fragment.globals_of_validate ((exists_ofSettings_iff s).mp ⟨d, built⟩)
  have profile : d.profile = ⟨s.version, s.globals⟩ := by rw [ofSettings_eq built]
  have inside {img : Image} {pos : UInt32} {i : Instruction}
      (decoded : Instruction.decode img d.profile pos = .ok i) (a : Access)
      (member : a ∈ i.accesses d.profile) : a.addr.toNat + 2 ≤ s.imageLength.toNat ∧
        ∃ v : UInt8, 16 ≤ v ∧ a.addr.toNat = (s.globals.toNat + 2 * (v.toNat - 16)) % 65536 := by
    obtain ⟨v, isGlobal, address⟩ := Instruction.addr_of_access decoded member
    rw [profile] at address
    rw [address]
    refine ⟨globalAddr_inside room v isGlobal, v, isGlobal, ?_⟩
    rw [Instruction.globalAddr_eq _ v (UInt8.le_iff_toNat_le.mp isGlobal), UInt16.toNat_ofNat']
  refine ⟨fun img pos i decoded => ⟨fun op member isGlobal => ?_, fun v stores held isGlobal => ?_,
    ?_⟩, fun img addr b f decoded generated m large => ⟨thrown_iff_thrownBy, ?_⟩⟩
  · obtain ⟨a, found⟩ := Operand.exists_access isGlobal
    exact ⟨a, List.mem_append_left _ (List.mem_filterMap.mpr ⟨op, member, found⟩),
      (Operand.of_access found).2.2⟩
  · exact ⟨_, Instruction.access_of_stored stores held isGlobal,
      Access.assign_of_isGlobal d.profile isGlobal⟩
  · rw [decode] at decoded
    split at decoded
    · cases decoded
    · exact inside decoded
  · intro c thrown i member a among
    have members := (Block.forall_of_decode decoded).1
    obtain ⟨pos, met⟩ := members i member
    have made : Fragment.ofBlock d.profile b = .ok f := by
      obtain ⟨b', again, made⟩ := Fragment.generate_eq_ok_iff.mp generated
      obtain rfl : b = b' := Except.ok.inj (decoded.symm.trans again)
      exact made
    rw [Access.parse?_text]
    rintro ⟨⟩
    exact Fragment.not_thrownBy_access members made ((inside met a among).1.trans large) thrown

-- Globals 16, 24 and 255 of a table near the end of the addresses: the first is read where the
-- table starts, and the others are found at the start of the image.
theorem direct_accesses_inside_wrapped :
    let img : Image := ⟨#[0x74, 16, 24, 255, 0xB0], by decide⟩
    ∃ d i f, ofSettings { imageLength := 66000, globals := 65520 } = .ok d ∧
      d.decode img 0 = .ok i ∧ d.generate img 0 = .ok f ∧
      i.accesses d.profile = [Access.read 65520, .read 0, .write 462] ∧
      (∀ a ∈ [Access.read 65520, .read 0, .write 462], a.addr.toNat + 2 ≤ 66000) ∧
      ∀ m : Machine, 66000 ≤ m.memory.length → ∀ c, ThrownBy m f.code .rangeError c →
        parse? ("e.ram.setUint16(462,t)" ++ ";") ≠ some [.expr c] := by
  intro img
  let d : Session := { profile := ⟨5, 65520⟩, cap := 4096 }
  let i : Instruction :=
    { addr := 0, opcode := 20, operands := [⟨.global, 65520⟩, ⟨.global, 0⟩], result := some 255,
      stores := true, next := 4 }
  have built : ofSettings { imageLength := 66000, globals := 65520 } = .ok d := rfl
  have decoded : d.decode img 0 = .ok i := by decide +kernel
  have whole : d.disassemble img 0 = .ok ⟨0, [i,
      { addr := 4, opcode := 176, next := 5, endsBlock := true }]⟩ := by
    decide +kernel
  have renders : (d.generate img 0).toOption.isSome = true := by decide +kernel
  obtain ⟨f, found⟩ := Option.isSome_iff_exists.mp renders
  have generated := Block.ok_of_toOption found
  have accesses : i.accesses d.profile = [Access.read 65520, .read 0, .write 462] := by decide +kernel
  obtain ⟨spelled, running⟩ := (direct_accesses_inside _).2.2 d built
  obtain ⟨-, -, inside⟩ := spelled img 0 i decoded
  refine ⟨d, i, f, built, decoded, generated, accesses, fun a member => ?_, fun m large c thrown => ?_⟩
  · exact (inside a (accesses ▸ member)).1
  · exact (running img 0 _ f whole generated m large).2 c thrown i List.mem_cons_self (.write 462)
      (accesses ▸ by decide)

end Session

end ZCode

import ZCode.Proofs.Block.Outcome
import ZCode.Proofs.Session.Freshness

set_option autoImplicit false

namespace ZCode

-- The same story with its globals further on.
def Profile.moved (p : Profile) (shift : UInt16) : Profile :=
  { p with globals := p.globals + shift }

theorem Profile.eq_moved {p p' : Profile} (version : p.version = p'.version) :
    p' = p.moved (p'.globals - p.globals) := by
  have globals : p'.globals = p.globals + (p'.globals - p.globals) := by
    rw [UInt16.add_comm, UInt16.sub_add_cancel]
  rw [moved, version, ← globals]

def Operand.isGlobal (op : Operand) : Bool :=
  op.kind == .global || op.kind == .signedGlobal

def Operand.moved (shift : UInt16) (op : Operand) : Operand :=
  if op.isGlobal then { op with value := op.value + shift } else op

namespace Instruction

variable {img : Image} {p : Profile} {addr : UInt32} {shift : UInt16} {i : Instruction}

def moved (shift : UInt16) (i : Instruction) : Instruction :=
  { i with operands := i.operands.map (Operand.moved shift) }

-- An operand or the store byte names a global.
def touchesGlobal (i : Instruction) : Bool :=
  i.operands.any Operand.isGlobal || i.result.any (16 ≤ ·)

theorem moved_of_untouched (untouched : i.touchesGlobal = false) : i.moved shift = i := by
  simp only [touchesGlobal, Bool.or_eq_false_iff, List.any_eq_false] at untouched
  have same : i.operands.map (Operand.moved shift) = i.operands := by
    refine (List.map_congr_left fun op member => ?_).trans (List.map_id _)
    rw [Operand.moved, if_neg (untouched.1 op member), id]
  rw [moved, same]

theorem variableOperand_moved (signed : Bool) (v : UInt8) :
    variableOperand (p.moved shift) signed v = (variableOperand p signed v).moved shift := by
  have address : (p.moved shift).globalAddr v = p.globalAddr v + shift := by
    simp only [Profile.globalAddr, Profile.moved]
    rw [UInt16.add_assoc, UInt16.add_comm shift, ← UInt16.add_assoc]
  rw [variableOperand, variableOperand]
  split_ifs <;> cases signed <;> simp_all [Operand.moved, Operand.isGlobal]

theorem readOperand_moved (signed : Bool) (e : Encoding) :
    readOperand img (p.moved shift) signed e =
      Operand.moved shift <$> readOperand img p signed e := by
  have constant (w : UInt16) : Operand.moved shift
      ⟨if signed then .signedConstant else .constant, w⟩ =
        ⟨if signed then .signedConstant else .constant, w⟩ := by
    cases signed <;> simp [Operand.moved, Operand.isGlobal]
  cases e <;> simp [readOperand, constant, variableOperand_moved]

theorem readOperands_moved (shape : Shape) (k : Nat) (encodings : List Encoding) :
    readOperands img (p.moved shift) shape k encodings =
      List.map (Operand.moved shift) <$> readOperands img p shape k encodings := by
  induction encodings generalizing k with
  | nil => simp [readOperands]
  | cons e rest ih => simp [readOperands, readOperand_moved, ih]

theorem readBody_moved (opcode : UInt16) (encodings : Option (List Encoding)) :
    readBody img (p.moved shift) addr opcode encodings =
      moved shift <$> readBody img p addr opcode encodings := by
  have version : (p.moved shift).version = p.version := rfl
  simp only [readBody, version, readOperands_moved]
  simp [moved]

theorem finish_moved (opcode : UInt16) (encodings : Option (List Encoding)) (pos : UInt32) :
    finish img (p.moved shift) addr opcode encodings pos =
      (finish img p addr opcode encodings pos).map (moved shift) := by
  rw [finish, finish, readBody_moved, StateT.run_map]
  cases (readBody img p addr opcode encodings).run pos <;> rfl

theorem decode_moved : decode img (p.moved shift) addr = (decode img p addr).map (moved shift) := by
  simp only [decode, finish_moved]
  split
  · rfl
  split
  · rfl
  · rfl
  split <;> rfl

end Instruction

def Walk.moved (shift : UInt16) (w : Walk) : Walk :=
  { w with instructions := w.instructions.map (Instruction.moved shift) }

-- How many instructions the walk set out to read.
def Walk.span (w : Walk) : Nat :=
  match w.ending with
  | .broken _ => w.instructions.length + 1
  | _ => w.instructions.length

namespace Block

variable {img : Image} {p p' : Profile} {cap : Nat} {addr stop : UInt32} {shift : UInt16}
  {is : List Instruction}

theorem walkFrom_moved (limit : Nat) (pos : UInt32) (met : List Instruction) :
    walkFrom img (p.moved shift) limit pos (met.map (Instruction.moved shift)) =
      (walkFrom img p limit pos met).moved shift := by
  induction limit generalizing pos met with
  | zero => simp [walkFrom, Walk.moved]
  | succ limit ih =>
    rw [walkFrom, walkFrom, Instruction.decode_moved]
    cases Instruction.decode img p pos with
    | error fault => simp [Except.map, Walk.moved]
    | ok i =>
      have later := ih i.next (i :: met)
      by_cases ends : i.endsBlock = true
      next => simp [Except.map, Walk.moved, Instruction.moved, ends]
      next => simpa [Except.map, Instruction.moved, ends] using later

theorem walk_of_version (version : p.version = p'.version) :
    walk img p' 0 addr = (walk img p 0 addr).moved (p'.globals - p.globals) := by
  rw [Profile.eq_moved version, walk, ← List.map_nil, walkFrom_moved, ← walk, ← Profile.eq_moved version]

theorem span_of_version (version : p.version = p'.version) :
    (walk img p' 0 addr).span = (walk img p 0 addr).span := by
  rw [walk_of_version version, Walk.span, Walk.span]
  simp [Walk.moved]

-- No instruction that a walk meets names a global.
def Untouched (img : Image) (p : Profile) (addr : UInt32) : Prop :=
  ∀ i ∈ (walk img p 0 addr).instructions, i.touchesGlobal = false

theorem walk_of_untouched (version : p.version = p'.version) (untouched : Untouched img p addr) :
    walk img p' 0 addr = walk img p 0 addr := by
  have same : ∀ i ∈ (walk img p 0 addr).instructions,
      i.moved (p'.globals - p.globals) = i :=
    fun i member => Instruction.moved_of_untouched (untouched i member)
  rw [walk_of_version version, Walk.moved, List.map_congr_left same, List.map_id']

theorem Passes.take (passed : Passes img p addr is stop) (n : Nat) :
    ∃ mid, Passes img p addr (is.take n) mid := by
  induction is generalizing addr n with
  | nil => exact ⟨addr, by simp [Passes]⟩
  | cons i rest ih =>
    cases n with
    | zero => exact ⟨addr, by simp [Passes]⟩
    | succ n =>
      obtain ⟨decoded, stays, later⟩ := passed
      obtain ⟨mid, before⟩ := ih later n
      exact ⟨mid, decoded, stays, before⟩

theorem decode_of_cut_off (passed : Passes img p addr is stop) (limited : 0 < cap)
    (short : cap ≤ is.length) : decode img p cap addr = .error (.blockTooLong addr cap) := by
  obtain ⟨mid, before⟩ := passed.take cap
  have count : (is.take cap).length = cap := List.length_take_of_le short
  have some : is.take cap ≠ [] := List.length_pos_iff.mp (by omega)
  have inside := before.advance
  have cut := walk_of_passes_of_cap before some
  rw [count] at cut
  rw [decode_of_inside (by have := inside.2 some; omega), cut, count]

theorem decode_of_cap (img : Image) (p : Profile) (cap : Nat) (addr : UInt32) :
    decode img p cap addr = if cap = 0 ∨ (walk img p 0 addr).span ≤ cap then decode img p 0 addr
      else .error (.blockTooLong addr cap) := by
  rcases walk_cases img p 0 addr with
    ⟨init, stop, last, passed, met, ends, free⟩ | ⟨init, stop, fault, passed, failed, free⟩ |
      ⟨init, stop, -, some, none⟩
  next =>
    have whole := walk_of_passes_of_ends passed met ends free
    rw [whole]
    split
    next fits =>
      simp only [Walk.span, List.length_append, List.length_singleton] at fits
      have within : cap = 0 ∨ init.length < cap := by omega
      rw [decode, decode, whole, walk_of_passes_of_ends passed met ends within]
    next cut =>
      simp only [Walk.span, List.length_append, List.length_singleton] at cut
      exact decode_of_cut_off passed (by omega) (by omega)
  next =>
    have whole := walk_of_passes_of_fault passed failed free
    rw [whole]
    split
    next fits =>
      simp only [Walk.span] at fits
      have within : cap = 0 ∨ init.length < cap := by omega
      rw [decode, decode, whole, walk_of_passes_of_fault passed failed within]
    next cut =>
      simp only [Walk.span] at cut
      exact decode_of_cut_off passed (by omega) (by omega)
  next => exact absurd (List.length_eq_zero_iff.mp none) some

theorem instructions_of_decode {b : Block} (decoded : decode img p cap addr = .ok b) :
    b.instructions = (walk img p 0 addr).instructions := by
  obtain ⟨init, stop, last, passed, met, ends, -, rfl⟩ := (decode_eq_ok_iff cap b).mp decoded
  rw [walk_of_passes_of_ends passed met ends (.inl rfl)]

theorem callTarget?_of_version (version : p.version = p'.version) :
    callTarget? p = callTarget? p' := by
  funext i
  simp only [callTarget?, version]

end Block

namespace Statement

variable {p p' : Profile} {i : Instruction}

theorem body_of_version (version : p.version = p'.version) (ops : List String) (op : Op) :
    body p i ops op = body p' i ops op := by
  cases op <;> simp only [body, resumption, version]

theorem render_of_untouched (version : p.version = p'.version) (untouched : i.touchesGlobal = false) :
    render p i = render p' i := by
  have assigned (v : UInt8) (held : i.result = some v) (code : String) :
      assign p v code = assign p' v code := by
    simp only [Instruction.touchesGlobal, held, Bool.or_eq_false_iff, Option.any_some,
      decide_eq_false_iff_not, UInt8.not_le] at untouched
    have low := untouched.2
    simp only [assign, low, if_true]
  simp only [render, body_of_version version, storeVariable]
  cases held : i.result with
  | none => simp only [bind, Except.bind]
  | some v => simp only [bind, Except.bind, assigned v held]

theorem error_of_bind {α β : Type} {x : Except Fault α} {f : α → Except Fault β} {fault : Fault}
    (failed : x >>= f = .error fault) : x = .error fault ∨ ∃ a, x = .ok a ∧ f a = .error fault := by
  cases x with
  | error fault' =>
    cases failed
    exact .inl rfl
  | ok a => exact .inr ⟨a, rfl, failed⟩

-- What may be missing for the statement of an instruction.
def lacks (i : Instruction) : List Fault :=
  [.unknownOpcode i.opcode i.addr, .noStoreVariable i.opcode i.addr, .noInlineText i.opcode i.addr]

theorem lacks_of_storeVariable {fault : Fault} (failed : storeVariable i = .error fault) :
    fault ∈ lacks i := by
  rw [storeVariable] at failed
  split at failed <;> cases failed
  simp [lacks]

theorem lacks_of_inlineText {fault : Fault} (failed : inlineText i = .error fault) :
    fault ∈ lacks i := by
  rw [inlineText] at failed
  split at failed <;> cases failed
  simp [lacks]

theorem lacks_of_body {ops : List String} {op : Op} {fault : Fault}
    (failed : body p i ops op = .error fault) : fault ∈ lacks i := by
  cases op
  case print | printRet =>
    rcases error_of_bind failed with missing | ⟨_, _, done⟩
    · exact lacks_of_inlineText missing
    · cases done
  case read =>
    simp only [body] at failed
    split at failed
    · cases failed
    · rcases error_of_bind failed with missing | ⟨_, _, done⟩
      · exact lacks_of_storeVariable missing
      · cases done
  case readChar | saveUndo =>
    rcases error_of_bind failed with missing | ⟨_, _, done⟩
    · exact lacks_of_storeVariable missing
    · cases done
  all_goals cases failed

theorem lacks_of_render {fault : Fault} (failed : render p i = .error fault) : fault ∈ lacks i := by
  cases known : i.op? with
  | none =>
    simp only [render, known] at failed
    cases failed
    simp [lacks]
  | some op =>
    simp only [render, known] at failed
    rcases error_of_bind failed with missing | ⟨effect, -, failed⟩
    · exact lacks_of_body missing
    by_cases stores : i.stores = true
    · rw [if_pos stores] at failed
      rcases error_of_bind failed with missing | ⟨_, -, failed⟩
      · exact lacks_of_storeVariable missing
      · cases failed
    · rw [if_neg stores] at failed
      cases failed

end Statement

namespace Fragment

variable {img : Image} {p p' : Profile} {cap cap' : Nat} {addr : UInt32} {b : Block}

theorem ofBlock_of_untouched (version : p.version = p'.version)
    (untouched : ∀ i ∈ b.instructions, i.touchesGlobal = false) : ofBlock p b = ofBlock p' b := by
  have statements (is : List Instruction) (untouched : ∀ i ∈ is, i.touchesGlobal = false) :
      is.mapM (Statement.render p) = is.mapM (Statement.render p') := by
    induction is with
    | nil => rw [List.mapM_nil, List.mapM_nil]
    | cons i rest ih =>
      rw [List.forall_mem_cons] at untouched
      rw [List.mapM_cons, List.mapM_cons, ih untouched.2,
        Statement.render_of_untouched version untouched.1]
  rw [ofBlock, ofBlock, statements _ untouched, Block.callTarget?_of_version version]

theorem exists_of_ofBlock {fault : Fault} (failed : ofBlock p b = .error fault) :
    ∃ i ∈ b.instructions, Statement.render p i = .error fault := by
  have statements (is : List Instruction) (failed : is.mapM (Statement.render p) = .error fault) :
      ∃ i ∈ is, Statement.render p i = .error fault := by
    induction is with
    | nil => cases failed
    | cons i rest ih =>
      rw [List.mapM_cons] at failed
      rcases Statement.error_of_bind failed with failed | ⟨_, -, failed⟩
      · exact ⟨i, by simp, failed⟩
      rcases Statement.error_of_bind failed with failed | ⟨_, -, failed⟩
      · obtain ⟨j, member, here⟩ := ih failed
        exact ⟨j, List.mem_cons_of_mem i member, here⟩
      · cases failed
  rcases Statement.error_of_bind failed with failed | ⟨_, -, failed⟩
  · exact statements _ failed
  · cases failed

-- Statements never fail for the length of a block.
theorem ofBlock_ne {at_ : UInt32} {n : Nat} : ofBlock p b ≠ .error (.blockTooLong at_ n) := by
  intro failed
  obtain ⟨i, -, unmade⟩ := exists_of_ofBlock failed
  simpa [Statement.lacks] using Statement.lacks_of_render unmade

-- The cap leaves room for all that a walk without one reads.
def Fits (img : Image) (p : Profile) (cap : Nat) (addr : UInt32) : Prop :=
  cap = 0 ∨ (Block.walk img p 0 addr).span ≤ cap

theorem fits_of_version (version : p.version = p'.version) :
    Fits img p cap addr ↔ Fits img p' cap addr := by
  rw [Fits, Fits, Block.span_of_version version]

theorem generate_of_fits (fits : Fits img p cap addr) :
    generate img p cap addr = generate img p 0 addr := by
  rw [Fits] at fits
  rw [generate, generate, Block.decode_of_cap, if_pos fits]

theorem generate_of_not_fits (cut : ¬ Fits img p cap addr) :
    generate img p cap addr = .error (.blockTooLong addr cap) := by
  rw [Fits] at cut
  rw [generate, Block.decode_of_cap, if_neg cut]
  rfl

theorem generate_uncapped_ne {at_ : UInt32} {n : Nat} :
    generate img p 0 addr ≠ .error (.blockTooLong at_ n) := by
  intro failed
  rcases Statement.error_of_bind failed with failed | ⟨b, -, failed⟩
  · have long : Block.ComesTo img p 0 addr .tooLong :=
      (Block.fails_iff_comesTo (by simp)).mp ⟨_, failed, rfl⟩
    exact absurd long.1 (Nat.lt_irrefl 0)
  · exact ofBlock_ne failed

theorem generate_eq_iff : generate img p cap addr = generate img p cap' addr ↔
    cap = cap' ∨ Fits img p cap addr ∧ Fits img p cap' addr := by
  by_cases fits : Fits img p cap addr <;> by_cases fits' : Fits img p cap' addr
  · simp [generate_of_fits fits, generate_of_fits fits', fits, fits']
  · have apart : cap ≠ cap' := by
      rintro rfl
      exact fits' fits
    simp [generate_of_fits fits, generate_of_not_fits fits', generate_uncapped_ne, fits', apart]
  · have apart : cap ≠ cap' := by
      rintro rfl
      exact fits fits'
    simp [generate_of_not_fits fits, generate_of_fits fits', generate_uncapped_ne.symm, fits, apart]
  · simp [generate_of_not_fits fits, generate_of_not_fits fits', fits]

theorem generate_of_untouched (version : p.version = p'.version)
    (untouched : Block.Untouched img p addr) (cap : Nat) :
    generate img p' cap addr = generate img p cap addr := by
  have same := Block.walk_of_untouched version untouched
  have decoded : Block.decode img p' cap addr = Block.decode img p cap addr := by
    rw [Block.decode_of_cap img p', Block.decode_of_cap img p, same, Block.decode, Block.decode, same]
  rw [generate, generate, decoded]
  cases found : Block.decode img p cap addr with
  | error fault => rfl
  | ok b =>
    refine (ofBlock_of_untouched version ?_).symm
    rw [Block.instructions_of_decode found]
    exact untouched

end Fragment

theorem Store.get_of_put {s : Store} {key : ImageKey} {addr : UInt32} {held : Option Fragment}
    (readable : s.get key addr = .ok held) (f : Fragment) :
    ∃ t, s.put key f = .ok t ∧ t.get key f.addr = .ok (some f) := by
  rw [get] at readable
  split at readable
  · cases readable
  next stays =>
    refine ⟨_, by rw [put, if_neg stays], ?_⟩
    simp [get, shelf, stays]

namespace Session

variable {d d' : Session} {img : Image} {stores : Array Store} {n writes : Nat} {addr : UInt32}

theorem blank_sync (blank : d.Blank) (writes : Nat) : (d.sync writes).Blank := by
  rw [sync]
  split
  · exact blank
  · exact blank_invalidate d writes

theorem generate_sync (d : Session) (img : Image) (writes : Nat) :
    (d.sync writes).generate img = d.generate img := by
  rw [sync]
  split <;> rfl

-- The key that a session files the fragments of an image under.
def currentKey (d : Session) (img : Image) : ImageKey :=
  ⟨Digest.ofBytes img.bytes, d.profile.version⟩

theorem imageKey_of_blank (blank : d.Blank) (img : Image) (writes : Nat) :
    ((d.sync writes).withDigest img).imageKey img = d.currentKey img := by
  have agrees := ((blank_sync blank writes).agrees img).withDigest
  rw [imageKey_of_agrees agrees, currentKey, withDigest, sync]
  split <;> rfl

theorem generateAndKeep_answer (d : Session) (img : Image) (stores : Array Store) (addr : UInt32) :
    (d.generateAndKeep img stores addr).answer = d.generate img addr := by
  rw [generateAndKeep]
  split
  next failed => exact failed.symm
  next made =>
    split
    · exact made.symm
    · exact made.symm

theorem fragment_of_found {f : Fragment} (blank : d.Blank) (attached : d.store = some n)
    (found : (stores.getD n {}).get (d.currentKey img) addr = .ok (some f)) :
    (d.fragment img writes stores addr).answer = .ok f := by
  have stored : (d.sync writes).store = some n := by
    rw [sync]
    split <;> exact attached
  simp only [fragment, (blank_sync blank writes).cache addr, stored, imageKey_of_blank blank, found]

theorem fragment_of_missing (writes : Nat) (blank : d.Blank) (attached : d.store = some n)
    (missing : (stores.getD n {}).get (d.currentKey img) addr = .ok none) :
    let fetched := d.fragment img writes stores addr
    fetched.answer = d.generate img addr ∧
      (∀ fault, d.generate img addr = .error fault → fetched.stores = stores) ∧
      ∀ f t, d.generate img addr = .ok f → (stores.getD n {}).put (d.currentKey img) f = .ok t →
        fetched.stores = stores.setIfInBounds n t := by
  have stored : (d.sync writes).store = some n := by
    rw [sync]
    split <;> exact attached
  have fresh : d.fragment img writes stores addr =
      ((d.sync writes).withDigest img).generateAndKeep img stores addr := by
    simp only [fragment, (blank_sync blank writes).cache addr, stored, imageKey_of_blank blank,
      missing]
  have generated : ((d.sync writes).withDigest img).generate img = d.generate img :=
    generate_sync d img writes
  simp only [fresh]
  refine ⟨?_, ?_, ?_⟩
  · rw [generateAndKeep_answer, generated]
  · intro fault failed
    simp only [generateAndKeep, generated, failed]
  · intro f t made kept
    have attached' : ((d.sync writes).withDigest img).store = some n := stored
    simp only [generateAndKeep, generated, made, attached', imageKey_of_blank blank, kept]

theorem blank_of_ofSettings {s : Settings} (made : ofSettings s = .ok d) : d.Blank ∧ d.store = none := by
  rw [ofSettings_eq made]
  exact ⟨⟨fun addr => by simp, rfl⟩, rfl⟩

-- The fragment at an address as a new session without a store answers it.
def own (d : Session) (img : Image) (addr : UInt32) : Except Fault Fragment :=
  (d.fragment img 0 #[] addr).answer

theorem own_eq_generate {s : Settings} (made : ofSettings s = .ok d) :
    d.own img addr = d.generate img addr := by
  obtain ⟨blank, detached⟩ := blank_of_ofSettings made
  have stored : (d.sync 0).store = none := by
    rw [sync]
    split <;> exact detached
  simp only [own, fragment, (blank_sync blank 0).cache addr, stored, generateAndKeep_answer,
    generate_sync]

-- What a new session answers from store `n` once the other has fetched the same address.
def served (d' d : Session) (img : Image) (stores : Array Store) (n : Nat) (addr : UInt32) :
    Except Fault Fragment :=
  let filled := ({ d with store := some n }.fragment img 0 stores addr).stores
  ({ d' with store := some n }.fragment img 0 filled addr).answer

theorem blank_attached (blank : d.Blank) (n : Nat) : { d with store := some n }.Blank :=
  ⟨blank.cache, blank.digest⟩

theorem served_eq {s s' : Settings} (made : ofSettings s = .ok d) (made' : ofSettings s' = .ok d')
    (version : d.profile.version = d'.profile.version) (inside : n < stores.size)
    (missing : (stores.getD n {}).get (d.currentKey img) addr = .ok none) :
    served d' d img stores n addr =
      match d.generate img addr with
      | .ok f => .ok f
      | .error _ => d'.generate img addr := by
  have key : d'.currentKey img = d.currentKey img := by
    rw [currentKey, currentKey, version]
  have blank := blank_attached (blank_of_ofSettings made).1 n
  have blank' := blank_attached (blank_of_ofSettings made').1 n
  obtain ⟨-, failing, keeping⟩ := fragment_of_missing 0 blank rfl missing
  rw [served]
  cases result : d.generate img addr with
  | error fault =>
    rw [failing fault result]
    rw [← key] at missing
    exact (fragment_of_missing 0 blank' rfl missing).1
  | ok f =>
    obtain ⟨t, kept, back⟩ := Store.get_of_put missing f
    rw [keeping f t result kept]
    rw [Fragment.addr_of_generate result, ← key] at back
    refine fragment_of_found blank' rfl ?_
    rw [Array.getD_eq_getD_getElem?, Array.getElem?_setIfInBounds_self_of_lt inside]
    exact back

-- The cap of the session leaves room for the block.
def Fits (d : Session) (img : Image) (addr : UInt32) : Prop :=
  Fragment.Fits img d.profile d.cap addr

theorem own_eq_iff {s s' : Settings} (made : ofSettings s = .ok d) (made' : ofSettings s' = .ok d')
    (version : d.profile.version = d'.profile.version)
    (globals : s.globals = s'.globals ∨ Block.Untouched img d.profile addr) :
    d.own img addr = d'.own img addr ↔ d.cap = d'.cap ∨ d.Fits img addr ∧ d'.Fits img addr := by
  have same (cap : Nat) : Fragment.generate img d'.profile cap addr =
      Fragment.generate img d.profile cap addr := by
    rcases globals with same | untouched
    next =>
      have profile : d'.profile = d.profile := by
        rw [ofSettings_eq made, ofSettings_eq made'] at version ⊢
        simp_all
      rw [profile]
    next => exact Fragment.generate_of_untouched version untouched cap
  rw [own_eq_generate made, own_eq_generate made', generate, generate, same, Fits, Fits,
    ← Fragment.fits_of_version version]
  exact Fragment.generate_eq_iff

/-- Sessions of one version answer alike, where the globals do not matter, unless one of two
different caps cuts the block off; an entry that one of them stored is the other's own answer
exactly if the other's cap leaves room for the block. -/
theorem stored_serves_iff_fits {s s' : Settings} {d d' : Session} (made : ofSettings s = .ok d)
    (made' : ofSettings s' = .ok d') (version : s.version = s'.version) (img : Image)
    (addr : UInt32) (globals : s.globals = s'.globals ∨ Block.Untouched img d.profile addr) :
    (d.own img addr = d'.own img addr ↔ d.cap = d'.cap ∨ d.Fits img addr ∧ d'.Fits img addr) ∧
    ∀ (stores : Array Store) (n : Nat), n < stores.size →
      (stores.getD n {}).get (d.currentKey img) addr = .ok none →
      (served d' d img stores n addr = d'.own img addr ↔
        ((d.own img addr).isOk = true → d'.Fits img addr)) := by
  have versions : d.profile.version = d'.profile.version := by
    rw [ofSettings_eq made, ofSettings_eq made', version]
  have alike := own_eq_iff made made' versions globals
  refine ⟨alike, ?_⟩
  intro stores n inside missing
  rw [served_eq made made' versions inside missing]
  rw [own_eq_generate made, own_eq_generate made'] at alike ⊢
  cases result : d.generate img addr with
  | error fault => simp [Except.isOk, Except.toBool]
  | ok f =>
    have fits : d.Fits img addr := by
      by_contra cut
      rw [generate, Fragment.generate_of_not_fits cut] at result
      cases result
    have equal (caps : d.cap = d'.cap) : d'.Fits img addr := by
      rw [Fits, ← caps, ← Fragment.fits_of_version versions]
      exact fits
    rw [result] at alike
    rw [alike]
    exact ⟨fun same _ => same.elim equal (·.2), fun needs => .inr ⟨fits, needs rfl⟩⟩

-- A block of two instructions, stored without a cap, is not the answer of a session that allows
-- one.
theorem stored_serves_iff_fits_two :
    let img := (Image.zeroed 544).write 256 [0xB4, 0xB0]
    ∃ d d', ofSettings { imageLength := 544, maxInstructions := 0 } = .ok d ∧
      ofSettings { imageLength := 544, maxInstructions := 1 } = .ok d' ∧
      served d' d img #[{}] 0 256 ≠ d'.own img 256 := by
  intro img
  let d : Session := { profile := ⟨5, 0⟩, cap := 0 }
  let d' : Session := { profile := ⟨5, 0⟩, cap := 1 }
  have made : ofSettings { imageLength := 544, maxInstructions := 0 } = .ok d := rfl
  have made' : ofSettings { imageLength := 544, maxInstructions := 1 } = .ok d' := rfl
  have complete : (d.generate img 256).isOk = true := by decide +kernel
  have cut : ¬ (d'.cap = 0 ∨ (Block.walk img d'.profile 0 256).span ≤ d'.cap) := by decide +kernel
  refine ⟨d, d', made, made', fun same => cut ?_⟩
  have serves := (stored_serves_iff_fits made made' rfl img 256 (.inl rfl)).2 #[{}] 0 (by decide)
    (by simp [Store.get, Store.shelf])
  rw [own_eq_generate made] at serves
  exact serves.mp same complete

-- Neither the cap nor the place of the globals is part of the key. The first block has two
-- instructions and the second returns a global.
theorem stored_entry_differs :
    let img := (Image.zeroed 544).write 256 [0xB4, 0xB0, 0, 0, 0xAB, 0x10]
    ∃ d d', ofSettings { imageLength := 544, globals := 64 } = .ok d ∧
      ofSettings { imageLength := 544, maxInstructions := 1 } = .ok d' ∧
      d.profile.version = d'.profile.version ∧
      served d' d img #[{}] 0 256 ≠ d'.own img 256 ∧
      served d' d img #[{}] 0 260 ≠ d'.own img 260 := by
  intro img
  let d : Session := { profile := ⟨5, 64⟩, cap := 4096 }
  let d' : Session := { profile := ⟨5, 0⟩, cap := 1 }
  have made : ofSettings { imageLength := 544, globals := 64 } = .ok d := rfl
  have made' : ofSettings { imageLength := 544, maxInstructions := 1 } = .ok d' := rfl
  have empty (addr : UInt32) : ((#[{}] : Array Store).getD 0 {}).get (d.currentKey img) addr =
      .ok none := by
    simp [Store.get, Store.shelf]
  have serves (addr : UInt32) := served_eq made made' rfl (by decide) (empty addr)
  refine ⟨d, d', made, made', rfl, ?_, ?_⟩
  · have stored : (d.generate img 256).isOk = true := by decide +kernel
    have own : (d'.generate img 256).isOk = false := by decide +kernel
    rw [serves, own_eq_generate made']
    cases written : d.generate img 256 with
    | error fault => simp [written, Except.isOk, Except.toBool] at stored
    | ok f =>
      intro same
      simp [← same, Except.isOk, Except.toBool] at own
  · have stored : ((d.generate img 260).toOption.map (·.code)) =
        some "var l=e.l,s=e.s,t=0;\n/* 260/139 */ return e.m.getUint16(64);" := by decide +kernel
    have own : ((d'.generate img 260).toOption.map (·.code)) =
        some "var l=e.l,s=e.s,t=0;\n/* 260/139 */ return e.m.getUint16(0);" := by decide +kernel
    rw [serves, own_eq_generate made']
    cases written : d.generate img 260 with
    | error fault => simp [written, Except.toOption] at stored
    | ok f =>
      intro same
      rw [written] at stored
      rw [← same] at own
      exact absurd (stored.symm.trans own) (by simp)

end Session

end ZCode

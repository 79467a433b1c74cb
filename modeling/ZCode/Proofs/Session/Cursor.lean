import ZCode.Proofs.Block.Outcome
import ZCode.Session

set_option autoImplicit false

namespace ZCode

namespace Cursor

theorem advance_ok {α : Type} {zero a : α} (size pos : UInt32) {read : Except Overrun α}
    (done : read = .ok a) : advance ⟨pos, none⟩ zero size read = (a, ⟨pos + size, none⟩) := by
  rw [done]
  rfl

theorem advance_error {α : Type} (zero : α) (size pos : UInt32) {read : Except Overrun α}
    {o : Overrun} (failed : read = .error o) :
    advance ⟨pos, none⟩ zero size read = (zero, ⟨pos, some o⟩) := by
  rw [failed]
  rfl

def byte (img : Image) : StateM Cursor UInt8 := fun c => c.u8 img

def word (img : Image) : StateM Cursor UInt16 := fun c => c.u16 img

def position : StateM Cursor UInt32 := fun c => (c.pos, c)

theorem room_of_going {img : Image} {c : Cursor} (going : (c.u16 img).2.overrun = none) :
    img.length - (c.u16 img).2.pos.toNat < img.length - c.pos.toNat := by
  obtain ⟨pos, overrun⟩ := c
  cases overrun with
  | some o => cases going
  | none =>
    cases read : img.u16 pos with
    | error o =>
      have stuck : u16 ⟨pos, none⟩ img = (0, ⟨pos, some o⟩) := advance_error 0 2 pos read
      rw [stuck] at going
      cases going
    | ok w =>
      have moved : u16 ⟨pos, none⟩ img = (w, ⟨pos + 2, none⟩) := advance_ok 2 pos read
      obtain ⟨step, inside⟩ := Image.u16_inside read
      rw [moved, step]
      dsimp only
      omega

def passText (img : Image) (c : Cursor) : Cursor :=
  let read := c.u16 img
  if _going : read.1 &&& 0x8000 = 0 ∧ read.2.overrun = none then passText img read.2 else read.2
termination_by img.length - c.pos.toNat
decreasing_by exact room_of_going _going.2

def readTypes (img : Image) (opcode : UInt16) : StateM Cursor (List Encoding) := do
  let first := Encoding.ofTypes (← byte img)
  if Instruction.hasSecondTypes opcode then
    return first ++ Encoding.ofTypes (← byte img)
  return first

def readEncodings (img : Image) (opcode : UInt16) :
    Option (List Encoding) → StateM Cursor (List Encoding)
  | some known => pure known
  | none => readTypes img opcode

def readOperand (img : Image) (p : Profile) (signed : Bool) : Encoding → StateM Cursor Operand
  | .large => do return ⟨if signed then .signedConstant else .constant, ← word img⟩
  | .small => do return ⟨if signed then .signedConstant else .constant, (← byte img).toUInt16⟩
  | .byNumber => do return Instruction.variableOperand p signed (← byte img)

def readOperands (img : Image) (p : Profile) (shape : Shape) :
    Nat → List Encoding → StateM Cursor (List Operand)
  | _, [] => pure []
  | i, e :: rest => do
    let operand ← readOperand img p (shape.signedAt i) e
    return operand :: (← readOperands img p shape (i + 1) rest)

def readBranch (img : Image) : StateM Cursor Branch := do
  let first ← byte img
  let ifTrue := first &&& 0x80 != 0
  if first &&& 0x40 != 0 then
    return ⟨ifTrue, (first &&& 0x3F).toUInt16.toInt16⟩
  let raw := Image.word (first &&& 0x3F) (← byte img)
  return ⟨ifTrue, (raw <<< 2).toInt16 >>> 2⟩

def readIf {α : Type} (present : Bool) (read : StateM Cursor α) : StateM Cursor (Option α) :=
  if present then some <$> read else pure none

def readText (img : Image) : StateM Cursor UInt32 := do
  let start ← position
  modify (passText img)
  return start

def readBody (img : Image) (p : Profile) (addr : UInt32) (opcode : UInt16)
    (encodings : Option (List Encoding)) : StateM Cursor Instruction := do
  let shape := Shape.of p.version opcode
  let encodings ← readEncodings img opcode encodings
  let operands ← readOperands img p shape 0 encodings
  let result ← readIf (shape.stores || Instruction.storesOnResume opcode) (byte img)
  let branch ← readIf shape.branches (readBranch img)
  let text ← readIf (Instruction.hasText opcode) (readText img)
  let next ← position
  return { addr, opcode, operands, result, stores := shape.stores, branch,
           branches := shape.branches && !shape.pauses, text, next,
           endsBlock := shape.endsBlock, pauses := shape.pauses }

def finish (img : Image) (p : Profile) (addr : UInt32) (opcode : UInt16)
    (encodings : Option (List Encoding)) : StateM Cursor (Except Fault Instruction) := do
  let i ← readBody img p addr opcode encodings
  match (← get).overrun with
  | some o => return .error (.decode opcode addr o)
  | none => return .ok i

def decode (img : Image) (p : Profile) : StateM Cursor (Except Fault Instruction) := do
  let addr ← position
  match Instruction.form (← byte img) with
  | .fixed opcode encodings => finish img p addr opcode (some encodings)
  | .typed opcode => finish img p addr opcode none
  | .extended =>
    let second ← byte img
    finish img p addr (extendedBase + second.toUInt16) none

def walkFrom (img : Image) (p : Profile) : Nat → List Instruction → StateM Cursor Walk
  | 0, met => return ⟨met.reverse, .tooLong⟩
  | limit + 1, met => do
    match ← decode img p with
    | .error fault => return ⟨met.reverse, .broken fault⟩
    | .ok i =>
      if i.endsBlock then return ⟨(i :: met).reverse, .complete⟩
      else walkFrom img p limit (i :: met)

-- What a walk comes to.
def settle (addr : UInt32) (w : Walk) : Except Fault Block :=
  match w.ending with
  | .complete => .ok ⟨addr, w.instructions⟩
  | .tooLong => .error (.blockTooLong addr w.instructions.length)
  | .broken fault => .error fault

def block (img : Image) (p : Profile) (cap : Nat) (addr : UInt32) :
    StateM Cursor (Except Fault Block) :=
  if img.length ≤ addr.toNat then pure (.error (.blockOutside addr img.length))
  else do
    modify (·.seek addr)
    settle addr <$> walkFrom img p (if cap = 0 then img.length + 1 else cap) []

def instruction (img : Image) (p : Profile) (addr : UInt32) :
    StateM Cursor (Except Fault Instruction) :=
  if img.length ≤ addr.toNat then pure (.error (.instructionOutside addr img.length))
  else do
    modify (·.seek addr)
    decode img p

end Cursor

-- A reader through a cursor follows one that stops: where that one gives a value, so does this one,
-- at the same position; where that one stops at an overrun, the cursor keeps it, as it keeps any
-- that it had before.
structure Tracks {α : Type} (r : Reading α) (s : StateM Cursor α) : Prop where
  ok : ∀ pos a pos', r pos = .ok (a, pos') → s ⟨pos, none⟩ = (a, ⟨pos', none⟩)
  error : ∀ pos o, r pos = .error o → (s ⟨pos, none⟩).2.overrun = some o
  keeps : ∀ c o, c.overrun = some o → (s c).2.overrun = some o

namespace Tracks

variable {α β : Type} {img : Image} {p : Profile}

theorem pure (a : α) : Tracks (Pure.pure a) (Pure.pure a) where
  ok pos b pos' read := by
    cases read
    rfl
  error pos o failed := by cases failed
  keeps c o held := held

theorem bind {r : Reading α} {s : StateM Cursor α} {f : α → Reading β} {g : α → StateM Cursor β}
    (first : Tracks r s) (rest : ∀ a, Tracks (f a) (g a)) : Tracks (r >>= f) (s >>= g) where
  ok pos b pos' read := by
    obtain ⟨a, mid, here, later⟩ := (Reading.bind_eq_ok_iff r f pos pos' b).mp read
    change g (s ⟨pos, none⟩).1 (s ⟨pos, none⟩).2 = _
    rw [first.ok pos a mid here]
    exact (rest a).ok mid b pos' later
  error pos o failed := by
    change (g (s ⟨pos, none⟩).1 (s ⟨pos, none⟩).2).2.overrun = _
    change (r pos >>= fun x => f x.1 x.2) = _ at failed
    cases here : r pos with
    | error o' =>
      rw [here] at failed
      cases failed
      exact (rest _).keeps _ o (first.error pos o here)
    | ok read =>
      rw [here] at failed
      rw [first.ok pos read.1 read.2 here]
      exact (rest read.1).error read.2 o failed
  keeps c o held := (rest _).keeps _ o (first.keeps c o held)

theorem map {r : Reading α} {s : StateM Cursor α} (f : α → β) (first : Tracks r s) :
    Tracks (f <$> r) (f <$> s) := by
  have bound := first.bind fun a => Tracks.pure (f a)
  rwa [bind_pure_comp, bind_pure_comp] at bound

theorem advance (read : UInt32 → Except Overrun α) (zero : α) (size : UInt32) :
    Tracks (fun pos => do return (← read pos, pos + size))
      (fun c => c.advance zero size (read c.pos)) where
  ok pos a pos' done := by
    cases held : read pos with
    | error o =>
      rw [held] at done
      cases done
    | ok b =>
      rw [held] at done
      cases done
      exact Cursor.advance_ok size pos rfl
  error pos o failed := by
    cases held : read pos with
    | ok b =>
      rw [held] at failed
      cases failed
    | error o' =>
      rw [held] at failed
      cases failed
      rfl
  keeps c o held := by simp [Cursor.advance, held]

theorem byte : Tracks img.byte (Cursor.byte img) :=
  .advance img.u8 0 1

theorem word : Tracks img.wordAt (Cursor.word img) :=
  .advance img.u16 0 2

theorem position : Tracks (get : Reading UInt32) Cursor.position where
  ok pos a pos' read := by
    cases read
    rfl
  error pos o failed := by cases failed
  keeps c o held := held

end Tracks

theorem Image.passText_length (img : Image) (pos : UInt32) : img.passText img.length pos =
    match img.u16 pos with
    | .error o => .error o
    | .ok w => if w &&& 0x8000 == 0 then img.passText img.length (pos + 2) else .ok ((), pos + 2) := by
  have same : img.passText img.length pos = img.passText (img.length + 1) pos :=
    passText_congr (by omega) (by omega)
  exact same.trans rfl

theorem Cursor.passText_eq (img : Image) (pos : UInt32) :
    (∀ next, img.passText img.length pos = .ok ((), next) →
      passText img ⟨pos, none⟩ = ⟨next, none⟩) ∧
    ∀ o, img.passText img.length pos = .error o → (passText img ⟨pos, none⟩).overrun = some o := by
  -- words are passed up to the end of the image at most
  induction left : img.length - pos.toNat using Nat.strongRecOn generalizing pos with
  | ind left ih =>
    rw [passText, Image.passText_length]
    cases read : img.u16 pos with
    | error o =>
      have stuck : u16 ⟨pos, none⟩ img = (0, ⟨pos, some o⟩) := advance_error 0 2 pos read
      simp [stuck]
    | ok w =>
      have moved : u16 ⟨pos, none⟩ img = (w, ⟨pos + 2, none⟩) := advance_ok 2 pos read
      obtain ⟨step, inside⟩ := Image.u16_inside read
      by_cases top : w &&& 0x8000 = 0
      · have later := ih (img.length - (pos + 2).toNat) (by omega) (pos + 2) rfl
        simpa [moved, top] using later
      · simp [moved, top]

namespace Tracks

variable {α : Type} {img : Image} {p : Profile}

theorem readText : Tracks (Instruction.readText img) (Cursor.readText img) := by
  have passed : Tracks (img.passText img.length) (modify (Cursor.passText img)) := by
    refine ⟨fun pos a next read => ?_, fun pos o failed => ?_, fun c o held => ?_⟩
    · exact congrArg (Prod.mk ()) ((Cursor.passText_eq img pos).1 next read)
    · exact (Cursor.passText_eq img pos).2 o failed
    · have stuck : Cursor.passText img c = c := by
        rw [Cursor.passText]
        simp [Cursor.u16, Cursor.advance, held]
      change (Cursor.passText img c).overrun = some o
      rw [stuck, held]
  exact position.bind fun start => passed.bind fun _ => .pure start

theorem readTypes (opcode : UInt16) :
    Tracks (Instruction.readTypes img opcode) (Cursor.readTypes img opcode) := by
  refine byte.bind fun first => ?_
  dsimp only
  split
  · exact byte.bind fun second => .pure _
  · exact .pure _

theorem readEncodings (opcode : UInt16) (encodings : Option (List Encoding)) :
    Tracks (Instruction.readEncodings img opcode encodings)
      (Cursor.readEncodings img opcode encodings) := by
  cases encodings with
  | some known => exact .pure known
  | none => exact readTypes opcode

theorem readOperand (signed : Bool) (e : Encoding) :
    Tracks (Instruction.readOperand img p signed e) (Cursor.readOperand img p signed e) := by
  cases e with
  | large => exact word.bind fun _ => .pure _
  | small => exact byte.bind fun _ => .pure _
  | byNumber => exact byte.bind fun _ => .pure _

theorem readOperands (shape : Shape) (i : Nat) (encodings : List Encoding) :
    Tracks (Instruction.readOperands img p shape i encodings)
      (Cursor.readOperands img p shape i encodings) := by
  induction encodings generalizing i with
  | nil => exact .pure []
  | cons e rest ih =>
    exact (readOperand (shape.signedAt i) e).bind fun _ => (ih (i + 1)).bind fun _ => .pure _

theorem readBranch : Tracks (Instruction.readBranch img) (Cursor.readBranch img) := by
  refine byte.bind fun first => ?_
  dsimp only
  split
  · exact .pure _
  · exact byte.bind fun second => .pure _

theorem readIf {r : Reading α} {s : StateM Cursor α} (present : Bool) (tracks : Tracks r s) :
    Tracks (Instruction.readIf present r) (Cursor.readIf present s) := by
  cases present with
  | true => exact tracks.map some
  | false => exact .pure none

theorem readBody (addr : UInt32) (opcode : UInt16) (encodings : Option (List Encoding)) :
    Tracks (Instruction.readBody img p addr opcode encodings)
      (Cursor.readBody img p addr opcode encodings) := by
  refine (readEncodings opcode encodings).bind fun _ => ?_
  refine (readOperands _ 0 _).bind fun _ => ?_
  refine (readIf _ byte).bind fun _ => ?_
  refine (readIf _ readBranch).bind fun _ => ?_
  refine (readIf _ readText).bind fun _ => ?_
  exact position.bind fun _ => .pure _

end Tracks

namespace Cursor

variable {img : Image} {p : Profile} {addr : UInt32}

theorem finish_eq (opcode : UInt16) (encodings : Option (List Encoding)) (c : Cursor) :
    finish img p addr opcode encodings c =
      let read := readBody img p addr opcode encodings c
      (match read.2.overrun with
        | some o => .error (.decode opcode addr o)
        | none => .ok read.1, read.2) := by
  change (match (readBody img p addr opcode encodings c).2.overrun with
    | some o => (pure (.error (.decode opcode addr o)) : StateM Cursor (Except Fault Instruction))
    | none => pure (.ok (readBody img p addr opcode encodings c).1))
      (readBody img p addr opcode encodings c).2 = _
  dsimp only
  cases (readBody img p addr opcode encodings c).2.overrun <;> rfl

theorem finish_of_spent (opcode : UInt16) (encodings : Option (List Encoding)) {c : Cursor}
    {o : Overrun} (spent : c.overrun = some o) :
    (finish img p addr opcode encodings c).1 = .error (.decode opcode addr o) := by
  have tracks : Tracks (Instruction.readBody img p addr opcode encodings) _ :=
    .readBody addr opcode encodings
  rw [finish_eq]
  simp only [tracks.keeps c o spent]

-- What a reading from a position gives, and where it leaves the cursor.
def Gives (answer : Except Fault Instruction) (out : Except Fault Instruction × Cursor) : Prop :=
  out.1 = answer ∧ ∀ i, answer = .ok i → out.2 = ⟨i.next, none⟩

theorem finish_gives (opcode : UInt16) (encodings : Option (List Encoding)) (pos : UInt32) :
    Gives (Instruction.finish img p addr opcode encodings pos)
      (finish img p addr opcode encodings ⟨pos, none⟩) := by
  have tracks : Tracks (Instruction.readBody img p addr opcode encodings) _ :=
    .readBody addr opcode encodings
  rw [finish_eq, Instruction.finish]
  cases read : (Instruction.readBody img p addr opcode encodings).run pos with
  | error o =>
    simp only [tracks.error pos o read]
    exact ⟨rfl, fun _ done => by cases done⟩
  | ok result =>
    obtain ⟨i, next⟩ := result
    -- the position is taken last, where the cursor is left
    have behind : (readBody img p addr opcode encodings ⟨pos, none⟩).1.next =
        (readBody img p addr opcode encodings ⟨pos, none⟩).2.pos := rfl
    rw [tracks.ok pos i next read] at behind ⊢
    refine ⟨rfl, ?_⟩
    rintro i ⟨⟩
    exact congrArg (Cursor.mk · none) behind.symm

-- Reading on with zeros and asking for the overrun at the end is as good as stopping.
theorem decode_gives (addr : UInt32) :
    Gives (Instruction.decode img p addr) (decode img p ⟨addr, none⟩) := by
  have opened : decode img p ⟨addr, none⟩ =
      (match Instruction.form (u8 ⟨addr, none⟩ img).1 with
        | .fixed opcode encodings => finish img p addr opcode (some encodings)
        | .typed opcode => finish img p addr opcode none
        | .extended => do
          let second ← byte img
          finish img p addr (extendedBase + second.toUInt16) none) (u8 ⟨addr, none⟩ img).2 := rfl
  rw [opened, Instruction.decode]
  cases first : img.u8 addr with
  | error o =>
    -- the byte that is missing reads as opcode 0
    have stuck : u8 ⟨addr, none⟩ img = (0, ⟨addr, some o⟩) := advance_error 0 1 addr first
    have zero : Instruction.form 0 = .fixed 0 [.small, .small] := by decide
    simp only [stuck, zero]
    exact ⟨finish_of_spent 0 _ rfl, fun _ done => by cases done⟩
  | ok b =>
    have moved : u8 ⟨addr, none⟩ img = (b, ⟨addr + 1, none⟩) := advance_ok 1 addr first
    rw [moved]
    dsimp only
    cases Instruction.form b with
    | fixed opcode encodings => exact finish_gives opcode (some encodings) (addr + 1)
    | typed opcode => exact finish_gives opcode none (addr + 1)
    | extended =>
      change Gives _ (finish img p addr (extendedBase + (u8 ⟨addr + 1, none⟩ img).1.toUInt16) none
        (u8 ⟨addr + 1, none⟩ img).2)
      dsimp only
      cases second : img.u8 (addr + 1) with
      | error o =>
        have stuck : u8 ⟨addr + 1, none⟩ img = (0, ⟨addr + 1, some o⟩) :=
          advance_error 0 1 (addr + 1) second
        rw [stuck]
        exact ⟨finish_of_spent extendedBase none rfl, fun _ done => by cases done⟩
      | ok b' =>
        have moved : u8 ⟨addr + 1, none⟩ img = (b', ⟨addr + 1 + 1, none⟩) :=
          advance_ok 1 (addr + 1) second
        have two : addr + 1 + 1 = addr + 2 := by
          rw [UInt32.add_assoc]
          rfl
        rw [moved, two]
        exact finish_gives _ none (addr + 2)

theorem walkFrom_eq (limit : Nat) (pos : UInt32) (met : List Instruction) :
    (walkFrom img p limit met ⟨pos, none⟩).1 = Block.walkFrom img p limit pos met := by
  induction limit generalizing pos met with
  | zero => rfl
  | succ limit ih =>
    obtain ⟨answer, left⟩ : Gives (Instruction.decode img p pos) (decode img p ⟨pos, none⟩) :=
      decode_gives pos
    change ((match (decode img p ⟨pos, none⟩).1 with
      | .error fault => (pure ⟨met.reverse, .broken fault⟩ : StateM Cursor Walk)
      | .ok i =>
        if i.endsBlock then pure ⟨(i :: met).reverse, .complete⟩
        else walkFrom img p limit (i :: met)) (decode img p ⟨pos, none⟩).2).1 = _
    rw [answer, Block.walkFrom]
    cases decoded : Instruction.decode img p pos with
    | error fault => rfl
    | ok i =>
      rw [left i decoded]
      dsimp only
      split
      · rfl
      · exact ih i.next (i :: met)

theorem block_eq (cap : Nat) (addr : UInt32) (c : Cursor) :
    (block img p cap addr c).1 = Block.decode img p cap addr := by
  rw [block, Block.decode]
  split
  next => rfl
  next =>
    have walked : (walkFrom img p (if cap = 0 then img.length + 1 else cap) [] (c.seek addr)).1 =
        Block.walk img p cap addr := walkFrom_eq _ addr []
    exact congrArg (settle addr) walked

theorem instruction_eq (d : Session) (img : Image) (addr : UInt32) (c : Cursor) :
    (instruction img d.profile addr c).1 = d.decode img addr := by
  rw [instruction, Session.decode]
  split
  next => rfl
  next => exact (decode_gives addr).1

end Cursor

namespace Session

variable {d : Session} {img : Image} {stores : Array Store} {addr : UInt32}

def keepThrough (d : Session) (img : Image) (stores : Array Store) (addr : UInt32) (c : Cursor) :
    Fetch × Cursor :=
  let read := Cursor.block img d.profile d.cap addr c
  match read.1 >>= Fragment.ofBlock d.profile with
  | .error fault => (⟨d, stores, .error fault⟩, read.2)
  | .ok f =>
    let kept := d.remember addr f
    match d.store with
    | none => (⟨kept, stores, .ok f⟩, read.2)
    | some n =>
      let stores' := match (stores.getD n {}).put (d.imageKey img) f with
        | .ok s => stores.setIfInBounds n s
        | .error _ => stores
      (⟨kept, stores', .ok f⟩, read.2)

def fragmentThrough (d : Session) (img : Image) (writes : Nat) (stores : Array Store)
    (addr : UInt32) (c : Cursor) : Fetch × Cursor :=
  let d := d.sync writes
  match d.cache[addr]?, d.store with
  | some f, _ => (⟨d, stores, .ok f⟩, c)
  | none, none => d.keepThrough img stores addr c
  | none, some n =>
    let d := d.withDigest img
    match (stores.getD n {}).get (d.imageKey img) addr with
    | .ok (some f) => (⟨d.remember addr f, stores, .ok f⟩, c)
    | .ok none | .error _ => d.keepThrough img stores addr c

theorem keepThrough_eq (d : Session) (c : Cursor) :
    (d.keepThrough img stores addr c).1 = d.generateAndKeep img stores addr := by
  rw [keepThrough, generateAndKeep, generate, Fragment.generate, Cursor.block_eq]
  cases Block.decode img d.profile d.cap addr >>= Fragment.ofBlock d.profile with
  | error fault => rfl
  | ok f => cases attached : d.store <;> rfl

theorem fragmentThrough_eq (writes : Nat) (c : Cursor) :
    (d.fragmentThrough img writes stores addr c).1 = d.fragment img writes stores addr := by
  cases held : (d.sync writes).cache[addr]? with
  | some f => simp only [fragmentThrough, fragment, held]
  | none =>
    cases attached : (d.sync writes).store with
    | none => simp only [fragmentThrough, fragment, held, attached, keepThrough_eq]
    | some n =>
      simp only [fragmentThrough, fragment, held, attached]
      rcases (stores.getD n {}).get (((d.sync writes).withDigest img).imageKey img) addr with
        fault | none | f
      · exact keepThrough_eq _ c
      · exact keepThrough_eq _ c
      · rfl

end Session

/-- A family whose sessions read through cursors of their own. -/
structure Readers where
  family : Family
  cursors : Array Cursor

namespace Readers

def setCursor (r : Readers) (i : Nat) (c : Cursor) : Readers :=
  { r with cursors := r.cursors.setIfInBounds i c }

def step (r : Readers) (i : Nat) (s : Family.Step) : Readers × Family.Answer :=
  match r.family.sessions[i]? with
  | none => (r, .done)
  | some d =>
    let c := r.cursors.getD i {}
    match s with
    | .fragment addr =>
      let read := d.fragmentThrough r.family.image r.family.writes r.family.stores addr c
      ({ r.setCursor i read.2 with
          family := { r.family with stores := read.1.stores }.setSession i read.1.session },
        .of .fragment read.1.answer)
    | .disassemble addr =>
      let read := Cursor.block r.family.image d.profile d.cap addr c
      (r.setCursor i read.2, .of .block read.1)
    | .decode addr =>
      let read := Cursor.instruction r.family.image d.profile addr c
      (r.setCursor i read.2, .of .instruction read.1)
    | .render addr =>
      let read := Cursor.instruction r.family.image d.profile addr c
      (r.setCursor i read.2, .of .statement (read.1 >>= Statement.render d.profile))
    | .clone =>
      ({ family := (r.family.step i .clone).1, cursors := r.cursors.push {} },
        (r.family.step i .clone).2)
    | s => ({ r with family := (r.family.step i s).1 }, (r.family.step i s).2)

theorem step_eq (r : Readers) (i : Nat) (s : Family.Step) :
    (r.step i s).1.family = (r.family.step i s).1 ∧ (r.step i s).2 = (r.family.step i s).2 := by
  cases found : r.family.sessions[i]? with
  | none => simp only [step, Family.step, found, and_self]
  | some d =>
    cases s with
    | fragment addr => simp [step, Family.step, found, Session.fragmentThrough_eq]
    | disassemble addr =>
      simp [step, Family.step, found, Cursor.block_eq, Session.disassemble, setCursor]
    | decode addr => simp [step, Family.step, found, Cursor.instruction_eq, setCursor]
    | render addr => simp [step, Family.step, found, Cursor.instruction_eq, setCursor]
    | _ => simp only [step, found, and_self]

end Readers

end ZCode

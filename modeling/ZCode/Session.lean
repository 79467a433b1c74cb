import ZCode.Log
import ZCode.Settings
import ZCode.Store

set_option autoImplicit false

namespace ZCode

open ZCode.Text

structure Session where
  profile : Profile
  staticMemory : UInt16 := 0
  ioUnsafe : Bool := false
  -- The cap on instructions of a block, 0 for none.
  cap : Nat
  cache : Std.HashMap UInt32 Fragment := ∅
  digest : Option Digest := none
  store : Option Nat := none
  seen : Nat := 0

namespace Session

def ofSettings (s : Settings) : Except Fault Session := do
  s.validate
  -- decoding looks shapes up by version, so of the table only its refusal is needed
  let _ ← Shape.table s.version
  return { profile := ⟨s.version, s.globals⟩
           staticMemory := s.staticMemory
           ioUnsafe := s.ioUnsafe
           cap := s.maxInstructions.toNat }

def invalidate (d : Session) (writes : Nat) : Session :=
  { d with cache := ∅, digest := none, seen := writes }

def sync (d : Session) (writes : Nat) : Session :=
  if d.seen = writes then d else d.invalidate writes

def clone (d : Session) (writes : Nat) : Session :=
  d.invalidate writes

def digestOf (d : Session) (img : Image) : Digest :=
  d.digest.getD (Digest.ofBytes img.bytes)

def imageKey (d : Session) (img : Image) : ImageKey :=
  ⟨d.digestOf img, d.profile.version⟩

def withDigest (d : Session) (img : Image) : Session :=
  { d with digest := some (d.digestOf img) }

def remember (d : Session) (addr : UInt32) (f : Fragment) : Session :=
  { d with cache := d.cache.insert addr f }

def generate (d : Session) (img : Image) (addr : UInt32) : Except Fault Fragment :=
  Fragment.generate img d.profile d.cap addr

structure Fetch where
  session : Session
  stores : Array Store
  answer : Except Fault Fragment

-- Generates a fragment, keeps it, and gives it to the store in use; a store that fails is passed
-- over.
def generateAndKeep (d : Session) (img : Image) (stores : Array Store) (addr : UInt32) : Fetch :=
  match d.generate img addr with
  | .error fault => ⟨d, stores, .error fault⟩
  | .ok f =>
    let kept := d.remember addr f
    match d.store with
    | none => ⟨kept, stores, .ok f⟩
    | some n =>
      let stores' := match (stores.getD n {}).put (d.imageKey img) f with
        | .ok s => stores.setIfInBounds n s
        | .error _ => stores
      ⟨kept, stores', .ok f⟩

def fragment (d : Session) (img : Image) (writes : Nat) (stores : Array Store) (addr : UInt32) :
    Fetch :=
  let d := d.sync writes
  match d.cache[addr]?, d.store with
  | some f, _ => ⟨d, stores, .ok f⟩
  | none, none => d.generateAndKeep img stores addr
  | none, some n =>
    let d := d.withDigest img
    match (stores.getD n {}).get (d.imageKey img) addr with
    | .ok (some f) => ⟨d.remember addr f, stores, .ok f⟩
    | .ok none | .error _ => d.generateAndKeep img stores addr

def decode (d : Session) (img : Image) (addr : UInt32) : Except Fault Instruction :=
  if img.length ≤ addr.toNat then .error (.instructionOutside addr img.length)
  else Instruction.decode img d.profile addr

def disassemble (d : Session) (img : Image) (addr : UInt32) : Except Fault Block :=
  Block.decode img d.profile d.cap addr

private def number (key : String) (n : Int) : Attribute := ⟨key, .int n⟩

private def addressed (addr : UInt32) : Attribute := number "addr" addr.toNat

def decodedRecord (i : Instruction) : Record :=
  ⟨Level.trace, Channel.decoder, "decoded",
    [addressed i.addr, number "opcode" i.opcode.toNat, number "len" i.length.toNat]⟩

def renderedRecord (i : Instruction) : Record :=
  ⟨Level.trace, Channel.generator, "rendered", [addressed i.addr, number "opcode" i.opcode.toNat]⟩

def blockRecords (d : Session) (img : Image) (addr : UInt32) : Except Fault Block → List Record
  | .ok b => b.instructions.map decodedRecord
  | .error _ =>
    if img.length ≤ addr.toNat then []
    else (Block.walk img d.profile d.cap addr).instructions.map decodedRecord

def disassembleRecords (d : Session) (img : Image) (addr : UInt32) : List Record :=
  d.blockRecords img addr (d.disassemble img addr)

def decodeRecords (d : Session) (img : Image) (addr : UInt32) : List Record :=
  match d.decode img addr with
  | .ok i => [decodedRecord i]
  | .error _ => []

def renderRecords (p : Profile) (i : Instruction) : List Record :=
  match Statement.render p i with
  | .ok _ => [renderedRecord i]
  | .error _ => []

def putRecord (f : Fragment) : Record :=
  ⟨Level.trace, Channel.storage, "put fragment",
    [addressed f.addr, number "bytes" f.storedText.utf8ByteSize]⟩

private def failedRecord (what : String) (addr : UInt32) (fault : Fault) : Record :=
  ⟨Level.warn, Channel.storage, what, [addressed addr, ⟨"err", .text fault.message⟩]⟩

def dynamicRecords (d : Session) (addr : UInt32) : List Record :=
  if d.staticMemory != 0 && addr.toNat < d.staticMemory.toNat then
    [⟨Level.warn, Channel.session, "caching a fragment in dynamic memory",
      [addressed addr, number "static" d.staticMemory.toNat]⟩]
  else []

private def storeRecords (d : Session) (img : Image) (stores : Array Store) (addr : UInt32)
    (f : Fragment) : List Record :=
  match d.store with
  | none => []
  | some n => putRecord f ::
    match (stores.getD n {}).put (d.imageKey img) f with
    | .ok _ => []
    | .error fault => [failedRecord "fragment store write failed" addr fault]

def keepRecords (d : Session) (img : Image) (stores : Array Store) (addr : UInt32) : List Record :=
  let block := d.disassemble img addr
  d.blockRecords img addr block ++
    match block with
    | .error _ => []
    | .ok b =>
      match Fragment.ofBlock d.profile b with
      | .error _ =>
        (b.instructions.takeWhile fun i => (Statement.render d.profile i).isOk).map renderedRecord
      | .ok f =>
        b.instructions.map renderedRecord
          ++ [⟨Level.debug, Channel.generator, "block rendered",
            [addressed addr, number "instructions" f.instructions,
              number "bytes" (f.next - addr).toNat]⟩]
          ++ d.dynamicRecords addr ++ d.storeRecords img stores addr f

def syncRecords (d : Session) (writes : Nat) : List Record :=
  if d.seen = writes then []
  else [⟨Level.debug, Channel.session, "image written, dropping cached fragments",
    [number "cached" d.cache.size]⟩]

def fragmentRecords (d : Session) (img : Image) (writes : Nat) (stores : Array Store)
    (addr : UInt32) : List Record :=
  let synced := d.sync writes
  d.syncRecords writes ++
    match synced.cache[addr]?, synced.store with
    | some _, _ => []
    | none, none => synced.keepRecords img stores addr
    | none, some n =>
      match (stores.getD n {}).get (synced.imageKey img) addr with
      | .ok (some _) => []
      | .ok none => synced.keepRecords img stores addr
      | .error fault =>
        failedRecord "fragment store read failed" addr fault :: synced.keepRecords img stores addr

def loadRecord (size : Nat) : Record :=
  ⟨Level.debug, Channel.session, "story loaded", [number "bytes" size]⟩

end Session

structure Family where
  image : Image
  -- How often the image was opened for writing. A counter of 64 bits comes back to what a session
  -- has `seen` only after 2^64 openings, which is out of reach, so it is kept without a bound.
  writes : Nat := 0
  stores : Array Store := #[]
  sessions : Array Session

namespace Family

inductive Step where
  -- Writes bytes; every session sees that the image was written.
  | write (addr : Nat) (data : List UInt8)
  -- Writes bytes behind the sessions' backs.
  | poke (addr : Nat) (data : List UInt8)
  | load (story : List UInt8)
  | clone
  | attach (store : Option Nat)
  | fragment (addr : UInt32)
  | disassemble (addr : UInt32)
  | decode (addr : UInt32)
  | render (addr : UInt32)
  | function (addr : UInt32)
  | put (store : Nat) (f : Fragment)
  | get (store : Nat) (addr : UInt32)
  | delete (store : Nat) (addr : UInt32)
  | addresses (store : Nat)
  | deleteImage (store : Nat)
  | close (store : Nat)

inductive Answer where
  | done
  | refused (fault : Fault)
  | index (n : Nat)
  | fragment (f : Fragment)
  | block (b : Block)
  | instruction (i : Instruction)
  | statement (code : String)
  | stored (f : Option Fragment)
  | addresses (addrs : List UInt32)
  deriving DecidableEq, Repr

def ofSettings (s : Settings) (stores : Nat) : Except Fault Family := do
  let d ← Session.ofSettings s
  return { image := .zeroed s.imageLength
           stores := Array.replicate stores {}
           sessions := #[d] }

def Answer.of {α : Type} (f : α → Answer) : Except Fault α → Answer
  | .ok a => f a
  | .error fault => .refused fault

def setSession (fam : Family) (i : Nat) (d : Session) : Family :=
  { fam with sessions := fam.sessions.setIfInBounds i d }

def writeThrough (fam : Family) (i : Nat) (d : Session) (addr : Nat) (data : List UInt8) : Family :=
  let writes := fam.writes + 1
  { fam with image := fam.image.write addr data, writes }.setSession i (d.invalidate writes)

def currentKey (fam : Family) (d : Session) : ImageKey :=
  ⟨Digest.ofBytes fam.image.bytes, d.profile.version⟩

def changeStore (fam : Family) (n : Nat) (change : Store → Except Fault Store) : Family × Answer :=
  match change (fam.stores.getD n {}) with
  | .ok s => ({ fam with stores := fam.stores.setIfInBounds n s }, .done)
  | .error fault => (fam, .refused fault)

def step (fam : Family) (i : Nat) (s : Step) : Family × Answer :=
  match fam.sessions[i]? with
  | none => (fam, .done)
  | some d =>
    match s with
    | .write addr data => (fam.writeThrough i d addr data, .done)
    | .poke addr data => ({ fam with image := fam.image.write addr data }, .done)
    | .load story =>
      if fam.image.length < story.length.toUInt32.toNat then
        (fam, .refused (.storyTooLong story.length fam.image.length))
      else (fam.writeThrough i d 0 story, .done)
    | .clone =>
      ({ fam with sessions := fam.sessions.push (d.clone fam.writes) }, .index fam.sessions.size)
    | .attach store => (fam.setSession i { d with store }, .done)
    | .fragment addr =>
      let fetched := d.fragment fam.image fam.writes fam.stores addr
      ({ fam with stores := fetched.stores }.setSession i fetched.session,
        .of .fragment fetched.answer)
    | .disassemble addr => (fam, .of .block (d.disassemble fam.image addr))
    | .decode addr => (fam, .of .instruction (d.decode fam.image addr))
    | .render addr =>
      (fam, .of .statement (d.decode fam.image addr >>= Statement.render d.profile))
    | .function addr => (fam, .refused (.functionUnsupported addr))
    | .put n f => fam.changeStore n (·.put (fam.currentKey d) f)
    | .get n addr => (fam, .of .stored ((fam.stores.getD n {}).get (fam.currentKey d) addr))
    | .delete n addr => fam.changeStore n (·.delete (fam.currentKey d) addr)
    | .addresses n => (fam, .of .addresses ((fam.stores.getD n {}).addresses (fam.currentKey d)))
    | .deleteImage n => fam.changeStore n (·.deleteImage (fam.currentKey d))
    | .close n => fam.changeStore n Store.close

def records (fam : Family) (i : Nat) (s : Step) : List Record :=
  match fam.sessions[i]? with
  | none => []
  | some d =>
    match s with
    | .load story =>
      if fam.image.length < story.length.toUInt32.toNat then []
      else [Session.loadRecord story.length]
    | .fragment addr => d.fragmentRecords fam.image fam.writes fam.stores addr
    | .disassemble addr => d.disassembleRecords fam.image addr
    | .decode addr => d.decodeRecords fam.image addr
    | .render addr => d.decodeRecords fam.image addr ++
      match d.decode fam.image addr with
      | .ok inst => Session.renderRecords d.profile inst
      | .error _ => []
    | .put _ f => [Session.putRecord f]
    | _ => []

end Family

end ZCode

import ZCode.Image
import ZCode.Shape

set_option autoImplicit false

namespace ZCode

structure Header where
  version : UInt8
  initialPc : UInt32
  dictionary : UInt16
  objectTable : UInt16
  globals : UInt16
  staticMemory : UInt16
  fileLength : UInt32
  deriving DecidableEq, Repr

namespace Header

def size : Nat := 64

private def wordAt (story : Array UInt8) (pos : Nat) : UInt16 :=
  Image.word (story.getD pos 0) (story.getD (pos + 1) 0)

def parse (story : Array UInt8) : Except Fault Header :=
  if story.size < size then .error (.headerTooShort story.size)
  else
    let version := story.getD 0 0
    .ok { version
          initialPc := (wordAt story 0x06).toUInt32
          dictionary := wordAt story 0x08
          objectTable := wordAt story 0x0A
          globals := wordAt story 0x0C
          staticMemory := wordAt story 0x0E
          fileLength := (wordAt story 0x1A).toUInt32 * packedMultiplier version }

end Header

structure Settings where
  imageLength : UInt32 := 0
  version : UInt8 := 5
  globals : UInt16 := 0
  -- The base of static memory; zero switches off the report of blocks below it.
  staticMemory : UInt16 := 0
  ioUnsafe : Bool := false
  -- The largest number of instructions of a block; zero for no limit.
  maxInstructions : Int := 4096
  -- Where fragments are kept between runs; empty for nowhere.
  cacheDir : String := ""
  logLevel : String := "info"
  debug : String := ""
  deriving DecidableEq, Repr

namespace Settings

def globalsSize : Nat := 480

def applyHeader (s : Settings) (h : Header) (storyLength : Nat) : Settings :=
  { s with
    version := h.version
    globals := h.globals
    staticMemory := h.staticMemory
    imageLength := max s.imageLength (max storyLength.toUInt32 h.fileLength) }

def validate (s : Settings) : Except Fault Unit :=
  if s.version < 3 || 8 < s.version then .error (.unsupportedVersion s.version)
  else if s.imageLength == 0 then .error .emptyImage
  else if s.imageLength.toNat < s.globals.toNat + globalsSize then
    .error (.globalsOutside s.globals s.imageLength.toNat)
  else if s.maxInstructions < 0 then .error .negativeLimit
  else .ok ()

end Settings

end ZCode

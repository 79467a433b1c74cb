import ZCode.Text.Digits

set_option autoImplicit false

namespace ZCode

open ZCode.Text

inductive Condition where
  | imageOverrun
  | unknownOpcode
  | unsupportedVersion
  | blockTooLong
  | headerTooShort
  | functionUnsupported
  | addressOutOfRange
  deriving DecidableEq, Repr

namespace Condition

def all : List Condition :=
  [imageOverrun, unknownOpcode, unsupportedVersion, blockTooLong, headerTooShort,
    functionUnsupported, addressOutOfRange]

def code : Condition → String
  | imageOverrun => "Z1"
  | unknownOpcode => "Z2"
  | unsupportedVersion => "Z3"
  | blockTooLong => "Z4"
  | headerTooShort => "Z5"
  | functionUnsupported => "Z6"
  | addressOutOfRange => "Z7"

def name : Condition → String
  | imageOverrun => "ImageOverrun"
  | unknownOpcode => "UnknownOpcode"
  | unsupportedVersion => "UnsupportedVersion"
  | blockTooLong => "BlockTooLong"
  | headerTooShort => "HeaderTooShort"
  | functionUnsupported => "FunctionUnsupported"
  | addressOutOfRange => "AddressOutOfRange"

def description : Condition → String
  | imageOverrun => "Read past the end of the story image."
  | unknownOpcode => "Opcode has no code generation template."
  | unsupportedVersion => "Z-Machine version is not one of 3, 4, 5, 6, 7, 8."
  | blockTooLong => "Block did not end within the instruction limit."
  | headerTooShort => "Story image is shorter than the 64 byte header."
  | functionUnsupported => "Whole-function decompilation is not available."
  | addressOutOfRange => "Requested address lies outside the story image."

def text (c : Condition) : String :=
  c.code ++ "|" ++ c.name ++ ": " ++ c.description

end Condition

structure Overrun where
  size : Nat
  pos : UInt32
  length : Nat
  deriving DecidableEq, Repr

inductive Fault where
  | overrun (read : Overrun)
  | decode (opcode : UInt16) (addr : UInt32) (read : Overrun)
  | unknownOpcode (opcode : UInt16) (addr : UInt32)
  | noStoreVariable (opcode : UInt16) (addr : UInt32)
  | noInlineText (opcode : UInt16) (addr : UInt32)
  | unsupportedVersion (version : UInt8)
  | blockOutside (addr : UInt32) (length : Nat)
  | blockTooLong (addr : UInt32) (count : Nat)
  | instructionOutside (addr : UInt32) (length : Nat)
  | functionUnsupported (addr : UInt32)
  | headerTooShort (size : Nat)
  | emptyImage
  | globalsOutside (globals : UInt16) (length : Nat)
  | negativeLimit
  | storyTooLong (size length : Nat)
  | inStory (path : String) (cause : Fault)
  | badLevel (name : String)
  | missingFile (context path : String)
  | notADump (path : String)
  | storeClosed
  | storeUnavailable (path reason : String)
  | gettingFragment (addr : UInt32) (cause : Fault)
  | listingFragments (cause : Fault)
  | badSettings (path : String)
  | doesNotCompile (name : String)
  | stackUnderflow
  deriving DecidableEq, Repr

namespace Fault

def condition? : Fault → Option Condition
  | overrun _ | decode _ _ _ => some .imageOverrun
  | unknownOpcode _ _ => some .unknownOpcode
  | unsupportedVersion _ => some .unsupportedVersion
  | blockTooLong _ _ => some .blockTooLong
  | headerTooShort _ => some .headerTooShort
  | functionUnsupported _ => some .functionUnsupported
  | blockOutside _ _ | instructionOutside _ _ => some .addressOutOfRange
  | inStory _ cause | gettingFragment _ cause | listingFragments cause => cause.condition?
  | _ => none

private def at0x (addr : UInt32) : String :=
  "0x" ++ hex addr.toNat

private def overrunText (o : Overrun) : String :=
  s!"read of {o.size} bytes at " ++ at0x o.pos ++ s!" in image of {o.length} bytes: "
    ++ Condition.imageOverrun.text

def message : Fault → String
  | overrun read => overrunText read
  | decode opcode addr read => s!"decode opcode {opcode} at " ++ at0x addr ++ ": " ++ overrunText read
  | unknownOpcode opcode addr =>
    s!"unknown opcode #{opcode} at pc={addr}: " ++ Condition.unknownOpcode.text
  | noStoreVariable opcode addr => s!"opcode {opcode} at pc={addr} has no store variable"
  | noInlineText opcode addr => s!"opcode {opcode} at pc={addr} has no inline text"
  | unsupportedVersion version => s!"version {version}: " ++ Condition.unsupportedVersion.text
  | blockOutside addr length =>
    "block at " ++ at0x addr ++ s!" in image of {length} bytes: " ++ Condition.addressOutOfRange.text
  | blockTooLong addr count =>
    "block at " ++ at0x addr ++ s!" after {count} instructions: " ++ Condition.blockTooLong.text
  | instructionOutside addr length =>
    "instruction at " ++ at0x addr ++ s!" in image of {length} bytes: "
      ++ Condition.addressOutOfRange.text
  | functionUnsupported addr =>
    "function at " ++ at0x addr ++ ": " ++ Condition.functionUnsupported.text
  | headerTooShort size => s!"story of {size} bytes: " ++ Condition.headerTooShort.text
  | emptyImage => "image length must be positive"
  | globalsOutside globals length =>
    "globals table at 0x" ++ hex globals.toNat ++ s!" does not fit an image of {length} bytes"
  | negativeLimit => "max-block-instructions must not be negative"
  | storyTooLong size length => s!"story of {size} bytes does not fit an image of {length} bytes"
  | inStory path cause => "story " ++ path ++ ": " ++ cause.message
  | badLevel name => "invalid level: " ++ name
  | missingFile context path => context ++ "open " ++ path ++ ": no such file or directory"
  | notADump path => path ++ " is not a fragment dump"
  | storeClosed => "leveldb: closed"
  | storeUnavailable path reason => "failed to open fragment store at " ++ path ++ ": " ++ reason
  | gettingFragment addr cause => "get fragment " ++ at0x addr ++ ": " ++ cause.message
  | listingFragments cause => "list fragments: " ++ cause.message
  | badSettings path => "parse error in " ++ path
  | doesNotCompile name => "compile " ++ name
  | stackUnderflow => "stack underflow"

end Fault

end ZCode

import Std.Data.TreeMap
import ZCode.Block
import ZCode.Digest
import ZCode.Json.Quoted

set_option autoImplicit false

namespace ZCode

structure ImageKey where
  digest : Digest
  version : UInt8
  deriving DecidableEq, Repr, Hashable

namespace ImageKey

def bytes (k : ImageKey) : List UInt8 :=
  k.digest.bytes ++ [k.version]

def addressBytes (addr : UInt32) : List UInt8 :=
  [addr >>> 24, addr >>> 16, addr >>> 8, addr].map UInt32.toUInt8

def entry (k : ImageKey) (addr : UInt32) : List UInt8 :=
  k.bytes ++ addressBytes addr

def addressOf (key : List UInt8) : UInt32 :=
  (key.drop (key.length - 4)).foldl (fun addr b => (addr <<< 8) ||| b.toUInt32) 0

end ImageKey

structure Store where
  entries : Std.TreeMap (List UInt8) Fragment := ∅
  closed : Bool := false

namespace Store

def shelf (s : Store) (key : ImageKey) (addr : UInt32) : Option Fragment :=
  s.entries[key.entry addr]?

def get (s : Store) (key : ImageKey) (addr : UInt32) : Except Fault (Option Fragment) :=
  if s.closed then .error (.gettingFragment addr .storeClosed)
  else .ok (s.shelf key addr)

def put (s : Store) (key : ImageKey) (f : Fragment) : Except Fault Store :=
  if s.closed then .error .storeClosed
  else .ok { s with entries := s.entries.insert (key.entry f.addr) f }

def delete (s : Store) (key : ImageKey) (addr : UInt32) : Except Fault Store :=
  if s.closed then .error .storeClosed
  else .ok { s with entries := s.entries.erase (key.entry addr) }

def addresses (s : Store) (key : ImageKey) : Except Fault (List UInt32) :=
  if s.closed then .error (.listingFragments .storeClosed)
  else .ok ((s.entries.keys.filter key.bytes.isPrefixOf).map ImageKey.addressOf)

def deleteImage (s : Store) (key : ImageKey) : Except Fault Store := do
  let found ← s.addresses key
  return { s with entries := found.foldl (fun kept addr => kept.erase (key.entry addr)) s.entries }

def close (s : Store) : Except Fault Store :=
  if s.closed then .error .storeClosed
  else .ok { s with closed := true }

end Store

-- What is kept at a place, and why it does not open there, if it does not.
structure Database where
  kept : Store := {}
  refusal : Option String := none

instance : Coe Store Database := ⟨fun kept => { kept }⟩

-- Without a path the store is kept nowhere.
def Store.openAt (path : String) (db : Database) : Except Fault Store :=
  if path == "" then .ok {}
  else
    match db.refusal with
    | none => .ok db.kept
    | some reason => .error (.storeUnavailable path reason)

def Fragment.storedText (f : Fragment) : String :=
  let calls := if f.calls.isEmpty then ""
    else ",\"calls\":[" ++ ",".intercalate (f.calls.map toString) ++ "]"
  let pauses := if f.pauses then ",\"pauses_vm\":true" else ""
  s!"\x7b\"addr\":{f.addr},\"code\":" ++ Json.quoted f.code
    ++ s!",\"next\":{f.next},\"instructions\":{f.instructions}" ++ calls ++ pauses ++ "\x7d"

end ZCode

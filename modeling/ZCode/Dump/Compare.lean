import ZCode.Fault
import ZCode.Json.Delta

set_option autoImplicit false

namespace ZCode.Dump

open ZCode.Json

def isDouble (written : String) : Bool :=
  (double? written).isSome

def read (allowed : String → Bool) (name document : String) : Except Fault Value :=
  match Json.parse? allowed document.toList with
  | some v => .ok v
  | none => .error (.notADump name)

def membersOf (name : String) (v : Value) : Except Fault (List (String × Value)) :=
  match v.members? with
  | some ms => .ok ms
  | none => .error (.notADump name)

def sameDouble (a b : String) : Bool :=
  match double? a, double? b with
  | some x, some y => x.same y
  | _, _ => false

def compare (oldName newName : String) (old new : String) (full : Bool) :
    Except Fault (Option String) := do
  let oldValue ← read isDouble oldName old
  let oldMembers ← membersOf oldName oldValue
  if full then
    let newValue ← read (fun _ => true) newName new
    let delta := Delta.of (· == ·) oldValue newValue
    return if delta.isSame then none else some delta.merged
  else
    let newMembers ← read isDouble newName new >>= membersOf newName
    let delta := Delta.of sameDouble (.object oldMembers) (.object newMembers)
    return if delta.isSame then none else some delta.brief

end ZCode.Dump

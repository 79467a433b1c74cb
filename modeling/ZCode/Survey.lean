import Std.Data.HashSet
import ZCode.Diagnosis
import ZCode.Session

set_option autoImplicit false

namespace ZCode

structure Report where
  blocks : Nat := 0
  clean : Nat := 0
  pausing : Nat := 0
  routines : Nat := 0
  failures : List (String × Nat) := []
  fragments : Array Fragment := #[]

namespace Report

def bump (kind : String) : List (String × Nat) → List (String × Nat)
  | [] => [(kind, 1)]
  | (k, n) :: rest =>
    if k == kind then (k, n + 1) :: rest
    else if kind < k then (kind, 1) :: (k, n) :: rest
    else (k, n) :: bump kind rest

def visit (r : Report) : Report :=
  { r with blocks := r.blocks + 1 }

def fail (r : Report) (fault : Fault) : Report :=
  { r with failures := bump (Diagnosis.kind fault.message) r.failures }

def keep (r : Report) (f : Fragment) : Report :=
  { r with
    clean := r.clean + 1
    pausing := if f.pauses then r.pausing + 1 else r.pausing
    fragments := r.fragments.push f }

def routine (r : Report) : Report :=
  { r with routines := r.routines + 1 }

def text (r : Report) : String :=
  s!"blocks:   {r.blocks}\nclean:    {r.clean}\npausing:  {r.pausing}\nroutines: {r.routines}\n"
    ++ String.join (r.failures.map fun (kind, n) => s!"failed {kind}: {n}\n")

end Report

structure Frontier where
  found : Array UInt32
  seen : Std.HashSet UInt32

namespace Frontier

def start (entry : UInt32) : Frontier :=
  ⟨#[entry], (∅ : Std.HashSet UInt32).insert entry⟩

def add (img : Image) (q : Frontier) (addr : UInt32) : Frontier :=
  if q.seen.contains addr || img.length ≤ addr.toNat then q
  else ⟨q.found.push addr, q.seen.insert addr⟩

end Frontier

structure Survey where
  session : Session
  stores : Array Store
  frontier : Frontier
  report : Report := {}
  log : List (List Record) := []

namespace Survey

def addRoutine (img : Image) (state : Frontier × Report) (addr : UInt32) : Frontier × Report :=
  let (q, r) := state
  let r := if q.seen.contains addr then r else r.routine
  (q.add img addr, r)

private def failure (what : String) (addr : UInt32) (fault : Fault) : Record :=
  ⟨Level.debug, Channel.command, what,
    [⟨"addr", .int addr.toNat⟩, ⟨"err", .text fault.message⟩]⟩

-- Visits the next address. A block without a fragment is still followed, though not into the
-- routines that it calls.
def step (img : Image) (writes : Nat) : Survey → Survey
  | ⟨session, stores, frontier, report, log⟩ =>
    match frontier.found[report.blocks]? with
    | none => ⟨session, stores, frontier, report, log⟩
    | some addr =>
      let report := report.visit
      let block := session.disassemble img addr
      let met := session.blockRecords img addr block
      match block with
      | .error fault =>
        let now := met ++ [failure "block does not decode" addr fault]
        ⟨session, stores, frontier, report.fail fault, now :: log⟩
      | .ok b =>
        let version := session.profile.version
        let met := met ++ session.fragmentRecords img writes stores addr
        match session.fragment img writes stores addr with
        | ⟨session, stores, .error fault⟩ =>
          let now := met ++ [failure "block does not decompile" addr fault]
          ⟨session, stores, b.continuations.foldl (·.add img) frontier, report.fail fault,
            now :: log⟩
        | ⟨session, stores, .ok f⟩ =>
          let frontier := b.continuations.foldl (·.add img) frontier
          let (frontier, report) :=
            (Block.entries img version f.calls).foldl (addRoutine img) (frontier, report.keep f)
          ⟨session, stores, frontier, report, met :: log⟩

def isDone (v : Survey) : Bool :=
  v.frontier.found.size ≤ v.report.blocks

def run (img : Image) (writes : Nat) : Nat → Survey → Survey
  | 0, v => v
  | visits + 1, v => if v.isDone then v else run img writes visits (v.step img writes)

def start (d : Session) (stores : Array Store) (entry : UInt32) : Survey :=
  { session := d, stores, frontier := .start entry }

-- How many visits a limit allows; one that is not positive allows all. No survey finds more than
-- the entry and every address of the image.
def visits (img : Image) (limit : Int) : Nat :=
  if limit ≤ 0 then img.length + 1 else limit.toNat

def of (d : Session) (img : Image) (writes : Nat) (stores : Array Store) (entry : UInt32)
    (limit : Int) : Survey :=
  (start d stores entry).run img writes (visits img limit)

def records (v : Survey) : List Record :=
  v.log.reverse.flatten

end Survey

end ZCode

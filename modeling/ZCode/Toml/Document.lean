set_option autoImplicit false

namespace ZCode.Toml

-- A value. Floating-point numbers, times and lists keep no more than their kind, since no setting
-- holds one. Tables are named by their number in the document. Of an array of tables only the
-- latest table can still grow.
inductive Value where
  | text (s : String)
  | integer (n : Int)
  | boolean (b : Bool)
  | float
  | time
  | list
  | table (number : Nat)
  | tables (latest : Nat)
  deriving DecidableEq, Repr, Inhabited

namespace Value

def table? : Value → Option Nat
  | .table t => some t
  | .tables t => some t
  | _ => none

def isList : Value → Bool
  | .list => true
  | _ => false

end Value

abbrev Table := List (String × Value)
abbrev Path := List String

def Table.set (key : String) (v : Value) : Table → Table
  | [] => [(key, v)]
  | (k, w) :: rest => if k == key then (k, v) :: rest else (k, w) :: set key v rest

-- A document being read. Its tables are numbered in the order in which they were made; table 0 is
-- the top level. One table may stand at two places.
structure Document where
  tables : Array Table := #[[]]
  -- Paths that are there only because something below them was written. Each may still be defined
  -- once.
  implied : List Path := []
  lists : List Path := []

namespace Document

def top (d : Document) : Table := d.tables.getD 0 []

def get? (d : Document) (t : Nat) (key : String) : Option Value :=
  (d.tables[t]?).bind (·.lookup key)

def set (d : Document) (t : Nat) (key : String) (v : Value) : Document :=
  { d with tables := d.tables.modify t (Table.set key v) }

def add (d : Document) : Document × Nat :=
  ({ d with tables := d.tables.push [] }, d.tables.size)

def find? (d : Document) (t : Nat) : Path → Option Nat
  | [] => some t
  | k :: ks =>
    match (d.get? t k).bind Value.table? with
    | some u => d.find? u ks
    | none => none

def imply (d : Document) (path : Path) : Document :=
  if d.implied.contains path then d else { d with implied := path :: d.implied }

def note (d : Document) (context : Path) (key : String) (isList : Bool) : Document :=
  let path := if key != "" || context.isEmpty then context ++ [key] else context
  let others := d.lists.filter (· != path)
  { d with lists := if isList then path :: others else others }

-- Defines a key of the table at a path. A key that is there already must be implied; it is so no
-- more, and keeps its value unless a list was written for it.
def define (d : Document) (context : Path) (key : String) (v : Value) : Option Document := do
  let t ← d.find? 0 context
  let path := context ++ [key]
  if (d.get? t key).isNone then d.set t key v
  else if d.implied.contains path then
    let d := { d with implied := d.implied.filter (· != path) }
    if d.lists.contains path then d.set t key v else d
  else none

def reach (d : Document) (t : Nat) (walked : Path) : Path → Option (Document × Nat)
  | [] => some (d, t)
  | k :: ks =>
    match d.get? t k with
    | none =>
      let (d, u) := d.add
      reach ((d.set t k (.table u)).imply (walked ++ [k])) u (walked ++ [k]) ks
    | some v =>
      match v.table? with
      | some u => reach d u (walked ++ [k]) ks
      | none => none

def openTable (d : Document) (path : Path) : Option Document := do
  let (d, _) ← d.reach 0 [] path.dropLast
  let (d, u) := d.add
  d.define path.dropLast (path.getLastD "") (.table u)

def openEntry (d : Document) (path : Path) : Option Document := do
  let (d, t) ← d.reach 0 [] path.dropLast
  let key := path.getLastD ""
  match d.get? t key with
  | none | some (.tables _) =>
    let (d, u) := d.add
    d.set t key (.tables u)
  | _ => none

def openKeys (d : Document) (context : Path) : Path → Option (Document × Path)
  | [] => some (d, context)
  | k :: ks => do
    let d ← (d.imply (context ++ [k])).openTable (context ++ [k])
    openKeys d (context ++ [k]) ks

def write (d : Document) (t : Nat) (key : Path) (v : Value) : Option Document :=
  match key with
  | [] => some d
  | [k] => some (d.set t k v)
  | k :: ks =>
    match d.get? t k with
    | none =>
      let (d, u) := d.add
      write (d.set t k (.table u)) u ks v
    | some (.table u) => write d u ks v
    | some _ => none

end Document

end ZCode.Toml

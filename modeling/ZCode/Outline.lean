import ZCode.Block

set_option autoImplicit false

namespace ZCode

open ZCode.Text

structure Outline where
  title : String
  branches : List (String × List String)
  deriving DecidableEq, Repr

namespace Outline

def markLast {α : Type} : List α → List (α × Bool)
  | [] => []
  | [x] => [(x, true)]
  | x :: rest => (x, false) :: markLast rest

private def edge (isLast : Bool) : String :=
  if isLast then "└── " else "├── "

private def stem (isLast : Bool) : String :=
  if isLast then "    " else "│   "

def draw (o : Outline) : String :=
  let lines := (markLast o.branches).flatMap fun ((name, leaves), lastBranch) =>
    (edge lastBranch ++ name) ::
      (markLast leaves).map fun (leaf, lastLeaf) => stem lastBranch ++ edge lastLeaf ++ leaf
  String.join ((o.title :: lines).map (· ++ "\n"))

private def branchLeaf (i : Instruction) (b : Branch) : String :=
  s!"branch iftrue={b.ifTrue} -> " ++
    match i.destination? with
    | some target => "0x" ++ hex target.toNat
    | none => "return " ++ toString b.offset.toInt

def leaves (i : Instruction) : List String :=
  List.zipWith (fun n op => s!"op{n} " ++ Operand.text op) (List.range i.operands.length) i.operands
    ++ (i.result.map fun v => s!"store {v}").toList
    ++ (i.branch.map (branchLeaf i)).toList
    ++ (i.text.map fun addr => "text 0x" ++ hex addr.toNat).toList
    ++ (if i.pauses then ["pause"] else [])

def ofBlock (version : UInt8) (b : Block) : Outline :=
  { title := "block 0x" ++ hex b.addr.toNat
    branches := b.instructions.map fun i =>
      ("0x" ++ hex i.addr.toNat ++ " " ++ i.name version, leaves i) }

end Outline

end ZCode

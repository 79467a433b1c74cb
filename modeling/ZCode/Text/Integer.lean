import ZCode.Text.Digits

set_option autoImplicit false

namespace ZCode.Text.Integer

def baseAndDigits (cs : List Char) : Nat × List Char :=
  match cs with
  | '0' :: c :: d :: rest =>
    match c.toLower with
    | 'x' => (16, d :: rest)
    | 'o' => (8, d :: rest)
    | 'b' => (2, d :: rest)
    | _ => (8, c :: d :: rest)
  | '0' :: rest => (8, rest)
  | cs => (10, cs)

def underscoresOk (afterDigit : Bool) : List Char → Bool
  | [] => true
  | ['_'] => false
  | '_' :: c :: rest => afterDigit && c != '_' && underscoresOk false (c :: rest)
  | _ :: rest => underscoresOk true rest

def magnitude? (cs : List Char) : Option Nat :=
  if cs.isEmpty then none
  else
    let (base, ds) := baseAndDigits cs
    if underscoresOk (base != 10) ds then
      (ds.filter (· != '_')).foldlM (fun n c => do
        let d ← hexDigit? c
        if d < base then some (n * base + d) else none) 0
    else none

def parse? (text : String) : Option Int := do
  let cs := text.toList
  let negative := cs.head? == some '-'
  let n ← magnitude? (if negative || cs.head? == some '+' then cs.tail else cs)
  let value : Int := if negative then -n else n
  if fits64 value then some value else none

end ZCode.Text.Integer

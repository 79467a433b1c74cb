import ZCode.Text.Digits

set_option autoImplicit false

namespace ZCode.Toml.Time

private def digits? (n : Nat) (cs : List Char) : Option (Nat × List Char) :=
  let ds := cs.take n
  if ds.length = n && ds.all Char.isDigit then
    some (ds.foldl (fun v c => 10 * v + (c.toNat - 48)) 0, cs.drop n)
  else none

private def mark? (c : Char) : List Char → Option (List Char)
  | d :: rest => if c == d then some rest else none
  | [] => none

def isLeap (year : Nat) : Bool :=
  year % 4 == 0 && (year % 100 != 0 || year % 400 == 0)

def daysIn (year month : Nat) : Nat :=
  if month == 2 then (if isLeap year then 29 else 28)
  else if month == 4 || month == 6 || month == 9 || month == 11 then 30
  else 31

def date? (cs : List Char) : Option (List Char) := do
  let (year, cs) ← digits? 4 cs
  let (month, cs) ← digits? 2 (← mark? '-' cs)
  let (day, cs) ← digits? 2 (← mark? '-' cs)
  if 1 ≤ month && month ≤ 12 && 1 ≤ day && day ≤ daysIn year month then some cs else none

def clock? (cs : List Char) : Option (List Char) := do
  let (hour, cs) ← digits? 2 cs
  let (minute, cs) ← digits? 2 (← mark? ':' cs)
  if 23 < hour || 59 < minute then none
  else match cs with
    | ':' :: cs => do
      let (second, cs) ← digits? 2 cs
      if 59 < second then none
      else match cs with
        | '.' :: d :: rest =>
          some (if d.isDigit then rest.dropWhile Char.isDigit else cs)
        | _ => some cs
    | _ => some cs

def isOffset (cs : List Char) : Bool :=
  match cs with
  | ['Z'] => true
  | c :: cs =>
    (c == '+' || c == '-') && (do
      let (hour, cs) ← digits? 2 cs
      let (minute, cs) ← digits? 2 (← mark? ':' cs)
      some (cs.isEmpty && hour ≤ 24 && minute ≤ 60)) == some true
  | [] => false

def isValid (text : List Char) : Bool :=
  let cs := text.map fun c => if c == 'z' then 'Z' else if c == 't' || c == ' ' then 'T' else c
  match date? cs with
  | some [] => true
  | some ('T' :: rest) =>
    match clock? rest with
    | some rest => rest.isEmpty || isOffset rest
    | none => false
  | some _ => false
  | none => clock? cs == some []

end ZCode.Toml.Time

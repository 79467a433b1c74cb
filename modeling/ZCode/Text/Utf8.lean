set_option autoImplicit false

namespace ZCode.Text

def isTail (b : UInt8) : Bool := 0x80 ≤ b && b < 0xC0

def join (lead : UInt8) (mask : Nat) (tails : List UInt8) : Nat :=
  tails.foldl (fun n b => 64 * n + b.toNat % 64) (lead.toNat % mask)

def character? (lead : UInt8) (rest : List UInt8) : Option (Char × Nat) :=
  let take (count mask least : Nat) : Option (Char × Nat) :=
    let tails := rest.take count
    let code := join lead mask tails
    if tails.length = count && tails.all isTail && least ≤ code && Nat.isValidChar code then
      some (Char.ofNat code, count)
    else none
  if lead < 0x80 then some (Char.ofNat lead.toNat, 0)
  else if lead < 0xC0 then none
  else if lead < 0xE0 then take 1 32 0x80
  else if lead < 0xF0 then take 2 16 0x800
  else if lead < 0xF8 then take 3 8 0x10000
  else none

def decodeFrom (skip : Nat) (decoded : List Char) : List UInt8 → List Char
  | [] => decoded.reverse
  | b :: rest =>
    match skip with
    | n + 1 => decodeFrom n decoded rest
    | 0 =>
      match character? b rest with
      | some (c, count) => decodeFrom count (c :: decoded) rest
      | none => decodeFrom 0 ('\uFFFD' :: decoded) rest

def decode (bytes : Array UInt8) : String :=
  String.ofList (decodeFrom 0 [] bytes.toList)

end ZCode.Text

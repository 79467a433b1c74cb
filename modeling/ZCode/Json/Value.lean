set_option autoImplicit false

namespace ZCode.Json

inductive Value where
  | null
  | boolean (b : Bool)
  | number (written : String)
  | string (s : String)
  | array (items : List Value)
  | object (members : List (String × Value))
  deriving Repr, Inhabited

namespace Value

mutual

def same (sameNumber : String → String → Bool) : Value → Value → Bool
  | null, null => true
  | boolean a, boolean b => a == b
  | number a, number b => sameNumber a b
  | string a, string b => a == b
  | array xs, array ys => sameItems sameNumber xs ys
  | object ms, object ns => sameMembers sameNumber ms ns
  | _, _ => false

def sameItems (sameNumber : String → String → Bool) : List Value → List Value → Bool
  | [], [] => true
  | x :: xs, y :: ys => same sameNumber x y && sameItems sameNumber xs ys
  | _, _ => false

def sameMembers (sameNumber : String → String → Bool) :
    List (String × Value) → List (String × Value) → Bool
  | [], [] => true
  | (k, v) :: ms, (l, w) :: ns => k == l && same sameNumber v w && sameMembers sameNumber ms ns
  | _, _ => false

end

def members? : Value → Option (List (String × Value))
  | null => some []
  | object ms => some ms
  | _ => none

end Value

end ZCode.Json

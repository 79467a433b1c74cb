import ZCode.Fault
import ZCode.Text.Blank

set_option autoImplicit false

namespace ZCode.Diagnosis

open ZCode.Text

private def beforeFirst (c : Char) (text : List Char) : List Char :=
  text.takeWhile (· != c)

private def afterFirst (c : Char) (text : List Char) : List Char :=
  (text.dropWhile (· != c)).tail

def afterContexts? : List Char → Option (List Char)
  | [] => none
  | ':' :: ' ' :: rest => some ((afterContexts? rest).getD rest)
  | _ :: rest => afterContexts? rest

def code (text : List Char) : List Char :=
  if text.contains '|' then
    let before := beforeFirst '|' text
    trim ((afterContexts? before).getD before)
  else []

def name (text : List Char) : List Char :=
  if text.contains '|' && text.contains ':' then trim (beforeFirst ':' (afterFirst '|' text))
  else text

def description? (text : List Char) : Option (List Char) :=
  let rest := if text.contains '|' then afterFirst '|' text else text
  if rest.contains ':' then some (trim (afterFirst ':' rest)) else none

def codeWithName (text : List Char) : List Char :=
  if (code text).isEmpty || (name text).isEmpty then []
  else code text ++ '_' :: name text

def kind (text : String) : String :=
  let known := codeWithName text.toList
  if known.isEmpty then "other" else String.ofList known

structure Reading where
  code : String := ""
  name : String := "No Error"
  codeWithName : String := ""
  description : String := ""
  deriving DecidableEq, Repr

def read : Option String → Reading
  | none => {}
  | some s =>
    let text := s.toList
    { code := String.ofList (Diagnosis.code text)
      name := String.ofList (Diagnosis.name text)
      codeWithName := String.ofList (Diagnosis.codeWithName text)
      description := ((description? text).map String.ofList).getD "DESC NOT SET" }

def wrap (text context : String) : String :=
  context ++ ": " ++ text

end ZCode.Diagnosis

import ZCode.Command.Run
import ZCode.Store.Text

set_option autoImplicit false

namespace ZCode.Main

def readFile? (path : String) : IO (Option (Array UInt8)) := do
  try
    return some (← IO.FS.readBinFile path).data
  catch _ => return none

def cacheFile (dir : String) : String := dir ++ "/fragments.json"

def inputs (c : Command) : List String :=
  match c.verb with
  | .compare => c.operands
  | .version => []
  | _ => [c.flags.config] ++ c.flags.story.toList

def readAll (c : Command) : IO Files := do
  let contents ← (inputs c).mapM fun path => return (path, ← readFile? path)
  return ⟨fun path => (contents.lookup path).join, fun _ => true⟩

def cacheDir (c : Command) (files : Files) : String :=
  if c.verb.takesStory then ((Command.settings c.flags files).toOption.map (·.cacheDir)).getD ""
  else ""

def readCache (dir : String) : IO Store := do
  if dir == "" then return {}
  return ((← readFile? (cacheFile dir)).map fun bytes => Store.ofText (Text.decode bytes)).getD {}

def writeCache (dir : String) (cache : Option Store) : IO Unit := do
  match cache with
  | some store =>
    if dir != "" then
      IO.FS.createDirAll dir
      IO.FS.writeFile (cacheFile dir) store.text
  | none => return ()

def usage : String :=
  "usage: zdecomp COMMAND [FLAGS]\n"
    ++ "commands: " ++ " ".intercalate (Verb.all.map Verb.name) ++ "\n"

end ZCode.Main

open ZCode in
def main (args : List String) : IO UInt32 := do
  match Command.parse? args with
  | none =>
    IO.eprint Main.usage
    return 1
  | some c =>
    let files ← Main.readAll c
    let dir := Main.cacheDir c files
    let cache ← Main.readCache dir
    let effect := c.run files fun _ => cache
    effect.log.forM IO.eprintln
    try
      effect.written.forM fun (path, text) => IO.FS.writeFile path text
      Main.writeCache dir effect.cache
    catch failure =>
      IO.eprintln s!"error: {failure}"
      return 1
    IO.print effect.output
    match effect.fault with
    | some fault => IO.eprintln ("error: " ++ fault.message)
    | none => pure ()
    return effect.status

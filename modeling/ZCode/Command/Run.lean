import ZCode.Command.Basic
import ZCode.Dump.Compare
import ZCode.Story
import ZCode.Text.Utf8

set_option autoImplicit false

namespace ZCode

open ZCode.Text

structure Files where
  contents : String → Option (Array UInt8)
  writable : String → Bool

structure Effect where
  status : UInt32 := 0
  output : String := ""
  fault : Option Fault := none
  written : List (String × String) := []
  cache : Option Store := none
  log : List String := []

namespace Command

def versionLine : String := "zdecomp dev (commit none, built unknown)\n"

def failing (journal : Journal) (fault : Fault) : Effect :=
  { status := 1
    fault := some fault
    log := journal.write
      ⟨Level.error, Channel.command, "zdecomp failed", [⟨"err", .text fault.message⟩]⟩ }

def firstJournal : Journal := { logger := { level := Level.info } }

def settings (f : Flags) (files : Files) : Except Fault Settings :=
  if f.config == "" then .ok (Settings.override {} f.options)
  else
    match files.contents f.config with
    | none => .error (.missingFile ("cannot read " ++ f.config ++ ": ") f.config)
    | some bytes =>
      match Settings.read? bytes with
      | none => .error (.badSettings f.config)
      | some s => .ok (s.override f.options)

structure Deed where
  story : Story
  answer : Except Fault String
  written : List (String × String) := []
  records : List Record := []

private def checkLine (start : UInt32) (f : Fragment) : Except Fault String :=
  if Script.compiles f.code then
    .ok ("block 0x" ++ hex start.toNat ++ s!": {f.instructions} instructions, {f.next - start} bytes, "
      ++ f.safety.text ++ "\n")
  else .error (.doesNotCompile ("block_" ++ hex start.toNat))

def deed (verb : Verb) (f : Flags) (files : Files) (st : Story) : Deed :=
  let start := st.entry f.addr
  match verb with
  | .block =>
    let (after, r) := st.fragment start
    { story := after, answer := r.map (·.code ++ "\n"), records := st.records (.fragment start) }
  | .check =>
    let (after, r) := st.fragment start
    { story := after, answer := r.bind (checkLine start), records := st.records (.fragment start) }
  | .disasm =>
    { story := st, answer := st.tree start, records := st.records (.disassemble start) }
  | .scan =>
    let (after, report, records) := st.survey start f.maxBlocks
    { story := after, answer := .ok report.text, records }
  | .dump =>
    let (after, report, records) := st.survey start f.maxBlocks
    if files.writable f.out then
      { story := after
        answer := .ok (s!"{report.fragments.size} blocks written to " ++ f.out ++ "\n")
        written := [(f.out, (Dump.ofReport st.header.version start report).text)]
        records }
    else { story := after, answer := .error (.missingFile "" f.out), records }
  | .version | .compare => { story := st, answer := .ok "" }

def onStory (verb : Verb) (f : Flags) (files : Files) (databases : String → Database) : Effect :=
  match settings f files with
  | .error fault => failing firstJournal fault
  | .ok s =>
    let path := f.story.getD ""
    let size := ((files.contents path).map Array.size).getD 0
    match Story.ofFile s path (files.contents path) (databases s.cacheDir) with
    | .error fault =>
      let journal := (Journal.ofSettings s).toOption.getD firstJournal
      let e := failing journal fault
      { e with log := journal.writeAll (Story.refusalRecords fault size) ++ e.log }
    | .ok st =>
      let d := deed verb f files st
      let log := st.journal.writeAll (st.openRecords path size ++ d.records)
      match d.answer with
      | .error fault =>
        let e := failing st.journal fault
        { e with cache := d.story.cache?, log := log ++ e.log }
      | .ok output => { output, written := d.written, cache := d.story.cache?, log }

def onDumps (f : Flags) (files : Files) (old new : String) : Effect :=
  match files.contents old, files.contents new with
  | none, _ => failing firstJournal (.missingFile "" old)
  | some _, none => failing firstJournal (.missingFile "" new)
  | some a, some b =>
    match Dump.compare old new (decode a) (decode b) f.full with
    | .error fault => failing firstJournal fault
    | .ok none => { output := "dumps match\n" }
    | .ok (some difference) => { status := 1, output := difference ++ "\n" }

def run (c : Command) (files : Files) (databases : String → Database) : Effect :=
  match c.verb, c.operands with
  | .version, _ => { output := versionLine }
  | .compare, [old, new] => onDumps c.flags files old new
  | .compare, _ => { status := 1 }
  | verb, _ => onStory verb c.flags files databases

def runArguments (args : List String) (files : Files) (databases : String → Database) : Effect :=
  match parse? args with
  | some c => c.run files databases
  | none => { status := 1 }

end Command

end ZCode

import ZCode.Dump
import ZCode.Outline
import ZCode.Script.Run
import ZCode.Settings.Options

set_option autoImplicit false

namespace ZCode

open ZCode.Text

def Journal.ofSettings (s : Settings) : Except Fault Journal := do
  let level ← Level.parse s.logLevel
  return ({ logger := { level } } : Journal).enableAll s.debug

structure Story where
  settings : Settings
  header : Header
  journal : Journal
  family : Family

namespace Story

def load (s : Settings) (bytes : Array UInt8) (db : Database) : Except Fault Family := do
  let fam ← Family.ofSettings s 0
  match fam.step 0 (.load bytes.toList) with
  | (_, .refused fault) => .error fault
  | (fam, _) =>
    if s.cacheDir == "" then return fam
    let store ← Store.openAt s.cacheDir db
    return ({ fam with stores := #[store] }.step 0 (.attach (some 0))).1

def ofFile (s : Settings) (path : String) (content : Option (Array UInt8)) (db : Database) :
    Except Fault Story := do
  let journal ← Journal.ofSettings s
  let bytes ← match content with
    | none => .error (.missingFile ("cannot read story " ++ path ++ ": ") path)
    | some bytes => .ok bytes
  let header ← match Header.parse bytes with
    | .error fault => .error (.inStory path fault)
    | .ok header => .ok header
  let settings := s.applyHeader header bytes.size
  let family ← load settings bytes db
  return { settings, header, journal, family }

def openRecords (st : Story) (path : String) (size : Nat) : List Record :=
  [Session.loadRecord size,
    ⟨Level.info, Channel.command, "story loaded",
      [⟨"path", .text path⟩, ⟨"version", .int st.header.version.toNat⟩, ⟨"bytes", .int size⟩,
        ⟨"pc", .int st.header.initialPc.toNat⟩]⟩]

-- A story has been loaded by the time its store does not open.
def refusalRecords (fault : Fault) (size : Nat) : List Record :=
  match fault with
  | .storeUnavailable _ _ => [Session.loadRecord size]
  | _ => []

def cache? (st : Story) : Option Store :=
  st.family.stores[0]?

def entry (st : Story) (addr : Int) : UInt32 :=
  if addr < 0 then st.header.initialPc else UInt32.ofInt addr

def step (st : Story) (s : Family.Step) : Story × Family.Answer :=
  let (family, answer) := st.family.step 0 s
  ({ st with family }, answer)

def records (st : Story) (s : Family.Step) : List Record :=
  st.family.records 0 s

def fragment (st : Story) (addr : UInt32) : Story × Except Fault Fragment :=
  match st.step (.fragment addr) with
  | (st, .fragment f) => (st, .ok f)
  | (st, .refused fault) => (st, .error fault)
  | (st, _) => (st, .error (.blockOutside addr st.family.image.length))

def tree (st : Story) (addr : UInt32) : Except Fault String :=
  match st.step (.disassemble addr) with
  | (_, .block b) => .ok (Outline.ofBlock st.header.version b).draw
  | (_, .refused fault) => .error fault
  | _ => .error (.blockOutside addr st.family.image.length)

def survey (st : Story) (entry : UInt32) (limit : Int) : Story × Report × List Record :=
  match st.family.sessions[0]? with
  | none => (st, {}, [])
  | some d =>
    let v := Survey.of d st.family.image st.family.writes st.family.stores entry limit
    ({ st with family := { st.family with stores := v.stores }.setSession 0 v.session },
      v.report, v.records)

def dump (st : Story) (entry : UInt32) (limit : Int) : Story × Dump × List Record :=
  let (after, report, records) := st.survey entry limit
  (after, Dump.ofReport st.header.version entry report, records)

def stored (st : Story) : Option (Except Fault (List UInt32)) :=
  match st.cache?, st.family.sessions[0]? with
  | some store, some d => some (store.addresses (st.family.currentKey d))
  | _, _ => none

structure Trial where
  outcome : Script.Outcome
  machine : Script.Machine

def trial (st : Story) (addr : UInt32) : Story × Except Fault Trial :=
  let (after, answer) := st.fragment addr
  (after, answer.map fun f =>
    let fresh : Script.Machine := { memory := st.family.image, globals := st.settings.globals }
    let (outcome, machine) := Script.run fresh f.code
    { outcome, machine })

def trialRecords (st : Story) (addr : Int) : List Record :=
  st.records (.fragment (UInt32.ofInt addr)) ++
    match (st.trial (UInt32.ofInt addr)).2 with
    | .ok { outcome := .finished _, machine } =>
      let name := if addr < 0 then "-" ++ hex addr.natAbs else hex addr.toNat
      [⟨Level.trace, Channel.generator, "fragment ran",
        [⟨"name", .text ("block_" ++ name)⟩, ⟨"pc", .int machine.pc.toInt⟩]⟩]
    | _ => []

end Story

end ZCode

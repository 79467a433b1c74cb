import ZCode.Proofs.Block.Access
import ZCode.Story

set_option autoImplicit false

namespace ZCode

namespace Image

theorem toList_setByte (img : Image) (pos : Nat) (b : UInt8) :
    (img.setByte pos b).bytes.toList = img.bytes.toList.set pos b := by
  simp [setByte]

-- Written bytes stand between what was before them and what was behind them.
theorem toList_write {img : Image} {pos : Nat} {data : List UInt8}
    (fits : pos + data.length ≤ img.length) : (img.write pos data).bytes.toList =
      img.bytes.toList.take pos ++ data ++ img.bytes.toList.drop (pos + data.length) := by
  induction data generalizing img pos with
  | nil => simp [write]
  | cons b rest ih =>
    rw [List.length_cons] at fits
    have room : pos < img.bytes.toList.length := by
      rw [length] at fits
      rw [Array.length_toList]
      omega
    have later : pos + 1 + rest.length ≤ (img.setByte pos b).length := by
      rw [length_setByte]
      omega
    have front : (img.bytes.toList.set pos b).take (pos + 1) =
        img.bytes.toList.take pos ++ [b] := by
      have before : (img.bytes.toList.take pos).length = pos := List.length_take_of_le room.le
      rw [List.take_set, List.take_succ_eq_append_getElem room,
        List.set_append_right _ _ before.le, before, Nat.sub_self]
      rfl
    rw [write, ih later, toList_setByte, front, List.drop_set_of_lt (by omega), List.length_cons,
      Nat.add_right_comm pos 1, ← Nat.add_assoc, List.append_assoc, List.append_assoc,
      List.append_assoc]
    rfl

theorem toList_load {length : UInt32} {story : List UInt8} (fits : story.length ≤ length.toNat) :
    ((zeroed length).write 0 story).bytes.toList =
      story ++ List.replicate (length.toNat - story.length) 0 := by
  have room : 0 + story.length ≤ (zeroed length).length := by
    simpa [Image.length, zeroed] using fits
  rw [toList_write room]
  simp [zeroed]

end Image

namespace Header

/-- The header is what a story has at the places of its fields. The length is recorded in units of
the packing of its version. -/
structure Begins (h : Header) (story : Array UInt8) : Prop where
  version : h.version = story.getD 0 0
  globals : h.globals.toNat = 256 * (story.getD 12 0).toNat + (story.getD 13 0).toNat
  staticMemory : h.staticMemory.toNat = 256 * (story.getD 14 0).toNat + (story.getD 15 0).toNat
  fileLength : h.fileLength.toNat =
    (256 * (story.getD 26 0).toNat + (story.getD 27 0).toNat) * (packedMultiplier h.version).toNat

theorem parse_of_long {story : Array UInt8} (long : 64 ≤ story.size) :
    ∃ h, parse story = .ok h ∧ h.Begins story := by
  refine ⟨_, if_neg (Nat.not_lt.mpr long), rfl, Image.toNat_word _ _, Image.toNat_word _ _, ?_⟩
  exact (Block.toNat_target _ _).trans (congrArg (· * _) (Image.toNat_word _ _))

end Header

namespace Settings

theorem imageLength_applyHeader (s : Settings) (h : Header) {storyLength : Nat}
    (short : storyLength < 2 ^ 32) : (s.applyHeader h storyLength).imageLength.toNat =
      max s.imageLength.toNat (max storyLength h.fileLength.toNat) := by
  have whole : storyLength.toUInt32.toNat = storyLength := Nat.mod_eq_of_lt short
  rw [applyHeader, UInt32.toNat_max, UInt32.toNat_max, whole]

end Settings

namespace Family

theorem ofSettings_eq_error_iff (s : Settings) (stores : Nat) (fault : Fault) :
    ofSettings s stores = .error fault ↔ s.validate = .error fault := by
  rw [← Session.ofSettings_eq_error_iff, ofSettings]
  cases Session.ofSettings s with
  | error fault => simp [bind, Except.bind]
  | ok d => simp [bind, Except.bind, pure, Except.pure]

-- The one session of a family as it is built.
def firstSession (s : Settings) : Session :=
  { profile := ⟨s.version, s.globals⟩
    staticMemory := s.staticMemory
    ioUnsafe := s.ioUnsafe
    cap := s.maxInstructions.toNat }

theorem ofSettings_eq {s : Settings} {stores : Nat} {fam : Family}
    (made : ofSettings s stores = .ok fam) : fam =
      { image := .zeroed s.imageLength
        stores := Array.replicate stores {}
        sessions := #[firstSession s] } := by
  obtain ⟨d, built, made⟩ := Statement.ok_of_bind made
  cases made
  rw [Session.ofSettings_eq built]
  rfl

/-- One session over an image of this length that holds the story and zeros behind it. -/
structure Carries (fam : Family) (s : Settings) (story : List UInt8) : Prop where
  image : fam.image.bytes.toList =
    story ++ List.replicate (s.imageLength.toNat - story.length) 0
  session : ∃ d, fam.sessions = #[d] ∧ d.profile = ⟨s.version, s.globals⟩ ∧
    d.staticMemory = s.staticMemory ∧ d.cap = s.maxInstructions.toNat

theorem load_of_fits {s : Settings} {stores : Nat} {fam : Family}
    (made : ofSettings s stores = .ok fam) {story : List UInt8}
    (fits : story.length ≤ s.imageLength.toNat) : ∃ loaded,
      fam.step 0 (.load story) = (loaded, .done) ∧ loaded.Carries s story := by
  obtain rfl := ofSettings_eq made
  have room : ¬ (Image.zeroed s.imageLength).length < story.length.toUInt32.toNat := by
    have wrapped : story.length.toUInt32.toNat ≤ story.length := Nat.mod_le _ _
    simpa [Image.length, Image.zeroed] using wrapped.trans fits
  refine ⟨_, if_neg room, Image.toList_load fits, ?_⟩
  exact ⟨(firstSession s).invalidate 1, rfl, rfl, rfl, rfl⟩

-- Attaching a store changes the session and not the image.
theorem Carries.attach {fam : Family} {s : Settings} {story : List UInt8}
    (carries : fam.Carries s story) (n : Nat) :
    (fam.step 0 (.attach (some n))).1.Carries s story := by
  obtain ⟨image, d, single, profile, rest⟩ := carries
  have attached : (fam.step 0 (.attach (some n))).1 =
      { fam with sessions := #[{ d with store := some n }] } := by
    simp [step, setSession, single]
  rw [attached]
  exact ⟨image, _, rfl, profile, rest⟩

end Family

namespace Story

theorem ofFile_eq (s : Settings) (path : String) {bytes : Array UInt8} (db : Database)
    {journal : Journal} (logs : Journal.ofSettings s = .ok journal) {h : Header}
    (parsed : Header.parse bytes = .ok h) : ofFile s path (some bytes) db =
      (load (s.applyHeader h bytes.size) bytes db).map fun family =>
        { settings := s.applyHeader h bytes.size, header := h, journal, family } := by
  simp only [ofFile, logs, parsed, bind, Except.bind, Except.map]
  cases load (s.applyHeader h bytes.size) bytes db <;> rfl

theorem load_of_invalid {s : Settings} {fault : Fault} (invalid : s.validate = .error fault)
    (bytes : Array UInt8) (db : Database) : load s bytes db = .error fault := by
  rw [load, (Family.ofSettings_eq_error_iff s 0 fault).mpr invalid]
  rfl

-- Loading goes well, so that only the store is left to fail.
theorem load_of_validate {s : Settings} (valid : s.validate = .ok ()) {bytes : Array UInt8}
    (fits : bytes.toList.length ≤ s.imageLength.toNat) (db : Database) :
    ∃ loaded : Family, loaded.Carries s bytes.toList ∧ load s bytes db =
      if s.cacheDir = "" then .ok loaded
      else (Store.openAt s.cacheDir db).map fun store =>
        ({ loaded with stores := #[store] }.step 0 (.attach (some 0))).1 := by
  cases made : Family.ofSettings s 0 with
  | error fault =>
    rw [Family.ofSettings_eq_error_iff, valid] at made
    cases made
  | ok fam =>
    obtain ⟨loaded, step, carries⟩ := Family.load_of_fits made fits
    refine ⟨loaded, carries, ?_⟩
    simp only [load, made, bind, Except.bind, step, beq_iff_eq, pure, Except.pure]
    split
    · rfl
    · cases Store.openAt s.cacheDir db <;> rfl

theorem openAt_eq_error_iff {path : String} (named : path ≠ "") (db : Database) (fault : Fault) :
    Store.openAt path db = .error fault ↔
      ∃ reason, db.refusal = some reason ∧ fault = .storeUnavailable path reason := by
  rw [Store.openAt, if_neg (by simpa using named)]
  cases db.refusal <;> simp [eq_comm]

theorem load_eq_error_iff {s : Settings} {bytes : Array UInt8} (db : Database)
    (fits : bytes.toList.length ≤ s.imageLength.toNat) (fault : Fault) :
    load s bytes db = .error fault ↔ s.validate = .error fault ∨
      s.validate = .ok () ∧ s.cacheDir ≠ "" ∧
        ∃ reason, db.refusal = some reason ∧ fault = .storeUnavailable s.cacheDir reason := by
  cases valid : s.validate with
  | error fault' => simp [load_of_invalid valid]
  | ok _ =>
    obtain ⟨loaded, -, outcome⟩ := load_of_validate valid fits db
    rw [outcome]
    by_cases unnamed : s.cacheDir = ""
    · simp [unnamed]
    · rw [if_neg unnamed, ← openAt_eq_error_iff unnamed]
      cases Store.openAt s.cacheDir db <;> simp [Except.map, unnamed]

theorem carries_of_load {s : Settings} {bytes : Array UInt8} {db : Database} {fam : Family}
    (fits : bytes.toList.length ≤ s.imageLength.toNat) (opened : load s bytes db = .ok fam) :
    fam.Carries s bytes.toList := by
  cases valid : s.validate with
  | error fault =>
    rw [load_of_invalid valid] at opened
    cases opened
  | ok _ =>
    obtain ⟨loaded, carries, outcome⟩ := load_of_validate valid fits db
    rw [outcome] at opened
    split at opened
    · cases opened
      exact carries
    · cases found : Store.openAt s.cacheDir db with
      | error fault =>
        rw [found] at opened
        cases opened
      | ok store =>
        rw [found] at opened
        cases opened
        have same : { loaded with stores := #[store] }.Carries s bytes.toList :=
          ⟨carries.image, carries.session⟩
        exact same.attach 0

/-- For any settings and any story that has room for a header and is shorter than 2^32 bytes: the
header replaces the version, the globals and the static memory of the settings, and the image
becomes as long as the settings, the story or the header asks, whichever is most. A family is built
exactly if these settings are valid. The story can then always be loaded, and stands in the image
with nothing but zeros behind it; and so it does when it is opened from a file, which fails only for
the settings or for a store that does not open. -/
theorem opens_whole (s : Settings) {bytes : Array UInt8} (long : 64 ≤ bytes.size)
    (short : bytes.size < 2 ^ 32) : ∃ h, Header.parse bytes = .ok h ∧ h.Begins bytes ∧
      let t := s.applyHeader h bytes.size
      t = { s with version := h.version, globals := h.globals, staticMemory := h.staticMemory,
                   imageLength := t.imageLength } ∧
      t.imageLength.toNat = max s.imageLength.toNat (max bytes.size h.fileLength.toNat) ∧
      (∀ stores fault, Family.ofSettings t stores = .error fault ↔ t.validate = .error fault) ∧
      (∀ stores fam, Family.ofSettings t stores = .ok fam → ∃ loaded,
        fam.step 0 (.load bytes.toList) = (loaded, .done) ∧ loaded.Carries t bytes.toList) ∧
      ∀ path db journal, Journal.ofSettings s = .ok journal →
        (∀ fault, ofFile s path (some bytes) db = .error fault ↔ t.validate = .error fault ∨
          t.validate = .ok () ∧ s.cacheDir ≠ "" ∧
            ∃ reason, db.refusal = some reason ∧ fault = .storeUnavailable s.cacheDir reason) ∧
        ∀ st, ofFile s path (some bytes) db = .ok st →
          st.header = h ∧ st.settings = t ∧ st.family.Carries t bytes.toList := by
  obtain ⟨h, parsed, begins⟩ := Header.parse_of_long long
  refine ⟨h, parsed, begins, ?_⟩
  intro t
  have length : t.imageLength.toNat = max s.imageLength.toNat (max bytes.size h.fileLength.toNat) :=
    Settings.imageLength_applyHeader s h short
  have fits : bytes.toList.length ≤ t.imageLength.toNat := by
    rw [Array.length_toList]
    omega
  refine ⟨rfl, length, fun stores fault => Family.ofSettings_eq_error_iff t stores fault, ?_, ?_⟩
  · exact fun stores fam made => Family.load_of_fits made fits
  · intro path db journal logs
    rw [ofFile_eq s path db logs parsed]
    constructor
    · intro fault
      have fails : load t bytes db = .error fault ↔ _ := load_eq_error_iff db fits fault
      rw [show s.cacheDir = t.cacheDir from rfl, ← fails]
      cases load t bytes db <;> simp [Except.map]
    · intro st opened
      generalize made : load (s.applyHeader h bytes.size) bytes db = result at opened
      cases result with
      | error fault => cases opened
      | ok fam =>
        cases opened
        exact ⟨rfl, rfl, carries_of_load fits made⟩

-- A story of 64 bytes in version 3 that says it has 512, with settings that say otherwise: it opens
-- whole, but not over a store that is in use.
theorem opens_whole_padded :
    let s : Settings := { version := 5, globals := 100, imageLength := 80, cacheDir := "cache" }
    let bytes := ((Image.zeroed 64).write 0 ([3] ++ List.replicate 11 0 ++ [0, 16, 0, 64] ++
      List.replicate 10 0 ++ [1, 0])).bytes
    64 ≤ bytes.size ∧ bytes.size < 2 ^ 32 ∧
      (∃ st, ofFile s "story.z" (some bytes) {} = .ok st ∧
        st.settings =
          { s with version := 3, globals := 16, staticMemory := 64, imageLength := 512 } ∧
        st.family.image.bytes.toList = bytes.toList ++ List.replicate 448 0) ∧
      ofFile s "story.z" (some bytes) { refusal := some "in use" } =
        .error (.storeUnavailable "cache" "in use") := by
  intro s bytes
  have size : bytes.size = 64 := by decide +kernel
  have long : 64 ≤ bytes.size := size.ge
  have short : bytes.size < 2 ^ 32 := by omega
  refine ⟨long, short, ?_⟩
  obtain ⟨h, parsed, -, -, length, -, -, opening⟩ := opens_whole s long short
  have fields : Header.parse bytes = .ok ⟨3, 0, 0, 0, 16, 64, 512⟩ := by decide +kernel
  obtain rfl := Except.ok.inj (fields.symm.trans parsed)
  have level : Level.parse s.logLevel = .ok Level.info := by decide +kernel
  have logs : Journal.ofSettings s =
      .ok (({ logger := { level := Level.info } } : Journal).enableAll s.debug) := by
    rw [Journal.ofSettings, level]
    rfl
  have asked : s.applyHeader ⟨3, 0, 0, 0, 16, 64, 512⟩ bytes.size =
      { s with version := 3, globals := 16, staticMemory := 64, imageLength := 512 } := by
    decide +kernel
  have valid : (s.applyHeader ⟨3, 0, 0, 0, 16, 64, 512⟩ bytes.size).validate = .ok () := by
    decide +kernel
  constructor
  · obtain ⟨fails, opens⟩ := opening "story.z" {} _ logs
    cases opened : ofFile s "story.z" (some bytes) {} with
    | error fault =>
      rcases (fails fault).mp opened with invalid | ⟨-, -, reason, refused, -⟩
      · rw [valid] at invalid
        cases invalid
      · cases refused
    | ok st =>
      obtain ⟨-, settings, carries⟩ := opens st opened
      have image := carries.image
      rw [asked, Array.length_toList, size] at image
      exact ⟨st, rfl, settings.trans asked, image⟩
  · obtain ⟨fails, -⟩ := opening "story.z" { refusal := some "in use" } _ logs
    exact (fails _).mpr (.inr ⟨valid, by decide, "in use", rfl, rfl⟩)

end Story

end ZCode

import Mathlib.Data.List.Nodup
import ZCode.Session
import ZCode.Proofs.Store

set_option autoImplicit false

namespace ZCode

theorem Settings.supported_of_validate {s : Settings} (valid : s.validate = .ok ()) :
    supportedVersion s.version = true := by
  rw [validate] at valid
  split at valid
  · cases valid
  next within =>
    simp only [Bool.or_eq_true, decide_eq_true_eq, not_or, UInt8.not_lt] at within
    simp only [supportedVersion, Bool.and_eq_true, decide_eq_true_eq]
    exact within

namespace Session

variable {s : Settings}

theorem ofSettings_of_invalid {fault : Fault} (invalid : s.validate = .error fault) :
    ofSettings s = .error fault := by
  rw [ofSettings, invalid]
  rfl

-- The table of a version is only asked for when the version has been found valid.
theorem ofSettings_of_validate (valid : s.validate = .ok ()) : ofSettings s =
    .ok { profile := ⟨s.version, s.globals⟩, staticMemory := s.staticMemory,
          ioUnsafe := s.ioUnsafe, cap := s.maxInstructions.toNat } := by
  have table : Shape.table s.version = .ok (Shape.row? s.version) :=
    if_pos (Settings.supported_of_validate valid)
  rw [ofSettings, valid, table]
  rfl

theorem ofSettings_eq_error_iff (s : Settings) (fault : Fault) :
    ofSettings s = .error fault ↔ s.validate = .error fault := by
  cases valid : s.validate with
  | error fault' => simp [ofSettings_of_invalid valid]
  | ok _ => simp [ofSettings_of_validate valid]

theorem exists_ofSettings_iff (s : Settings) :
    (∃ d, ofSettings s = .ok d) ↔ s.validate = .ok () := by
  cases valid : s.validate with
  | error fault => simp [ofSettings_of_invalid valid]
  | ok _ => simp [ofSettings_of_validate valid]

theorem ofSettings_eq {d : Session} (made : ofSettings s = .ok d) :
    d = { profile := ⟨s.version, s.globals⟩, staticMemory := s.staticMemory,
          ioUnsafe := s.ioUnsafe, cap := s.maxInstructions.toNat } := by
  have valid := (exists_ofSettings_iff s).mp ⟨d, made⟩
  rw [ofSettings_of_validate valid] at made
  exact (Except.ok.inj made).symm

end Session

theorem Fragment.addr_of_generate {img : Image} {p : Profile} {cap : Nat} {addr : UInt32}
    {f : Fragment} (made : Fragment.generate img p cap addr = .ok f) : f.addr = addr := by
  simp only [Fragment.generate, Block.decode, Fragment.ofBlock] at made
  split at made
  · cases made
  split at made
  next =>
    cases statements : (Block.walk img p cap addr).instructions.mapM (Statement.render p) with
    | error fault =>
      simp [statements, bind, Except.bind] at made
    | ok texts =>
      simp only [statements, bind, Except.bind, pure, Except.pure, Except.ok.injEq] at made
      rw [← made]
  all_goals cases made

namespace Store

def Within (s t : Store) : Prop :=
  ∀ (key : ImageKey) (addr : UInt32) (f : Fragment),
    s.shelf key addr = some f → t.shelf key addr = some f

-- The entries were generated from one of the images, the one whose key they are filed under.
def Honest (images : List Image) (p : Profile) (cap : Nat) (s : Store) : Prop :=
  ∀ (key : ImageKey) (addr : UInt32) (f : Fragment), s.shelf key addr = some f →
    ∃ img ∈ images, key = ⟨Digest.ofBytes img.bytes, p.version⟩ ∧
      Fragment.generate img p cap addr = .ok f

variable {s t : Store} {key : ImageKey} {addr : UInt32} {f : Fragment}
  {images : List Image} {p : Profile} {cap : Nat}

theorem honest_empty : Honest images p cap {} := by
  intro key addr f held
  simp at held

theorem Honest.of_within (honest : t.Honest images p cap) (within : s.Within t) :
    s.Honest images p cap := by
  intro key addr f held
  exact honest key addr f (within key addr f held)

theorem Honest.mono {images' : List Image} (honest : s.Honest images p cap)
    (more : images ⊆ images') : s.Honest images' p cap := by
  intro key addr f held
  obtain ⟨img, member, filed, made⟩ := honest key addr f held
  exact ⟨img, more member, filed, made⟩

theorem Honest.put {img : Image} (honest : s.Honest images p cap) (member : img ∈ images)
    (made : Fragment.generate img p cap addr = .ok f)
    (kept : s.put ⟨Digest.ofBytes img.bytes, p.version⟩ f = .ok t) : t.Honest images p cap := by
  have filed := Fragment.addr_of_generate made
  intro key addr' f' held
  rw [shelf_put kept] at held
  split at held
  next here =>
    obtain ⟨rfl, rfl⟩ := here
    cases held
    exact ⟨img, member, rfl, by rw [filed, made]⟩
  next => exact honest key addr' f' held

theorem honest_getD {stores : Array Store} (honest : ∀ s ∈ stores, s.Honest images p cap) (n : Nat) :
    (stores.getD n {}).Honest images p cap := by
  by_cases inside : n < stores.size
  next =>
    rw [Array.getD_eq_getD_getElem?, Array.getElem?_eq_getElem inside]
    exact honest _ (Array.getElem_mem inside)
  next =>
    rw [Array.getD_eq_getD_getElem?, Array.getElem?_eq_none (by omega)]
    exact honest_empty

theorem honest_setIfInBounds {stores : Array Store}
    (honest : ∀ s ∈ stores, s.Honest images p cap) (n : Nat) {t : Store}
    (new : t.Honest images p cap) : ∀ s ∈ stores.setIfInBounds n t, s.Honest images p cap := by
  intro s member
  rcases Array.mem_or_eq_of_mem_setIfInBounds member with old | rfl
  · exact honest s old
  · exact new

theorem within_of_delete (done : s.delete key addr = .ok t) : t.Within s := by
  intro key' addr' f' held
  rw [shelf_delete done] at held
  split at held
  · cases held
  · exact held

theorem within_of_deleteImage (done : s.deleteImage key = .ok t) : t.Within s := by
  intro key' addr' f' held
  rw [shelf_deleteImage done] at held
  split at held
  · cases held
  · exact held

theorem within_of_close (done : s.close = .ok t) : t.Within s := by
  simp only [close] at done
  split at done
  · cases done
  cases done
  exact fun _ _ _ held => held

end Store

namespace Session

theorem seen_sync (d : Session) (writes : Nat) : (d.sync writes).seen = writes := by
  rw [sync]
  split
  · assumption
  · rfl

theorem sync_of_seen {d : Session} {writes : Nat} (latest : d.seen = writes) :
    d.sync writes = d :=
  if_pos latest

theorem profile_sync (d : Session) (writes : Nat) : (d.sync writes).profile = d.profile := by
  rw [sync]
  split <;> rfl

theorem cap_sync (d : Session) (writes : Nat) : (d.sync writes).cap = d.cap := by
  rw [sync]
  split <;> rfl

theorem store_sync (d : Session) (writes : Nat) : (d.sync writes).store = d.store := by
  rw [sync]
  split <;> rfl

structure Agrees (d : Session) (img : Image) : Prop where
  cache : ∀ (addr : UInt32) (f : Fragment), d.cache[addr]? = some f → d.generate img addr = .ok f
  digest : d.digestOf img = Digest.ofBytes img.bytes

structure Blank (d : Session) : Prop where
  cache : ∀ addr : UInt32, d.cache[addr]? = none
  digest : d.digest = none

theorem Blank.agrees {d : Session} (blank : d.Blank) (img : Image) : d.Agrees img where
  cache addr f held := by simp [blank.cache addr] at held
  digest := by simp [digestOf, blank.digest]

theorem blank_invalidate (d : Session) (writes : Nat) : (d.invalidate writes).Blank where
  cache addr := by simp [invalidate]
  digest := rfl

-- A session with the given profile and cap that agrees with the image if it has seen all writes,
-- and keeps nothing while the image is open for writing.
structure Current (p : Profile) (cap : Nat) (img : Image) (writes : Nat) (writable : Bool)
    (d : Session) : Prop where
  profile : d.profile = p
  cap : d.cap = cap
  seen : d.seen ≤ writes
  agrees : d.seen = writes → d.Agrees img
  blank : writable = true → d.seen = writes → d.Blank

variable {d : Session} {p : Profile} {cap : Nat} {img : Image} {writes : Nat} {writable : Bool}
  {images : List Image} {stores : Array Store} {addr : UInt32} {f : Fragment}

theorem Current.invalidate (current : d.Current p cap img writes writable) (img' : Image)
    (writes' : Nat) (writable' : Bool) :
    (d.invalidate writes').Current p cap img' writes' writable' where
  profile := current.profile
  cap := current.cap
  seen := Nat.le_refl _
  agrees _ := (blank_invalidate d writes').agrees img'
  blank _ _ := blank_invalidate d writes'

theorem Current.sync (current : d.Current p cap img writes writable) :
    (d.sync writes).Current p cap img writes false ∧ (d.sync writes).seen = writes := by
  rw [Session.sync]
  split
  next same =>
    exact ⟨{ current with blank := by simp }, same⟩
  next => exact ⟨current.invalidate img writes false, rfl⟩

theorem Agrees.remember (agrees : d.Agrees img) (made : d.generate img addr = .ok f) :
    (d.remember addr f).Agrees img where
  cache addr' f' held := by
    simp only [Session.remember, Std.HashMap.getElem?_insert] at held
    split at held
    next same =>
      simp only [beq_iff_eq] at same
      cases held
      rw [← same]
      exact made
    next => exact agrees.cache addr' f' held
  digest := agrees.digest

theorem Agrees.withDigest (agrees : d.Agrees img) : (d.withDigest img).Agrees img where
  cache := agrees.cache
  digest := agrees.digest

theorem Current.remember (current : d.Current p cap img writes false) (latest : d.seen = writes)
    (made : Fragment.generate img p cap addr = .ok f) :
    (d.remember addr f).Current p cap img writes false where
  profile := current.profile
  cap := current.cap
  seen := current.seen
  agrees _ := (current.agrees latest).remember (by
    rw [generate, current.profile, current.cap]
    exact made)
  blank := by simp

theorem imageKey_of_agrees (agrees : d.Agrees img) :
    d.imageKey img = ⟨Digest.ofBytes img.bytes, d.profile.version⟩ := by
  rw [imageKey, agrees.digest]

structure Fetch.Right (p : Profile) (cap : Nat) (img : Image) (writes : Nat) (images : List Image)
    (addr : UInt32) (r : Fetch) : Prop where
  session : r.session.Current p cap img writes false
  stores : ∀ s ∈ r.stores, s.Honest images p cap
  answer : r.answer = Fragment.generate img p cap addr

theorem generateAndKeep_right (current : d.Current p cap img writes false)
    (latest : d.seen = writes) (honest : ∀ s ∈ stores, s.Honest images p cap)
    (member : img ∈ images) :
    (d.generateAndKeep img stores addr).Right p cap img writes images addr := by
  have same : d.generate img addr = Fragment.generate img p cap addr := by
    rw [generate, current.profile, current.cap]
  rw [generateAndKeep, same]
  split
  next fault failed => exact ⟨current, honest, failed.symm⟩
  next f made =>
    have kept := current.remember latest made
    split
    next => exact ⟨kept, honest, made.symm⟩
    next n _ =>
      refine ⟨kept, ?_, made.symm⟩
      split
      next t put =>
        rw [imageKey_of_agrees (current.agrees latest), current.profile] at put
        exact Store.honest_setIfInBounds honest n ((Store.honest_getD honest n).put member made put)
      next => exact honest

-- A fetch answers with the fragment of the image as it is. Entries found in a store are those of
-- this image, for no two images of the run share a digest.
theorem fragment_right (current : d.Current p cap img writes writable)
    (honest : ∀ s ∈ stores, s.Honest images p cap) (member : img ∈ images)
    (apart : ∀ a ∈ images, ∀ b ∈ images,
      Digest.ofBytes a.bytes = Digest.ofBytes b.bytes → a = b) :
    (d.fragment img writes stores addr).Right p cap img writes images addr := by
  obtain ⟨synced, latest⟩ := current.sync
  have agrees := synced.agrees latest
  have digested : ((d.sync writes).withDigest img).Current p cap img writes false :=
    { synced with agrees := fun _ => agrees.withDigest, blank := by simp }
  simp only [fragment]
  split
  next f held =>
    refine ⟨synced, honest, ?_⟩
    rw [← agrees.cache addr f held, generate, synced.profile, synced.cap]
  next => exact generateAndKeep_right synced latest honest member
  next n _ _ =>
    split
    next f found =>
      have made : Fragment.generate img p cap addr = .ok f := by
        rw [Store.get] at found
        split at found
        · cases found
        rw [imageKey_of_agrees agrees.withDigest] at found
        obtain ⟨img', member', filed, made⟩ :=
          Store.honest_getD honest n _ addr f (Except.ok.inj found)
        rw [ImageKey.mk.injEq] at filed
        rw [apart img member img' member' filed.1]
        exact made
      exact ⟨digested.remember latest made, honest, made.symm⟩
    all_goals exact generateAndKeep_right digested latest honest member

end Session

namespace Family

inductive Event where
  | step (session : Nat) (s : Step)
  -- A store loses entries, begins to fail or recovers.
  | disturb (store : Nat) (s : Store)

def after (fam : Family) : Event → Family
  | .step i s => (fam.step i s).1
  | .disturb n s => { fam with stores := fam.stores.setIfInBounds n s }

/-- Bytes are changed without notice only while the image is open for writing, and fragments reach a
store by being fetched only. -/
def Step.Permitted (writable : Bool) : Step → Prop
  | .poke .. => writable = true
  | .put .. => False
  | _ => True

def Permits (fam : Family) (writable : Bool) : Event → Prop
  | .step i s => i < fam.sessions.size ∧ s.Permitted writable
  | .disturb n s => s.Within (fam.stores.getD n {})

/-- The image is open for writing from a write to the next fragment. -/
def writableAfter (writable : Bool) : Event → Bool
  | .step _ (.write ..) => true
  | .step _ (.fragment ..) => false
  | _ => writable

/-- The family after some events, with every image on the way and whether the image is open for
writing. -/
inductive Run (start : Family) : List Image → Family → Bool → Prop where
  | refl : Run start [start.image] start false
  | next {images : List Image} {fam : Family} {writable : Bool} (e : Event)
      (run : Run start images fam writable) (permitted : fam.Permits writable e) :
      Run start ((fam.after e).image :: images) (fam.after e) (writableAfter writable e)

structure Sound (p : Profile) (cap : Nat) (images : List Image) (fam : Family) (writable : Bool) :
    Prop where
  sessions : ∀ d ∈ fam.sessions, d.Current p cap fam.image fam.writes writable
  stores : ∀ s ∈ fam.stores, s.Honest images p cap

variable {p : Profile} {cap : Nat} {images images' : List Image} {fam : Family} {writable : Bool}
  {i : Nat} {d : Session}

theorem Sound.mono (sound : fam.Sound p cap images writable) (more : images ⊆ images') :
    fam.Sound p cap images' writable :=
  ⟨sound.sessions, fun s member => (sound.stores s member).mono more⟩

theorem current_setSession {sessions : Array Session} {img : Image} {writes : Nat}
    (others : ∀ d ∈ sessions, d.Current p cap img writes writable)
    (new : d.Current p cap img writes writable) :
    ∀ d' ∈ sessions.setIfInBounds i d, d'.Current p cap img writes writable := by
  intro d' member
  rcases Array.mem_or_eq_of_mem_setIfInBounds member with old | rfl
  · exact others d' old
  · exact new

theorem Sound.writeThrough (sound : fam.Sound p cap images writable) (member : d ∈ fam.sessions)
    (addr : Nat) (data : List UInt8) (writable' : Bool) :
    (fam.writeThrough i d addr data).Sound p cap images writable' := by
  refine ⟨current_setSession ?_ ((sound.sessions d member).invalidate _ _ _), sound.stores⟩
  intro d' member'
  obtain ⟨profile, cap, seen, -, -⟩ := sound.sessions d' member'
  have behind : d'.seen ≠ fam.writes + 1 := by omega
  exact ⟨profile, cap, Nat.le_succ_of_le seen, fun same => absurd same behind,
    fun _ same => absurd same behind⟩

theorem Sound.poke (sound : fam.Sound p cap images true) (img : Image) :
    { fam with image := img }.Sound p cap images true := by
  refine ⟨?_, sound.stores⟩
  intro d member
  have current := sound.sessions d member
  exact { current with agrees := fun latest => (current.blank rfl latest).agrees img }

theorem Sound.clone (sound : fam.Sound p cap images writable) (member : d ∈ fam.sessions) :
    { fam with sessions := fam.sessions.push (d.clone fam.writes) }.Sound p cap images writable := by
  refine ⟨?_, sound.stores⟩
  intro d' member'
  rcases Array.mem_push.mp member' with old | rfl
  · exact sound.sessions d' old
  · exact (sound.sessions d member).invalidate _ _ _

theorem Sound.attach (sound : fam.Sound p cap images writable) (member : d ∈ fam.sessions)
    (store : Option Nat) : (fam.setSession i { d with store }).Sound p cap images writable := by
  refine ⟨current_setSession sound.sessions ?_, sound.stores⟩
  obtain ⟨profile, cap, seen, agrees, blank⟩ := sound.sessions d member
  exact ⟨profile, cap, seen, fun latest => ⟨(agrees latest).cache, (agrees latest).digest⟩,
    fun opened latest => ⟨(blank opened latest).cache, (blank opened latest).digest⟩⟩

theorem Sound.disturb (sound : fam.Sound p cap images writable) (n : Nat) {s : Store}
    (within : s.Within (fam.stores.getD n {})) :
    { fam with stores := fam.stores.setIfInBounds n s }.Sound p cap images writable :=
  ⟨sound.sessions, Store.honest_setIfInBounds sound.stores n
    ((Store.honest_getD sound.stores n).of_within within)⟩

theorem Sound.changeStore (sound : fam.Sound p cap images writable) (n : Nat)
    {change : Store → Except Fault Store} (fewer : ∀ s t, change s = .ok t → t.Within s) :
    (fam.changeStore n change).1.Sound p cap images writable := by
  rw [Family.changeStore]
  split
  next s changed => exact sound.disturb n (fewer _ s changed)
  next => exact sound

def DigestsApart (images : List Image) : Prop :=
  ∀ a ∈ images, ∀ b ∈ images, Digest.ofBytes a.bytes = Digest.ofBytes b.bytes → a = b

theorem Sound.fetched (sound : fam.Sound p cap images writable) (member : d ∈ fam.sessions)
    (present : fam.image ∈ images) (apart : DigestsApart images) (addr : UInt32) :
    (d.fragment fam.image fam.writes fam.stores addr).Right p cap fam.image fam.writes images
      addr :=
  Session.fragment_right (sound.sessions d member) sound.stores present apart

theorem Sound.step (sound : fam.Sound p cap images writable) (present : fam.image ∈ images)
    (apart : DigestsApart images) (inside : i < fam.sessions.size) {s : Step}
    (permitted : s.Permitted writable) :
    (fam.step i s).1.Sound p cap images (writableAfter writable (.step i s)) := by
  have member : fam.sessions[i] ∈ fam.sessions := Array.getElem_mem inside
  rw [Family.step, Array.getElem?_eq_getElem inside]
  cases s with
  | write addr data => exact sound.writeThrough member addr data true
  | poke addr data =>
    obtain rfl : writable = true := permitted
    exact sound.poke _
  | load story =>
    dsimp only
    split
    · exact sound
    · exact sound.writeThrough member 0 story writable
  | clone => exact sound.clone member
  | attach store => exact sound.attach member store
  | fragment addr =>
    obtain ⟨session, stores, -⟩ := sound.fetched member present apart addr
    refine ⟨current_setSession ?_ session, stores⟩
    intro d member
    exact { sound.sessions d member with blank := by simp [writableAfter] }
  | put n f => exact permitted.elim
  | delete n addr => exact sound.changeStore n fun _ _ => Store.within_of_delete
  | deleteImage n => exact sound.changeStore n fun _ _ => Store.within_of_deleteImage
  | close n => exact sound.changeStore n fun _ _ => Store.within_of_close
  | _ => exact sound

theorem Sound.after (sound : fam.Sound p cap images writable) (present : fam.image ∈ images)
    (apart : DigestsApart images) {e : Event} (permitted : fam.Permits writable e) :
    (fam.after e).Sound p cap images (writableAfter writable e) := by
  cases e with
  | step i s => exact sound.step present apart permitted.1 permitted.2
  | disturb n s => exact sound.disturb n permitted

theorem Run.present {start : Family} (run : Run start images fam writable) :
    fam.image ∈ images := by
  cases run <;> simp

theorem Run.sound {start : Family} (run : Run start images fam writable)
    (initial : start.Sound p cap [start.image] false) (apart : DigestsApart images) :
    fam.Sound p cap images writable := by
  induction run with
  | refl => exact initial
  | @next images fam writable e run permitted ih =>
    have earlier : images ⊆ (fam.after e).image :: images := List.subset_cons_self _ _
    have apart' : DigestsApart images :=
      fun a first b second => apart a (earlier first) b (earlier second)
    exact ((ih apart').after run.present apart' permitted).mono earlier

theorem sound_of_ofSettings {s : Settings} {stores : Nat} {start : Family}
    (built : ofSettings s stores = .ok start) (img : Image) :
    { start with image := img }.Sound ⟨s.version, s.globals⟩ s.maxInstructions.toNat [img] false ∧
      0 < start.sessions.size := by
  simp only [ofSettings, bind, Except.bind, pure, Except.pure] at built
  split at built
  · cases built
  next d made =>
    obtain rfl := Session.ofSettings_eq made
    cases built
    refine ⟨⟨?_, ?_⟩, Nat.one_pos⟩
    · intro d member
      obtain rfl := Array.mem_singleton.mp member
      refine ⟨rfl, rfl, Nat.le_refl _, fun _ => Session.Blank.agrees ⟨?_, rfl⟩ img, by simp⟩
      intro addr
      simp
    · intro t member
      obtain rfl := (Array.mem_replicate.mp member).2
      exact Store.honest_empty

theorem Sound.answers (sound : fam.Sound p cap images writable) (present : fam.image ∈ images)
    (apart : DigestsApart images) (inside : i < fam.sessions.size) (addr : UInt32) :
    (fam.step i (.fragment addr)).2 =
      .of .fragment (Fragment.generate fam.image p cap addr) ∧
    (fam.step i (.disassemble addr)).2 = .of .block (Block.decode fam.image p cap addr) ∧
    (fam.step i (.decode addr)).2 =
      .of .instruction (Session.decode { profile := p, cap } fam.image addr) ∧
    (fam.step i (.render addr)).2 =
      .of .statement
        (Session.decode { profile := p, cap } fam.image addr >>= Statement.render p) := by
  have member : fam.sessions[i] ∈ fam.sessions := Array.getElem_mem inside
  have current := sound.sessions _ member
  simp only [Family.step, Array.getElem?_eq_getElem inside, Session.disassemble, Session.decode,
    current.profile, current.cap, (sound.fetched member present apart addr).answer, and_self]

/-- No answer is stale. After every run each session gives the fragment, the block, the instruction
and the statement that a fresh session gives over the bytes as they are, whatever the stores. -/
theorem answers_never_stale (s : Settings) (stores : Nat) {start fam : Family}
    (built : ofSettings s stores = .ok start) {images : List Image} {writable : Bool}
    (run : Run start images fam writable) (apart : DigestsApart images) (i : Nat)
    (inside : i < fam.sessions.size) (addr : UInt32) :
    (fam.step i (.fragment addr)).2 = .of .fragment
      (Fragment.generate fam.image ⟨s.version, s.globals⟩ s.maxInstructions.toNat addr) ∧
    ∀ query ∈ [Step.fragment addr, .disassemble addr, .decode addr, .render addr],
      (fam.step i query).2 = ({ start with image := fam.image }.step 0 query).2 := by
  have sound := run.sound (sound_of_ofSettings built start.image).1 apart
  obtain ⟨fragment, block, instruction, statement⟩ := sound.answers run.present apart inside addr
  obtain ⟨fresh, first⟩ := sound_of_ofSettings built fam.image
  have alone : DigestsApart [fam.image] := by simp [DigestsApart]
  obtain ⟨fragment', block', instruction', statement'⟩ :=
    fresh.answers (List.mem_singleton_self _) alone first addr
  refine ⟨fragment, ?_⟩
  intro query member
  simp only [List.mem_cons, List.not_mem_nil, or_false] at member
  rcases member with rfl | rfl | rfl | rfl
  · exact fragment.trans fragment'.symm
  · exact block.trans block'.symm
  · exact instruction.trans instruction'.symm
  · exact statement.trans statement'.symm

-- The digest from the size and the bytes as a function, which evaluates without an array.
def digestAt (size : Nat) (byteAt : Nat → UInt8) : Digest :=
  let wordAt (pos : Nat) : UInt64 :=
    (List.range 8).foldr (fun i w => (w <<< 8) ||| (byteAt (pos + i)).toUInt64) 0
  let blocks := max 1 ((size + 127) / 128)
  let start : Digest.Chain := { Digest.seed with h0 := Digest.seed.h0 ^^^ 0x01010020 }
  let h := (List.range blocks).foldl (fun h k =>
    Digest.compress h ((Array.range 16).map fun i => wordAt (128 * k + 8 * i))
      (min size (128 * (k + 1))).toUInt64 (k + 1 == blocks)) start
  ⟨h.h0, h.h1, h.h2, h.h3⟩

theorem ofBytes_eq_digestAt (bytes : Array UInt8) :
    Digest.ofBytes bytes = digestAt bytes.size fun i => bytes.getD i 0 := rfl

def single (b : UInt8) : Image :=
  (Image.zeroed 480).setByte 0 b

theorem ofBytes_single (b : UInt8) :
    Digest.ofBytes (single b).bytes = digestAt 480 fun i => if i = 0 then b else 0 := by
  have size : (single b).bytes.size = 480 := by simp [single, Image.setByte, Image.zeroed]
  have bytes (i : Nat) : (single b).bytes.getD i 0 = if i = 0 then b else 0 := by
    simp only [single, Image.setByte, Image.zeroed, Array.getD_eq_getD_getElem?,
      Array.getElem?_setIfInBounds, Array.getElem?_replicate]
    grind
  rw [ofBytes_eq_digestAt, size]
  simp only [bytes]

theorem ofBytes_single_inj : ∀ x ∈ [(0 : UInt8), 0xB0, 0xB1], ∀ y ∈ [(0 : UInt8), 0xB0, 0xB1],
    Digest.ofBytes (single x).bytes = Digest.ofBytes (single y).bytes → x = y := by
  apply List.inj_on_of_nodup_map
  simp only [ofBytes_single]
  decide +kernel

-- A session fetches a return of true into its cache and a store, a clone fetches it from there, and
-- then the first session makes it a return of false.
theorem answers_never_stale_patched :
    let s : Settings := { imageLength := 480 }
    ∃ start fam images writable, ofSettings s 1 = .ok start ∧ Run start images fam writable ∧
      DigestsApart images ∧ fam.image = single 0xB1 ∧
      (fam.step 1 (.fragment 0)).2 =
        .of .fragment (Fragment.generate (single 0xB1) ⟨5, 0⟩ 4096 0) := by
  intro s
  let start : Family :=
    { image := .zeroed 480, stores := #[{}], sessions := #[{ profile := ⟨5, 0⟩, cap := 4096 }] }
  have built : ofSettings s 1 = .ok start := by
    have valid : s.validate = .ok () := by
      rw [Settings.validate, if_neg (by decide), if_neg (by decide), if_neg (by decide),
        if_neg (by decide)]
    rw [ofSettings, Session.ofSettings_of_validate valid]
    rfl
  have opened : Run start _ _ _ := .refl
  have attached := opened.next (.step 0 (.attach (some 0))) ⟨by decide, trivial⟩
  have written := attached.next (.step 0 (.write 0 [0xB0])) ⟨by decide, trivial⟩
  have fetched := written.next (.step 0 (.fragment 0)) ⟨by decide, trivial⟩
  have cloned := fetched.next (.step 0 .clone) ⟨by decide, trivial⟩
  have shared := cloned.next (.step 1 (.fragment 0)) ⟨by decide, trivial⟩
  have patched := shared.next (.step 0 (.write 0 [0xB1])) ⟨by decide, trivial⟩
  -- the images on the way
  have before : start.image = single 0 := by
    simp [start, single, Image.setByte, Image.zeroed]
  have attaching (fam : Family) : (fam.after (.step 0 (.attach (some 0)))).image = fam.image := by
    simp only [after, step]
    split <;> rfl
  have cloning (fam : Family) : (fam.after (.step 0 .clone)).image = fam.image := by
    simp only [after, step]
    split <;> rfl
  have fetching (fam : Family) (i : Nat) :
      (fam.after (.step i (.fragment 0))).image = fam.image := by
    simp only [after, step]
    split <;> rfl
  have writing (fam : Family) (b : UInt8) (inside : 0 < fam.sessions.size) :
      (fam.after (.step 0 (.write 0 [b]))).image = fam.image.write 0 [b] := by
    simp only [after, step, Array.getElem?_eq_getElem inside]
    rfl
  have rewriting (a b : UInt8) : (single a).write 0 [b] = single b := by
    simp [single, Image.write, Image.setByte]
  simp (disch := decide) only [before, attaching, cloning, fetching, writing, rewriting] at patched
  have apart : DigestsApart ([0xB1, 0xB0, 0xB0, 0xB0, 0xB0, 0, 0].map single) := by
    have within : [0xB1, 0xB0, 0xB0, 0xB0, 0xB0, 0, 0] ⊆ [(0 : UInt8), 0xB0, 0xB1] := by decide
    intro a first b second same
    obtain ⟨x, left, rfl⟩ := List.mem_map.mp first
    obtain ⟨y, right, rfl⟩ := List.mem_map.mp second
    rw [ofBytes_single_inj x (within left) y (within right) same]
  have final := (answers_never_stale s 1 built patched apart 1 (by decide) 0).1
  simp (disch := decide) only [before, attaching, cloning, fetching, writing, rewriting] at final
  refine ⟨start, _, _, _, built, patched, apart, ?_, final⟩
  simp (disch := decide) only [before, attaching, cloning, fetching, writing, rewriting]

end Family

end ZCode

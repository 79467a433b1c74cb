import ZCode.Proofs.Diagnosis
import ZCode.Proofs.Session.Cursor
import ZCode.Proofs.Session.Faults

set_option autoImplicit false

namespace ZCode

namespace Session

variable {d d' : Session} {img img' : Image} {writes : Nat} {writable : Bool} {stores : Array Store}
  {addr : UInt32} {f : Fragment} {fault : Fault}

-- Once it has caught up, the session knows the digest of the image or has none, and it has none
-- while the image is open for writing.
structure Tidy (img : Image) (writes : Nat) (writable : Bool) (d : Session) : Prop where
  seen : d.seen ≤ writes
  digest : (d.sync writes).digestOf img = Digest.ofBytes img.bytes
  blank : writable = true → (d.sync writes).digest = none

theorem sync_invalidate (d : Session) (writes : Nat) :
    (d.invalidate writes).sync writes = d.invalidate writes :=
  sync_of_seen rfl

theorem sync_of_behind (behind : d.seen ≠ writes) : d.sync writes = d.invalidate writes :=
  if_neg behind

theorem tidy_invalidate (d : Session) (img : Image) (writes : Nat) (writable : Bool) :
    (d.invalidate writes).Tidy img writes writable := by
  refine ⟨Nat.le_refl _, ?_, fun _ => ?_⟩
  · rw [sync_invalidate]
    rfl
  · rw [sync_invalidate]
    rfl

theorem tidy_of_behind (behind : d.seen < writes) (img : Image) (writable : Bool) :
    d.Tidy img writes writable := by
  have forgets := sync_of_behind (Nat.ne_of_lt behind)
  refine ⟨Nat.le_of_lt behind, ?_, fun _ => ?_⟩
  · rw [forgets]
    rfl
  · rw [forgets]
    rfl

theorem Tidy.poke (tidy : d.Tidy img writes true) (img' : Image) : d.Tidy img' writes true := by
  refine ⟨tidy.seen, ?_, tidy.blank⟩
  rw [digestOf, tidy.blank rfl]
  rfl

theorem Tidy.closed (tidy : d.Tidy img writes writable) : d.Tidy img writes false :=
  ⟨tidy.seen, tidy.digest, nofun⟩

theorem tidy_of_seen (latest : d.seen = writes)
    (digest : d.digestOf img = Digest.ofBytes img.bytes) : d.Tidy img writes false := by
  refine ⟨Nat.le_of_eq latest, ?_, nofun⟩
  rw [sync_of_seen latest, digest]

theorem sync_attach (d : Session) (store : Option Nat) (writes : Nat) :
    { d with store }.sync writes = { d.sync writes with store } := by
  simp only [sync]
  split <;> rfl

theorem Tidy.attach (tidy : d.Tidy img writes writable) (store : Option Nat) :
    { d with store }.Tidy img writes writable := by
  refine ⟨tidy.seen, ?_, fun opened => ?_⟩
  · rw [sync_attach]
    exact tidy.digest
  · rw [sync_attach]
    exact tidy.blank opened

theorem Current.tidy {p : Profile} {cap : Nat} (current : d.Current p cap img writes false) :
    d.Tidy img writes false := by
  by_cases latest : d.seen = writes
  · exact tidy_of_seen latest (current.agrees latest).digest
  · exact (tidy_of_behind (Nat.lt_of_le_of_ne current.seen latest) img false)

structure CaughtUp (img : Image) (writes : Nat) (d e : Session) : Prop where
  profile : e.profile = d.profile
  cap : e.cap = d.cap
  store : e.store = d.store
  seen : e.seen = writes
  digest : e.digestOf img = (d.sync writes).digestOf img

theorem generateAndKeep_caughtUp {e : Session} (caught : CaughtUp img writes d e) :
    CaughtUp img writes d (e.generateAndKeep img stores addr).session := by
  rw [generateAndKeep]
  split
  · exact caught
  split
  · exact { caught with }
  · exact { caught with }

theorem fragment_caughtUp (d : Session) :
    CaughtUp img writes d (d.fragment img writes stores addr).session := by
  have synced : CaughtUp img writes d (d.sync writes) :=
    ⟨profile_sync d writes, cap_sync d writes, store_sync d writes, seen_sync d writes, rfl⟩
  have digested : CaughtUp img writes d ((d.sync writes).withDigest img) := { synced with }
  rw [fragment]
  dsimp only
  split
  · exact synced
  · exact generateAndKeep_caughtUp synced
  split
  · exact { digested with }
  all_goals exact generateAndKeep_caughtUp digested

theorem Tidy.fragment (tidy : d.Tidy img writes writable) :
    (d.fragment img writes stores addr).session.Tidy img writes false := by
  have caught : CaughtUp img writes d (d.fragment img writes stores addr).session :=
    fragment_caughtUp d
  exact tidy_of_seen caught.seen (caught.digest.trans tidy.digest)

structure Twin (writes : Nat) (d d' : Session) : Prop where
  profile : d.profile = d'.profile
  cap : d.cap = d'.cap
  store : d.store = d'.store
  cache : ∀ addr : UInt32, (d.sync writes).cache[addr]? = (d'.sync writes).cache[addr]?

theorem Twin.refl (writes : Nat) (d : Session) : Twin writes d d :=
  ⟨rfl, rfl, rfl, fun _ => rfl⟩

theorem Twin.invalidate (twin : Twin writes d d') (writes' : Nat) :
    Twin writes' (d.invalidate writes') (d'.invalidate writes') := by
  refine ⟨twin.profile, twin.cap, twin.store, fun addr => ?_⟩
  rw [sync_invalidate, sync_invalidate]
  rfl

theorem Twin.behind {writes' : Nat} (twin : Twin writes d d') (first : d.seen < writes')
    (second : d'.seen < writes') : Twin writes' d d' := by
  refine ⟨twin.profile, twin.cap, twin.store, fun addr => ?_⟩
  rw [sync_of_behind (Nat.ne_of_lt first), sync_of_behind (Nat.ne_of_lt second)]
  rfl

theorem Twin.attach (twin : Twin writes d d') (store : Option Nat) :
    Twin writes { d with store } { d' with store } := by
  refine ⟨twin.profile, twin.cap, rfl, fun addr => ?_⟩
  rw [sync_attach d, sync_attach d']
  exact twin.cache addr

-- Twins that have caught up, and file fragments under the same key.
structure Level (img : Image) (writes : Nat) (d d' : Session) : Prop extends Twin writes d d' where
  seen : d.seen = writes
  seen' : d'.seen = writes
  key : d.imageKey img = d'.imageKey img

theorem Level.cached (level : Level img writes d d') (addr : UInt32) :
    d.cache[addr]? = d'.cache[addr]? := by
  have same := level.cache addr
  rwa [sync_of_seen level.seen, sync_of_seen level.seen'] at same

theorem Level.remember (level : Level img writes d d') (addr : UInt32) (f : Fragment) :
    Level img writes (d.remember addr f) (d'.remember addr f) := by
  have seen : (d.remember addr f).seen = writes := level.seen
  have seen' : (d'.remember addr f).seen = writes := level.seen'
  refine ⟨⟨level.profile, level.cap, level.store, fun addr' => ?_⟩, seen, seen', level.key⟩
  rw [sync_of_seen seen, sync_of_seen seen']
  simp only [Session.remember, Std.HashMap.getElem?_insert, level.cached]

theorem Level.withDigest (level : Level img writes d d') :
    Level img writes (d.withDigest img) (d'.withDigest img) := by
  have seen : (d.withDigest img).seen = writes := level.seen
  have seen' : (d'.withDigest img).seen = writes := level.seen'
  refine ⟨⟨level.profile, level.cap, level.store, fun addr => ?_⟩, seen, seen', level.key⟩
  rw [sync_of_seen seen, sync_of_seen seen']
  exact level.cached addr

theorem Twin.sync (twin : Twin writes d d')
    (digest : (d.sync writes).digestOf img = (d'.sync writes).digestOf img) :
    Level img writes (d.sync writes) (d'.sync writes) := by
  have seen := seen_sync d writes
  have seen' := seen_sync d' writes
  refine ⟨⟨?_, ?_, ?_, fun addr => ?_⟩, seen, seen', ?_⟩
  · rw [profile_sync, profile_sync, twin.profile]
  · rw [cap_sync, cap_sync, twin.cap]
  · rw [store_sync, store_sync, twin.store]
  · rw [sync_of_seen seen, sync_of_seen seen', twin.cache]
  · rw [imageKey, imageKey, digest, profile_sync, profile_sync, twin.profile]

structure Fetch.Alike (writes : Nat) (r r' : Fetch) : Prop where
  session : Twin writes r.session r'.session
  stores : r.stores = r'.stores
  answer : r.answer = r'.answer

theorem Level.generateAndKeep (level : Level img writes d d') (stores : Array Store)
    (addr : UInt32) : (d.generateAndKeep img stores addr).Alike writes
      (d'.generateAndKeep img stores addr) := by
  have same : d.generate img addr = d'.generate img addr := by
    rw [generate, generate, level.profile, level.cap]
  rw [Session.generateAndKeep, Session.generateAndKeep, same, level.store, level.key]
  cases d'.generate img addr with
  | error fault => exact ⟨level.toTwin, rfl, rfl⟩
  | ok f =>
    have kept := (level.remember addr f).toTwin
    cases d'.store with
    | none => exact ⟨kept, rfl, rfl⟩
    | some n => exact ⟨kept, rfl, rfl⟩

theorem Level.fragment (level : Level img writes (d.sync writes) (d'.sync writes))
    (stores : Array Store) (addr : UInt32) :
    (d.fragment img writes stores addr).Alike writes (d'.fragment img writes stores addr) := by
  rw [Session.fragment, Session.fragment]
  simp only [level.cached addr, level.store, level.withDigest.key]
  cases (d'.sync writes).cache[addr]? with
  | some f => exact ⟨level.toTwin, rfl, rfl⟩
  | none =>
    cases (d'.sync writes).store with
    | none => exact level.generateAndKeep stores addr
    | some n =>
      dsimp only
      rcases (stores.getD n {}).get (((d'.sync writes).withDigest img).imageKey img) addr with
        fault | none | f
      · exact level.withDigest.generateAndKeep stores addr
      · exact level.withDigest.generateAndKeep stores addr
      · exact ⟨(level.withDigest.remember addr f).toTwin, rfl, rfl⟩

theorem misses_of_error (failed : (d.fragment img writes stores addr).answer = .error fault) :
    d.Misses img writes stores addr := by
  have uncached : (d.sync writes).cache[addr]? = none := by
    cases held : (d.sync writes).cache[addr]? with
    | none => rfl
    | some f => simp [fragment, held] at failed
  refine ⟨uncached, fun n attached f found => ?_⟩
  have key : ((d.sync writes).withDigest img).imageKey img = (d.sync writes).imageKey img := rfl
  simp only [fragment, uncached, store_sync, attached, key, found] at failed
  cases failed

theorem fragment_of_error (failed : (d.fragment img writes stores addr).answer = .error fault) :
    (d.fragment img writes stores addr).stores = stores ∧
      (d.fragment img writes stores addr).session.cache = (d.sync writes).cache := by
  have misses := misses_of_error failed
  rw [fragment_of_misses misses] at failed ⊢
  rw [generateAndKeep_answer] at failed
  rw [generateAndKeep, failed]
  refine ⟨rfl, ?_⟩
  dsimp only
  split <;> rfl

theorem twin_of_error (failed : (d.fragment img writes stores addr).answer = .error fault) :
    Twin writes d (d.fragment img writes stores addr).session := by
  have caught : CaughtUp img writes d (d.fragment img writes stores addr).session :=
    fragment_caughtUp d
  refine ⟨caught.profile.symm, caught.cap.symm, caught.store.symm, fun addr' => ?_⟩
  rw [sync_of_seen caught.seen, (fragment_of_error failed).2]

end Session

namespace Family

variable {fam fam' : Family} {writable : Bool} {i : Nat} {d d' : Session} {fault : Fault}

/-- Bytes are changed without notice only while the image is open for writing. Anything else may
happen at any time, to stores too. -/
def admits (fam : Family) (writable : Bool) : Event → Bool
  | .step i (.poke ..) => decide (i < fam.sessions.size) && writable
  | .step i _ => decide (i < fam.sessions.size)
  | .disturb .. => true

def admitsAll (fam : Family) (writable : Bool) : List Event → Bool
  | [] => true
  | e :: rest =>
    fam.admits writable e && (fam.after e).admitsAll (writableAfter writable e) rest

def afterAll (fam : Family) (events : List Event) : Family :=
  events.foldl after fam

def answer? (fam : Family) : Event → Option Answer
  | .step i s => some (fam.step i s).2
  | .disturb .. => none

def answers (fam : Family) : List Event → List (Option Answer)
  | [] => []
  | e :: rest => fam.answer? e :: (fam.after e).answers rest

theorem inside_of_admits {s : Step} (admitted : fam.admits writable (.step i s) = true) :
    i < fam.sessions.size := by
  cases s <;> simp_all [admits]

def Tidy (fam : Family) (writable : Bool) : Prop :=
  ∀ d ∈ fam.sessions, d.Tidy fam.image fam.writes writable

theorem tidy_setSession {sessions : Array Session} {img : Image} {writes : Nat}
    (others : ∀ d ∈ sessions, d.Tidy img writes writable) (new : d.Tidy img writes writable) :
    ∀ d' ∈ sessions.setIfInBounds i d, d'.Tidy img writes writable := by
  intro d' member
  rcases Array.mem_or_eq_of_mem_setIfInBounds member with old | rfl
  · exact others d' old
  · exact new

theorem Tidy.writeThrough (tidy : fam.Tidy writable) (addr : Nat) (data : List UInt8)
    (writable' : Bool) : (fam.writeThrough i d addr data).Tidy writable' := by
  -- the others have not seen this write, and will forget when they catch up
  refine tidy_setSession (fun d' member => ?_) (Session.tidy_invalidate d _ _ _)
  exact Session.tidy_of_behind (Nat.lt_succ_of_le (tidy d' member).seen) _ _

theorem Tidy.changeStore (tidy : fam.Tidy writable) (n : Nat) (change : Store → Except Fault Store) :
    (fam.changeStore n change).1.Tidy writable := by
  rw [Family.changeStore]
  split <;> exact tidy

theorem Tidy.step (tidy : fam.Tidy writable) {s : Step}
    (admitted : fam.admits writable (.step i s) = true) :
    (fam.step i s).1.Tidy (writableAfter writable (.step i s)) := by
  have inside := inside_of_admits admitted
  have here := tidy fam.sessions[i] (Array.getElem_mem inside)
  rw [Family.step, Array.getElem?_eq_getElem inside]
  cases s with
  | write addr data => exact tidy.writeThrough addr data true
  | poke addr data =>
    obtain rfl : writable = true := by simpa [admits, inside] using admitted
    exact fun d member => (tidy d member).poke _
  | load story =>
    dsimp only
    split
    · exact tidy
    · exact tidy.writeThrough 0 story writable
  | clone =>
    intro d member
    rcases Array.mem_push.mp member with old | rfl
    · exact tidy d old
    · exact Session.tidy_invalidate _ _ _ _
  | attach store => exact tidy_setSession tidy (here.attach store)
  | fragment addr => exact tidy_setSession (fun d member => (tidy d member).closed) here.fragment
  | put n f => exact tidy.changeStore n _
  | delete n addr => exact tidy.changeStore n _
  | deleteImage n => exact tidy.changeStore n _
  | close n => exact tidy.changeStore n _
  | _ => exact tidy

theorem Tidy.after (tidy : fam.Tidy writable) {e : Event} (admitted : fam.admits writable e = true) :
    (fam.after e).Tidy (writableAfter writable e) := by
  cases e with
  | step i s => exact tidy.step admitted
  | disturb n s => exact tidy

theorem Tidy.afterAll {events : List Event} (tidy : fam.Tidy writable)
    (admitted : fam.admitsAll writable events = true) :
    (fam.afterAll events).Tidy (events.foldl writableAfter writable) := by
  induction events generalizing fam writable with
  | nil => exact tidy
  | cons e rest ih =>
    rw [admitsAll, Bool.and_eq_true] at admitted
    exact ih (tidy.after admitted.1) admitted.2

structure Twin (fam fam' : Family) : Prop where
  image : fam.image = fam'.image
  writes : fam.writes = fam'.writes
  stores : fam.stores = fam'.stores
  size : fam.sessions.size = fam'.sessions.size
  sessions : ∀ (i : Nat) (d d' : Session), fam.sessions[i]? = some d →
    fam'.sessions[i]? = some d' → d.Twin fam.writes d'

theorem Twin.setSession (twin : Twin fam fam') (i : Nat) (new : d.Twin fam.writes d') :
    Twin (fam.setSession i d) (fam'.setSession i d') := by
  refine ⟨twin.image, twin.writes, twin.stores, ?_, fun j e e' first second => ?_⟩
  · simp [Family.setSession, twin.size]
  · simp only [Family.setSession, Array.getElem?_setIfInBounds] at first second
    rw [twin.size] at first
    split at first
    next same =>
      rw [if_pos same] at second
      split at first
      next inside =>
        rw [if_pos inside] at second
        cases first
        cases second
        exact new
      next => cases first
    next other =>
      rw [if_neg other] at second
      exact twin.sessions j e e' first second

theorem Twin.refl (fam : Family) : Twin fam fam := by
  refine ⟨rfl, rfl, rfl, rfl, fun i d d' first second => ?_⟩
  obtain rfl : d = d' := Option.some.inj (first.symm.trans second)
  exact Session.Twin.refl _ d

theorem Twin.symm (twin : Twin fam fam') : Twin fam' fam := by
  refine ⟨twin.image.symm, twin.writes.symm, twin.stores.symm, twin.size.symm, ?_⟩
  intro i d d' first second
  obtain ⟨profile, cap, store, cache⟩ := twin.sessions i d' d second first
  rw [twin.writes] at cache
  exact ⟨profile.symm, cap.symm, store.symm, fun addr => (cache addr).symm⟩

theorem Twin.writeThrough (twin : Twin fam fam') (tidy : fam.Tidy writable)
    (tidy' : fam'.Tidy writable) (i : Nat) (new : d.Twin fam.writes d') (addr : Nat)
    (data : List UInt8) :
    Twin (fam.writeThrough i d addr data) (fam'.writeThrough i d' addr data) := by
  have opened : Twin { fam with image := fam.image.write addr data, writes := fam.writes + 1 }
      { fam' with image := fam.image.write addr data, writes := fam.writes + 1 } := by
    refine ⟨rfl, rfl, twin.stores, twin.size, fun j e e' first second => ?_⟩
    have behind := (tidy e (Array.mem_of_getElem? first)).seen
    have behind' := (tidy' e' (Array.mem_of_getElem? second)).seen
    rw [← twin.writes] at behind'
    exact (twin.sessions j e e' first second).behind (Nat.lt_succ_of_le behind)
      (Nat.lt_succ_of_le behind')
  rw [Family.writeThrough, Family.writeThrough, ← twin.image, ← twin.writes]
  exact opened.setSession i (new.invalidate (fam.writes + 1))

theorem Twin.changeStore (twin : Twin fam fam') (n : Nat) (change : Store → Except Fault Store) :
    (fam.changeStore n change).2 = (fam'.changeStore n change).2 ∧
      Twin (fam.changeStore n change).1 (fam'.changeStore n change).1 := by
  rw [Family.changeStore, Family.changeStore, twin.stores]
  cases change (fam'.stores.getD n {}) with
  | error fault => exact ⟨rfl, twin⟩
  | ok s => exact ⟨rfl, { twin with stores := rfl }⟩

theorem Twin.clone (twin : Twin fam fam') (new : d.Twin fam.writes d') :
    Twin { fam with sessions := fam.sessions.push (d.clone fam.writes) }
      { fam' with sessions := fam'.sessions.push (d'.clone fam'.writes) } := by
  refine ⟨twin.image, twin.writes, twin.stores, ?_, fun j e e' first second => ?_⟩
  · simp [twin.size]
  · simp only [Array.getElem?_push, twin.size] at first second
    split at first
    next last =>
      rw [if_pos last] at second
      cases first
      cases second
      rw [← twin.writes]
      exact new.invalidate fam.writes
    next other =>
      rw [if_neg other] at second
      exact twin.sessions j e e' first second

theorem Twin.step (twin : Twin fam fam') (tidy : fam.Tidy writable) (tidy' : fam'.Tidy writable)
    (inside : i < fam.sessions.size) (s : Step) :
    (fam.step i s).2 = (fam'.step i s).2 ∧ Twin (fam.step i s).1 (fam'.step i s).1 := by
  have found := Array.getElem?_eq_getElem inside
  have inside' : i < fam'.sessions.size := twin.size ▸ inside
  have found' := Array.getElem?_eq_getElem inside'
  have pair := twin.sessions i _ _ found found'
  have here := tidy _ (Array.getElem_mem inside)
  have here' := tidy' _ (Array.getElem_mem inside')
  rw [Family.step, Family.step, found, found']
  generalize fam.sessions[i] = d at pair here
  generalize fam'.sessions[i] = d' at pair here'
  have key : fam.currentKey d = fam'.currentKey d' := by
    rw [currentKey, currentKey, twin.image, pair.profile]
  cases s with
  | write addr data => exact ⟨rfl, twin.writeThrough tidy tidy' i pair addr data⟩
  | poke addr data =>
    exact ⟨rfl, { twin with image := congrArg (Image.write · addr data) twin.image }⟩
  | load story =>
    dsimp only
    rw [twin.image]
    split
    · exact ⟨rfl, twin⟩
    · exact ⟨rfl, twin.writeThrough tidy tidy' i pair 0 story⟩
  | clone => exact ⟨congrArg Answer.index twin.size, twin.clone pair⟩
  | attach store => exact ⟨rfl, twin.setSession i (pair.attach store)⟩
  | fragment addr =>
    -- both have the digest of the image by then, so a fragment is filed under the same key
    have digest :
        (d.sync fam.writes).digestOf fam.image = (d'.sync fam.writes).digestOf fam.image := by
      rw [twin.image, twin.writes] at here ⊢
      rw [here.digest, here'.digest]
    have alike := (pair.sync digest).fragment fam.stores addr
    dsimp only
    rw [← twin.image, ← twin.writes, ← twin.stores]
    have kept : Twin { fam with stores := (d.fragment fam.image fam.writes fam.stores addr).stores }
        { fam' with
          image := fam.image, writes := fam.writes
          stores := (d'.fragment fam.image fam.writes fam.stores addr).stores } :=
      ⟨rfl, rfl, alike.stores, twin.size, twin.sessions⟩
    exact ⟨congrArg (Answer.of .fragment) alike.answer, kept.setSession i alike.session⟩
  | disassemble addr =>
    refine ⟨?_, twin⟩
    dsimp only
    rw [Session.disassemble, Session.disassemble, twin.image, pair.profile, pair.cap]
  | decode addr =>
    refine ⟨?_, twin⟩
    dsimp only
    rw [Session.decode, Session.decode, twin.image, pair.profile]
  | render addr =>
    refine ⟨?_, twin⟩
    dsimp only
    rw [Session.decode, Session.decode, twin.image, pair.profile]
  | function addr => exact ⟨rfl, twin⟩
  | put n f =>
    dsimp only
    rw [key]
    exact twin.changeStore n _
  | delete n addr =>
    dsimp only
    rw [key]
    exact twin.changeStore n _
  | deleteImage n =>
    dsimp only
    rw [key]
    exact twin.changeStore n _
  | close n => exact twin.changeStore n _
  | get n addr =>
    refine ⟨?_, twin⟩
    dsimp only
    rw [key, twin.stores]
  | addresses n =>
    refine ⟨?_, twin⟩
    dsimp only
    rw [key, twin.stores]

theorem Twin.admits (twin : Twin fam fam') (writable : Bool) (e : Event) :
    fam.admits writable e = fam'.admits writable e := by
  cases e with
  | step i s => cases s <;> simp only [Family.admits, twin.size]
  | disturb n s => rfl

theorem Twin.after (twin : Twin fam fam') (tidy : fam.Tidy writable) (tidy' : fam'.Tidy writable)
    {e : Event} (admitted : fam.admits writable e = true) :
    fam.answer? e = fam'.answer? e ∧ Twin (fam.after e) (fam'.after e) := by
  cases e with
  | step i s =>
    obtain ⟨answer, onward⟩ := twin.step tidy tidy' (inside_of_admits admitted) s
    exact ⟨congrArg some answer, onward⟩
  | disturb n s =>
    have disturbed : Twin (fam.after (.disturb n s)) (fam'.after (.disturb n s)) :=
      { twin with stores := congrArg (Array.setIfInBounds · n s) twin.stores }
    exact ⟨rfl, disturbed⟩

theorem Twin.answers {events : List Event} (twin : Twin fam fam') (tidy : fam.Tidy writable)
    (tidy' : fam'.Tidy writable) (admitted : fam.admitsAll writable events = true) :
    fam.answers events = fam'.answers events ∧
      Twin (fam.afterAll events) (fam'.afterAll events) := by
  -- both families stay tidy on the way, as the next fragment needs it of both
  induction events generalizing fam fam' writable with
  | nil => exact ⟨rfl, twin⟩
  | cons e rest ih =>
    rw [admitsAll, Bool.and_eq_true] at admitted
    obtain ⟨answer, onward⟩ := twin.after tidy tidy' admitted.1
    have same : fam'.admits writable e = true := (twin.admits writable e).symm.trans admitted.1
    obtain ⟨later, final⟩ := ih onward (tidy.after admitted.1) (tidy'.after same) admitted.2
    rw [Family.answers, Family.answers, answer, later]
    exact ⟨rfl, final⟩

theorem exists_of_refused {s : Step} (refused : (fam.step i s).2 = .refused fault) :
    ∃ d, fam.sessions[i]? = some d := by
  cases found : fam.sessions[i]? with
  | some d => exact ⟨d, rfl⟩
  | none =>
    rw [Family.step, found] at refused
    cases refused

theorem same_of_changeStore {n : Nat} {change : Store → Except Fault Store}
    (refused : (fam.changeStore n change).2 = .refused fault) :
    (fam.changeStore n change).1 = fam := by
  rw [changeStore, error_of_changeStore refused]

theorem step_of_refused {s : Step} (refused : (fam.step i s).2 = .refused fault) :
    (fam.step i s).1 = fam ∨ ∃ addr, s = .fragment addr := by
  obtain ⟨d, found⟩ := exists_of_refused refused
  rw [Family.step, found] at refused ⊢
  cases s with
  | write | poke | clone | attach => cases refused
  | load story =>
    dsimp only at refused ⊢
    split at refused
    next long => exact .inl (by rw [if_pos long])
    next => cases refused
  | fragment addr => exact .inr ⟨addr, rfl⟩
  | put | delete | deleteImage | close => exact .inl (same_of_changeStore refused)
  | disassemble | decode | render | function | get | addresses => exact .inl rfl

theorem error_of_fragment {addr : UInt32} (found : fam.sessions[i]? = some d)
    (refused : (fam.step i (.fragment addr)).2 = .refused fault) :
    (d.fragment fam.image fam.writes fam.stores addr).answer = .error fault := by
  rw [Family.step, found] at refused
  exact error_of_refused (f := .fragment) (fun _ same => by cases same) refused

theorem step_of_failed_fragment {addr : UInt32} (found : fam.sessions[i]? = some d)
    (refused : (fam.step i (.fragment addr)).2 = .refused fault) :
    (fam.step i (.fragment addr)).1 =
      fam.setSession i (d.fragment fam.image fam.writes fam.stores addr).session := by
  have failed := error_of_fragment found refused
  simp only [Family.step, found, (Session.fragment_of_error failed).1]

theorem setSession_self (found : fam.sessions[i]? = some d) : fam.setSession i d = fam := by
  have same : fam.sessions.setIfInBounds i d = fam.sessions := by
    refine Array.ext_getElem? fun j => ?_
    rw [Array.getElem?_setIfInBounds]
    split
    next here =>
      subst here
      rw [if_pos (Array.getElem?_eq_some_iff.mp found).1, found]
    next => rfl
  rw [setSession, same]

theorem twin_of_refused {s : Step} (refused : (fam.step i s).2 = .refused fault) :
    Twin fam (fam.step i s).1 := by
  rcases step_of_refused refused with same | ⟨addr, rfl⟩
  · rw [same]
    exact .refl fam
  · obtain ⟨d, found⟩ := exists_of_refused refused
    have alike := (Twin.refl fam).setSession i
      (Session.twin_of_error (error_of_fragment found refused))
    rwa [setSession_self found, ← step_of_failed_fragment found refused] at alike

theorem Tidy.of_refused {s : Step} (tidy : fam.Tidy writable)
    (refused : (fam.step i s).2 = .refused fault) :
    fam.Tidy (writableAfter writable (.step i s)) ∧
      (fam.step i s).1.Tidy (writableAfter writable (.step i s)) := by
  obtain ⟨d, found⟩ := exists_of_refused refused
  have inside := (Array.getElem?_eq_some_iff.mp found).1
  have admitted : fam.admits writable (.step i s) = true := by
    cases s with
    | poke addr data =>
      rw [Family.step, found] at refused
      cases refused
    | _ => exact decide_eq_true inside
  refine ⟨?_, tidy.step admitted⟩
  cases s with
  | write addr data =>
    rw [Family.step, found] at refused
    cases refused
  | fragment addr => exact fun d member => (tidy d member).closed
  | _ => exact tidy

end Family

namespace Readers

def after (r : Readers) : Family.Event → Readers
  | .step i s => (r.step i s).1
  | .disturb n s => { r with family := r.family.after (.disturb n s) }

def answer? (r : Readers) : Family.Event → Option Family.Answer
  | .step i s => some (r.step i s).2
  | .disturb .. => none

def answers (r : Readers) : List Family.Event → List (Option Family.Answer)
  | [] => []
  | e :: rest => r.answer? e :: (r.after e).answers rest

theorem answers_eq (r : Readers) (events : List Family.Event) :
    r.answers events = r.family.answers events := by
  induction events generalizing r with
  | nil => rfl
  | cons e rest ih =>
    rw [answers, Family.answers, ih]
    cases e with
    | step i s =>
      obtain ⟨family, answer⟩ := r.step_eq i s
      simp only [answer?, after, Family.answer?, Family.after, family, answer]
    | disturb n s => rfl

end Readers

namespace Family

variable {fam : Family} {writable : Bool} {i : Nat} {fault : Fault}

theorem absent_of_refused {addr : UInt32} (tidy : fam.Tidy writable)
    (refused : (fam.step i (.fragment addr)).2 = .refused fault) :
    let fam' := (fam.step i (.fragment addr)).1
    ∃ d, fam'.sessions[i]? = some d ∧ d.cache[addr]? = none ∧
      ∀ n, d.store = some n → ∀ f, (fam'.step i (.get n addr)).2 ≠ .stored (some f) := by
  obtain ⟨d, found⟩ := exists_of_refused refused
  have failed := error_of_fragment found refused
  have misses := Session.misses_of_error failed
  let e := (d.fragment fam.image fam.writes fam.stores addr).session
  have caught : Session.CaughtUp fam.image fam.writes d e := Session.fragment_caughtUp d
  have placed : (fam.setSession i e).sessions[i]? = some e := by
    rw [setSession, Array.getElem?_setIfInBounds, if_pos rfl,
      if_pos (Array.getElem?_eq_some_iff.mp found).1]
  rw [step_of_failed_fragment found refused]
  refine ⟨e, placed, ?_, fun n attached f => ?_⟩
  · rw [(Session.fragment_of_error failed).2]
    exact misses.cache
  · have filed : (fam.setSession i e).currentKey e = (d.sync fam.writes).imageKey fam.image := by
      rw [Session.imageKey, (tidy d (Array.mem_of_getElem? found)).digest, Session.profile_sync,
        ← caught.profile]
      rfl
    have missing := misses.store n (caught.store.symm.trans attached) f
    rw [← filed] at missing
    intro stored
    rw [Family.step, placed] at stored
    change Answer.of .stored ((fam.stores.getD n {}).get _ addr) = _ at stored
    cases got : (fam.stores.getD n {}).get ((fam.setSession i e).currentKey e) addr with
    | error fault =>
      rw [got] at stored
      cases stored
    | ok held =>
      rw [got] at stored
      cases stored
      exact missing got

theorem tidy_of_ofSettings {s : Settings} {count : Nat} {built : Family}
    (made : ofSettings s count = .ok built) (stores : Array Store) :
    { built with stores }.Tidy false :=
  fun d member => ((sound_of_ofSettings made built.image).1.sessions d member).tidy

/-- An operation that fails changes neither the bytes nor a store. Whatever happens behind it is
answered as if it had not been made, also by sessions that read through cursors and find them where
the failure has left them, and comes to the same bytes and stores. A fragment that fails is in
neither the cache of its session nor the store in use. -/
theorem failures_leave_no_trace {s : Settings} {count : Nat} {built : Family}
    (made : ofSettings s count = .ok built) (stores : Array Store) {past : List Event}
    (admitted : admitsAll { built with stores } false past = true) {i : Nat} {op : Step}
    {fault : Fault} (refused : ((afterAll { built with stores } past).step i op).2 = .refused fault) :
    let fam := afterAll { built with stores } past
    let fam' := (fam.step i op).1
    let writable := writableAfter (past.foldl writableAfter false) (.step i op)
    (fam'.image = fam.image ∧ fam'.stores = fam.stores) ∧
    (∀ later, fam'.admitsAll writable later = true →
      fam'.answers later = fam.answers later ∧
      (∀ cursors, ((Readers.mk fam cursors).step i op).1.answers later = fam.answers later) ∧
      (fam'.afterAll later).image = (fam.afterAll later).image ∧
      (fam'.afterAll later).stores = (fam.afterAll later).stores) ∧
    ∀ addr, op = .fragment addr → ∃ d, fam'.sessions[i]? = some d ∧ d.cache[addr]? = none ∧
      ∀ n, d.store = some n → ∀ f, (fam'.step i (.get n addr)).2 ≠ .stored (some f) := by
  intro fam fam' writable
  have tidy : fam.Tidy (past.foldl writableAfter false) :=
    (tidy_of_ofSettings made stores).afterAll admitted
  obtain ⟨before, behind⟩ := tidy.of_refused refused
  have twin := twin_of_refused refused
  refine ⟨⟨twin.image.symm, twin.stores.symm⟩, fun later allowed => ?_, ?_⟩
  · obtain ⟨answers, final⟩ := twin.symm.answers behind before allowed
    refine ⟨answers, fun cursors => ?_, final.image, final.stores⟩
    rw [Readers.answers_eq, (Readers.step_eq _ i op).1]
    exact answers
  · rintro addr rfl
    exact absent_of_refused tidy refused

-- A session with a store is written to and fails to read an instruction at the end of the image;
-- then it and a clone fetch a fragment, and fail again.
theorem failures_leave_no_trace_end :
    let s : Settings := { imageLength := 480 }
    let past : List Event := [.step 0 (.attach (some 0)), .step 0 (.write 0 [0xB0])]
    let later : List Event :=
      [.step 0 (.fragment 0), .step 0 .clone, .step 1 (.fragment 0), .step 1 (.fragment 479)]
    ∃ built, ofSettings s 1 = .ok built ∧ built.admitsAll false past = true ∧
      let fam := built.afterAll past
      let fam' := (fam.step 0 (.fragment 479)).1
      (fam.step 0 (.fragment 479)).2 = .refused (.decode 0 479 ⟨1, 480, 480⟩) ∧
        fam'.stores = fam.stores ∧ fam'.answers later = fam.answers later := by
  intro s past later
  let built : Family :=
    { image := .zeroed 480, stores := #[{}], sessions := #[{ profile := ⟨5, 0⟩, cap := 4096 }] }
  have made : ofSettings s 1 = .ok built := by
    have valid : s.validate = .ok () := by
      rw [Settings.validate, if_neg (by decide), if_neg (by decide), if_neg (by decide),
        if_neg (by decide)]
    rw [ofSettings, Session.ofSettings_of_validate valid]
    rfl
  have admitted : built.admitsAll false past = true := by decide +kernel
  let fam := built.afterAll past
  let d : Session := { profile := ⟨5, 0⟩, cap := 4096, store := some 0, seen := 1 }
  have found : fam.sessions[0]? = some d := rfl
  have misses : d.Misses fam.image 1 fam.stores 479 := by
    refine ⟨by simp [d, Session.sync], ?_⟩
    rintro n ⟨⟩ f stored
    have empty : fam.stores.getD 0 {} = {} := rfl
    simp [empty, Store.get] at stored
  have failed : d.generate fam.image 479 = .error (.decode 0 479 ⟨1, 480, 480⟩) := by
    decide +kernel
  have refused : (fam.step 0 (.fragment 479)).2 = .refused (.decode 0 479 ⟨1, 480, 480⟩) := by
    have writes : fam.writes = 1 := rfl
    rw [Family.step, found]
    dsimp only
    rw [writes, Session.answer_of_misses misses, failed]
    rfl
  have allowed : (fam.step 0 (.fragment 479)).1.admitsAll false later = true := by decide +kernel
  obtain ⟨⟨-, stores⟩, same, -⟩ := failures_leave_no_trace made built.stores admitted refused
  exact ⟨built, made, admitted, refused, stores, (same later allowed).1⟩

end Family

end ZCode

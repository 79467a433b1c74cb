import Mathlib.Data.List.Nodup
import Mathlib.Order.Bounds.Basic
import Mathlib.Order.Lattice.Nat
import ZCode.Proofs.Session.Freshness
import ZCode.Proofs.Survey.Successors
import ZCode.Survey

set_option autoImplicit false

namespace ZCode

section Distance

variable {α : Type} {R : α → α → Prop} {a b c : α} {n : Nat}

-- A path of the given length.
inductive Steps (R : α → α → Prop) : Nat → α → α → Prop where
  | refl (a : α) : Steps R 0 a a
  | tail {n : Nat} {a b c : α} (path : Steps R n a b) (last : R b c) : Steps R (n + 1) a c

-- The length of a shortest path; nothing is asked of addresses without one.
noncomputable def distance (R : α → α → Prop) (a b : α) : Nat :=
  sInf {n | Steps R n a b}

theorem Steps.mem {T : Set α} (path : Steps R n a b) (start : a ∈ T)
    (closed : ∀ a ∈ T, ∀ b, R a b → b ∈ T) : b ∈ T := by
  induction path with
  | refl => exact start
  | tail path last ih => exact closed _ (ih start) _ last

theorem distance_le (path : Steps R n a b) : distance R a b ≤ n :=
  Nat.sInf_le path

theorem steps_distance (path : Steps R n a b) : Steps R (distance R a b) a b :=
  Nat.sInf_mem (s := {n | Steps R n a b}) ⟨n, path⟩

theorem distance_self : distance R a a = 0 :=
  Nat.le_zero.mp (distance_le (.refl a))

theorem distance_le_succ (path : Steps R n a b) (last : R b c) :
    distance R a c ≤ distance R a b + 1 :=
  distance_le ((steps_distance path).tail last)

theorem exists_nearer (path : Steps R n a b) (apart : b ≠ a) :
    ∃ m c, Steps R m a c ∧ R c b ∧ distance R a b = distance R a c + 1 := by
  cases shortest : distance R a b with
  | zero =>
    have direct := steps_distance path
    rw [shortest] at direct
    cases direct
    exact absurd rfl apart
  | succ k =>
    have whole := steps_distance path
    rw [shortest] at whole
    obtain ⟨before, last⟩ : ∃ c, Steps R k a c ∧ R c b := by
      cases whole with
      | tail before last => exact ⟨_, before, last⟩
    refine ⟨k, before, last.1, last.2, ?_⟩
    have near := distance_le last.1
    have far := distance_le_succ last.1 last.2
    omega

end Distance

namespace Frontier

-- The set holds what the list holds, and the list holds nothing twice.
structure Consistent (q : Frontier) : Prop where
  seen : ∀ a, q.seen.contains a = true ↔ a ∈ q.found.toList
  nodup : q.found.toList.Nodup

variable {q : Frontier}

theorem consistent_start (entry : UInt32) : (start entry).Consistent where
  seen a := by
    rw [start, Std.HashSet.contains_insert, Bool.or_eq_true, beq_iff_eq, List.mem_singleton,
      Std.HashSet.contains_empty]
    exact ⟨fun h => h.elim Eq.symm (by simp), fun h => .inl h.symm⟩
  nodup := by simp [start]

theorem Consistent.add (consistent : q.Consistent) (img : Image) (a : UInt32) :
    (q.add img a).Consistent ∧ (q.add img a).found.toList =
      if a ∈ q.found.toList ∨ img.length ≤ a.toNat then q.found.toList
      else q.found.toList ++ [a] := by
  have known : (q.seen.contains a || decide (img.length ≤ a.toNat)) = true ↔
      a ∈ q.found.toList ∨ img.length ≤ a.toNat := by
    rw [Bool.or_eq_true, consistent.seen, decide_eq_true_eq]
  rw [Frontier.add]
  by_cases skipped : a ∈ q.found.toList ∨ img.length ≤ a.toNat
  next =>
    rw [if_pos (known.mpr skipped), if_pos skipped]
    exact ⟨consistent, rfl⟩
  next =>
    rw [if_neg (known.not.mpr skipped), if_neg skipped, Array.toList_push]
    refine ⟨⟨fun b => ?_, ?_⟩, rfl⟩
    · rw [Std.HashSet.contains_insert, Bool.or_eq_true, consistent.seen, Array.toList_push,
        List.mem_append, List.mem_singleton, beq_iff_eq, Eq.comm, or_comm]
    · rw [Array.toList_push, List.nodup_append]
      refine ⟨consistent.nodup, List.nodup_singleton a, ?_⟩
      intro b member c last same
      rw [same, List.mem_singleton.mp last] at member
      exact skipped (.inl member)

theorem Consistent.foldl_add (consistent : q.Consistent) (img : Image) (targets : List UInt32) :
    (targets.foldl (·.add img) q).Consistent ∧
      ∃ new, (targets.foldl (·.add img) q).found.toList = q.found.toList ++ new ∧
        (∀ a ∈ new, a ∈ targets ∧ a.toNat < img.length) ∧
        ∀ a ∈ targets, a.toNat < img.length → a ∈ q.found.toList ++ new := by
  induction targets generalizing q with
  | nil => exact ⟨consistent, [], by simp⟩
  | cons t rest ih =>
    obtain ⟨kept, first⟩ := consistent.add img t
    obtain ⟨whole, new, found, fresh, covered⟩ := ih kept
    refine ⟨whole, ?_⟩
    rw [first] at found covered
    rw [List.foldl_cons, found]
    split at covered
    next skipped =>
      rw [if_pos skipped]
      refine ⟨new, rfl, fun a member => ?_, ?_⟩
      · exact ⟨List.mem_cons_of_mem t (fresh a member).1, (fresh a member).2⟩
      · rintro a member inside
        rcases List.mem_cons.mp member with rfl | later
        · exact List.mem_append_left new (skipped.resolve_right (by omega))
        · exact covered a later inside
    next added =>
      rw [if_neg added]
      refine ⟨t :: new, by simp, ?_, ?_⟩
      · intro a member
        rcases List.mem_cons.mp member with rfl | later
        · exact ⟨by simp, by omega⟩
        · exact ⟨List.mem_cons_of_mem t (fresh a later).1, (fresh a later).2⟩
      · intro a member inside
        rcases List.mem_cons.mp member with rfl | later
        · simp
        · simpa using covered a later inside

end Frontier

section Exploration

variable {img : Image} {R : UInt32 → UInt32 → Prop} {entry : UInt32} {found : List UInt32} {n : Nat}

structure Explored (img : Image) (R : UInt32 → UInt32 → Prop) (entry : UInt32)
    (found : List UInt32) (n : Nat) : Prop where
  nodup : found.Nodup
  first : found.head? = some entry
  inside : ∀ a ∈ found.tail, a.toNat < img.length
  reached : ∀ a ∈ found, ∃ m, Steps R m entry a
  closed : ∀ a ∈ found.take n, ∀ b, R a b → b ∈ found
  sorted : found.Pairwise fun a b => distance R entry a ≤ distance R entry b
  span : ∀ c, found[n]? = some c → ∀ a ∈ found, distance R entry a ≤ distance R entry c + 1

theorem explored_start : Explored img R entry [entry] 0 where
  nodup := List.nodup_singleton entry
  first := rfl
  inside := by simp
  reached a member := by
    rw [List.mem_singleton] at member
    rw [member]
    exact ⟨0, .refl entry⟩
  closed := by simp
  sorted := List.pairwise_singleton _ _
  span c here a member := by
    rw [List.mem_singleton] at member
    rw [member, distance_self]
    exact Nat.zero_le _

theorem Explored.entry_mem (explored : Explored img R entry found n) : entry ∈ found :=
  List.mem_of_head? explored.first

theorem Explored.ne_nil (explored : Explored img R entry found n) : found ≠ [] :=
  List.ne_nil_of_mem explored.entry_mem

theorem le_of_lt_of_sorted {k k' : Nat} {a b : UInt32}
    (sorted : found.Pairwise fun a b => distance R entry a ≤ distance R entry b) (before : k < k')
    (first : found[k]? = some a) (second : found[k']? = some b) :
    distance R entry a ≤ distance R entry b := by
  obtain ⟨_, rfl⟩ := List.getElem?_eq_some_iff.mp first
  obtain ⟨_, rfl⟩ := List.getElem?_eq_some_iff.mp second
  exact List.pairwise_iff_getElem.mp sorted k k' _ _ before

theorem Explored.visited_of_nearer (explored : Explored img R entry found n) {c : UInt32}
    (next : found[n]? = some c) {m : Nat} {a : UInt32} (path : Steps R m entry a)
    (nearer : distance R entry a < distance R entry c) : a ∈ found.take n := by
  have placed {a : UInt32} (member : a ∈ found)
      (nearer : distance R entry a < distance R entry c) : a ∈ found.take n := by
    obtain ⟨k, at_⟩ := List.mem_iff_getElem?.mp member
    have before : k < n := by
      by_contra behind
      rcases Nat.eq_or_lt_of_le (Nat.le_of_not_lt behind) with rfl | later
      · obtain rfl : c = a := Option.some.inj (next.symm.trans at_)
        exact Nat.lt_irrefl _ nearer
      · have := le_of_lt_of_sorted explored.sorted later next at_
        omega
    exact List.mem_iff_getElem?.mpr ⟨k, by rw [List.getElem?_take_of_lt before, at_]⟩
  -- the shortest path comes through addresses that are nearer still
  induction far : distance R entry a generalizing a m with
  | zero =>
    by_cases start : a = entry
    · exact placed (start ▸ explored.entry_mem) nearer
    · obtain ⟨_, _, -, -, behind⟩ := exists_nearer path start
      omega
  | succ k ih =>
    have apart : a ≠ entry := by
      rintro rfl
      rw [distance_self] at far
      cases far
    obtain ⟨m', b, before, last, behind⟩ := exists_nearer path apart
    have visited := ih before (by omega) (by omega)
    exact placed (explored.closed b visited a last) nearer

-- An address that a visit adds is one step further than the visited one.
theorem Explored.distance_new (explored : Explored img R entry found n) {c b : UInt32}
    (next : found[n]? = some c) (last : R c b) (new : b ∉ found) :
    distance R entry b = distance R entry c + 1 := by
  obtain ⟨m, path⟩ := explored.reached c (List.mem_of_getElem? next)
  have far := distance_le_succ path last
  have apart : b ≠ entry := fun same => new (same ▸ explored.entry_mem)
  obtain ⟨m', a, before, step, behind⟩ := exists_nearer (path.tail last) apart
  by_contra short
  have visited := explored.visited_of_nearer next before (by omega)
  exact new (explored.closed a visited b step)

theorem Explored.visit (explored : Explored img R entry found n) {c : UInt32} {new : List UInt32}
    (next : found[n]? = some c) (nodup : (found ++ new).Nodup)
    (fresh : ∀ a ∈ new, R c a ∧ a.toNat < img.length) (covered : ∀ a, R c a → a ∈ found ++ new) :
    Explored img R entry (found ++ new) (n + 1) := by
  have known := List.mem_of_getElem? next
  obtain ⟨m, path⟩ := explored.reached c known
  have apart := (List.nodup_append.mp nodup).2.2
  have farther {b : UInt32} (member : b ∈ new) : distance R entry b = distance R entry c + 1 :=
    explored.distance_new next (fresh b member).1 fun old => apart b old b member rfl
  have sorted : (found ++ new).Pairwise fun a b => distance R entry a ≤ distance R entry b := by
    refine List.pairwise_append.mpr ⟨explored.sorted, ?_, ?_⟩
    · refine List.pairwise_of_forall_mem_list fun a first b second => ?_
      rw [farther first, farther second]
    · intro a old b later
      rw [farther later]
      exact explored.span c next a old
  refine ⟨nodup, ?_, ?_, ?_, ?_, sorted, ?_⟩
  · rw [List.head?_append, explored.first, Option.some_or]
  · rw [List.tail_append_of_ne_nil explored.ne_nil]
    intro a member
    rcases List.mem_append.mp member with old | later
    · exact explored.inside a old
    · exact (fresh a later).2
  · intro a member
    rcases List.mem_append.mp member with old | later
    · exact explored.reached a old
    · exact ⟨m + 1, path.tail (fresh a later).1⟩
  · intro a member b step
    have position := (List.getElem?_eq_some_iff.mp next).1
    rw [List.take_append_of_le_length position, List.take_add_one, next] at member
    rcases List.mem_append.mp member with before | here
    · exact List.mem_append_left new (explored.closed a before b step)
    · obtain rfl : a = c := by simpa using here
      exact covered b step
  · intro c' next' a member
    have here : (found ++ new)[n]? = some c := by
      rw [List.getElem?_append_left (List.getElem?_eq_some_iff.mp next).1, next]
    have onward := le_of_lt_of_sorted sorted (Nat.lt_succ_self n) here next'
    rcases List.mem_append.mp member with old | later
    · have := explored.span c next a old
      omega
    · have := farther later
      omega

theorem Explored.length_le (explored : Explored img R entry found n) :
    found.length ≤ img.length + 1 := by
  have distinct : (found.tail.map UInt32.toNat).Nodup :=
    (explored.nodup.sublist (List.tail_sublist found)).map fun _ _ => UInt32.toNat_inj.mp
  have within : found.tail.map UInt32.toNat ⊆ List.range img.length := by
    intro k member
    obtain ⟨a, found, rfl⟩ := List.mem_map.mp member
    exact List.mem_range.mpr (explored.inside a found)
  have count := (distinct.subperm within).length_le
  simp only [List.length_map, List.length_tail, List.length_range] at count
  omega

theorem Explored.isLeast (explored : Explored img R entry found n) (done : found.length ≤ n) :
    IsLeast {T : Set UInt32 | entry ∈ T ∧ ∀ a ∈ T, ∀ b, R a b → b ∈ T} {a | a ∈ found} := by
  refine ⟨⟨explored.entry_mem, ?_⟩, ?_⟩
  · intro a member
    refine explored.closed a ?_
    rw [List.take_of_length_le done]
    exact member
  · rintro T ⟨start, closed⟩ a member
    obtain ⟨m, path⟩ := explored.reached a member
    exact path.mem start closed

end Exploration

namespace Session

/-- A session without a store that has no stale fragment. -/
structure Plain (p : Profile) (cap : Nat) (img : Image) (writes : Nat) (d : Session) : Prop where
  profile : d.profile = p
  capped : d.cap = cap
  detached : d.store = none
  cache : ∀ (addr : UInt32) (f : Fragment), (d.sync writes).cache[addr]? = some f →
    Fragment.generate img p cap addr = .ok f

variable {d : Session} {p : Profile} {cap : Nat} {img : Image} {writes : Nat} {addr : UInt32}

theorem Plain.sync (plain : d.Plain p cap img writes) :
    (d.sync writes).Plain p cap img writes := by
  refine ⟨(profile_sync d writes).trans plain.profile, (cap_sync d writes).trans plain.capped,
    (store_sync d writes).trans plain.detached, ?_⟩
  rw [sync_of_seen (seen_sync d writes)]
  exact plain.cache

theorem Plain.generate (plain : d.Plain p cap img writes) :
    d.generate img addr = Fragment.generate img p cap addr := by
  rw [Session.generate, plain.profile, plain.capped]

theorem Plain.remember {f : Fragment} (plain : d.Plain p cap img writes) (latest : d.seen = writes)
    (made : Fragment.generate img p cap addr = .ok f) :
    (d.remember addr f).Plain p cap img writes where
  profile := plain.profile
  capped := plain.capped
  detached := plain.detached
  cache addr' f' held := by
    have latest' : (d.remember addr f).seen = writes := latest
    rw [sync_of_seen latest', Session.remember, Std.HashMap.getElem?_insert] at held
    split at held
    next same =>
      cases held
      rw [← beq_iff_eq.mp same]
      exact made
    next =>
      refine plain.cache addr' f' ?_
      rw [sync_of_seen latest]
      exact held

theorem Plain.fragment (plain : d.Plain p cap img writes) (stores : Array Store) (addr : UInt32) :
    (d.fragment img writes stores addr).session.Plain p cap img writes ∧
      (d.fragment img writes stores addr).answer = Fragment.generate img p cap addr := by
  have synced := plain.sync
  rw [Session.fragment]
  simp only [synced.detached]
  cases held : (d.sync writes).cache[addr]? with
  | some f => exact ⟨synced, (plain.cache addr f held).symm⟩
  | none =>
    simp only [generateAndKeep, synced.generate, synced.detached]
    cases made : Fragment.generate img p cap addr with
    | error fault => exact ⟨synced, rfl⟩
    | ok f => exact ⟨synced.remember (seen_sync d writes) made, rfl⟩

end Session

namespace Survey

-- The addresses visited, in order.
def visited (v : Survey) : List UInt32 :=
  v.frontier.found.toList.take v.report.blocks

variable {d : Session} {p : Profile} {cap : Nat} {img : Image} {writes : Nat} {entry : UInt32}
  {v : Survey}

/-- One address leads to another inside the image: its block goes on there, or calls it. -/
def Leads (img : Image) (p : Profile) (cap : Nat) (a b : UInt32) : Prop :=
  b.toNat < img.length ∧ ∃ block, Block.decode img p cap a = .ok block ∧
    (block.GoesOn b ∨
      (∃ f, Fragment.generate img p cap a = .ok f) ∧ block.CallsInto img p.version b)

structure Follows (p : Profile) (cap : Nat) (img : Image) (writes : Nat) (entry : UInt32)
    (v : Survey) : Prop where
  session : v.session.Plain p cap img writes
  frontier : v.frontier.Consistent
  explored : Explored img (Leads img p cap) entry v.frontier.found.toList v.report.blocks
  visits : v.report.blocks ≤ v.frontier.found.size
  fragments : v.report.fragments.toList =
    v.visited.filterMap fun a => (Fragment.generate img p cap a).toOption

theorem follows_start (plain : d.Plain p cap img writes) (stores : Array Store) (entry : UInt32) :
    (start d stores entry).Follows p cap img writes entry where
  session := plain
  frontier := Frontier.consistent_start entry
  explored := explored_start
  visits := Nat.zero_le _
  fragments := rfl

-- Calls add their routines like continuations; only the count of routines differs.
theorem foldl_addRoutine (img : Image) (targets : List UInt32) (q : Frontier) (r : Report) :
    (targets.foldl (addRoutine img) (q, r)).1 = targets.foldl (·.add img) q ∧
      (targets.foldl (addRoutine img) (q, r)).2.blocks = r.blocks ∧
      (targets.foldl (addRoutine img) (q, r)).2.fragments = r.fragments := by
  induction targets generalizing q r with
  | nil => exact ⟨rfl, rfl, rfl⟩
  | cons t rest ih =>
    rw [List.foldl_cons, List.foldl_cons, addRoutine]
    obtain ⟨added, blocks, fragments⟩ := ih (q.add img t) (if q.seen.contains t then r else r.routine)
    refine ⟨added, blocks.trans ?_, fragments.trans ?_⟩ <;> split <;> rfl

-- The addresses that a visit adds.
def targets (img : Image) (p : Profile) (cap : Nat) (a : UInt32) : List UInt32 :=
  match Block.decode img p cap a with
  | .error _ => []
  | .ok b => b.continuations ++
    match Fragment.generate img p cap a with
    | .error _ => []
    | .ok f => Block.entries img p.version f.calls

theorem leads_iff {a b : UInt32} :
    Leads img p cap a b ↔ b ∈ targets img p cap a ∧ b.toNat < img.length := by
  rw [Leads, targets, and_comm]
  refine and_congr_left fun inside => ?_
  cases decoded : Block.decode img p cap a with
  | error fault => simp
  | ok block =>
    cases generated : Fragment.generate img p cap a with
    | error fault => simp [Block.mem_continuations_iff]
    | ok f =>
      obtain ⟨same, again, made⟩ := Fragment.generate_eq_ok_iff.mp generated
      obtain rfl : block = same := Except.ok.inj (decoded.symm.trans again)
      simp [Block.mem_continuations_iff, Block.mem_entries_iff made, inside]

theorem step_of_next (session : v.session.Plain p cap img writes) {a : UInt32}
    (next : v.frontier.found[v.report.blocks]? = some a) :
    (v.step img writes).session.Plain p cap img writes ∧
      (v.step img writes).frontier = (targets img p cap a).foldl (·.add img) v.frontier ∧
      (v.step img writes).report.blocks = v.report.blocks + 1 ∧
      (v.step img writes).report.fragments.toList = v.report.fragments.toList ++
        (Fragment.generate img p cap a).toOption.toList := by
  obtain ⟨session', stores, frontier, report, log⟩ := v
  obtain ⟨kept, answer⟩ := session.fragment stores a
  have decoded : session'.disassemble img a = Block.decode img p cap a := by
    rw [Session.disassemble, session.profile, session.capped]
  rw [targets]
  simp only [step, next, decoded]
  cases block : Block.decode img p cap a with
  | error fault =>
    have failed : Fragment.generate img p cap a = .error fault := by
      rw [Fragment.generate, block]
      rfl
    rw [failed]
    exact ⟨session, rfl, rfl, by simp [Report.fail, Report.visit, Except.toOption]⟩
  | ok b =>
    cases fetched : session'.fragment img writes stores a with
    | mk session'' stores' result =>
      rw [fetched] at kept answer
      subst answer
      cases made : Fragment.generate img p cap a with
      | error fault =>
        refine ⟨kept, by simp only [List.append_nil], rfl, ?_⟩
        simp [Report.fail, Report.visit, Except.toOption]
      | ok f =>
        obtain ⟨added, blocks, fragments⟩ := foldl_addRoutine img
          (Block.entries img p.version f.calls) (b.continuations.foldl (·.add img) frontier)
          (report.visit.keep f)
        have version : session'.profile.version = p.version := by rw [session.profile]
        rw [← version] at added blocks fragments
        refine ⟨kept, ?_, blocks, ?_⟩
        · rw [List.foldl_append, ← version]
          exact added
        · rw [fragments]
          simp [Report.keep, Report.visit, Except.toOption]

theorem Follows.step (follows : v.Follows p cap img writes entry) :
    (v.step img writes).Follows p cap img writes entry := by
  cases next : v.frontier.found[v.report.blocks]? with
  | none =>
    have same : v.step img writes = v := by
      obtain ⟨session, stores, frontier, report, log⟩ := v
      simp only [Survey.step, next]
    rw [same]
    exact follows
  | some a =>
    obtain ⟨session, frontier, blocks, fragments⟩ := step_of_next follows.session next
    obtain ⟨consistent, new, found, fresh, covered⟩ :=
      follows.frontier.foldl_add img (targets img p cap a)
    rw [← frontier] at consistent found
    have next' : v.frontier.found.toList[v.report.blocks]? = some a := by
      rw [Array.getElem?_toList, next]
    have inside := (List.getElem?_eq_some_iff.mp next').1
    refine ⟨session, consistent, ?_, ?_, ?_⟩
    · rw [found, blocks]
      refine follows.explored.visit next' ?_ ?_ ?_
      · rw [← found]
        exact consistent.nodup
      · exact fun b member => ⟨leads_iff.mpr (fresh b member), (fresh b member).2⟩
      · exact fun b leads => covered b (leads_iff.mp leads).1 (leads_iff.mp leads).2
    · rw [blocks, ← Array.length_toList, found, List.length_append]
      omega
    · rw [fragments, follows.fragments, visited, visited, blocks, found,
        List.take_append_of_le_length inside, List.take_add_one, next', List.filterMap_append]
      cases made : Fragment.generate img p cap a <;> simp [made, Except.toOption]

theorem Follows.run (follows : v.Follows p cap img writes entry) (n : Nat) :
    (v.run img writes n).Follows p cap img writes entry := by
  induction n generalizing v with
  | zero => exact follows
  | succ n ih =>
    rw [Survey.run]
    split
    · exact follows
    · exact ih follows.step

theorem run_of_done (done : v.isDone = true) (n : Nat) : v.run img writes n = v := by
  cases n with
  | zero => rfl
  | succ n => rw [run, if_pos done]

theorem run_add (n m : Nat) (v : Survey) :
    v.run img writes (n + m) = (v.run img writes n).run img writes m := by
  induction n generalizing v with
  | zero => rw [Nat.zero_add, run]
  | succ n ih =>
    by_cases done : v.isDone = true
    · rw [run_of_done done, run_of_done done, run_of_done done]
    · rw [Nat.succ_add, run, if_neg done, ih, run, if_neg done]

theorem Follows.blocks_run (follows : v.Follows p cap img writes entry) (n : Nat) :
    (v.run img writes n).isDone = true ∨
      (v.run img writes n).report.blocks = v.report.blocks + n := by
  induction n generalizing v with
  | zero => exact .inr rfl
  | succ n ih =>
    by_cases done : v.isDone = true
    · rw [run_of_done done]
      exact .inl done
    · have left : v.report.blocks < v.frontier.found.size := by simpa [isDone] using done
      have blocks := (step_of_next follows.session (Array.getElem?_eq_getElem left)).2.2.1
      rw [Survey.run, if_neg done]
      rcases ih follows.step with finished | counted
      · exact .inl finished
      · exact .inr (by omega)

theorem Follows.isDone_run (follows : v.Follows p cap img writes entry) {n : Nat}
    (enough : img.length < n) : (v.run img writes n).isDone = true := by
  have after := follows.run n
  have found := after.explored.length_le
  rcases follows.blocks_run n with done | counted
  · exact done
  · rw [Array.length_toList] at found
    simp only [isDone, decide_eq_true_eq]
    omega

theorem visited_of_done (done : v.isDone = true) : v.visited = v.frontier.found.toList := by
  rw [isDone, decide_eq_true_eq] at done
  exact List.take_of_length_le (by rwa [Array.length_toList])

theorem addr_fragments (addrs : List UInt32) :
    (addrs.filterMap fun a => (Fragment.generate img p cap a).toOption).map Fragment.addr =
      addrs.filter fun a => (Fragment.generate img p cap a).isOk := by
  induction addrs with
  | nil => rfl
  | cons a rest ih =>
    cases made : Fragment.generate img p cap a with
    | error fault => simpa [made, Except.toOption, Except.isOk, Except.toBool] using ih
    | ok f =>
      have filed := Fragment.addr_of_generate made
      simpa [made, Except.toOption, Except.isOk, Except.toBool, filed] using ih

/-- Without a limit a survey ends, and more visits would change nothing. It visits no address twice,
begins with the entry, and visits exactly the least set that holds the entry and what its members
lead to, in order of distance; the fragments it reports are those of the visited addresses that have
one, in order. -/
theorem of_visits_reachable (d : Session) (img : Image) (writes : Nat) (stores : Array Store)
    (entry : UInt32) (limit : Int) (detached : d.store = none)
    (fresh : ∀ addr f, (d.sync writes).cache[addr]? = some f → d.generate img addr = .ok f)
    (unlimited : limit ≤ 0) :
    let v := Survey.of d img writes stores entry limit
    let leads := Leads img d.profile d.cap
    let answer := fun a => (d.fragment img writes stores a).answer
    (v.isDone = true ∧ ∀ more, (start d stores entry).run img writes (visits img limit + more) = v) ∧
    v.visited.Nodup ∧ v.visited.head? = some entry ∧
    IsLeast {T : Set UInt32 | entry ∈ T ∧ ∀ a ∈ T, ∀ b, leads a b → b ∈ T} {a | a ∈ v.visited} ∧
    (v.visited.Pairwise fun a b => distance leads entry a ≤ distance leads entry b) ∧
    v.report.fragments.toList = v.visited.filterMap (fun a => (answer a).toOption) ∧
    v.report.fragments.toList.map Fragment.addr = v.visited.filter (fun a => (answer a).isOk) := by
  intro v leads answer
  have plain : d.Plain d.profile d.cap img writes := ⟨rfl, rfl, detached, fresh⟩
  have start := follows_start plain stores entry
  have follows : v.Follows d.profile d.cap img writes entry := start.run _
  have done : v.isDone = true := start.isDone_run (by rw [visits, if_pos unlimited]; omega)
  have answered (a : UInt32) : answer a = Fragment.generate img d.profile d.cap a :=
    (plain.fragment stores a).2
  have explored := follows.explored
  refine ⟨⟨done, fun more => ?_⟩, ?_⟩
  · rw [run_add]
    exact run_of_done done more
  · simp only [answered, follows.fragments, addr_fragments, visited_of_done done, and_true]
    exact ⟨explored.nodup, explored.first, explored.isLeast (by simpa [isDone] using done),
      explored.sorted⟩

-- In version 3, a call of a routine with one local at 8, which begins at 11, then a jump to a
-- branch to the end; what stands between is not visited.
theorem of_visits_reachable_call :
    let img : Image := ⟨#[0xE0, 0x3F, 0, 4, 0, 0x8C, 0, 6, 1, 0, 0, 0xB0, 0xA0, 0, 0xC3, 0xB1, 0xBA],
      by decide⟩
    let v := Survey.of { profile := ⟨3, 0⟩, cap := 0 } img 0 #[] 0 0
    v.isDone = true ∧ v.visited.head? = some 0 ∧ ∀ a, a ∈ v.visited ↔ a ∈ [0, 5, 11, 12, 16] := by
  intro img v
  obtain ⟨⟨done, -⟩, -, first, ⟨⟨start, closed⟩, least⟩, -⟩ :=
    of_visits_reachable { profile := ⟨3, 0⟩, cap := 0 } img 0 #[] 0 0 rfl (by simp [Session.sync])
      (Int.le_refl 0)
  have onward (a b : UInt32) (found : b ∈ targets img ⟨3, 0⟩ 0 a) (inside : b.toNat < 17) :
      Leads img ⟨3, 0⟩ 0 a b := leads_iff.mpr ⟨found, inside⟩
  have kept : ([0, 5, 11, 12, 16] : List UInt32).all
      (fun a => (targets img ⟨3, 0⟩ 0 a).all ([0, 5, 11, 12, 16].contains ·)) = true := by
    decide +kernel
  simp only [List.all_eq_true, List.contains_iff_mem] at kept
  refine ⟨done, first, fun a => ⟨fun visited => ?_, fun member => ?_⟩⟩
  · exact least (a := {a | a ∈ [0, 5, 11, 12, 16]})
      ⟨by decide, fun a member b leads => kept a member b (leads_iff.mp leads).1⟩ visited
  · have behind := closed 0 start 5 (onward 0 5 (by decide +kernel) (by decide))
    have called := closed 0 start 11 (onward 0 11 (by decide +kernel) (by decide))
    have jumped := closed 5 behind 12 (onward 5 12 (by decide +kernel) (by decide))
    have branched := closed 12 jumped 16 (onward 12 16 (by decide +kernel) (by decide))
    simp only [List.mem_cons, List.not_mem_nil, or_false] at member
    rcases member with rfl | rfl | rfl | rfl | rfl
    exacts [start, behind, called, jumped, branched]

end Survey

end ZCode

import Mathlib.Algebra.GroupWithZero.Nat
import ZCode.Dump
import ZCode.Proofs.Survey.Reach
import ZCode.Proofs.Text

set_option autoImplicit false

namespace ZCode

open ZCode.Text

namespace Report

-- How often a kind was counted.
def tally (failures : List (String × Nat)) (kind : String) : Nat :=
  (failures.lookup kind).getD 0

def Ascending (failures : List (String × Nat)) : Prop :=
  failures.Pairwise fun a b => a.1 < b.1

theorem sum_bump (kind : String) (failures : List (String × Nat)) :
    ((bump kind failures).map Prod.snd).sum = (failures.map Prod.snd).sum + 1 := by
  induction failures with
  | nil => rfl
  | cons head rest ih =>
    rw [bump]
    split
    · simp only [List.map_cons, List.sum_cons]
      omega
    split
    · simp only [List.map_cons, List.sum_cons]
      omega
    · simp only [List.map_cons, List.sum_cons, ih]
      omega

theorem mem_bump {kind : String} {failures : List (String × Nat)} {entry : String × Nat}
    (member : entry ∈ bump kind failures) : entry.1 = kind ∨ ∃ old ∈ failures, entry.1 = old.1 := by
  induction failures with
  | nil =>
    rw [bump, List.mem_singleton] at member
    exact .inl (by rw [member])
  | cons head rest ih =>
    rw [bump] at member
    split at member
    next same =>
      rcases List.mem_cons.mp member with rfl | later
      · exact .inl (beq_iff_eq.mp same)
      · exact .inr ⟨entry, List.mem_cons_of_mem _ later, rfl⟩
    split at member
    · rcases List.mem_cons.mp member with rfl | later
      · exact .inl rfl
      · exact .inr ⟨entry, later, rfl⟩
    · rcases List.mem_cons.mp member with rfl | later
      · exact .inr ⟨_, by simp, rfl⟩
      · rcases ih later with same | ⟨old, found, same⟩
        · exact .inl same
        · exact .inr ⟨old, List.mem_cons_of_mem _ found, same⟩

theorem Ascending.bump {failures : List (String × Nat)} (ascending : Ascending failures)
    (kind : String) : Ascending (bump kind failures) := by
  induction failures with
  | nil => exact List.pairwise_singleton _ _
  | cons head rest ih =>
    obtain ⟨first, later⟩ := List.pairwise_cons.mp ascending
    rw [Report.bump]
    split
    · exact List.pairwise_cons.mpr ⟨first, later⟩
    split
    next before =>
      refine List.pairwise_cons.mpr ⟨?_, ascending⟩
      intro entry member
      rcases List.mem_cons.mp member with rfl | behind
      · exact before
      · exact String.lt_trans before (first entry behind)
    next other behind =>
      refine List.pairwise_cons.mpr ⟨?_, ih later⟩
      intro entry member
      rcases mem_bump member with same | ⟨old, found, same⟩
      · rw [same]
        exact Std.lt_of_le_of_ne behind (by simpa using other)
      · rw [same]
        exact first old found

theorem tally_cons (k : String) (n : Nat) (rest : List (String × Nat)) (kind : String) :
    tally ((k, n) :: rest) kind = if kind = k then n else tally rest kind := by
  rw [tally, List.lookup_cons]
  by_cases same : kind = k
  · rw [beq_iff_eq.mpr same, if_pos same]
    rfl
  · rw [beq_eq_false_iff_ne.mpr same, if_neg same]
    rfl

theorem tally_eq_zero {failures : List (String × Nat)} {kind : String}
    (absent : ∀ entry ∈ failures, kind < entry.1) : tally failures kind = 0 := by
  induction failures with
  | nil => rfl
  | cons head rest ih =>
    rw [List.forall_mem_cons] at absent
    have other : kind ≠ head.1 := by
      intro same
      rw [same] at absent
      exact String.lt_irrefl _ absent.1
    rw [tally_cons, if_neg other, ih absent.2]

theorem tally_bump {failures : List (String × Nat)} (ascending : Ascending failures)
    (kind other : String) :
    tally (bump kind failures) other = tally failures other + if other = kind then 1 else 0 := by
  induction failures with
  | nil => rw [bump, tally_cons, tally, List.lookup_nil, Option.getD_none, Nat.zero_add]
  | cons head rest ih =>
    obtain ⟨first, later⟩ := List.pairwise_cons.mp ascending
    rw [bump]
    split
    next same =>
      rw [tally_cons, tally_cons, beq_iff_eq.mp same]
      split <;> rfl
    split
    next before =>
      -- the kinds that follow are greater, so this one has not been counted before
      have absent : tally (head :: rest) kind = 0 := by
        refine tally_eq_zero (List.forall_mem_cons.mpr ⟨before, fun entry member => ?_⟩)
        exact String.lt_trans before (first entry member)
      rw [tally_cons]
      split
      next same => rw [same, absent]
      next => rfl
    next apart _ =>
      rw [tally_cons, tally_cons, ih later]
      split
      next same =>
        have differ : other ≠ kind := by
          rw [same]
          simpa using apart
        rw [if_neg differ, Nat.add_zero]
      next => rfl

structure Balanced (r : Report) : Prop where
  blocks : r.blocks = r.clean + (r.failures.map Prod.snd).sum
  clean : r.clean = r.fragments.size
  pausing : r.pausing = r.fragments.countP (·.pauses)
  ascending : Ascending r.failures

structure Within (r r' : Report) : Prop where
  blocks : r.blocks ≤ r'.blocks
  clean : r.clean ≤ r'.clean
  pausing : r.pausing ≤ r'.pausing
  routines : r.routines ≤ r'.routines
  failures : ∀ kind, tally r.failures kind ≤ tally r'.failures kind
  fragments : r.fragments.toList <+: r'.fragments.toList

theorem Within.refl (r : Report) : r.Within r :=
  ⟨Nat.le_refl _, Nat.le_refl _, Nat.le_refl _, Nat.le_refl _, fun _ => Nat.le_refl _,
    List.prefix_rfl⟩

theorem Within.trans {r r' r'' : Report} (first : r.Within r') (second : r'.Within r'') :
    r.Within r'' where
  blocks := Nat.le_trans first.blocks second.blocks
  clean := Nat.le_trans first.clean second.clean
  pausing := Nat.le_trans first.pausing second.pausing
  routines := Nat.le_trans first.routines second.routines
  failures kind := Nat.le_trans (first.failures kind) (second.failures kind)
  fragments := first.fragments.trans second.fragments

theorem balanced_empty : Balanced {} where
  blocks := rfl
  clean := rfl
  pausing := rfl
  ascending := List.Pairwise.nil

inductive Enters (r : Report) : Report → Prop
  | failure (fault : Fault) : Enters r (r.visit.fail fault)
  | fragment (f : Fragment) (new : Nat) :
    Enters r { r.visit.keep f with routines := r.routines + new }

theorem Enters.balanced {r r' : Report} (enters : Enters r r') (balanced : r.Balanced) :
    r'.Balanced := by
  have counted := balanced.blocks
  cases enters with
  | failure fault =>
    refine ⟨?_, balanced.clean, balanced.pausing, balanced.ascending.bump _⟩
    simp only [visit, fail, sum_bump]
    omega
  | fragment f new =>
    refine ⟨?_, ?_, ?_, balanced.ascending⟩
    · simp only [visit, keep]
      omega
    · simp [visit, keep, balanced.clean]
    · cases pauses : f.pauses <;> simp [visit, keep, balanced.pausing, pauses]

theorem Enters.within {r r' : Report} (enters : Enters r r') (ascending : Ascending r.failures) :
    r.Within r' := by
  cases enters with
  | failure fault =>
    refine ⟨Nat.le_succ _, Nat.le_refl _, Nat.le_refl _, Nat.le_refl _, fun kind => ?_,
      List.prefix_rfl⟩
    simp only [visit, fail, tally_bump ascending]
    exact Nat.le_add_right _ _
  | fragment f new =>
    refine ⟨Nat.le_succ _, Nat.le_succ _, ?_, Nat.le_add_right _ _, fun _ => Nat.le_refl _, ?_⟩
    · simp only [visit, keep]
      split <;> omega
    · simp [visit, keep]

end Report

theorem Dump.addressKey_inj {a b : UInt32} (same : addressKey a = addressKey b) : a = b := by
  have digits : hex a.toNat = hex b.toNat := by simpa [addressKey] using same
  have read := Text.readDigits?_hex a.toNat
  rw [digits, Text.readDigits?_hex] at read
  exact UInt32.toNat_inj.mp (Option.some.inj read).symm

-- A dump is filled fragment by fragment.
def fillDump (blocks : Std.TreeMap String String) (fs : List Fragment) : Std.TreeMap String String :=
  fs.foldl (fun m f => m.insert (Dump.addressKey f.addr) f.code) blocks

theorem blocks_ofReport (version : UInt8) (entry : UInt32) (r : Report) :
    (Dump.ofReport version entry r).blocks = fillDump ∅ r.fragments.toList := by
  rw [fillDump, Array.foldl_toList]
  rfl

theorem fillDump_of_other {fs : List Fragment} {key : String}
    (other : ∀ f ∈ fs, Dump.addressKey f.addr ≠ key) (blocks : Std.TreeMap String String) :
    (fillDump blocks fs)[key]? = blocks[key]? := by
  induction fs generalizing blocks with
  | nil => rfl
  | cons f rest ih =>
    rw [List.forall_mem_cons] at other
    have apart : compare (Dump.addressKey f.addr) key ≠ .eq := by
      rw [ne_eq, Std.LawfulEqCmp.compare_eq_iff_eq]
      exact other.1
    rw [fillDump, List.foldl_cons]
    exact (ih other.2 _).trans (by rw [Std.TreeMap.getElem?_insert, if_neg apart])

theorem fillDump_of_absent {fs : List Fragment} {a : UInt32} (absent : a ∉ fs.map Fragment.addr)
    (blocks : Std.TreeMap String String) :
    (fillDump blocks fs)[Dump.addressKey a]? = blocks[Dump.addressKey a]? := by
  apply fillDump_of_other
  intro f member same
  rw [← Dump.addressKey_inj same] at absent
  exact absent (List.mem_map_of_mem member)

theorem fillDump_of_mem {fs : List Fragment} (distinct : (fs.map Fragment.addr).Nodup) {f : Fragment}
    (member : f ∈ fs) (blocks : Std.TreeMap String String) :
    (fillDump blocks fs)[Dump.addressKey f.addr]? = some f.code := by
  induction fs generalizing blocks with
  | nil => cases member
  | cons head rest ih =>
    rw [List.map_cons, List.nodup_cons] at distinct
    rw [fillDump, List.foldl_cons]
    rcases List.mem_cons.mp member with rfl | later
    · exact (fillDump_of_absent distinct.1 _).trans (by rw [Std.TreeMap.getElem?_insert_self])
    · exact ih distinct.2 later _

theorem size_fillDump {fs : List Fragment} (distinct : (fs.map Fragment.addr).Nodup)
    {blocks : Std.TreeMap String String} (new : ∀ f ∈ fs, Dump.addressKey f.addr ∉ blocks) :
    (fillDump blocks fs).size = blocks.size + fs.length := by
  induction fs generalizing blocks with
  | nil => rfl
  | cons head rest ih =>
    rw [List.map_cons, List.nodup_cons] at distinct
    rw [List.forall_mem_cons] at new
    have still : ∀ f ∈ rest, Dump.addressKey f.addr ∉ blocks.insert (Dump.addressKey head.addr) head.code := by
      intro f member
      rw [Std.TreeMap.mem_insert, Std.LawfulEqCmp.compare_eq_iff_eq, not_or]
      refine ⟨fun same => distinct.1 ?_, new.2 f member⟩
      rw [Dump.addressKey_inj same]
      exact List.mem_map_of_mem member
    have grown := ih distinct.2 still
    rw [Std.TreeMap.size_insert, if_neg (by simpa using new.1)] at grown
    rw [fillDump, List.foldl_cons, List.length_cons]
    exact grown.trans (by omega)

namespace Survey

variable {d : Session} {p : Profile} {cap : Nat} {img : Image} {writes : Nat} {entry : UInt32}
  {v : Survey}

-- What a survey has found and counted, without the session it runs in and without its set.
def state (v : Survey) : List UInt32 × Report :=
  (v.frontier.found.toList, v.report)

def discover (img : Image) (found : List UInt32) (a : UInt32) : List UInt32 :=
  if a ∈ found ∨ img.length ≤ a.toNat then found else found ++ [a]

def enter (img : Image) : List UInt32 × Report → UInt32 → List UInt32 × Report
  | (found, report), a => (discover img found a, if a ∈ found then report else report.routine)

def advance (img : Image) (p : Profile) (cap : Nat) : List UInt32 × Report → List UInt32 × Report
  | (found, report) =>
    match found[report.blocks]? with
    | none => (found, report)
    | some a =>
      match Block.decode img p cap a with
      | .error fault => (found, report.visit.fail fault)
      | .ok b =>
        let found := b.continuations.foldl (discover img) found
        match Fragment.generate img p cap a with
        | .error fault => (found, report.visit.fail fault)
        | .ok f => (Block.entries img p.version f.calls).foldl (enter img)
            (found, report.visit.keep f)

theorem found_foldl_add {q : Frontier} (consistent : q.Consistent) (targets : List UInt32) :
    (targets.foldl (·.add img) q).found.toList = targets.foldl (discover img) q.found.toList := by
  induction targets generalizing q with
  | nil => rfl
  | cons t rest ih =>
    obtain ⟨kept, first⟩ := consistent.add img t
    rw [List.foldl_cons, List.foldl_cons, ih kept, first]
    rfl

theorem found_foldl_addRoutine (img : Image) {q : Frontier} (consistent : q.Consistent)
    (targets : List UInt32) (r : Report) :
    let after := targets.foldl (addRoutine img) (q, r)
    (after.1.found.toList, after.2) = targets.foldl (enter img) (q.found.toList, r) := by
  induction targets generalizing q r with
  | nil => rfl
  | cons t rest ih =>
    obtain ⟨kept, first⟩ := consistent.add img t
    have known : (if q.seen.contains t then r else r.routine) =
        if t ∈ q.found.toList then r else r.routine := by
      simp only [consistent.seen]
    rw [List.foldl_cons, List.foldl_cons, addRoutine, enter, ← known]
    refine (ih kept _).trans ?_
    rw [first]
    rfl

theorem state_step (plain : v.session.Plain p cap img writes) (consistent : v.frontier.Consistent) :
    (v.step img writes).state = advance img p cap v.state := by
  obtain ⟨session, stores, frontier, report, log⟩ := v
  simp only [step, state, advance, Array.getElem?_toList]
  cases frontier.found[report.blocks]? with
  | none => rfl
  | some a =>
    have answer := (plain.fragment stores a).2
    have decoded : session.disassemble img a = Block.decode img p cap a := by
      rw [Session.disassemble, plain.profile, plain.capped]
    have version : session.profile = p := plain.profile
    simp only [decoded, version]
    cases Block.decode img p cap a with
    | error fault => rfl
    | ok b =>
      have onward : (b.continuations.foldl (·.add img) frontier).found.toList =
          b.continuations.foldl (discover img) frontier.found.toList :=
        found_foldl_add consistent b.continuations
      have kept : (b.continuations.foldl (·.add img) frontier).Consistent :=
        (consistent.foldl_add img b.continuations).1
      cases fetched : session.fragment img writes stores a with
      | mk session' stores' result =>
        rw [fetched] at answer
        subst answer
        cases Fragment.generate img p cap a with
        | error fault => exact congrArg (·, report.visit.fail fault) onward
        | ok f =>
          have entered := found_foldl_addRoutine img kept
            (Block.entries img p.version f.calls) (report.visit.keep f)
          rw [onward] at entered
          exact entered

theorem advance_of_done (done : v.isDone = true) : advance img p cap v.state = v.state := by
  rw [isDone, decide_eq_true_eq] at done
  simp only [state, advance, Array.getElem?_toList, Array.getElem?_eq_none done]

theorem Follows.state_run (follows : v.Follows p cap img writes entry) (n : Nat) :
    (v.run img writes n).state = (advance img p cap)^[n] v.state := by
  induction n generalizing v with
  | zero => rfl
  | succ n ih =>
    rw [Survey.run]
    split
    next done => exact (Function.iterate_fixed (advance_of_done done) (n + 1)).symm
    next =>
      rw [ih follows.step, state_step follows.session follows.frontier,
        Function.iterate_succ_apply]

theorem routines_foldl (img : Image) (targets found : List UInt32) (r : Report) :
    ∃ new, (targets.foldl (enter img) (found, r)).2 = { r with routines := r.routines + new } := by
  induction targets generalizing found r with
  | nil => exact ⟨0, rfl⟩
  | cons t rest ih =>
    rw [List.foldl_cons, enter]
    obtain ⟨new, added⟩ := ih (discover img found t) (if t ∈ found then r else r.routine)
    rw [added]
    split
    · exact ⟨new, rfl⟩
    · exact ⟨1 + new, by simp [Report.routine, Nat.add_assoc]⟩

theorem enters_advance {found : List UInt32} {report : Report} {a : UInt32}
    (next : found[report.blocks]? = some a) :
    report.Enters (advance img p cap (found, report)).2 := by
  simp only [advance, next]
  cases Block.decode img p cap a with
  | error fault => exact .failure fault
  | ok b =>
    cases Fragment.generate img p cap a with
    | error fault => exact .failure fault
    | ok f =>
      obtain ⟨new, added⟩ := routines_foldl img (Block.entries img p.version f.calls)
        (b.continuations.foldl (discover img) found) (report.visit.keep f)
      simp only [added]
      exact .fragment f new

structure Continues (v v' : Survey) : Prop where
  report : v.report.Within v'.report
  found : v.frontier.found.toList <+: v'.frontier.found.toList

theorem Continues.trans {v v' v'' : Survey} (first : Continues v v') (second : Continues v' v'') :
    Continues v v'' :=
  ⟨first.report.trans second.report, first.found.trans second.found⟩

theorem Follows.enters (follows : v.Follows p cap img writes entry) (open_ : ¬ v.isDone = true) :
    v.report.Enters (v.step img writes).report ∧
      v.frontier.found.toList <+: (v.step img writes).frontier.found.toList := by
  have left : v.report.blocks < v.frontier.found.size := by simpa [isDone] using open_
  have next := Array.getElem?_eq_getElem left
  constructor
  · have same : (v.step img writes).report = (advance img p cap v.state).2 :=
      congrArg Prod.snd (state_step follows.session follows.frontier)
    rw [same]
    exact enters_advance (by rw [Array.getElem?_toList, next])
  · obtain ⟨-, frontier, -⟩ := step_of_next follows.session next
    obtain ⟨-, new, found, -⟩ := follows.frontier.foldl_add img (targets img p cap _)
    rw [← frontier] at found
    rw [found]
    exact List.prefix_append _ _

theorem Follows.continues_run (follows : v.Follows p cap img writes entry)
    (balanced : v.report.Balanced) (n : Nat) :
    (v.run img writes n).report.Balanced ∧ v.Continues (v.run img writes n) := by
  -- the balance is carried along: a failure is counted right only in an ascending list
  induction n generalizing v with
  | zero => exact ⟨balanced, .refl _, List.prefix_rfl⟩
  | succ n ih =>
    rw [Survey.run]
    split
    · exact ⟨balanced, .refl _, List.prefix_rfl⟩
    next open_ =>
      obtain ⟨enters, found⟩ := follows.enters open_
      obtain ⟨later, onward⟩ := ih follows.step (enters.balanced balanced)
      exact ⟨later, .trans ⟨enters.within balanced.ascending, found⟩ onward⟩

theorem Follows.blocks_le (follows : v.Follows p cap img writes entry) (n : Nat) :
    (v.run img writes n).report.blocks ≤ v.report.blocks + n := by
  induction n generalizing v with
  | zero => exact Nat.le_refl _
  | succ n ih =>
    rw [Survey.run]
    split
    · exact Nat.le_add_right _ _
    next open_ =>
      have left : v.report.blocks < v.frontier.found.size := by simpa [isDone] using open_
      have blocks := (step_of_next follows.session (Array.getElem?_eq_getElem left)).2.2.1
      have later := ih follows.step
      omega

theorem Follows.length_visited (follows : v.Follows p cap img writes entry) :
    v.visited.length = v.report.blocks := by
  rw [visited, List.length_take, Array.length_toList]
  exact Nat.min_eq_left follows.visits

theorem visited_of_continues {v' : Survey} (follows : v.Follows p cap img writes entry)
    (continues : v.Continues v') : v.visited = v'.visited.take v.report.blocks := by
  obtain ⟨more, found⟩ := continues.found
  have inside : v.report.blocks ≤ v.frontier.found.toList.length := by
    rw [Array.length_toList]
    exact follows.visits
  rw [visited, visited, List.take_take, Nat.min_eq_left continues.report.blocks, ← found,
    List.take_append_of_le_length inside]

-- A survey with a higher limit, or with none, goes on where this one stops.
theorem exists_rest (plain : d.Plain p cap img writes) (stores : Array Store) (entry : UInt32)
    {limit limit' : Int} (positive : 0 < limit) (higher : limit ≤ limit' ∨ limit' ≤ 0) :
    ∃ k, of d img writes stores entry limit' =
      (of d img writes stores entry limit).run img writes k := by
  have start := follows_start plain stores entry
  by_cases within : visits img limit ≤ visits img limit'
  · refine ⟨visits img limit' - visits img limit, ?_⟩
    rw [of, of, ← run_add, Nat.add_sub_cancel' within]
  · -- only the bound on all visits is passed, so the survey is done by then
    have free : limit' ≤ 0 := by
      by_contra bounded
      rw [visits, visits, if_neg (by omega), if_neg bounded] at within
      omega
    have done := start.isDone_run (n := visits img limit') (by rw [visits, if_pos free]; omega)
    refine ⟨0, ?_⟩
    rw [run, of, of, ← Nat.add_sub_cancel' (Nat.le_of_not_le within), run_add, run_of_done done]

theorem truncated (plain : d.Plain p cap img writes) (stores : Array Store) (entry : UInt32)
    {limit limit' : Int} (positive : 0 < limit) (higher : limit ≤ limit' ∨ limit' ≤ 0) :
    let w := of d img writes stores entry limit
    let v := of d img writes stores entry limit'
    w.Continues v ∧ w.visited = v.visited.take limit.toNat ∧
      w.visited.length = min limit.toNat v.visited.length := by
  intro w v
  have start := follows_start plain stores entry
  have follows : w.Follows p cap img writes entry := start.run _
  have balanced := (start.continues_run Report.balanced_empty (visits img limit)).1
  obtain ⟨k, rest⟩ := exists_rest plain stores entry positive higher
  have continues : w.Continues v := by
    rw [show v = w.run img writes k from rest]
    exact (follows.continues_run balanced k).2
  have allowed : visits img limit = limit.toNat := if_neg (by omega)
  have most := start.blocks_le (visits img limit)
  refine ⟨continues, ?_⟩
  rcases start.blocks_run (visits img limit) with done | counted
  · have same : v = w := rest.trans (run_of_done done k)
    have short : w.visited.length ≤ limit.toNat := by
      rw [follows.length_visited, ← allowed]
      exact most.trans (Nat.le_of_eq (Nat.zero_add _))
    rw [same]
    exact ⟨(List.take_of_length_le short).symm, (Nat.min_eq_right short).symm⟩
  · have blocks : w.report.blocks = limit.toNat := by
      rw [← allowed]
      exact counted.trans (Nat.zero_add _)
    have cut := visited_of_continues follows continues
    rw [blocks] at cut
    exact ⟨cut, by rw [cut, List.length_take]⟩

/-- Blocks are the clean ones and the failed ones, and clean blocks have fragments at distinct
addresses, so that a dump lists the code of each. A survey with a positive limit visits the first
addresses of one with a higher limit or none, as many as the limit allows, and counts no more of
anything, also if the other one runs in another session over the same bytes. -/
theorem accounts_up_to_limit {d : Session} {p : Profile} {cap : Nat} {img : Image} {writes : Nat}
    (plain : d.Plain p cap img writes) (stores : Array Store) (entry : UInt32) (limit : Int) :
    let v := Survey.of d img writes stores entry limit
    let r := v.report
    (r.blocks = v.visited.length ∧ r.blocks = r.clean + (r.failures.map Prod.snd).sum ∧
      (r.failures.map Prod.fst).Nodup ∧ r.clean = r.fragments.size ∧
      r.pausing = r.fragments.countP (·.pauses) ∧ (r.fragments.toList.map Fragment.addr).Nodup) ∧
    (∀ version, (Dump.ofReport version entry r).blocks.size = r.clean ∧
      ∀ f ∈ r.fragments,
        (Dump.ofReport version entry r).blocks[Dump.addressKey f.addr]? = some f.code) ∧
    ∀ (d' : Session) (writes' : Nat) (stores' : Array Store) (limit' : Int),
      d'.Plain p cap img writes' → 0 < limit → limit ≤ limit' ∨ limit' ≤ 0 →
        let v' := Survey.of d' img writes' stores' entry limit'
        let r' := v'.report
        v.visited = v'.visited.take limit.toNat ∧
        v.visited.length = min limit.toNat v'.visited.length ∧
        r.fragments.toList <+: r'.fragments.toList ∧
        r.blocks ≤ r'.blocks ∧ r.clean ≤ r'.clean ∧ r.pausing ≤ r'.pausing ∧
        r.routines ≤ r'.routines ∧
        ∀ kind, (r.failures.lookup kind).getD 0 ≤ (r'.failures.lookup kind).getD 0 := by
  intro v r
  have start := follows_start plain stores entry
  have follows : v.Follows p cap img writes entry := start.run _
  have balanced : r.Balanced := (start.continues_run Report.balanced_empty _).1
  have distinct : (r.fragments.toList.map Fragment.addr).Nodup := by
    rw [follows.fragments, addr_fragments]
    exact (follows.explored.nodup.sublist (List.take_sublist _ _)).filter _
  refine ⟨⟨follows.length_visited.symm, balanced.blocks, ?_, balanced.clean, balanced.pausing,
    distinct⟩, fun version => ?_, fun d' writes' stores' limit' plain' positive higher => ?_⟩
  · exact List.pairwise_map.mpr (balanced.ascending.imp fun before => String.ne_of_lt before)
  · rw [blocks_ofReport, size_fillDump distinct (by simp), balanced.clean]
    refine ⟨by simp, fun f member => fillDump_of_mem distinct (Array.mem_toList_iff.mpr member) ∅⟩
  · intro v' r'
    -- the survey with the lower limit finds and counts the same in the other session
    have same : (of d' img writes' stores' entry limit).state = v.state :=
      ((follows_start plain' stores' entry).state_run _).trans (start.state_run _).symm
    obtain ⟨frontier, report⟩ := Prod.mk.inj same
    obtain ⟨⟨within, -⟩, visited_eq, length_eq⟩ :=
      truncated plain' stores' entry positive higher
    rw [visited, frontier, report] at visited_eq length_eq
    rw [report] at within
    exact ⟨visited_eq, length_eq, within.fragments, within.blocks, within.clean, within.pausing,
      within.routines, within.failures⟩

-- A call of a routine at 16, a branch to an opcode that has no statement, and a survey of the first
-- two blocks besides one without a limit, in a session that holds the first fragment.
theorem accounts_up_to_limit_call :
    let img : Image := ⟨#[0xE0, 0x3F, 0, 4, 0, 0xA0, 0, 0xC5, 0xB0, 0, 0, 0, 1, 2, 0xB0, 0, 0, 0xB1],
      by decide⟩
    let d : Session := { profile := ⟨5, 0⟩, cap := 0 }
    let d' := (d.fragment img 0 #[] 0).session
    let v := Survey.of d img 0 #[] 0 2
    let v' := Survey.of d' img 0 #[] 0 0
    d.Plain ⟨5, 0⟩ 0 img 0 ∧ d'.Plain ⟨5, 0⟩ 0 img 0 ∧
      v'.visited = [0, 5, 17, 11] ∧ v.visited = [0, 5] ∧
      v'.report.failures = [("Z2_UnknownOpcode", 1)] ∧ v'.report.routines = 1 ∧
      v'.report.clean = 3 ∧ (Dump.ofReport 5 0 v'.report).blocks.size = 3 ∧
      v.report.fragments.toList <+: v'.report.fragments.toList ∧
      v.report.routines ≤ v'.report.routines := by
  intro img d d' v v'
  have plain : d.Plain ⟨5, 0⟩ 0 img 0 := ⟨rfl, rfl, rfl, by simp [d, Session.sync]⟩
  have plain' : d'.Plain ⟨5, 0⟩ 0 img 0 := (plain.fragment #[] 0).1
  have final : v'.state = (advance img ⟨5, 0⟩ 0)^[visits img 0] ([0], {}) :=
    (follows_start plain' #[] 0).state_run _
  have counted : v'.frontier.found.toList = [0, 5, 17, 11] ∧ v'.report.blocks = 4 ∧
      v'.report.failures = [("Z2_UnknownOpcode", 1)] ∧ v'.report.routines = 1 := by
    rw [show v'.frontier.found.toList = _ from congrArg Prod.fst final,
      show v'.report = _ from congrArg Prod.snd final]
    decide +kernel
  obtain ⟨found, all, failed, entered⟩ := counted
  have order : v'.visited = [0, 5, 17, 11] := by
    rw [visited, all, found, List.take_of_length_le (by simp)]
  obtain ⟨-, -, longer⟩ := accounts_up_to_limit plain #[] 0 2
  obtain ⟨first, -, fragments, -, -, -, routines, -⟩ := longer d' 0 #[] 0 plain' (by decide) (by decide)
  obtain ⟨⟨-, blocks, -⟩, dumped, -⟩ := accounts_up_to_limit plain' #[] 0 0
  have clean : v'.report.clean = 3 := by
    have sum : v'.report.blocks = v'.report.clean + (v'.report.failures.map Prod.snd).sum := blocks
    simp only [all, failed, List.map_cons, List.map_nil, List.sum_cons, List.sum_nil] at sum
    omega
  refine ⟨plain, plain', order, ?_, failed, entered, clean, (dumped 5).1.trans clean, fragments,
    routines⟩
  exact first.trans (congrArg (List.take 2) order)

end Survey

end ZCode

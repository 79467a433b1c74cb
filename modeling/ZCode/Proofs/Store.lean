import Mathlib.Data.List.Induction
import Mathlib.Tactic.Common
import ZCode.Store

set_option autoImplicit false

namespace ZCode

namespace Digest

theorem wordBytes_inj {w w' : UInt64} : wordBytes w = wordBytes w' ↔ w = w' := by
  refine ⟨fun same => ?_, congrArg wordBytes⟩
  have bound := w.toNat_lt
  have bound' := w'.toNat_lt
  simp only [wordBytes, List.map_cons, List.map_nil, List.cons.injEq, and_true, ← UInt8.toNat_inj,
    UInt64.toNat_toUInt8, UInt64.toNat_shiftRight, UInt64.reduceToNat, Nat.shiftRight_eq_div_pow,
    Nat.reducePow, Nat.reduceMod] at same
  rw [← UInt64.toNat_inj]
  omega

theorem bytes_inj {d d' : Digest} : d.bytes = d'.bytes ↔ d = d' := by
  refine ⟨fun same => ?_, congrArg bytes⟩
  obtain ⟨w0, w1, w2, w3⟩ := d
  obtain ⟨w0', w1', w2', w3'⟩ := d'
  simp only [bytes, List.flatMap_cons, List.flatMap_nil, List.append_nil] at same
  obtain ⟨first, same⟩ := List.append_inj same rfl
  obtain ⟨second, same⟩ := List.append_inj same rfl
  obtain ⟨third, fourth⟩ := List.append_inj same rfl
  rw [mk.injEq, ← wordBytes_inj, ← wordBytes_inj, ← wordBytes_inj, ← wordBytes_inj]
  exact ⟨first, second, third, fourth⟩

end Digest

namespace ImageKey

variable {k k' : ImageKey} {a a' : UInt32}

theorem bytes_inj : k.bytes = k'.bytes ↔ k = k' := by
  refine ⟨fun same => ?_, congrArg bytes⟩
  obtain ⟨digests, versions⟩ := List.append_inj same rfl
  obtain ⟨d, v⟩ := k
  obtain ⟨d', v'⟩ := k'
  rw [mk.injEq]
  exact ⟨Digest.bytes_inj.mp digests, List.singleton_inj.mp versions⟩

theorem toNat_shift_or (a : UInt32) (b : UInt8) :
    ((a <<< 8) ||| b.toUInt32).toNat = 256 * (a.toNat % 16777216) + b.toNat := by
  have shifted : a.toNat * 256 % 4294967296 = 256 * (a.toNat % 16777216) := by omega
  have disjoint := Nat.two_pow_add_eq_or_of_lt b.toNat_lt (a.toNat % 16777216)
  simp only [UInt32.toNat_or, UInt32.toNat_shiftLeft, UInt8.toNat_toUInt32, UInt32.reduceToNat,
    Nat.shiftLeft_eq, Nat.reducePow, Nat.reduceMod] at shifted disjoint ⊢
  rw [shifted, ← disjoint]

theorem addressOf_entry (k : ImageKey) (a : UInt32) : addressOf (k.entry a) = a := by
  have bound := a.toNat_lt
  have last : (k.entry a).drop ((k.entry a).length - 4) = addressBytes a :=
    List.drop_left' rfl
  rw [addressOf, last, ← UInt32.toNat_inj]
  simp only [addressBytes, List.map_cons, List.map_nil, List.foldl_cons, List.foldl_nil,
    toNat_shift_or, UInt32.toNat_toUInt8, UInt32.toNat_shiftRight, UInt32.reduceToNat,
    Nat.shiftRight_eq_div_pow, Nat.reducePow, Nat.reduceMod]
  omega

theorem entry_inj : k.entry a = k'.entry a' ↔ k = k' ∧ a = a' := by
  constructor
  · intro same
    have addresses := congrArg addressOf same
    rw [addressOf_entry, addressOf_entry] at addresses
    exact ⟨bytes_inj.mp (List.append_inj same rfl).1, addresses⟩
  · rintro ⟨rfl, rfl⟩
    rfl

theorem isPrefixOf_entry : k.bytes.isPrefixOf (k'.entry a) = true ↔ k = k' := by
  rw [List.isPrefixOf_iff_prefix]
  constructor
  · rintro ⟨rest, same⟩
    exact bytes_inj.mp (List.append_inj same rfl).1
  · rintro rfl
    exact List.prefix_append _ _

theorem compare_append (xs ys zs : List UInt8) : compare (xs ++ ys) (xs ++ zs) = compare ys zs := by
  induction xs with
  | nil => rfl
  | cons x rest ih =>
    have here : compare x x = .eq := Std.ReflCmp.compare_self
    rw [List.compare_eq_compareLex, List.cons_append, List.cons_append, List.compareLex_cons_cons,
      here]
    exact ih

theorem eq_sum_bytes {n : Nat} (bound : n < 4294967296) : n = 16777216 * (n / 16777216 % 256) +
    65536 * (n / 65536 % 256) + 256 * (n / 256 % 256) + n % 256 := by
  omega

theorem lt_of_compare_entry (before : compare (k.entry a) (k.entry a') = .lt) : a < a' := by
  rw [entry, entry, compare_append] at before
  simp only [addressBytes, List.map_cons, List.map_nil, List.compare_eq_compareLex,
    List.compareLex_cons_cons, List.compareLex_nil_nil, Ordering.then_eq_lt,
    Std.LawfulEqCmp.compare_eq_iff_eq, Std.compare_eq_lt, UInt8.lt_iff_toNat_lt, ← UInt8.toNat_inj,
    UInt32.toNat_toUInt8, UInt32.toNat_shiftRight, UInt32.reduceToNat, Nat.shiftRight_eq_div_pow,
    Nat.reducePow, Nat.reduceMod, reduceCtorEq, and_false, or_false] at before
  rw [UInt32.lt_iff_toNat_lt, eq_sum_bytes a.toNat_lt, eq_sum_bytes a'.toNat_lt]
  have second := Nat.mod_lt (a.toNat / 65536) (show 0 < 256 by decide)
  have third := Nat.mod_lt (a.toNat / 256) (show 0 < 256 by decide)
  have fourth := Nat.mod_lt a.toNat (show 0 < 256 by decide)
  generalize a.toNat / 16777216 % 256 = x0, a.toNat / 65536 % 256 = x1,
    a.toNat / 256 % 256 = x2, a.toNat % 256 = x3, a'.toNat / 16777216 % 256 = y0,
    a'.toNat / 65536 % 256 = y1, a'.toNat / 256 % 256 = y2, a'.toNat % 256 = y3 at *
  omega

end ImageKey

namespace Store

variable {s t : Store} {key : ImageKey} {addr : UInt32} {f : Fragment} {found : List UInt32}

@[simp] theorem shelf_empty : ({} : Store).shelf key addr = none := by
  simp [shelf]

theorem put_eq_ok_iff : s.put key f = .ok t ↔ s.closed = false ∧
    t = { s with entries := s.entries.insert (key.entry f.addr) f } := by
  cases closed : s.closed <;> simp [put, closed, eq_comm]

theorem delete_eq_ok_iff : s.delete key addr = .ok t ↔ s.closed = false ∧
    t = { s with entries := s.entries.erase (key.entry addr) } := by
  cases closed : s.closed <;> simp [delete, closed, eq_comm]

theorem addresses_eq_ok_iff : s.addresses key = .ok found ↔ s.closed = false ∧
    found = (s.entries.keys.filter key.bytes.isPrefixOf).map ImageKey.addressOf := by
  cases closed : s.closed <;> simp [addresses, closed, eq_comm]

theorem deleteImage_eq_ok_iff : s.deleteImage key = .ok t ↔ ∃ found, s.addresses key = .ok found ∧
    t = { s with entries := found.foldl (fun kept a => kept.erase (key.entry a)) s.entries } := by
  rw [deleteImage]
  cases s.addresses key with
  | error fault => simp [bind, Except.bind]
  | ok found => simp [bind, Except.bind, pure, Except.pure, eq_comm]

theorem shelf_put (done : s.put key f = .ok t) (key' : ImageKey) (addr' : UInt32) :
    t.shelf key' addr' = if key = key' ∧ f.addr = addr' then some f else s.shelf key' addr' := by
  obtain ⟨-, rfl⟩ := put_eq_ok_iff.mp done
  simp only [shelf, Std.TreeMap.getElem?_insert, Std.LawfulEqCmp.compare_eq_iff_eq,
    ImageKey.entry_inj]

theorem shelf_delete (done : s.delete key addr = .ok t) (key' : ImageKey) (addr' : UInt32) :
    t.shelf key' addr' = if key = key' ∧ addr = addr' then none else s.shelf key' addr' := by
  obtain ⟨-, rfl⟩ := delete_eq_ok_iff.mp done
  simp only [shelf, Std.TreeMap.getElem?_erase, Std.LawfulEqCmp.compare_eq_iff_eq,
    ImageKey.entry_inj]

theorem getElem?_eraseAll (entries : Std.TreeMap (List UInt8) Fragment) (key key' : ImageKey)
    (addrs : List UInt32) (addr : UInt32) :
    (addrs.foldl (fun kept a => kept.erase (key.entry a)) entries)[key'.entry addr]? =
      if key = key' ∧ addr ∈ addrs then none else entries[key'.entry addr]? := by
  induction addrs generalizing entries with
  | nil => simp
  | cons a rest ih =>
    rw [List.foldl_cons, ih, Std.TreeMap.getElem?_erase]
    simp only [Std.LawfulEqCmp.compare_eq_iff_eq, ImageKey.entry_inj, List.mem_cons]
    grind

theorem mem_addresses_of_shelf (listed : s.addresses key = .ok found)
    (held : s.shelf key addr = some f) : addr ∈ found := by
  obtain ⟨-, rfl⟩ := addresses_eq_ok_iff.mp listed
  have inside : key.entry addr ∈ s.entries := by
    rw [Std.TreeMap.mem_iff_isSome_getElem?, ← shelf, held, Option.isSome_some]
  apply List.mem_map.mpr
  refine ⟨key.entry addr, List.mem_filter.mpr ⟨Std.TreeMap.mem_keys.mpr inside, ?_⟩,
    ImageKey.addressOf_entry key addr⟩
  exact ImageKey.isPrefixOf_entry.mpr rfl

theorem shelf_deleteImage (done : s.deleteImage key = .ok t) (key' : ImageKey) (addr : UInt32) :
    t.shelf key' addr = if key = key' then none else s.shelf key' addr := by
  obtain ⟨found, listed, rfl⟩ := deleteImage_eq_ok_iff.mp done
  simp only [shelf, getElem?_eraseAll]
  by_cases same : key = key'
  · subst same
    cases held : s.shelf key addr with
    | none => simpa [shelf] using fun _ => held
    | some f => simp [mem_addresses_of_shelf listed held]
  · simp [same]

def Filed (s : Store) : Prop :=
  ∀ k ∈ s.entries, ∃ (key : ImageKey) (addr : UInt32), k = key.entry addr

theorem filed_empty : Filed {} := by
  intro k member
  simp at member

theorem Filed.put (filed : s.Filed) (done : s.put key f = .ok t) : t.Filed := by
  obtain ⟨-, rfl⟩ := put_eq_ok_iff.mp done
  intro k member
  rcases Std.TreeMap.mem_insert.mp member with same | old
  · exact ⟨key, f.addr, (Std.LawfulEqCmp.compare_eq_iff_eq.mp same).symm⟩
  · exact filed k old

theorem Filed.delete (filed : s.Filed) (done : s.delete key addr = .ok t) : t.Filed := by
  obtain ⟨-, rfl⟩ := delete_eq_ok_iff.mp done
  exact fun k member => filed k (Std.TreeMap.mem_of_mem_erase member)

theorem Filed.deleteImage (filed : s.Filed) (done : s.deleteImage key = .ok t) : t.Filed := by
  obtain ⟨found, -, rfl⟩ := deleteImage_eq_ok_iff.mp done
  have kept (addrs : List UInt32) (entries : Std.TreeMap (List UInt8) Fragment) (k : List UInt8)
      (member : k ∈ addrs.foldl (fun kept a => kept.erase (key.entry a)) entries) : k ∈ entries := by
    induction addrs generalizing entries with
    | nil => exact member
    | cons a rest ih => exact Std.TreeMap.mem_of_mem_erase (ih _ member)
  exact fun k member => filed k (kept found s.entries k member)

theorem Filed.entry_of_begins (filed : s.Filed) {k : List UInt8}
    (member : k ∈ s.entries.keys.filter key.bytes.isPrefixOf) : ∃ addr, k = key.entry addr := by
  obtain ⟨inside, begins⟩ := List.mem_filter.mp member
  obtain ⟨key', addr, rfl⟩ := filed k (Std.TreeMap.mem_keys.mp inside)
  obtain rfl := ImageKey.isPrefixOf_entry.mp begins
  exact ⟨addr, rfl⟩

theorem Filed.mem_addresses_iff (filed : s.Filed) (listed : s.addresses key = .ok found)
    (addr : UInt32) : addr ∈ found ↔ ∃ f, s.shelf key addr = some f := by
  constructor
  · intro member
    obtain ⟨-, rfl⟩ := addresses_eq_ok_iff.mp listed
    obtain ⟨k, inside, rfl⟩ := List.mem_map.mp member
    obtain ⟨addr, rfl⟩ := filed.entry_of_begins inside
    have present := Std.TreeMap.mem_keys.mp (List.mem_filter.mp inside).1
    rw [ImageKey.addressOf_entry]
    exact Option.isSome_iff_exists.mp (Std.TreeMap.mem_iff_isSome_getElem?.mp present)
  · rintro ⟨f, held⟩
    exact mem_addresses_of_shelf listed held

theorem Filed.ascending (filed : s.Filed) (listed : s.addresses key = .ok found) :
    found.Pairwise (· < ·) := by
  obtain ⟨-, rfl⟩ := addresses_eq_ok_iff.mp listed
  rw [List.pairwise_map]
  have ordered := (Std.TreeMap.ordered_keys (t := s.entries)).filter key.bytes.isPrefixOf
  refine ordered.imp_of_mem fun {k k'} inside inside' before => ?_
  obtain ⟨addr, rfl⟩ := filed.entry_of_begins inside
  obtain ⟨addr', rfl⟩ := filed.entry_of_begins inside'
  rw [ImageKey.addressOf_entry, ImageKey.addressOf_entry]
  exact ImageKey.lt_of_compare_entry before

inductive Action where
  | put (key : ImageKey) (f : Fragment)
  | get (key : ImageKey) (addr : UInt32)
  | delete (key : ImageKey) (addr : UInt32)
  | addresses (key : ImageKey)
  | deleteImage (key : ImageKey)

def act (s : Store) : Action → Except Fault Store
  | .put key f => s.put key f
  | .get key addr => (s.get key addr).map fun _ => s
  | .delete key addr => s.delete key addr
  | .addresses key => (s.addresses key).map fun _ => s
  | .deleteImage key => s.deleteImage key

def after (history : List Action) : Except Fault Store :=
  history.foldlM act {}

/-- The action replaces or removes what an image has for an address. -/
def Action.Touches (key : ImageKey) (addr : UInt32) : Action → Prop
  | .put key' f => key' = key ∧ f.addr = addr
  | .delete key' addr' => key' = key ∧ addr' = addr
  | .deleteImage key' => key' = key
  | .get _ _ | .addresses _ => False

/-- The fragment was put under the image and its address and has been left alone since. -/
def LastPut (history : List Action) (key : ImageKey) (addr : UInt32) (f : Fragment) : Prop :=
  f.addr = addr ∧ ∃ before since, history = before ++ .put key f :: since ∧
    ∀ a ∈ since, ¬ a.Touches key addr

theorem lastPut_append {history : List Action} {a : Action} :
    LastPut (history ++ [a]) key addr f ↔ (a = .put key f ∧ f.addr = addr) ∨
      (¬ a.Touches key addr ∧ LastPut history key addr f) := by
  constructor
  · rintro ⟨filed, before, since, same, alone⟩
    rcases List.eq_nil_or_concat since with rfl | ⟨since, last, rfl⟩
    · obtain ⟨-, lasts⟩ := List.append_inj' same rfl
      exact .inl ⟨List.singleton_inj.mp lasts, filed⟩
    · rw [List.concat_eq_append, ← List.cons_append, ← List.append_assoc] at same
      obtain ⟨rfl, lasts⟩ := List.append_inj' same rfl
      obtain rfl := List.singleton_inj.mp lasts
      refine .inr ⟨alone a (by simp), filed, before, since, rfl, fun b member => ?_⟩
      exact alone b (by simp [member])
  · rintro (⟨rfl, filed⟩ | ⟨untouched, filed, before, since, rfl, alone⟩)
    · exact ⟨filed, history, [], rfl, by simp⟩
    · refine ⟨filed, before, since ++ [a], by simp, fun b member => ?_⟩
      rcases List.mem_append.mp member with old | new
      · exact alone b old
      · rwa [List.mem_singleton.mp new]

structure Step (s : Store) (a : Action) (t : Store) : Prop where
  done : s.act a = .ok t
  stays : t.closed = false
  filed : s.Filed → t.Filed
  shelf : ∀ key addr f, t.shelf key addr = some f ↔
    (a = .put key f ∧ f.addr = addr) ∨ (¬ a.Touches key addr ∧ s.shelf key addr = some f)

section Open

variable (stays : s.closed = false)

include stays

theorem get_eq_ok (key : ImageKey) (addr : UInt32) : s.get key addr = .ok (s.shelf key addr) := by
  rw [get, if_neg (by simp [stays])]

theorem exists_put (key : ImageKey) (f : Fragment) : ∃ t, s.put key f = .ok t ∧ t.closed = false :=
  ⟨_, put_eq_ok_iff.mpr ⟨stays, rfl⟩, stays⟩

theorem exists_delete (key : ImageKey) (addr : UInt32) :
    ∃ t, s.delete key addr = .ok t ∧ t.closed = false :=
  ⟨_, delete_eq_ok_iff.mpr ⟨stays, rfl⟩, stays⟩

theorem exists_addresses (key : ImageKey) : ∃ found, s.addresses key = .ok found :=
  ⟨_, addresses_eq_ok_iff.mpr ⟨stays, rfl⟩⟩

theorem exists_deleteImage (key : ImageKey) :
    ∃ t, s.deleteImage key = .ok t ∧ t.closed = false := by
  obtain ⟨found, listed⟩ := exists_addresses stays key
  exact ⟨_, deleteImage_eq_ok_iff.mpr ⟨found, listed, rfl⟩, stays⟩

theorem exists_step (a : Action) : ∃ t, Step s a t := by
  cases a with
  | put key f =>
    obtain ⟨t, done, stays⟩ := exists_put stays key f
    refine ⟨t, done, stays, fun filed => filed.put done, fun key' addr' f' => ?_⟩
    rw [shelf_put done, Action.put.injEq]
    simp only [Action.Touches]
    grind
  | delete key addr =>
    obtain ⟨t, done, stays⟩ := exists_delete stays key addr
    refine ⟨t, done, stays, fun filed => filed.delete done, fun key' addr' f' => ?_⟩
    simp [shelf_delete done, Action.Touches]
  | deleteImage key =>
    obtain ⟨t, done, stays⟩ := exists_deleteImage stays key
    refine ⟨t, done, stays, fun filed => filed.deleteImage done, fun key' addr' f' => ?_⟩
    simp [shelf_deleteImage done, Action.Touches]
  | get key addr =>
    refine ⟨s, by simp [act, get_eq_ok stays, Except.map], stays, id, fun key' addr' f' => ?_⟩
    simp [Action.Touches]
  | addresses key =>
    obtain ⟨found, listed⟩ := exists_addresses stays key
    refine ⟨s, by simp [act, listed, Except.map], stays, id, fun key' addr' f' => ?_⟩
    simp [Action.Touches]

end Open

theorem exists_after (history : List Action) : ∃ s, after history = .ok s ∧ s.closed = false ∧
    s.Filed ∧ ∀ key addr f, s.shelf key addr = some f ↔ LastPut history key addr f := by
  -- the latest action is the last one, so the induction takes histories apart from behind
  induction history using List.reverseRecOn with
  | nil =>
    refine ⟨{}, rfl, rfl, filed_empty, fun key addr f => ?_⟩
    simp [LastPut]
  | append_singleton history a ih =>
    obtain ⟨s, ran, stays, filed, same⟩ := ih
    obtain ⟨t, step⟩ := exists_step stays a
    refine ⟨t, ?_, step.stays, step.filed filed, fun key addr f => ?_⟩
    · rw [after] at ran
      rw [after, List.foldlM_append, ran]
      simp [bind, Except.bind, step.done, pure, Except.pure]
    · rw [step.shelf, lastPut_append, same]

/-- A store is an ordered map. After any history it gives back exactly what was last put under an
image and an address and not deleted since; it lists the addresses that it has a fragment for, each
once and in ascending order; and it drops these of one image and nothing else. -/
theorem ordered_map (history : List Action) : ∃ s, after history = .ok s ∧
    (∀ key addr f, s.get key addr = .ok (some f) ↔ LastPut history key addr f) ∧
    (∀ key addr, s.get key addr = .ok none ↔ ∀ f, ¬ LastPut history key addr f) ∧
    (∀ key, ∃ found, s.addresses key = .ok found ∧ found.Pairwise (· < ·) ∧
      ∀ addr, addr ∈ found ↔ ∃ f, s.get key addr = .ok (some f)) ∧
    ∀ key, ∃ t, s.deleteImage key = .ok t ∧
      ∀ key' addr, t.get key' addr = if key' = key then .ok none else s.get key' addr := by
  obtain ⟨s, ran, stays, filed, same⟩ := exists_after history
  refine ⟨s, ran, fun key addr f => ?_, fun key addr => ?_, fun key => ?_, fun key => ?_⟩
  · rw [get_eq_ok stays, Except.ok.injEq, same]
  · rw [get_eq_ok stays, Except.ok.injEq, Option.eq_none_iff_forall_ne_some]
    simp only [ne_eq, same]
  · obtain ⟨found, listed⟩ := exists_addresses stays key
    refine ⟨found, listed, filed.ascending listed, fun addr => ?_⟩
    simp only [get_eq_ok stays, Except.ok.injEq, filed.mem_addresses_iff listed]
  · obtain ⟨t, done, still⟩ := exists_deleteImage stays key
    refine ⟨t, done, fun key' addr => ?_⟩
    rw [get_eq_ok still, get_eq_ok stays, shelf_deleteImage done]
    by_cases here : key' = key
    · rw [if_pos here, if_pos here.symm]
    · rw [if_neg here, if_neg (Ne.symm here)]

end Store

end ZCode

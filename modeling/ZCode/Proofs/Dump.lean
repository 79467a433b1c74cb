import ZCode.Dump.Compare
import ZCode.Proofs.Json.Written
import ZCode.Proofs.Survey.Accounting

set_option autoImplicit false

namespace ZCode.Json.Delta

variable (sameNumber : String → String → Bool)

theorem areSame_append (ms ns : List (String × Delta)) :
    areSame (ms ++ ns) = (areSame ms && areSame ns) := by
  induction ms with
  | nil => simp [areSame]
  | cons m ms ih => simp [areSame, ih, Bool.and_assoc]

theorem areSame_added (ns : List (String × Value)) :
    areSame (ns.map fun n => (n.1, .added n.2)) = ns.isEmpty := by
  cases ns with
  | nil => rfl
  | cons n ns => simp [areSame, isSame]

theorem isSame_of_of_other {v w : Value} (other : ∀ ms ns, v = .object ms → w ≠ .object ns) :
    (of sameNumber v w).isSame = v.same sameNumber w := by
  unfold of
  split
  next ms ns => exact absurd rfl (other ms ns rfl)
  · cases held : v.same sameNumber w <;> rfl

mutual

theorem isSame_of : (v w : Value) → (of sameNumber v w).isSame = v.same sameNumber w
  | .object ms, .object ns => by
    rw [of, isSame, Value.same]
    exact areSame_ofMembers ms ns
  | .object _, .null | .object _, .boolean _ | .object _, .number _ | .object _, .string _
  | .object _, .array _ => by
    apply isSame_of_of_other
    intro _ _ _ same
    cases same
  | .null, w | .boolean _, w | .number _, w | .string _, w | .array _, w => by
    apply isSame_of_of_other
    intro _ _ same
    cases same

theorem areSame_ofMembers : (ms ns : List (String × Value)) →
    areSame (ofMembers sameNumber ms ns) = Value.sameMembers sameNumber ms ns
  | [], ns => by
    rw [ofMembers, areSame_added]
    cases ns <;> rfl
  | (k, v) :: ms, [] => by
    simp [ofMembers, areSame, isSame, Value.sameMembers]
  | (k, v) :: ms, (l, w) :: ns => by
    have value := isSame_of v w
    have later := areSame_ofMembers ms ns
    rw [ofMembers, areSame_append, areSame_added, Value.sameMembers]
    by_cases before : l < k
    · -- a member that only the new object has
      have other : (k == l) = false := by
        rw [beq_eq_false_iff_ne]
        rintro rfl
        exact String.lt_irrefl _ before
      rw [List.takeWhile_cons, if_pos (decide_eq_true before), other]
      rfl
    rw [List.takeWhile_cons, if_neg (mt of_decide_eq_true before), List.dropWhile_cons,
      if_neg (mt of_decide_eq_true before)]
    by_cases same : l = k
    · subst same
      simp [areSame, value, later]
    · simp [same, Ne.symm same, areSame, isSame]

end

end ZCode.Json.Delta

namespace ZCode

open ZCode.Json

namespace Dump

variable {allowed : String → Bool} {depth : Nat}

def blocksValue (d : Dump) : Value :=
  .object (d.blocks.toList.map fun m => (m.1, .string m.2))

def value (d : Dump) : Value :=
  .object [("blocks", d.blocksValue), ("entry", .string (addressKey d.entry)),
    ("version", .number (toString d.version))]

def blocksText (d : Dump) : String :=
  if d.blocks.isEmpty then "\x7b\x7d" else "\x7b\n" ++ memberLines d.blocks.toList ++ "\n  \x7d"

-- A member of the blocks with what it is written as.
def written (m : String × String) : Member :=
  ⟨m.1, quoted m.2, .string m.2⟩

theorem memberLines_eq (ms : List (String × String)) :
    memberLines ms = Member.lines "    " (ms.map written) := by
  rw [memberLines, Member.lines, List.map_map]
  rfl

theorem toList_blocks (d : Dump) : (Member.gather ∅ (d.blocks.toList.map written)).toList =
    d.blocks.toList.map fun m => (m.1, .string m.2) := by
  apply Member.toList_gather
  · rw [Member.entries, List.map_map]
    exact .refl _
  · rw [List.pairwise_map]
    exact Std.TreeMap.ordered_keys_toList

theorem reads_blocksText (d : Dump) : Reads allowed (depth + 1) d.blocksText d.blocksValue := by
  have order := toList_blocks d
  have empty := Std.TreeMap.isEmpty_toList (t := d.blocks)
  cases held : d.blocks.toList with
  | nil =>
    rw [held] at empty
    rw [blocksText, blocksValue, held, ← empty]
    exact reads_empty
  | cons m ms =>
    rw [held] at empty order
    have each : ∀ n ∈ (m :: ms).map written, Reads allowed depth n.text n.value := by
      intro n member
      obtain ⟨m, -, rfl⟩ := List.mem_map.mp member
      exact reads_quoted m.2
    have indent : "    ".toList.all isSpace = true := rfl
    have closing : "\n  ".toList.all isSpace = true := rfl
    have close : "\n  \x7d" = "\n  " ++ "\x7d" := rfl
    rw [blocksText, blocksValue, held, ← empty, if_neg (by simp), ← order, memberLines_eq, close,
      ← String.append_assoc]
    exact reads_object indent each closing

-- The members of the document in the order in which they are written.
def members (d : Dump) : List Member :=
  [⟨"version", toString d.version, .number (toString d.version)⟩,
    ⟨"entry", quoted (addressKey d.entry), .string (addressKey d.entry)⟩,
    ⟨"blocks", d.blocksText, d.blocksValue⟩]

theorem text_eq (d : Dump) :
    d.text = "\x7b\n" ++ Member.lines "  " d.members ++ "\n" ++ "\x7d" := by
  -- the document's own texts, cut where the lines and their parts begin
  have version : "\x7b\n  \"version\": " = "\x7b\n" ++ ("  " ++ (quoted "version" ++ ": ")) := by
    decide
  have entry : ",\n  \"entry\": " = ",\n" ++ ("  " ++ (quoted "entry" ++ ": ")) := by decide
  have blocks : ",\n  \"blocks\": " = ",\n" ++ ("  " ++ (quoted "blocks" ++ ": ")) := by decide
  have closing : "\n\x7d" = "\n" ++ "\x7d" := rfl
  have lines : Member.lines "  " d.members =
      "  " ++ quoted "version" ++ ": " ++ toString d.version ++ ",\n" ++
        ("  " ++ quoted "entry" ++ ": " ++ quoted (addressKey d.entry) ++ ",\n" ++
          ("  " ++ quoted "blocks" ++ ": " ++ d.blocksText)) := by
    rw [members, Member.lines_cons_cons, Member.lines_cons_cons]
    rfl
  have whole : d.text = "\x7b\n  \"version\": " ++ toString d.version ++ ",\n  \"entry\": " ++
      quoted (addressKey d.entry) ++ ",\n  \"blocks\": " ++ d.blocksText ++ "\n\x7d" := rfl
  rw [whole, lines, version, entry, blocks, closing]
  simp only [String.append_assoc]

theorem parse?_text (d : Dump) (agreed : allowed (toString d.version) = true) :
    parse? allowed d.text.toList = some d.value := by
  have order : (Member.gather ∅ d.members).toList = [("blocks", d.blocksValue),
      ("entry", .string (addressKey d.entry)), ("version", .number (toString d.version))] := by
    apply Member.toList_gather
    -- the keys are written in the reverse of their order
    · exact (List.reverse_perm _).symm
    · have keys : ["blocks", "entry", "version"].Pairwise fun a b => Ord.compare a b = .lt := by
        decide
      exact List.Pairwise.of_map Prod.fst (fun _ _ less => less) keys
  have each : ∀ m ∈ d.members, Reads allowed 9999 m.text m.value := by
    rw [members, List.forall_mem_cons, List.forall_mem_cons, List.forall_mem_singleton]
    exact ⟨reads_byte d.version agreed, reads_quoted _, reads_blocksText d⟩
  have read : Reads allowed maxDepth d.text d.value := by
    rw [text_eq, value, ← order]
    exact reads_object rfl each rfl
  have whole := read (d.text.toList.length + 1) [] (by rw [String.length_toList]; omega) rfl
  rw [List.append_nil] at whole
  rw [parse?, whole]
  rfl

theorem sameMembers_strings (sameNumber : String → String → Bool) (ms ns : List (String × String)) :
    Value.sameMembers sameNumber (ms.map fun m => (m.1, .string m.2))
      (ns.map fun n => (n.1, .string n.2)) = true ↔ ms = ns := by
  induction ms generalizing ns with
  | nil => cases ns <;> simp [Value.sameMembers]
  | cons m ms ih =>
    cases ns with
    | nil => simp [Value.sameMembers]
    | cons n ns => simp [Value.sameMembers, Value.same, ih, Prod.ext_iff]

theorem same_value (sameNumber : String → String → Bool) (d d' : Dump) :
    d.value.same sameNumber d'.value = true ↔
      sameNumber (toString d.version) (toString d'.version) = true ∧ d.entry = d'.entry ∧
        d.blocks.toList = d'.blocks.toList := by
  have key : addressKey d.entry = addressKey d'.entry ↔ d.entry = d'.entry :=
    ⟨addressKey_inj, congrArg addressKey⟩
  simp only [value, blocksValue, Value.same, Value.sameMembers, beq_self_eq_true, Bool.true_and,
    Bool.and_true, Bool.and_eq_true, sameMembers_strings, beq_iff_eq, key]
  tauto

theorem isDouble_byte (n : UInt8) : isDouble (toString n) = true := by
  obtain ⟨x, held, -⟩ := double?_byte n
  rw [isDouble, held]
  rfl

theorem sameDouble_of {a b : String} {x y : Text.Double} (left : double? a = some x)
    (right : double? b = some y) : sameDouble a b = x.same y := by
  unfold sameDouble
  split
  next x' y' found found' =>
    cases left.symm.trans found
    cases right.symm.trans found'
    rfl
  next missing => exact absurd right (missing x y left)

theorem sameDouble_byte (n n' : UInt8) : sameDouble (toString n) (toString n') = true ↔ n = n' := by
  obtain ⟨x, held, back⟩ := double?_byte n
  obtain ⟨x', held', back'⟩ := double?_byte n'
  rw [sameDouble_of held held', Text.Double.same, Bool.and_eq_true, Bool.and_eq_true, beq_iff_eq,
    beq_iff_eq]
  constructor
  · rintro ⟨⟨mantissa, exponent⟩, -⟩
    rw [mantissa, exponent, back'] at back
    exact UInt8.toNat_inj.mp back.symm
  · rintro rfl
    have same : x = x' := Option.some.inj (held.symm.trans held')
    subst same
    simp

theorem toString_byte (n n' : UInt8) : toString n = toString n' ↔ n = n' := by
  constructor
  · intro same
    have digits : Nat.toDigits 10 n.toNat = Nat.toDigits 10 n'.toNat := by
      rw [← Nat.toList_repr, ← Nat.toList_repr]
      exact congrArg String.toList same
    have number := congrArg (fun ds => Nat.ofDigitChars 10 ds 0) digits
    rw [Nat.ofDigitChars_ten_toDigits, Nat.ofDigitChars_ten_toDigits] at number
    exact UInt8.toNat_inj.mp number
  · rintro rfl
    rfl

theorem compare_text (old new : String) (d d' : Dump) (full : Bool) : ∃ verdict,
    compare old new d.text d'.text full = .ok verdict ∧
      (verdict = none ↔ d.version = d'.version ∧ d.entry = d'.entry ∧
        d.blocks.toList = d'.blocks.toList) := by
  have read : Dump.read isDouble old d.text = .ok d.value := by
    rw [Dump.read, parse?_text d (isDouble_byte d.version)]
  have verdict_none {sameNumber : String → String → Bool} {difference : String} :
      (if (Delta.of sameNumber d.value d'.value).isSame then none else some difference) = none ↔
        sameNumber (toString d.version) (toString d'.version) = true ∧ d.entry = d'.entry ∧
          d.blocks.toList = d'.blocks.toList := by
    rw [← same_value, ← Delta.isSame_of]
    split <;> simp_all
  rw [compare, read]
  cases full with
  | true =>
    have read' : Dump.read (fun _ => true) new d'.text = .ok d'.value := by
      rw [Dump.read, parse?_text d' rfl]
    rw [read']
    refine ⟨_, rfl, verdict_none.trans ?_⟩
    rw [beq_iff_eq, toString_byte]
  | false =>
    have read' : Dump.read isDouble new d'.text = .ok d'.value := by
      rw [Dump.read, parse?_text d' (isDouble_byte d'.version)]
    rw [read']
    refine ⟨_, rfl, verdict_none.trans ?_⟩
    rw [sameDouble_byte]

end Dump

def Report.codeAt? (r : Report) (addr : UInt32) : Option String :=
  (r.fragments.toList.reverse.find? (·.addr == addr)).map Fragment.code

theorem getElem?_fillDump (fs : List Fragment) (blocks : Std.TreeMap String String) (a : UInt32) :
    (fillDump blocks fs)[Dump.addressKey a]? =
      ((fs.reverse.find? (·.addr == a)).map Fragment.code).or blocks[Dump.addressKey a]? := by
  induction fs generalizing blocks with
  | nil => rfl
  | cons f rest ih =>
    have later := ih (blocks.insert (Dump.addressKey f.addr) f.code)
    rw [fillDump, List.foldl_cons]
    refine later.trans ?_
    rw [List.reverse_cons, List.find?_append, Option.map_or, Option.or_assoc]
    congr 1
    by_cases same : f.addr = a
    · subst same
      simp
    · have apart : compare (Dump.addressKey f.addr) (Dump.addressKey a) ≠ .eq := by
        rw [ne_eq, Std.LawfulEqCmp.compare_eq_iff_eq]
        exact fun key => same (Dump.addressKey_inj key)
      rw [Std.TreeMap.getElem?_insert, if_neg apart]
      simp [same]

theorem getElem?_blocks_ofReport (v : UInt8) (e : UInt32) (r : Report) (a : UInt32) :
    (Dump.ofReport v e r).blocks[Dump.addressKey a]? = r.codeAt? a := by
  rw [blocks_ofReport, getElem?_fillDump, Std.TreeMap.getElem?_emptyc, Option.or_none]
  rfl

theorem toList_blocks_ofReport (v v' : UInt8) (e e' : UInt32) (r r' : Report) :
    (Dump.ofReport v e r).blocks.toList = (Dump.ofReport v' e' r').blocks.toList ↔
      ∀ addr, r.codeAt? addr = r'.codeAt? addr := by
  rw [← Std.TreeMap.equiv_iff_toList_eq]
  constructor
  · intro same addr
    rw [← getElem?_blocks_ofReport v e, ← getElem?_blocks_ofReport v' e', same.getElem?_eq]
  · intro same
    apply Std.TreeMap.Equiv.of_forall_constGet?_eq
    intro key
    by_cases written : ∃ addr, Dump.addressKey addr = key
    · obtain ⟨addr, rfl⟩ := written
      rw [getElem?_blocks_ofReport, getElem?_blocks_ofReport, same]
    · -- every key of a dump is that of an address
      have other (f : Fragment) : Dump.addressKey f.addr ≠ key := fun same => written ⟨_, same⟩
      rw [blocks_ofReport, blocks_ofReport, fillDump_of_other fun f _ => other f,
        fillDump_of_other fun f _ => other f]

namespace Dump

def file (d : Dump) : Array UInt8 :=
  d.text.toUTF8.data

/-- The files of two dumps can be compared. Briefly and in full, nothing differs exactly if version
and entry are the same and the surveys have the same code at every address. -/
theorem compare_decides_equality (old new : String) (v v' : UInt8) (e e' : UInt32) (r r' : Report) :
    ∃ brief full,
      compare old new (Text.decode (ofReport v e r).file) (Text.decode (ofReport v' e' r').file)
        false = .ok brief ∧
      compare old new (Text.decode (ofReport v e r).file) (Text.decode (ofReport v' e' r').file)
        true = .ok full ∧
      (brief = none ↔ full = none) ∧
      (brief = none ↔ v = v' ∧ e = e' ∧ ∀ addr, r.codeAt? addr = r'.codeAt? addr) := by
  rw [file, file, Text.decode_toUTF8, Text.decode_toUTF8, ← toList_blocks_ofReport v v' e e']
  obtain ⟨brief, answered, same⟩ := compare_text old new (ofReport v e r) (ofReport v' e' r') false
  obtain ⟨full, answered', same'⟩ := compare_text old new (ofReport v e r) (ofReport v' e' r') true
  exact ⟨brief, full, answered, answered', same.trans same'.symm, same⟩

end Dump

end ZCode

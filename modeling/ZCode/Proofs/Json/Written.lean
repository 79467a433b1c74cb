import ZCode.Json.Quoted
import ZCode.Json.Reader
import ZCode.Proofs.Text

set_option autoImplicit false

namespace ZCode.Json

open ZCode.Text

-- What stands between the quotes.
def escaped (chars : List Char) : List Char :=
  chars.flatMap fun c => (escapeChar c).toList

theorem toList_foldl_escapeChar (chars : List Char) (out : String) :
    (chars.foldl (fun out c => out ++ escapeChar c) out).toList = out.toList ++ escaped chars := by
  induction chars generalizing out with
  | nil => simp [escaped]
  | cons c cs ih => simp [ih, escaped]

theorem toList_quoted (s : String) : (quoted s).toList = '"' :: escaped s.toList ++ ['"'] := by
  simp [quoted, toList_foldl_escapeChar]

-- The digits of a unit, with what they add to the value read so far.
theorem units?_digits {ds : List Char} (some_ : ds ≠ []) {value n : Nat}
    (digits : ds.foldlM (fun n c => do
      let d ← hexDigit? c
      if d < 16 then some (n * 16 + d) else none) value = some n)
    (read : List Nat) (cs : List Char) :
    units? (.unit ds.length value) read (ds ++ cs) = units? .plain (n :: read) cs := by
  induction ds generalizing value with
  | nil => contradiction
  | cons d ds ih =>
    rw [List.foldlM_cons] at digits
    obtain ⟨next, step, digits⟩ := Option.bind_eq_some_iff.mp digits
    obtain ⟨x, digit, step⟩ := Option.bind_eq_some_iff.mp step
    split at step
    case isFalse => cases step
    cases step
    rw [List.cons_append, units?, digit]
    have order : 16 * value + x = value * 16 + x := by omega
    cases ds with
    | nil =>
      cases digits
      simp [order]
    | cons e ds =>
      simp only [List.length_cons, Nat.lt_add_left_iff_pos, Nat.zero_lt_succ, if_true, order,
        Nat.add_sub_cancel]
      exact ih (List.cons_ne_nil _ _) digits

theorem units?_unicodeEscape {c : Char} (small : c.toNat < 65536) (read : List Nat)
    (cs : List Char) :
    units? .plain read ((unicodeEscape c).toList ++ cs) = units? .plain (c.toNat :: read) cs := by
  have short : (hex c.toNat).length ≤ 4 := length_hex_le small
  have four : (padLeft 4 '0' (hex c.toNat)).toList.length = 4 := by
    rw [String.length_toList, padLeft, String.length_append, String.length_ofList,
      List.length_replicate]
    omega
  have some_ : (padLeft 4 '0' (hex c.toNat)).toList ≠ [] := by
    intro empty
    rw [empty] at four
    cases four
  have digits := readDigits?_zeros (4 - (hex c.toNat).length) (readDigits?_hex c.toNat)
  have padded : (padLeft 4 '0' (hex c.toNat)).toList =
      List.replicate (4 - (hex c.toNat).length) '0' ++ (hex c.toNat).toList := by
    simp [padLeft]
  rw [← padded, readDigits?, if_neg (by simpa using some_)] at digits
  have unit := units?_digits some_ digits read cs
  rw [four] at unit
  have opened (cs : List Char) :
      units? .plain read ("\\u".toList ++ cs) = units? (.unit 4 0) read cs := rfl
  rw [unicodeEscape, String.toList_append, List.append_assoc, opened, unit]

theorem units?_escapeChar (c : Char) (read : List Nat) (cs : List Char) :
    units? .plain read ((escapeChar c).toList ++ cs) = units? .plain (c.toNat :: read) cs := by
  rw [escapeChar]
  -- the escapes of one letter come first, then those by number
  iterate 7
    split
    next same =>
      cases beq_iff_eq.mp same
      rfl
  next quote slash _ _ _ _ _ =>
    split
    next special =>
      apply units?_unicodeEscape
      simp only [Bool.or_eq_true, decide_eq_true_eq, beq_iff_eq] at special
      rcases special with ((((control | rfl) | rfl) | rfl) | rfl) | rfl
      · exact Nat.lt_trans (UInt32.lt_iff_toNat_lt.mp control) (by decide)
      all_goals decide
    next plain =>
      simp only [Bool.or_eq_true, decide_eq_true_eq, beq_iff_eq, not_or] at plain
      simp [units?, quote, slash, plain.1.1.1.1.1]

theorem units?_escaped (chars : List Char) (read : List Nat) (rest : List Char) :
    units? .plain read (escaped chars ++ '"' :: rest) =
      some (read.reverse ++ chars.map Char.toNat, rest) := by
  induction chars generalizing read with
  | nil => simp [escaped, units?]
  | cons c cs ih =>
    rw [escaped, List.flatMap_cons, List.append_assoc, units?_escapeChar, ← escaped, ih]
    simp

-- A character is no surrogate.
theorem isHigh_toNat (c : Char) : isHigh c.toNat = false ∧ isLow c.toNat = false := by
  have valid : c.toNat < 0xD800 ∨ 0xDFFF < c.toNat ∧ c.toNat < 0x110000 := c.valid
  simp [isHigh, isLow]
  omega

theorem joinUnits_chars (read chars : List Char) :
    joinUnits read (chars.map Char.toNat) = read.reverse ++ chars := by
  have single (c : Char) : joinUnits.single c.toNat = c := by
    simp [joinUnits.single, isHigh_toNat c]
  induction chars generalizing read with
  | nil => simp [joinUnits]
  | cons c cs ih =>
    have later := ih (c :: read)
    cases cs with
    | nil => simp [joinUnits, single]
    | cons d cs =>
      rw [List.map_cons, List.map_cons, joinUnits, (isHigh_toNat c).1]
      simpa [single] using later

theorem string?_escaped (s : String) (rest : List Char) :
    string? (escaped s.toList ++ '"' :: rest) = some (s, rest) := by
  rw [string?, units?_escaped]
  simp [joinUnits_chars]

variable {allowed : String → Bool} {depth fuel : Nat} {indent : String}

-- Whatever follows, the text is read as the value and the rest is left. What follows must not
-- continue a number.
def Reads (allowed : String → Bool) (depth : Nat) (text : String) (v : Value) : Prop :=
  ∀ (fuel : Nat) (rest : List Char), text.length < fuel → rest.head?.any isNumberChar = false →
    value? allowed fuel depth (text.toList ++ rest) = some (v, rest)

theorem reads_quoted (s : String) : Reads allowed depth (quoted s) (.string s) := by
  intro fuel rest enough _
  obtain ⟨fuel, rfl⟩ : ∃ n, fuel = n + 1 := ⟨fuel - 1, by omega⟩
  rw [toList_quoted, value?]
  simp [skipSpace, isSpace, string?_escaped]

theorem reads_empty : Reads allowed (depth + 1) "\x7b\x7d" (.object []) := by
  intro fuel rest enough _
  obtain ⟨fuel, rfl⟩ : ∃ n, fuel = n + 1 := ⟨fuel - 1, by omega⟩
  rw [value?]
  rfl

theorem value?_digit {d : Char} (digit : d.isDigit = true) (cs : List Char) :
    value? allowed (fuel + 1) depth (d :: cs) = number? allowed (d :: cs) := by
  have other (c : Char) := ne_of_isDigit (d := c) digit
  have ahead : skipSpace (d :: cs) = d :: cs := by
    have solid : isSpace d = false := by
      simp [isSpace, other ' ' rfl, other '\t' rfl, other '\n' rfl, other '\r' rfl]
    simp [skipSpace, solid]
  rw [value?, ahead]
  -- no other kind of value begins with a digit
  split
  case h_7 => rfl
  all_goals
    next same =>
      injection same with same
      subst same
      cases digit

-- Checked byte by byte: the digits are a number, and its double holds the byte.
theorem byte_written : ∀ n < 256, isNumber (Nat.toDigits 10 n) = true ∧
    ((Decimal.parse? (Nat.toDigits 10 n)).bind Decimal.toDouble?).map
      (fun x => x.mantissa >>> (-x.exponent).toNat) = some n := by
  decide +kernel

theorem double?_byte (n : UInt8) :
    ∃ x, double? (toString n) = some x ∧ x.mantissa >>> (-x.exponent).toNat = n.toNat := by
  have digits : (toString n).toList = Nat.toDigits 10 n.toNat := Nat.toList_repr
  rw [double?, digits]
  exact Option.map_eq_some_iff.mp (byte_written n.toNat n.toNat_lt).2

theorem reads_byte (n : UInt8) (agreed : allowed (toString n) = true) :
    Reads allowed depth (toString n) (.number (toString n)) := by
  intro fuel rest enough stop
  obtain ⟨fuel, rfl⟩ : ∃ n, fuel = n + 1 := ⟨fuel - 1, by omega⟩
  have digits : (toString n).toList = Nat.toDigits 10 n.toNat := Nat.toList_repr
  have digit : ∀ d ∈ Nat.toDigits 10 n.toNat, d.isDigit = true :=
    fun d member => Nat.isDigit_of_mem_toDigits (by omega) (by omega) member
  have char : ∀ d ∈ Nat.toDigits 10 n.toNat, isNumberChar d = true := by
    intro d member
    simp [isNumberChar, digit d member]
  have written : String.ofList (Nat.toDigits 10 n.toNat) = toString n := by
    rw [← digits, String.ofList_toList]
  have ends : rest.takeWhile isNumberChar = [] ∧ rest.dropWhile isNumberChar = rest := by
    cases rest with
    | nil => exact ⟨rfl, rfl⟩
    | cons c cs =>
      have other : isNumberChar c = false := by simpa using stop
      simp [other]
  have first : value? allowed (fuel + 1) depth (Nat.toDigits 10 n.toNat ++ rest) =
      number? allowed (Nat.toDigits 10 n.toNat ++ rest) := by
    cases held : Nat.toDigits 10 n.toNat with
    | nil => exact absurd held Nat.toDigits_ne_nil
    | cons d ds => exact value?_digit (digit d (by simp [held])) _
  rw [digits, first, number?, List.takeWhile_append_of_pos char, List.dropWhile_append_of_pos char,
    ends.1, ends.2, List.append_nil, written, agreed, (byte_written _ n.toNat_lt).1]
  rfl

theorem skipSpace_append {blank : List Char} (all : blank.all isSpace = true) (cs : List Char) :
    skipSpace (blank ++ cs) = skipSpace cs := by
  rw [skipSpace, List.dropWhile_append_of_pos (List.all_eq_true.mp all)]
  rfl

theorem skipSpace_skipSpace (cs : List Char) : skipSpace (skipSpace cs) = skipSpace cs := by
  induction cs with
  | nil => rfl
  | cons c cs ih =>
    cases blank : isSpace c with
    | true => simpa [skipSpace, blank] using ih
    | false => simp [skipSpace, blank]

-- A blank does not continue a number.
theorem stop_blank {blank : List Char} (all : blank.all isSpace = true) {c : Char} {cs : List Char}
    (stop : isNumberChar c = false) : (blank ++ c :: cs).head?.any isNumberChar = false := by
  cases blank with
  | nil => simpa using stop
  | cons b bs =>
    have space : isSpace b = true := by
      simp only [List.all_cons, Bool.and_eq_true] at all
      exact all.1
    simp only [isSpace, Bool.or_eq_true, beq_iff_eq] at space
    rcases space with ((rfl | rfl) | rfl) | rfl <;> rfl

theorem value?_blank (cs : List Char) :
    value? allowed fuel depth (' ' :: cs) = value? allowed fuel depth cs := by
  cases fuel with
  | zero => rfl
  | succ fuel =>
    rw [value?, value?]
    rfl

theorem members?_skipSpace (read : Std.TreeMap String Value) (cs : List Char) :
    members? allowed fuel depth read (skipSpace cs) = members? allowed fuel depth read cs := by
  cases fuel with
  | zero => rfl
  | succ fuel => rw [members?, members?, skipSpace_skipSpace]

theorem members?_newline (read : Std.TreeMap String Value) (cs : List Char) :
    members? allowed fuel depth read ('\n' :: cs) = members? allowed fuel depth read cs :=
  (members?_skipSpace read ('\n' :: cs)).symm.trans (members?_skipSpace read cs)

structure Member where
  key : String
  text : String
  value : Value

namespace Member

def line (indent : String) (m : Member) : String :=
  indent ++ quoted m.key ++ ": " ++ m.text

def lines (indent : String) (ms : List Member) : String :=
  ",\n".intercalate (ms.map (line indent))

theorem toList_line (indent : String) (m : Member) : (m.line indent).toList =
    indent.toList ++ '"' :: (escaped m.key.toList ++ '"' :: ':' :: ' ' :: m.text.toList) := by
  simp [line, toList_quoted]

theorem length_line (indent : String) (m : Member) : m.text.length < (m.line indent).length := by
  have colon : ": ".length = 2 := rfl
  rw [line, String.length_append, String.length_append, colon]
  omega

theorem lines_singleton (indent : String) (m : Member) : lines indent [m] = m.line indent :=
  String.intercalate_singleton

theorem lines_cons_cons (indent : String) (m n : Member) (ns : List Member) :
    lines indent (m :: n :: ns) = m.line indent ++ ",\n" ++ lines indent (n :: ns) := by
  rw [lines, List.map_cons, List.map_cons, String.intercalate_cons_cons]
  rfl

theorem lines_starts (indent : String) (m : Member) (ms : List Member) :
    ∃ cs, (lines indent (m :: ms)).toList = indent.toList ++ '"' :: cs := by
  cases ms with
  | nil =>
    rw [lines_singleton, toList_line]
    exact ⟨_, rfl⟩
  | cons n ns =>
    rw [lines_cons_cons, String.toList_append, String.toList_append, toList_line,
      List.append_assoc, List.append_assoc]
    exact ⟨_, rfl⟩

def gather (read : Std.TreeMap String Value) (ms : List Member) : Std.TreeMap String Value :=
  ms.foldl (fun read m => read.insert m.key m.value) read

end Member

variable {m : Member} {ms : List Member} (blank : indent.toList.all isSpace = true)

include blank in
theorem members?_line (reads : Reads allowed depth m.text m.value) (enough : m.text.length < fuel)
    {rest : List Char} (stop : rest.head?.any isNumberChar = false)
    (read : Std.TreeMap String Value) :
    (∀ later, skipSpace rest = ',' :: later →
      members? allowed (fuel + 1) depth read ((m.line indent).toList ++ rest) =
        members? allowed fuel depth (read.insert m.key m.value) later) ∧
    (∀ later, skipSpace rest = '\x7d' :: later →
      members? allowed (fuel + 1) depth read ((m.line indent).toList ++ rest) =
        some (.object (read.insert m.key m.value).toList, later)) := by
  have found := reads fuel rest enough stop
  have quote (cs : List Char) : skipSpace (indent.toList ++ '"' :: cs) = '"' :: cs := by
    rw [skipSpace_append blank]
    rfl
  have colon (cs : List Char) : skipSpace (':' :: cs) = ':' :: cs := rfl
  have line : (m.line indent).toList ++ rest = indent.toList ++ '"' ::
      (escaped m.key.toList ++ '"' :: ':' :: ' ' :: (m.text.toList ++ rest)) := by
    simp [Member.toList_line]
  constructor
  · intro later comma
    rw [line, members?, quote]
    simp only [string?_escaped, colon, value?_blank, found, comma]
  · intro later brace
    rw [line, members?, quote]
    simp only [string?_escaped, colon, value?_blank, found, brace]

include blank in
theorem members?_lines (each : ∀ n ∈ m :: ms, Reads allowed depth n.text n.value)
    {close : List Char} (closing : close.all isSpace = true) (read : Std.TreeMap String Value)
    (rest : List Char) (enough : (Member.lines indent (m :: ms)).length < fuel) :
    members? allowed fuel depth read
        ((Member.lines indent (m :: ms)).toList ++ (close ++ '\x7d' :: rest)) =
      some (.object (Member.gather read (m :: ms)).toList, rest) := by
  induction ms generalizing m read fuel with
  | nil =>
    rw [Member.lines_singleton] at enough ⊢
    have shorter := m.length_line indent
    obtain ⟨fuel, rfl⟩ : ∃ n, fuel = n + 1 := ⟨fuel - 1, by omega⟩
    apply (members?_line blank (each m (.head _)) (by omega) ?_ read).2
    · rw [skipSpace_append closing]
      rfl
    · exact stop_blank closing rfl
  | cons n ns ih =>
    rw [Member.lines_cons_cons] at enough ⊢
    rw [String.length_append, String.length_append] at enough
    -- each member takes one of the fuel, and more than one character
    have shorter := m.length_line indent
    obtain ⟨fuel, rfl⟩ : ∃ n, fuel = n + 1 := ⟨fuel - 1, by omega⟩
    have room : (Member.lines indent (n :: ns)).length < fuel := by omega
    have later := ih (fun x member => each x (.tail _ member)) (read.insert m.key m.value) room
    have split : (m.line indent ++ ",\n" ++ Member.lines indent (n :: ns)).toList ++
        (close ++ '\x7d' :: rest) = (m.line indent).toList ++ ',' :: '\n' ::
          ((Member.lines indent (n :: ns)).toList ++ (close ++ '\x7d' :: rest)) := by
      simp
    rw [split, (members?_line blank (each m (.head _)) (by omega) rfl read).1 _ rfl,
      members?_newline]
    exact later

include blank in
theorem reads_object (each : ∀ n ∈ m :: ms, Reads allowed depth n.text n.value) {close : String}
    (closing : close.toList.all isSpace = true) :
    Reads allowed (depth + 1) ("\x7b\n" ++ Member.lines indent (m :: ms) ++ close ++ "\x7d")
      (.object (Member.gather ∅ (m :: ms)).toList) := by
  intro fuel rest enough _
  obtain ⟨fuel, rfl⟩ : ∃ n, fuel = n + 1 := ⟨fuel - 1, by omega⟩
  simp only [String.length_append] at enough
  have opening : "\x7b\n".length = 2 := rfl
  have room : (Member.lines indent (m :: ms)).length < fuel := by omega
  have read := members?_lines blank each closing ∅ rest room
  -- the first character behind the brace is a quote, so the object is not empty
  obtain ⟨cs, starts⟩ := Member.lines_starts indent m ms
  have quote : skipSpace ((Member.lines indent (m :: ms)).toList ++
      (close.toList ++ '\x7d' :: rest)) = '"' :: (cs ++ (close.toList ++ '\x7d' :: rest)) := by
    rw [starts, List.append_assoc, skipSpace_append blank]
    rfl
  rw [← members?_skipSpace, quote] at read
  have split : ("\x7b\n" ++ Member.lines indent (m :: ms) ++ close ++ "\x7d").toList ++ rest =
      '\x7b' :: '\n' ::
        ((Member.lines indent (m :: ms)).toList ++ (close.toList ++ '\x7d' :: rest)) := by
    simp
  have brace (cs : List Char) : skipSpace ('\x7b' :: cs) = '\x7b' :: cs := rfl
  have newline (cs : List Char) : skipSpace ('\n' :: cs) = skipSpace cs := rfl
  rw [split, value?, brace]
  simp only [newline, quote]
  exact read

namespace Member

def entries (ms : List Member) : List (String × Value) :=
  ms.map fun m => (m.key, m.value)

theorem perm_gather {read : Std.TreeMap String Value}
    (distinct : (read.toList ++ entries ms).Pairwise fun a b => a.1 ≠ b.1) :
    (gather read ms).toList.Perm (read.toList ++ entries ms) := by
  induction ms generalizing read with
  | nil => simp [gather, entries]
  | cons m ms ih =>
    have new : ∀ x ∈ read.toList, x.1 ≠ m.key := by
      intro x member
      exact (List.pairwise_append.mp distinct).2.2 x member (m.key, m.value) (.head _)
    have grown : (read.insert m.key m.value).toList.Perm ((m.key, m.value) :: read.toList) := by
      have kept : read.toList.filter (fun x => decide ¬ (m.key == x.1) = true) = read.toList := by
        rw [List.filter_eq_self]
        intro x member
        simpa using (new x member).symm
      have inserted := Std.TreeMap.toList_insert_perm (t := read) (k := m.key) (v := m.value)
      rwa [kept] at inserted
    have moved : ((read.insert m.key m.value).toList ++ entries ms).Perm
        (read.toList ++ entries (m :: ms)) :=
      (grown.append_right _).trans List.perm_middle.symm
    have apart := (moved.pairwise_iff fun differ => differ.symm).mpr distinct
    exact (ih apart).trans moved

theorem toList_gather {sorted : List (String × Value)} (perm : (entries ms).Perm sorted)
    (ascending : sorted.Pairwise fun a b => compare a.1 b.1 = .lt) :
    (gather ∅ ms).toList = sorted := by
  have distinct : (entries ms).Pairwise fun a b => a.1 ≠ b.1 := by
    rw [perm.pairwise_iff fun differ => differ.symm]
    apply ascending.imp
    intro a b less same
    rw [same, Std.compare_self] at less
    cases less
  have same : (gather ∅ ms).toList.Perm (entries ms) := perm_gather distinct
  apply List.Perm.eq_of_pairwise _ Std.TreeMap.ordered_keys_toList ascending (same.trans perm)
  intro a b _ _ less greater
  rw [Std.OrientedOrd.eq_swap, greater] at less
  cases less

end Member

end ZCode.Json

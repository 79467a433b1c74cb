import ZCode.Text.Digits
import ZCode.Text.Utf8

set_option autoImplicit false

namespace ZCode.Text

theorem ne_of_isDigit {c d : Char} (digit : c.isDigit = true) (other : d.isDigit = false) :
    c ≠ d := by
  rintro rfl
  rw [digit] at other
  cases other

theorem readDigits?_hex (n : Nat) : readDigits? 16 (hex n).toList = some n := by
  have digit : ∀ d < 16, hexDigit? (Nat.digitChar d) = some d := by decide
  have read : (Nat.toDigits 16 n).foldlM (fun n c => do
      let d ← hexDigit? c
      if d < 16 then some (n * 16 + d) else none) 0 = some n := by
    induction n using Nat.strongRecOn with
    | ind n ih =>
      by_cases small : n < 16
      · simp [Nat.toDigits_of_lt_base small, digit n small, small]
      · have below : n % 16 < 16 := Nat.mod_lt _ (by omega)
        rw [Nat.toDigits_of_base_le (by omega) (by omega), List.foldlM_append,
          ih (n / 16) (Nat.div_lt_self (by omega) (by omega))]
        have joined : n / 16 * 16 + n % 16 = n := Nat.div_add_mod' n 16
        simp [digit _ below, below, joined]
  have some_ : (Nat.toDigits 16 n).isEmpty = false := by
    simp [Nat.toDigits_ne_nil]
  rw [readDigits?, hex, String.toList_ofList, some_]
  exact read

theorem length_hex_le {n : Nat} (small : n < 65536) : (hex n).length ≤ 4 := by
  rw [hex, String.length_ofList, Nat.length_toDigits_le_iff (by decide) (by decide)]
  exact small

theorem readDigits?_zeros (k : Nat) {ds : List Char} {n : Nat} (read : readDigits? 16 ds = some n) :
    readDigits? 16 (List.replicate k '0' ++ ds) = some n := by
  have zero : hexDigit? '0' = some 0 := rfl
  rw [readDigits?] at read ⊢
  split at read
  · cases read
  next some_ =>
    have some_' : (List.replicate k '0' ++ ds).isEmpty = false := by
      simpa using fun _ => some_
    rw [some_', List.foldlM_append]
    induction k with
    | zero => exact read
    | succ k ih => simpa [List.replicate_succ, zero, some_] using ih (by simpa using fun _ => some_)

theorem toNat_ofNat_of_byte {n : Nat} (small : n < 256) : (UInt8.ofNat n).toNat = n := by
  rw [UInt8.toNat_ofNat']
  omega

-- A byte behind the lead holds six bits.
theorem isTail_ofNat (n : Nat) : isTail (UInt8.ofNat (n % 64 + 128)) = true := by
  have whole := toNat_ofNat_of_byte (n := n % 64 + 128) (by omega)
  have least : (0x80 : UInt8).toNat = 128 := rfl
  have bound : (0xC0 : UInt8).toNat = 192 := rfl
  simp only [isTail, Bool.and_eq_true, decide_eq_true_eq, UInt8.le_iff_toNat_le,
    UInt8.lt_iff_toNat_lt, whole, least, bound]
  omega

-- The leads from one byte on and below another, with the number of bytes behind them, the modulus
-- of what they hold themselves, and the least code that needs so many bytes.
def leads : List (Nat × Nat × Nat × Nat × Nat) :=
  [(0xC0, 0xE0, 1, 32, 0x80), (0xE0, 0xF0, 2, 16, 0x800), (0xF0, 0xF8, 3, 8, 0x10000)]

theorem character?_of_tails {low high count mask least : Nat} {lead : UInt8} {tails : List UInt8}
    (row : (low, high, count, mask, least) ∈ leads) (from_ : low ≤ lead.toNat)
    (below : lead.toNat < high) (enough : tails.length = count) (all : tails.all isTail = true)
    (needed : least ≤ join lead mask tails) (valid : (join lead mask tails).isValidChar)
    (rest : List UInt8) :
    character? lead (tails ++ rest) = some (Char.ofNat (join lead mask tails), tails.length) := by
  have taken : (tails ++ rest).take count = tails := by
    rw [List.take_append_of_le_length (by omega), List.take_of_length_le (by omega)]
  have less (n : Nat) (small : n < 256) : lead < UInt8.ofNat n ↔ lead.toNat < n := by
    rw [UInt8.lt_iff_toNat_lt, toNat_ofNat_of_byte small]
  have ascii : lead < 0x80 ↔ _ := less 0x80 (by decide)
  have tail : lead < 0xC0 ↔ _ := less 0xC0 (by decide)
  have two : lead < 0xE0 ↔ _ := less 0xE0 (by decide)
  have three : lead < 0xF0 ↔ _ := less 0xF0 (by decide)
  have four : lead < 0xF8 ↔ _ := less 0xF8 (by decide)
  simp only [leads, List.mem_cons, Prod.mk.injEq, List.not_mem_nil, or_false] at row
  rw [character?]
  rcases row with ⟨rfl, rfl, rfl, rfl, rfl⟩ | ⟨rfl, rfl, rfl, rfl, rfl⟩ | ⟨rfl, rfl, rfl, rfl, rfl⟩
  · rw [if_neg (mt ascii.mp (by omega)), if_neg (mt tail.mp (by omega)), if_pos (two.mpr below)]
    simp [taken, enough, all, needed, valid]
  · rw [if_neg (mt ascii.mp (by omega)), if_neg (mt tail.mp (by omega)),
      if_neg (mt two.mp (by omega)), if_pos (three.mpr below)]
    simp [taken, enough, all, needed, valid]
  · rw [if_neg (mt ascii.mp (by omega)), if_neg (mt tail.mp (by omega)),
      if_neg (mt two.mp (by omega)), if_neg (mt three.mp (by omega)), if_pos (four.mpr below)]
    simp [taken, enough, all, needed, valid]

theorem character?_encode (c : Char) : ∃ lead tails, String.utf8EncodeChar c = lead :: tails ∧
    ∀ rest, character? lead (tails ++ rest) = some (c, tails.length) := by
  have valid : Nat.isValidChar c.toNat := c.valid
  have below : c.toNat < 0x110000 := by
    rcases valid with low | ⟨-, high⟩ <;> omega
  have six (n : Nat) : (UInt8.ofNat (n % 64 + 128)).toNat % 64 = n % 64 := by
    rw [toNat_ofNat_of_byte (by omega)]
    omega
  -- the code that the bytes hold is that of the character
  have given {low high count mask least n : Nat} {tails : List UInt8}
      (row : (low, high, count, mask, least) ∈ leads) (small : n < 256) (from_ : low ≤ n)
      (below : n < high) (enough : tails.length = count) (all : tails.all isTail = true)
      (needed : least ≤ c.toNat) (code : join (UInt8.ofNat n) mask tails = c.toNat)
      (rest : List UInt8) :
      character? (UInt8.ofNat n) (tails ++ rest) = some (c, tails.length) := by
    have lead := toNat_ofNat_of_byte small
    rw [character?_of_tails row (by rwa [lead]) (by rwa [lead]) enough all (code ▸ needed)
      (code ▸ valid), code, Char.ofNat_toNat]
  simp only [String.utf8EncodeChar, Char.toNat_val]
  split
  next one =>
    have lead := toNat_ofNat_of_byte (n := c.toNat) (by omega)
    have small : UInt8.ofNat c.toNat < 0x80 := by
      rw [UInt8.lt_iff_toNat_lt, lead]
      exact Nat.lt_succ_of_le one
    exact ⟨_, _, rfl, fun rest => by simp [character?, small, lead]⟩
  split
  next two =>
    refine ⟨_, _, rfl, given (.head _) (by omega) (by omega) (by omega) rfl ?_ (by omega) ?_⟩
    · simp only [List.all_cons, List.all_nil, isTail_ofNat, Bool.and_self]
    · rw [join, toNat_ofNat_of_byte (by omega)]
      simp only [List.foldl_cons, List.foldl_nil, six]
      omega
  split
  next three =>
    refine ⟨_, _, rfl, given (.tail _ (.head _)) (by omega) (by omega) (by omega) rfl ?_
      (by omega) ?_⟩
    · simp only [List.all_cons, List.all_nil, isTail_ofNat, Bool.and_self]
    · rw [join, toNat_ofNat_of_byte (by omega)]
      simp only [List.foldl_cons, List.foldl_nil, six]
      omega
  next four =>
    refine ⟨_, _, rfl, given (.tail _ (.tail _ (.head _))) (by omega) (by omega) (by omega) rfl ?_
      (by omega) ?_⟩
    · simp only [List.all_cons, List.all_nil, isTail_ofNat, Bool.and_self]
    · rw [join, toNat_ofNat_of_byte (by omega)]
      simp only [List.foldl_cons, List.foldl_nil, six]
      omega

theorem decodeFrom_skip (bytes : List UInt8) (decoded : List Char) (rest : List UInt8) :
    decodeFrom bytes.length decoded (bytes ++ rest) = decodeFrom 0 decoded rest := by
  induction bytes with
  | nil => rfl
  | cons b bytes ih => exact ih

theorem decodeFrom_encode (c : Char) (decoded : List Char) (rest : List UInt8) :
    decodeFrom 0 decoded (String.utf8EncodeChar c ++ rest) = decodeFrom 0 (c :: decoded) rest := by
  obtain ⟨lead, tails, bytes, read⟩ := character?_encode c
  rw [bytes, List.cons_append, decodeFrom, read]
  exact decodeFrom_skip tails (c :: decoded) rest

theorem decodeFrom_chars (cs decoded : List Char) :
    decodeFrom 0 decoded (cs.flatMap String.utf8EncodeChar) = decoded.reverse ++ cs := by
  induction cs generalizing decoded with
  | nil => simp [decodeFrom]
  | cons c cs ih =>
    rw [List.flatMap_cons, decodeFrom_encode, ih]
    simp

theorem decode_toUTF8 (text : String) : decode text.toUTF8.data = text := by
  have bytes : text.toUTF8.data.toList = text.toList.flatMap String.utf8EncodeChar := by
    rw [String.toUTF8, ← String.utf8Encode_toList, List.utf8Encode, List.data_toByteArray]
  rw [decode, bytes, decodeFrom_chars]
  simp

end ZCode.Text

import Mathlib.Data.List.Chain
import ZCode.Proofs.Block.Locality

set_option autoImplicit false

namespace ZCode

namespace Image

theorem u16_inside {img : Image} {pos : UInt32} {w : UInt16} (read : img.u16 pos = .ok w) :
    (pos + 2).toNat = pos.toNat + 2 ∧ pos.toNat + 2 ≤ img.length := by
  have passed : img.wordAt pos = .ok (w, pos + 2) := by
    rw [wordAt, read]
    rfl
  obtain ⟨held, step⟩ := (wordAt_eq_ok_iff img pos (pos + 2) w).mp passed
  exact ⟨step, by simpa [wordBytes] using held.within (by simp [wordBytes])⟩

theorem passText_outside {img : Image} {pos : UInt32} (short : img.length < pos.toNat + 2)
    (fuel : Nat) : img.passText fuel pos = .error ⟨2, pos, img.length⟩ := by
  cases fuel with
  | zero => rfl
  | succ fuel =>
    rw [passText]
    cases read : img.u16 pos with
    | ok w =>
      have := (u16_inside read).2
      omega
    | error o =>
      rw [u16] at read
      split at read <;> cases read
      rfl

theorem passText_congr {img : Image} {fuel fuel' : Nat} {pos : UInt32}
    (enough : img.length < pos.toNat + 2 * fuel + 2)
    (enough' : img.length < pos.toNat + 2 * fuel' + 2) :
    img.passText fuel pos = img.passText fuel' pos := by
  induction fuel generalizing fuel' pos with
  | zero => rw [passText_outside (by omega), passText_outside (by omega)]
  | succ fuel ih =>
    cases fuel' with
    | zero => rw [passText_outside (by omega), passText_outside (by omega)]
    | succ fuel' =>
      rw [passText, passText]
      cases read : img.u16 pos with
      | error o => rfl
      | ok w =>
        have step := (u16_inside read).1
        have same : img.passText fuel (pos + 2) = img.passText fuel' (pos + 2) :=
          ih (by omega) (by omega)
        rw [same]

end Image

theorem Instruction.addr_of_decode {img : Image} {p : Profile} {addr : UInt32} {i : Instruction}
    (decoded : decode img p addr = .ok i) : i.addr = addr := by
  obtain ⟨l, -, -, rfl⟩ := (decode_eq_ok_iff img p addr i).mp decoded
  rfl

namespace Block

variable {img : Image} {p : Profile} {cap : Nat} {addr stop : UInt32} {is : List Instruction}

structure Linked (img : Image) (p : Profile) (addr : UInt32) (is : List Instruction) : Prop where
  first : ∀ i ∈ is.head?, i.addr = addr
  next : is.IsChain fun i j => j.addr = i.next
  decoded : ∀ i ∈ is, Instruction.decode img p i.addr = .ok i

def behind (addr : UInt32) (is : List Instruction) : UInt32 :=
  (is.getLast?.map Instruction.next).getD addr

theorem linked_nil : Linked img p addr [] :=
  ⟨by simp, .nil, by simp⟩

theorem linked_cons {i : Instruction} : Linked img p addr (i :: is) ↔
    Instruction.decode img p addr = .ok i ∧ Linked img p i.next is := by
  constructor
  next =>
    rintro ⟨first, next, decoded⟩
    obtain rfl : i.addr = addr := first i rfl
    obtain ⟨second, next⟩ := List.isChain_cons.mp next
    exact ⟨decoded i (by simp), second, next, fun j member => decoded j (by simp [member])⟩
  next =>
    rintro ⟨met, first, next, decoded⟩
    have here := Instruction.addr_of_decode met
    refine ⟨?_, List.isChain_cons.mpr ⟨first, next⟩, ?_⟩
    · rintro _ ⟨⟩
      exact here
    · intro j member
      rcases List.mem_cons.mp member with rfl | later
      · rw [here]
        exact met
      · exact decoded j later

theorem behind_cons (i : Instruction) : behind addr (i :: is) = behind i.next is := by
  cases is with
  | nil => rfl
  | cons j rest =>
    rw [behind, behind, List.getLast?_cons_cons, List.getLast?_cons]
    rfl

theorem passes_iff : Passes img p addr is stop ↔
    Linked img p addr is ∧ (∀ i ∈ is, i.endsBlock = false) ∧ stop = behind addr is := by
  induction is generalizing addr with
  | nil => exact ⟨fun passed => ⟨linked_nil, by simp, passed⟩, fun h => h.2.2⟩
  | cons i rest ih =>
    rw [Passes, ih, linked_cons, behind_cons, List.forall_mem_cons]
    tauto

theorem Passes.length_le_image (passed : Passes img p addr is stop) : is.length ≤ img.length := by
  obtain ⟨distance, bound⟩ := passed.advance
  cases is with
  | nil => simp
  | cons i rest =>
    have := bound (by simp)
    omega

-- Without a cap the walk ends by itself: every larger bound gives the same walk.
theorem walk_of_long_cap {limit : Nat} (long : img.length < limit) :
    walk img p limit addr = walk img p 0 addr ∧ (walk img p 0 addr).ending ≠ .tooLong := by
  rcases walk_cases img p 0 addr with
    ⟨init, stop, last, passed, met, ends, free⟩ | ⟨init, stop, fault, passed, failed, free⟩ |
      ⟨init, stop, -, some, none⟩
  next =>
    have := passed.length_le_image
    rw [walk_of_passes_of_ends passed met ends free,
      walk_of_passes_of_ends passed met ends (.inr (by omega))]
    simp
  next =>
    have := passed.length_le_image
    rw [walk_of_passes_of_fault passed failed free,
      walk_of_passes_of_fault passed failed (.inr (by omega))]
    simp
  next => exact absurd (List.length_eq_zero_iff.mp none) some

/-- The instructions of a block: they are linked, exactly the last ends the block, they stay inside
the image and under the cap. -/
structure IsBlock (img : Image) (p : Profile) (cap : Nat) (addr : UInt32) (is : List Instruction) :
    Prop where
  linked : Linked img p addr is
  some : is ≠ []
  last : ∀ k i, is[k]? = Option.some i → (i.endsBlock = true ↔ k + 1 = is.length)
  inside : ∀ i ∈ is, addr < i.next ∧ i.next.toNat ≤ img.length
  short : 0 < cap → is.length ≤ cap

theorem Linked.inside (linked : Linked img p addr is) :
    ∀ i ∈ is, addr < i.next ∧ i.next.toNat ≤ img.length := by
  induction is generalizing addr with
  | nil => simp
  | cons j rest ih =>
    obtain ⟨met, later⟩ := linked_cons.mp linked
    obtain ⟨forward, bound⟩ := Instruction.next_of_decode met
    intro i member
    rcases List.mem_cons.mp member with rfl | member
    · exact ⟨UInt32.lt_iff_toNat_lt.mpr forward, bound⟩
    · obtain ⟨beyond, bound⟩ := ih later i member
      exact ⟨UInt32.lt_trans (UInt32.lt_iff_toNat_lt.mpr forward) beyond, bound⟩

theorem linked_append {last : Instruction} : Linked img p addr (is ++ [last]) ↔
    Linked img p addr is ∧ Instruction.decode img p (behind addr is) = .ok last := by
  induction is generalizing addr with
  | nil => simp [linked_cons, linked_nil, behind]
  | cons i rest ih => rw [List.cons_append, linked_cons, ih, linked_cons, behind_cons, and_assoc]

theorem decode_eq_ok_iff_isBlock (b : Block) :
    decode img p cap addr = .ok b ↔ b.addr = addr ∧ IsBlock img p cap addr b.instructions := by
  rw [decode_eq_ok_iff]
  constructor
  next =>
    rintro ⟨init, stop, last, passed, met, ends, within, rfl⟩
    obtain ⟨linked, stays, rfl⟩ := passes_iff.mp passed
    have whole := linked_append.mpr ⟨linked, met⟩
    refine ⟨rfl, whole, by simp, ?_, whole.inside, ?_⟩
    · intro k i at_
      rw [List.length_append, List.length_singleton, Nat.add_right_cancel_iff]
      rcases Nat.lt_trichotomy k init.length with before | here | beyond
      · rw [List.getElem?_append_left before] at at_
        simp [stays i (List.mem_of_getElem? at_), Nat.ne_of_lt before]
      · subst here
        obtain rfl : last = i := by simpa using at_
        simp [ends]
      · rw [List.getElem?_eq_none (by simp; omega)] at at_
        cases at_
    · rw [List.length_append, List.length_singleton]
      omega
  next =>
    obtain ⟨at_, instructions⟩ := b
    rintro ⟨rfl, linked, some, last, -, short⟩
    obtain ⟨init, final, rfl⟩ : ∃ init final, instructions = init ++ [final] :=
      ⟨_, _, (List.dropLast_append_getLast some).symm⟩
    obtain ⟨before, met⟩ := linked_append.mp linked
    refine ⟨init, _, final, passes_iff.mpr ⟨before, ?_, rfl⟩, met, ?_, ?_, rfl⟩
    · intro i member
      obtain ⟨k, at_⟩ := List.mem_iff_getElem?.mp member
      have within := (List.getElem?_eq_some_iff.mp at_).1
      have position := last k i (by rw [List.getElem?_append_left within, at_])
      rw [← Bool.not_eq_true, position, List.length_append, List.length_singleton]
      omega
    · exact (last init.length final (by simp)).mpr (by simp)
    · rw [List.length_append, List.length_singleton] at short
      omega

inductive Outcome where
  | complete
  | outside
  | tooLong
  | overrun

/-- The outcome, told from the image and the instructions in it. -/
def ComesTo (img : Image) (p : Profile) (cap : Nat) (addr : UInt32) : Outcome → Prop
  | .complete => ∃ is, IsBlock img p cap addr is
  | .outside => img.length ≤ addr.toNat
  | .tooLong => 0 < cap ∧ ∃ is, is.length = cap ∧ Linked img p addr is ∧
      ∀ i ∈ is, i.endsBlock = false
  | .overrun => addr.toNat < img.length ∧ ∃ is, (0 < cap → is.length < cap) ∧ Linked img p addr is ∧
      (∀ i ∈ is, i.endsBlock = false) ∧ ∃ fault, Instruction.decode img p (behind addr is) =
        .error fault ∧ fault.condition? = some .imageOverrun

def Outcome.condition? : Outcome → Option Condition
  | complete => none
  | outside => some .addressOutOfRange
  | tooLong => some .blockTooLong
  | overrun => some .imageOverrun

def Outcome.Answers (o : Outcome) : Except Fault Block → Prop
  | .ok _ => o = complete
  | .error fault => o ≠ complete ∧ fault.condition? = o.condition?

theorem Outcome.Answers.unique {o o' : Outcome} {answer : Except Fault Block}
    (h : o.Answers answer) (h' : o'.Answers answer) : o = o' := by
  cases answer with
  | ok b => exact h.trans h'.symm
  | error fault =>
    have same := h.2.symm.trans h'.2
    cases o <;> cases o' <;> simp_all [condition?, Answers]

theorem decode_of_inside (inside : addr.toNat < img.length) : decode img p cap addr =
    match (walk img p cap addr).ending with
    | .complete => .ok ⟨addr, (walk img p cap addr).instructions⟩
    | .tooLong => .error (.blockTooLong addr (walk img p cap addr).instructions.length)
    | .broken fault => .error fault := by
  unfold decode
  exact if_neg (by omega)

theorem ComesTo.answers {o : Outcome} (h : ComesTo img p cap addr o) :
    o.Answers (decode img p cap addr) := by
  cases o with
  | complete =>
    obtain ⟨is, block⟩ := h
    rw [(decode_eq_ok_iff_isBlock ⟨addr, is⟩).mpr ⟨rfl, block⟩]
    rfl
  | outside =>
    have outside : img.length ≤ addr.toNat := h
    rw [decode, if_pos outside]
    exact ⟨by simp, rfl⟩
  | tooLong =>
    obtain ⟨limited, is, rfl, linked, stays⟩ := h
    have some : is ≠ [] := List.length_pos_iff.mp limited
    obtain ⟨i, rest, rfl⟩ := List.exists_cons_of_ne_nil some
    have inside := Instruction.next_of_decode (linked_cons.mp linked).1
    rw [decode_of_inside (by omega),
      walk_of_passes_of_cap (passes_iff.mpr ⟨linked, stays, rfl⟩) some]
    exact ⟨by simp, rfl⟩
  | overrun =>
    obtain ⟨inside, is, short, linked, stays, fault, failed, condition⟩ := h
    rw [decode_of_inside inside,
      walk_of_passes_of_fault (passes_iff.mpr ⟨linked, stays, rfl⟩) failed (by omega)]
    exact ⟨by simp, condition⟩

theorem exists_comesTo (img : Image) (p : Profile) (cap : Nat) (addr : UInt32) :
    ∃ o, ComesTo img p cap addr o := by
  by_cases outside : img.length ≤ addr.toNat
  next => exact ⟨.outside, outside⟩
  rcases walk_cases img p cap addr with
    ⟨init, stop, last, passed, met, ends, within⟩ | ⟨init, stop, fault, passed, failed, within⟩ |
      ⟨init, stop, passed, some, rfl⟩
  next =>
    have decoded := (decode_eq_ok_iff cap _).mpr ⟨init, stop, last, passed, met, ends, within, rfl⟩
    exact ⟨.complete, _, ((decode_eq_ok_iff_isBlock _).mp decoded).2⟩
  next =>
    have condition := Instruction.condition_of_decode_error failed
    obtain ⟨linked, stays, rfl⟩ := passes_iff.mp passed
    exact ⟨.overrun, by omega, init, by omega, linked, stays, fault, failed, condition⟩
  next =>
    obtain ⟨linked, stays, -⟩ := passes_iff.mp passed
    exact ⟨.tooLong, List.length_pos_iff.mpr some, init, rfl, linked, stays⟩

theorem existsUnique_comesTo (img : Image) (p : Profile) (cap : Nat) (addr : UInt32) :
    ∃! o, ComesTo img p cap addr o := by
  obtain ⟨o, comes⟩ := exists_comesTo img p cap addr
  exact ⟨o, comes, fun o' comes' => comes'.answers.unique comes.answers⟩

theorem fails_iff_comesTo {o : Outcome} (failure : o ≠ .complete) :
    (∃ fault, decode img p cap addr = .error fault ∧ fault.condition? = o.condition?) ↔
      ComesTo img p cap addr o := by
  constructor
  next =>
    rintro ⟨fault, failed, condition⟩
    obtain ⟨o', comes⟩ := exists_comesTo img p cap addr
    have answers : o.Answers (decode img p cap addr) := by
      rw [failed]
      exact ⟨failure, condition⟩
    rwa [answers.unique comes.answers]
  next =>
    intro comes
    have answers := comes.answers
    cases answer : decode img p cap addr with
    | ok b => rw [answer] at answers; exact absurd answers failure
    | error fault => rw [answer] at answers; exact ⟨fault, rfl, answers.2⟩

/-- Decoding a block is sound and complete, fails for exactly one of three reasons, and always ends:
without a cap, no larger bound on the instructions or on the words of a text changes the answer. -/
theorem decode_sound_complete_ends (img : Image) (p : Profile) (cap : Nat) (addr : UInt32) :
    (∀ b, decode img p cap addr = .ok b ↔ b.addr = addr ∧ IsBlock img p cap addr b.instructions) ∧
    ((∃ fault, decode img p cap addr = .error fault ∧ fault.condition? = some .addressOutOfRange) ↔
      ComesTo img p cap addr .outside) ∧
    ((∃ fault, decode img p cap addr = .error fault ∧ fault.condition? = some .blockTooLong) ↔
      ComesTo img p cap addr .tooLong) ∧
    ((∃ fault, decode img p cap addr = .error fault ∧ fault.condition? = some .imageOverrun) ↔
      ComesTo img p cap addr .overrun) ∧
    (∃! o, ComesTo img p cap addr o) ∧
    (walk img p 0 addr).ending ≠ .tooLong ∧
    (∀ more, walk img p (img.length + 1 + more) addr = walk img p 0 addr) ∧
    ∀ more pos, img.passText (img.length + more) pos = img.passText img.length pos := by
  refine ⟨decode_eq_ok_iff_isBlock, fails_iff_comesTo (o := .outside) (by simp),
    fails_iff_comesTo (o := .tooLong) (by simp), fails_iff_comesTo (o := .overrun) (by simp),
    existsUnique_comesTo img p cap addr, (walk_of_long_cap (Nat.lt_succ_self _)).2,
    fun more => (walk_of_long_cap (by omega)).1, ?_⟩
  exact fun more pos => Image.passText_congr (by omega) (by omega)

end Block

end ZCode

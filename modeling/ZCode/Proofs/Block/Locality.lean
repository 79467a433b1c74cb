import ZCode.Proofs.Block.Walk

set_option autoImplicit false

namespace ZCode

namespace Image

def AgreeOn (img other : Image) (low high : Nat) : Prop :=
  ∀ k, low ≤ k → k < high → other.bytes[k]? = img.bytes[k]?

def truncate (img : Image) (count : Nat) : Image :=
  ⟨img.bytes.extract 0 count, by
    have := img.size_lt
    rw [Array.size_extract]
    omega⟩

theorem AgreeOn.mono {img other : Image} {low high low' high' : Nat}
    (agree : img.AgreeOn other low high) (above : low ≤ low') (below : high' ≤ high) :
    img.AgreeOn other low' high' := by
  intro k lower upper
  exact agree k (Nat.le_trans above lower) (Nat.lt_of_lt_of_le upper below)

theorem AgreeOn.symm {img other : Image} {low high : Nat} (agree : img.AgreeOn other low high) :
    other.AgreeOn img low high := by
  intro k lower upper
  exact (agree k lower upper).symm

theorem truncate_agreeOn (img : Image) (low count : Nat) :
    img.AgreeOn (img.truncate count) low count := by
  intro k _ upper
  simp only [truncate, Array.getElem?_extract, Nat.zero_add, Nat.sub_zero]
  split
  · rfl
  · exact (Array.getElem?_eq_none (by omega)).symm

theorem length_truncate {img : Image} {count : Nat} (inside : count ≤ img.length) :
    (img.truncate count).length = count := by
  simp only [length, truncate, Array.size_extract] at inside ⊢
  omega

end Image

variable {img other : Image} {p : Profile} {addr : UInt32}

namespace Instruction

theorem decode_congr {i : Instruction} (decoded : decode img p addr = .ok i)
    (agree : img.AgreeOn other addr.toNat i.next.toNat) : decode other p addr = .ok i := by
  obtain ⟨l, fits, held, rfl⟩ := (decode_eq_ok_iff img p addr i).mp decoded
  have next : (l.instruction p addr).next.toNat = addr.toNat + l.bytes.length := toNat_behind held
  rw [next] at agree
  exact (decode_eq_ok_iff other p addr _).mpr ⟨l, fits, held.congr agree, rfl⟩

theorem decode_of_shorter {i : Instruction} (decoded : decode other p addr = .ok i)
    (agree : img.AgreeOn other addr.toNat other.length) : decode img p addr = .ok i :=
  decode_congr decoded (agree.symm.mono (Nat.le_refl _) (next_of_decode decoded).2)

end Instruction

namespace Block

variable {stop : UInt32} {init : List Instruction}

theorem Passes.congr (passed : Passes img p addr init stop)
    (agree : img.AgreeOn other addr.toNat stop.toNat) : Passes other p addr init stop := by
  induction init generalizing addr with
  | nil => exact passed
  | cons i rest ih =>
    obtain ⟨decoded, open_, later⟩ := passed
    have forward := (Instruction.next_of_decode decoded).1
    have distance := later.advance.1
    refine ⟨Instruction.decode_congr decoded (agree.mono (Nat.le_refl _) (by omega)), open_, ?_⟩
    exact ih later (agree.mono (by omega) (Nat.le_refl _))

theorem Passes.of_shorter (passed : Passes other p addr init stop)
    (agree : img.AgreeOn other addr.toNat other.length) : Passes img p addr init stop := by
  by_cases none : init = []
  next =>
    subst none
    exact passed
  next => exact passed.congr (agree.symm.mono (Nat.le_refl _) (passed.advance.2 none))

theorem Passes.unique {stop' : UInt32} {init' : List Instruction}
    (passed : Passes img p addr init stop) (passed' : Passes img p addr init' stop')
    (shorter : init.length ≤ init'.length) :
    ∃ rest, init' = init ++ rest ∧ Passes img p stop rest stop' := by
  induction init generalizing addr init' with
  | nil =>
    cases passed
    exact ⟨init', rfl, passed'⟩
  | cons i tail ih =>
    cases init' with
    | nil => simp at shorter
    | cons i' tail' =>
      obtain ⟨decoded, -, later⟩ := passed
      obtain ⟨decoded', open_', later'⟩ := passed'
      obtain rfl : i = i' := Except.ok.inj (decoded.symm.trans decoded')
      obtain ⟨rest, rfl, onward⟩ := ih later later' (by simpa using shorter)
      exact ⟨rest, rfl, onward⟩

theorem Passes.length_le {stop' : UInt32} {init' : List Instruction} {last : Instruction}
    (passed : Passes img p addr init stop) (met : Instruction.decode img p stop = .ok last)
    (ends : last.endsBlock = true) (passed' : Passes img p addr init' stop') :
    init'.length ≤ init.length := by
  by_contra longer
  obtain ⟨rest, rfl, onward⟩ := passed.unique passed' (by omega)
  cases rest with
  | nil => simp at longer
  | cons i rest =>
    obtain ⟨decoded, open_, -⟩ := onward
    obtain rfl : last = i := Except.ok.inj (met.symm.trans decoded)
    simp [ends] at open_

theorem decode_congr {cap : Nat} {b : Block} {last : Instruction}
    (decoded : decode img p cap addr = .ok b) (final : b.last? = some last)
    (agree : img.AgreeOn other addr.toNat last.next.toNat) : decode other p cap addr = .ok b := by
  obtain ⟨init, stop, ending, passed, met, ends, within, rfl⟩ := (decode_eq_ok_iff cap b).mp decoded
  obtain rfl : ending = last := by simpa [last?] using final
  have forward := (Instruction.next_of_decode met).1
  have distance := passed.advance.1
  refine (decode_eq_ok_iff cap _).mpr ⟨init, stop, ending, ?_, ?_, ends, within, rfl⟩
  · exact passed.congr (agree.mono (Nat.le_refl _) (by omega))
  · exact Instruction.decode_congr met (agree.mono (by omega) (Nat.le_refl _))

theorem decode_of_cut {cap : Nat} {b : Block} {last : Instruction}
    (decoded : decode img p cap addr = .ok b) (final : b.last? = some last)
    (agree : img.AgreeOn other addr.toNat other.length) (start : addr.toNat < other.length)
    (cut : other.length < last.next.toNat) :
    ∃ fault, decode other p cap addr = .error fault ∧ fault.condition? = some .imageOverrun := by
  obtain ⟨init, stop, ending, passed, met, ends, within, rfl⟩ := (decode_eq_ok_iff cap b).mp decoded
  obtain rfl : ending = last := by simpa [last?] using final
  have inside : ¬ other.length ≤ addr.toNat := by omega
  rcases walk_cases other p cap addr with
    ⟨init', stop', last', passed', met', ends', within'⟩ |
      ⟨init', stop', fault, passed', failed, within'⟩ | ⟨init', stop', passed', some', rfl⟩
  next =>
    -- a block found in the shorter image is the same one, but ends too early to be
    exfalso
    have passing := passed'.of_shorter agree
    have meeting : Instruction.decode img p stop' = .ok last' := by
      refine Instruction.decode_of_shorter met' (agree.mono ?_ (Nat.le_refl _))
      have := passed'.advance.1
      omega
    have longer := passed.length_le met ends passing
    have shorter := passing.length_le meeting ends' passed
    obtain ⟨rest, rfl, onward⟩ := passed.unique passing shorter
    obtain rfl : rest = [] := List.length_eq_zero_iff.mp (by rw [List.length_append] at longer; omega)
    cases onward
    obtain rfl : ending = last' := Except.ok.inj (met.symm.trans meeting)
    have := (Instruction.next_of_decode met').2
    omega
  next =>
    refine ⟨fault, ?_, Instruction.condition_of_decode_error failed⟩
    rw [decode, if_neg inside, walk_of_passes_of_fault passed' failed within']
  next =>
    -- the cap lets the whole block pass, so no walk can meet it before the end
    exfalso
    have short := passed.length_le met ends (passed'.of_shorter agree)
    have positive := List.length_pos_iff.mpr some'
    omega

end Block

/-- Decoding is local and prefix-free, for instructions and for blocks with their fragments. -/
theorem decoding_local_prefixFree (img : Image) (p : Profile) (cap : Nat) (addr : UInt32) :
    (∀ i, Instruction.decode img p addr = .ok i →
      (∀ other, img.AgreeOn other addr.toNat i.next.toNat →
        Instruction.decode other p addr = .ok i) ∧
      ∀ k, addr.toNat < k → k < i.next.toNat →
        ∃ fault, Instruction.decode (img.truncate k) p addr = .error fault ∧
          fault.condition? = some .imageOverrun) ∧
    (∀ b, Block.decode img p cap addr = .ok b →
      ∃ last, b.last? = some last ∧
        (∀ other, img.AgreeOn other addr.toNat last.next.toNat →
          Block.decode other p cap addr = .ok b ∧
          Fragment.generate other p cap addr = Fragment.generate img p cap addr) ∧
        ∀ k, addr.toNat < k → k < last.next.toNat →
          ∃ fault, Block.decode (img.truncate k) p cap addr = .error fault ∧
            Fragment.generate (img.truncate k) p cap addr = .error fault ∧
            fault.condition? = some .imageOverrun) := by
  constructor
  next =>
    intro i decoded
    refine ⟨fun other agree => Instruction.decode_congr decoded agree, ?_⟩
    intro k start cut
    have size := Image.length_truncate (Nat.le_trans (Nat.le_of_lt cut)
      (Instruction.next_of_decode decoded).2)
    cases result : Instruction.decode (img.truncate k) p addr with
    | error fault => exact ⟨fault, rfl, Instruction.condition_of_decode_error result⟩
    | ok j =>
      have whole := Instruction.decode_of_shorter result (img.truncate_agreeOn _ _ |>.mono
        (Nat.le_refl _) (Nat.le_of_eq size))
      obtain rfl : i = j := Except.ok.inj (decoded.symm.trans whole)
      have := (Instruction.next_of_decode result).2
      omega
  next =>
    intro b decoded
    obtain ⟨init, stop, last, passed, met, ends, within, rfl⟩ :=
      (Block.decode_eq_ok_iff cap b).mp decoded
    have final : Block.last? ⟨addr, init ++ [last]⟩ = some last := by simp [Block.last?]
    refine ⟨last, final, ?_, ?_⟩
    · intro other agree
      have same := Block.decode_congr decoded final agree
      exact ⟨same, by rw [Fragment.generate, Fragment.generate, same, decoded]⟩
    · intro k start cut
      have size := Image.length_truncate (Nat.le_trans (Nat.le_of_lt cut)
        (Instruction.next_of_decode met).2)
      have agree := (img.truncate_agreeOn addr.toNat k).mono (Nat.le_refl _) (Nat.le_of_eq size)
      obtain ⟨fault, failed, overrun⟩ := Block.decode_of_cut decoded final agree
        (by omega) (by omega)
      exact ⟨fault, failed, by rw [Fragment.generate, failed]; rfl, overrun⟩

-- An addition and a return, with other bytes on both sides in the second image; the cut falls
-- between the two instructions.
theorem decoding_local_prefixFree_add :
    let img : Image := ⟨#[0, 0x14, 2, 3, 0, 0xB0], by decide⟩
    let other : Image := ⟨#[7, 0x14, 2, 3, 0, 0xB0, 9, 9], by decide⟩
    (∃ b, b.instructions.length = 2 ∧ Block.decode other ⟨3, 64⟩ 0 1 = .ok b) ∧
      ∃ fault, Block.decode (img.truncate 5) ⟨3, 64⟩ 0 1 = .error fault ∧
        fault.condition? = some .imageOverrun := by
  intro img other
  have shape : (Block.decode img ⟨3, 64⟩ 0 1).toOption.map
      (fun b => (b.instructions.length, b.last?.map (·.next))) = some (2, some 6) := by
    decide +kernel
  obtain ⟨b, found, count⟩ := Option.map_eq_some_iff.mp shape
  have decoded : Block.decode img ⟨3, 64⟩ 0 1 = .ok b := by
    cases result : Block.decode img ⟨3, 64⟩ 0 1 with
    | error fault => simp [result, Except.toOption] at found
    | ok b' => simpa [result, Except.toOption] using found
  simp only [Prod.mk.injEq] at count
  obtain ⟨last, final, same, cut⟩ := (decoding_local_prefixFree img ⟨3, 64⟩ 0 1).2 b decoded
  have ending : last.next = 6 := by simpa [final] using count.2
  have agree : img.AgreeOn other 1 6 := by
    intro k lower upper
    obtain rfl | rfl | rfl | rfl | rfl : k = 1 ∨ k = 2 ∨ k = 3 ∨ k = 4 ∨ k = 5 := by omega
    all_goals rfl
  obtain ⟨fault, failed, -, overrun⟩ := cut 5 (by decide) (by rw [ending]; decide)
  exact ⟨⟨b, count.1, (same other (by rw [ending]; exact agree)).1⟩, fault, failed, overrun⟩

end ZCode

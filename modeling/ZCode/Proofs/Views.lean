import Mathlib.Algebra.GroupWithZero.Nat
import ZCode.Proofs.Instruction.Layout
import ZCode.Proofs.Word

set_option autoImplicit false

namespace ZCode

namespace Image

-- The number that bytes spell out, the highest first.
def number (img : Image) (pos count : Nat) : Nat :=
  (img.slice pos count).foldl (fun high b => 256 * high + b.toNat) 0

theorem number_one {img : Image} {pos : Nat} {b : UInt8} (held : img.bytes[pos]? = some b) :
    img.number pos 1 = b.toNat := by
  have one : img.slice pos 1 = [b] := by
    apply List.ext_getElem?
    intro k
    cases k with
    | zero => simp [slice, held]
    | succ k =>
      simp only [slice, Array.getElem?_toList, List.getElem?_cons_succ, List.getElem?_nil]
      apply Array.getElem?_eq_none
      rw [Array.size_extract]
      omega
  rw [number, one]
  simp

theorem number_two {img : Image} {pos : Nat} {high low : UInt8}
    (first : img.bytes[pos]? = some high) (second : img.bytes[pos + 1]? = some low) :
    img.number pos 2 = (word high low).toNat := by
  have two : img.slice pos 2 = [high, low] := by
    apply List.ext_getElem?
    intro k
    match k with
    | 0 => simp [slice, first]
    | 1 => simp [slice, second]
    | k + 2 =>
      simp only [slice, Array.getElem?_toList, List.getElem?_cons_succ, List.getElem?_nil]
      apply Array.getElem?_eq_none
      rw [Array.size_extract]
      omega
  rw [number, two, toNat_word]
  simp

end Image

namespace Views

-- How many bytes a step reads.
def Step.size? : Step → Option Nat
  | .u8 => some 1
  | .u16 | .i16 => some 2
  | .seek _ | .view | .write _ _ | .len => none

-- What a read gives where it fits.
def Step.value (img : Image) (pos : Nat) : Step → Int
  | .u8 => img.number pos 1
  | .i16 =>
    let word := img.number pos 2
    if word < 32768 then (word : Int) else (word : Int) - 65536
  | _ => img.number pos 2

def after (v : Views) (steps : List (Nat × Step)) : Views :=
  steps.foldl (fun v s => (v.step s.1 s.2).1) v

/-- Every step is issued on a view that has been made by then. -/
def Legal : Nat → List (Nat × Step) → Prop
  | _, [] => True
  | made, (i, s) :: rest => i < made ∧ Legal (if s = .view then made + 1 else made) rest

def issuedOn (j : Nat) (steps : List (Nat × Step)) : List Step :=
  (steps.filter (·.1 == j)).map Prod.snd

/-- Where a view was last set to, and the sizes of the reads since. A new view stands at zero. -/
def stretch (own : List Step) : UInt32 × List Nat :=
  own.foldl (fun (start, sizes) s =>
    match s with
    | .seek pos => (pos, [])
    | s => (start, sizes ++ s.size?.toList)) (0, [])

/-- Reads of these sizes, one behind the other, stay inside an image of this length. -/
def Fits (length : Nat) : Nat → List Nat → Prop
  | _, [] => True
  | pos, n :: rest => pos + n ≤ length ∧ Fits length (pos + n) rest

instance instDecidableLegal :
    (made : Nat) → (steps : List (Nat × Step)) → Decidable (Legal made steps)
  | _, [] => .isTrue trivial
  | made, (i, s) :: rest =>
    have := instDecidableLegal (if s = .view then made + 1 else made) rest
    inferInstanceAs (Decidable (i < made ∧ Legal (if s = .view then made + 1 else made) rest))

instance instDecidableFits (length : Nat) :
    (pos : Nat) → (sizes : List Nat) → Decidable (Fits length pos sizes)
  | _, [] => .isTrue trivial
  | pos, n :: rest =>
    have := instDecidableFits length (pos + n) rest
    inferInstanceAs (Decidable (pos + n ≤ length ∧ Fits length (pos + n) rest))

-- The image after the writes of a sequence, whoever made them.
def written (img : Image) (steps : List (Nat × Step)) : Image :=
  steps.foldl (fun img s =>
    match s.2 with
    | .write addr data => img.write addr.toNat data
    | _ => img) img

variable {length start pos n i j : Nat} {sizes : List Nat} {c : Cursor} {v : Views} {s : Step}

theorem fits_append {fit later : List Nat} :
    Fits length start (fit ++ later) ↔
      Fits length start fit ∧ Fits length (start + fit.sum) later := by
  induction fit generalizing start with
  | nil => simp [Fits]
  | cons n fit ih => simp [Fits, ih, and_assoc, Nat.add_assoc]

-- Either all reads fit, or there is a first one that does not.
theorem fits_or_first (length start : Nat) (sizes : List Nat) : Fits length start sizes ∨
    ∃ fit n later, sizes = fit ++ n :: later ∧ Fits length start fit ∧
      length < start + fit.sum + n := by
  induction sizes generalizing start with
  | nil => exact .inl trivial
  | cons n rest ih =>
    by_cases here : start + n ≤ length
    · rcases ih (start + n) with all | ⟨fit, m, later, split, before, beyond⟩
      · exact .inl ⟨here, all⟩
      · refine .inr ⟨n :: fit, m, later, by rw [split]; rfl, ⟨here, before⟩, ?_⟩
        simp only [List.sum_cons]
        omega
    · exact .inr ⟨[], n, rest, rfl, trivial, by simpa using here⟩

-- The views with one cursor changed.
def put (v : Views) (i : Nat) (c : Cursor) : Views :=
  { v with cursors := v.cursors.setIfInBounds i c }

theorem step_of_overrun {pos : UInt32} {o : Overrun} (at_ : v.cursors[i]? = some ⟨pos, some o⟩)
    (reads : s.size? = some n) : v.step i s = (v.put i ⟨pos, some o⟩, some 0) := by
  cases s with
  | u8 | u16 | i16 => simp [step, put, Cursor.u8, Cursor.u16, Cursor.i16, Cursor.advance, at_]
  | seek | view | write | len => cases reads

theorem step_of_room {pos : UInt32} (at_ : v.cursors[i]? = some ⟨pos, none⟩)
    (reads : s.size? = some n) (room : pos.toNat + n ≤ v.image.length) :
    v.step i s = (v.put i ⟨pos + UInt32.ofNat n, none⟩, some (s.value v.image pos.toNat)) := by
  have held (k : Nat) (inside : k < n) : ∃ b, v.image.bytes[pos.toNat + k]? = some b := by
    refine ⟨_, Array.getElem?_eq_getElem ?_⟩
    rw [Image.length] at room
    omega
  cases s with
  | u8 =>
    cases reads
    obtain ⟨b, first⟩ := held 0 (by omega)
    rw [Nat.add_zero] at first
    have read : Cursor.u8 ⟨pos, none⟩ v.image = (b, ⟨pos + 1, none⟩) := by
      rw [Cursor.u8, Image.u8, first]
      rfl
    simp only [step, Array.getD_eq_getD_getElem?, at_, Option.getD_some, read, Step.value,
      Image.number_one first]
    rfl
  | u16 | i16 =>
    cases reads
    obtain ⟨high, first⟩ := held 0 (by omega)
    obtain ⟨low, second⟩ := held 1 (by omega)
    rw [Nat.add_zero] at first
    simp [step, put, Cursor.u16, Cursor.i16, Cursor.advance, Image.u16, at_, first, second,
      Step.value, Image.number_two first second, Word.toInt_toInt16]
  | seek | view | write | len => cases reads

theorem step_of_no_room {pos : UInt32} (at_ : v.cursors[i]? = some ⟨pos, none⟩)
    (reads : s.size? = some n) (short : v.image.length < pos.toNat + n) :
    v.step i s = (v.put i ⟨pos, some ⟨n, pos, v.image.length⟩⟩, some 0) := by
  rw [Image.length] at short
  cases s with
  | u8 =>
    cases reads
    have none : v.image.bytes[pos.toNat]? = none := Array.getElem?_eq_none (by omega)
    simp [step, put, Cursor.u8, Cursor.advance, Image.u8, at_, none]
  | u16 | i16 =>
    cases reads
    -- the second byte is missing, whether or not the first one is there
    have none : v.image.bytes[pos.toNat + 1]? = none := Array.getElem?_eq_none (by omega)
    cases first : v.image.bytes[pos.toNat]? <;>
      simp [step, put, Cursor.u16, Cursor.i16, Cursor.advance, Image.u16, at_, first, none]
  | seek | view | write | len => cases reads

-- The reads since a view was set have left its cursor here.
inductive Stands (length start : Nat) : List Nat → Cursor → Prop
  | clear {sizes : List Nat} {pos : UInt32} (fits : Fits length start sizes)
    (reached : pos.toNat = start + sizes.sum) : Stands length start sizes ⟨pos, none⟩
  | overran {fit : List Nat} {n : Nat} (later : List Nat) {pos : UInt32}
    (fits : Fits length start fit) (beyond : length < start + fit.sum + n)
    (reached : pos.toNat = start + fit.sum) :
    Stands length start (fit ++ n :: later) ⟨pos, some ⟨n, pos, length⟩⟩

theorem Stands.fresh (length : Nat) (pos : UInt32) : Stands length pos.toNat [] ⟨pos, none⟩ :=
  .clear trivial rfl

theorem not_fits_of_first {fit later : List Nat} (beyond : length < start + fit.sum + n) :
    ¬ Fits length start (fit ++ n :: later) := by
  rw [fits_append, Fits]
  omega

theorem Stands.of_fits (stands : Stands length start sizes c) (fits : Fits length start sizes) :
    c.pos.toNat = start + sizes.sum ∧ c.overrun = none := by
  cases stands with
  | clear _ reached => exact ⟨reached, rfl⟩
  | overran later _ beyond => exact absurd fits (not_fits_of_first beyond)

theorem Stands.of_first {fit later : List Nat} (stands : Stands length start (fit ++ n :: later) c)
    (fits : Fits length start fit) (beyond : length < start + fit.sum + n) :
    c.pos.toNat = start + fit.sum ∧ c.overrun = some ⟨n, c.pos, length⟩ := by
  generalize split : fit ++ n :: later = sizes at stands
  cases stands with
  | clear all =>
    rw [← split] at all
    exact absurd all (not_fits_of_first beyond)
  | @overran fit' n' later' pos fits' beyond' reached =>
    -- two reads cannot both be the first that does not fit
    rcases List.append_eq_append_iff.mp split with ⟨more, longer, rest⟩ | ⟨more, longer, rest⟩
    · cases more with
      | nil =>
        obtain ⟨rfl, -⟩ := List.cons.inj rest
        rw [List.append_nil] at longer
        subst longer
        exact ⟨reached, rfl⟩
      | cons m more =>
        obtain ⟨rfl, -⟩ := List.cons.inj rest
        rw [longer] at fits'
        exact absurd fits' (not_fits_of_first beyond)
    · cases more with
      | nil =>
        obtain ⟨rfl, -⟩ := List.cons.inj rest
        rw [List.append_nil] at longer
        subst longer
        exact ⟨reached, rfl⟩
      | cons m more =>
        obtain ⟨rfl, -⟩ := List.cons.inj rest
        rw [longer] at fits
        exact absurd fits (not_fits_of_first beyond')

theorem Stands.unique {c' : Cursor} (stands : Stands length start sizes c)
    (stands' : Stands length start sizes c') : c = c' := by
  have same : c.pos.toNat = c'.pos.toNat ∧ (c.pos = c'.pos → c.overrun = c'.overrun) := by
    rcases fits_or_first length start sizes with fits | ⟨fit, n, later, rfl, fits, beyond⟩
    · have left := stands.of_fits fits
      have right := stands'.of_fits fits
      exact ⟨left.1.trans right.1.symm, fun _ => left.2.trans right.2.symm⟩
    · have left := stands.of_first fits beyond
      have right := stands'.of_first fits beyond
      refine ⟨left.1.trans right.1.symm, fun pos => ?_⟩
      rw [left.2, right.2, pos]
  have pos := UInt32.toNat_inj.mp same.1
  have overrun := same.2 pos
  cases c
  cases c'
  cases pos
  cases overrun
  rfl

theorem Stands.read (stands : Stands v.image.length start sizes c) (at_ : v.cursors[i]? = some c)
    (reads : s.size? = some n) :
    ∃ c', (v.step i s).1 = v.put i c' ∧ Stands v.image.length start (sizes ++ [n]) c' := by
  cases stands with
  | overran later fits beyond reached =>
    refine ⟨_, by rw [step_of_overrun at_ reads], ?_⟩
    rw [List.append_assoc, List.cons_append]
    exact .overran _ fits beyond reached
  | @clear _ pos fits reached =>
    by_cases room : pos.toNat + n ≤ v.image.length
    · refine ⟨_, by rw [step_of_room at_ reads room], .clear ?_ ?_⟩
      · rw [fits_append, ← reached]
        exact ⟨fits, room, trivial⟩
      · -- the image is shorter than 2^32, so the position does not wrap around
        have bound : v.image.length < 4294967296 := v.image.size_lt
        rw [UInt32.toNat_add, UInt32.toNat_ofNat', List.sum_append, List.sum_singleton]
        omega
    · refine ⟨_, by rw [step_of_no_room at_ reads (by omega)], .overran [] fits ?_ reached⟩
      omega

theorem issuedOn_append (j : Nat) (steps more : List (Nat × Step)) :
    issuedOn j (steps ++ more) = issuedOn j steps ++ issuedOn j more := by
  simp [issuedOn]

theorem issuedOn_self (j : Nat) (s : Step) : issuedOn j [(j, s)] = [s] := by
  simp [issuedOn]

theorem issuedOn_other (apart : i ≠ j) (s : Step) : issuedOn j [(i, s)] = [] := by
  simp [issuedOn, apart]

theorem issuedOn_absent {steps : List (Nat × Step)} (absent : ∀ s ∈ steps, s.1 < j) :
    issuedOn j steps = [] := by
  have none : steps.filter (·.1 == j) = [] := by
    apply List.filter_eq_nil_iff.mpr
    intro s member
    have below := absent s member
    simp only [beq_iff_eq]
    omega
  rw [issuedOn, none, List.map_nil]

theorem length_written (img : Image) (steps : List (Nat × Step)) :
    (written img steps).length = img.length := by
  induction steps generalizing img with
  | nil => rfl
  | cons s rest ih =>
    rw [written, List.foldl_cons]
    apply (ih _).trans
    split
    · exact img.length_write _ _
    · rfl

structure Follows (img : Image) (steps : List (Nat × Step)) (v : Views) : Prop where
  image : v.image = written img steps
  issued : ∀ s ∈ steps, s.1 < v.cursors.size
  stands : ∀ j c, v.cursors[j]? = some c →
    Stands img.length (stretch (issuedOn j steps)).1.toNat (stretch (issuedOn j steps)).2 c

theorem follows_start (img : Image) : Follows img [] { image := img } where
  image := rfl
  issued := by simp
  stands := by
    intro j c at_
    cases j with
    | zero =>
      cases at_
      exact Stands.fresh img.length 0
    | succ j => simp at at_

theorem stretch_append (own : List Step) (s : Step) : stretch (own ++ [s]) =
    match s with
    | .seek pos => (pos, [])
    | s => ((stretch own).1, (stretch own).2 ++ s.size?.toList) := by
  rw [stretch, List.foldl_append]
  rfl

theorem stretch_read {own : List Step} (reads : s.size? = some n) :
    stretch (own ++ [s]) = ((stretch own).1, (stretch own).2 ++ [n]) := by
  rw [stretch_append]
  cases s with
  | u8 | u16 | i16 =>
    cases reads
    rfl
  | seek | view | write | len => cases reads

variable {img : Image} {steps : List (Nat × Step)}

theorem image_step (v : Views) (i : Nat) (s : Step) :
    (v.step i s).1.image = written v.image [(i, s)] := by
  cases s <;> rfl

theorem size_step (v : Views) (i : Nat) (s : Step) :
    (v.step i s).1.cursors.size = if s = .view then v.cursors.size + 1 else v.cursors.size := by
  cases s <;> simp [step]

-- Other views are not touched, and a new one stands at zero.
theorem cursor_step_of_ne (v : Views) (apart : i ≠ j) (s : Step)
    (at_ : (v.step i s).1.cursors[j]? = some c) :
    v.cursors[j]? = some c ∨ j = v.cursors.size ∧ c = {} := by
  cases s with
  | view =>
    rw [step, Array.getElem?_push] at at_
    split at at_
    next last =>
      cases at_
      exact .inr ⟨last, rfl⟩
    next => exact .inl at_
  | write | len => exact .inl at_
  | u8 | u16 | i16 | seek => exact .inl (by simpa [step, apart] using at_)

theorem cursor_step_self {own : List Step}
    (stands : Stands v.image.length (stretch own).1.toNat (stretch own).2 c)
    (at_ : v.cursors[i]? = some c) (s : Step) : ∃ c', (v.step i s).1.cursors[i]? = some c' ∧
      Stands v.image.length (stretch (own ++ [s])).1.toNat (stretch (own ++ [s])).2 c' := by
  obtain ⟨inside, here⟩ := Array.getElem?_eq_some_iff.mp at_
  cases reads : s.size? with
  | some n =>
    obtain ⟨c', moved, stands'⟩ := stands.read at_ reads
    refine ⟨c', ?_, ?_⟩
    · rw [moved, put, Array.getElem?_setIfInBounds_self_of_lt inside]
    · rw [stretch_read reads]
      exact stands'
  | none =>
    rw [stretch_append]
    cases s with
    | seek pos =>
      refine ⟨⟨pos, none⟩, ?_, .fresh _ pos⟩
      simp [step, Cursor.seek, inside]
    | view =>
      refine ⟨c, ?_, ?_⟩
      · rw [step, Array.getElem?_push, if_neg (by omega), at_]
      · simpa [Step.size?] using stands
    | write | len =>
      refine ⟨c, at_, ?_⟩
      simpa [Step.size?] using stands
    | u8 | u16 | i16 => cases reads

theorem Follows.step (follows : Follows img steps v) (within : i < v.cursors.size) (s : Step) :
    Follows img (steps ++ [(i, s)]) (v.step i s).1 where
  image := by
    rw [image_step, follows.image, written, written, written, List.foldl_append]
  issued := by
    intro t member
    have grown := size_step v i s
    rcases List.mem_append.mp member with before | now
    · have old := follows.issued t before
      split at grown <;> omega
    · rw [List.mem_singleton.mp now]
      split at grown <;> omega
  stands := by
    intro j c at_
    have length : v.image.length = img.length := by rw [follows.image, length_written]
    rw [issuedOn_append]
    by_cases apart : i = j
    · subst apart
      obtain ⟨c', moved, stands⟩ :=
        cursor_step_self (length ▸ follows.stands i _ (Array.getElem?_eq_getElem within))
          (Array.getElem?_eq_getElem within) s
      rw [moved] at at_
      cases at_
      rw [issuedOn_self, ← length]
      exact stands
    · rw [issuedOn_other apart, List.append_nil]
      rcases cursor_step_of_ne v apart s at_ with old | ⟨rfl, rfl⟩
      · exact follows.stands j c old
      · rw [issuedOn_absent follows.issued]
        exact .fresh _ 0

theorem Follows.after (follows : Follows img steps v) {more : List (Nat × Step)}
    (legal : Legal v.cursors.size more) : Follows img (steps ++ more) (v.after more) := by
  induction more generalizing steps v with
  | nil =>
    rw [List.append_nil]
    exact follows
  | cons s rest ih =>
    obtain ⟨within, legal⟩ := legal
    rw [← size_step v s.1 s.2] at legal
    have later := ih (follows.step within s.2) legal
    rw [List.append_assoc] at later
    exact later

theorem follows_after (img : Image) (legal : Legal 1 steps) :
    Follows img steps (after { image := img } steps) :=
  (follows_start img).after legal

theorem answer_of_fits (stands : Stands v.image.length start sizes c)
    (at_ : v.cursors[j]? = some c) (reads : s.size? = some n)
    (fits : Fits v.image.length start (sizes ++ [n])) :
    (v.step j s).2 = some (s.value v.image (start + sizes.sum)) ∧
    ∃ c', (v.step j s).1.cursors[j]? = some c' ∧ c'.pos.toNat = c.pos.toNat + n ∧
      c'.overrun = none := by
  obtain ⟨before, room, -⟩ := fits_append.mp fits
  obtain ⟨reached, clear⟩ := stands.of_fits before
  obtain ⟨pos, overrun⟩ := c
  cases clear
  dsimp only at reached
  rw [← reached] at room ⊢
  have inside := (Array.getElem?_eq_some_iff.mp at_).1
  have bound : v.image.length < 4294967296 := v.image.size_lt
  rw [step_of_room at_ reads room]
  refine ⟨rfl, ⟨pos + UInt32.ofNat n, none⟩, ?_, ?_, rfl⟩
  · rw [put, Array.getElem?_setIfInBounds_self_of_lt inside]
  · dsimp only
    rw [UInt32.toNat_add, UInt32.toNat_ofNat']
    omega

theorem answer_of_not_fits (stands : Stands v.image.length start sizes c)
    (at_ : v.cursors[j]? = some c) (reads : s.size? = some n)
    (short : ¬ Fits v.image.length start (sizes ++ [n])) :
    (v.step j s).2 = some 0 ∧ (v.step j s).1.cursors[j]? =
      some { c with overrun := c.overrun.or (some ⟨n, c.pos, v.image.length⟩) } := by
  have inside := (Array.getElem?_eq_some_iff.mp at_).1
  cases stands with
  | overran later =>
    rw [step_of_overrun at_ reads, put, Array.getElem?_setIfInBounds_self_of_lt inside]
    exact ⟨rfl, rfl⟩
  | clear fits reached =>
    rw [fits_append, ← reached] at short
    have beyond := fun room => short ⟨fits, room, trivial⟩
    rw [step_of_no_room at_ reads (Nat.lt_of_not_le beyond), put,
      Array.getElem?_setIfInBounds_self_of_lt inside]
    exact ⟨rfl, rfl⟩

/-- Whatever steps are issued on whichever views: a view stands behind the reads since it was last
set, as long as these fit, and otherwise before the first that does not, whose size and position
its overrun names. A read that fits as well gives the number that the bytes spell out there at that
time and moves the view by its size. Any other gives zero and does not move the view; if the view
has overrun before, that overrun stays. So steps on other views do not show. -/
theorem sticky_exact_independent {img : Image} {steps : List (Nat × Step)} (legal : Legal 1 steps)
    {j : Nat} {c : Cursor} (made : (after { image := img } steps).cursors[j]? = some c) :
    let v := after { image := img } steps
    let start := (stretch (issuedOn j steps)).1.toNat
    let sizes := (stretch (issuedOn j steps)).2
    v.image = written img steps ∧
    (Fits img.length start sizes → c.pos.toNat = start + sizes.sum ∧ c.overrun = none) ∧
    (∀ fit n later, sizes = fit ++ n :: later → Fits img.length start fit →
      img.length < start + fit.sum + n →
        c.pos.toNat = start + fit.sum ∧ c.overrun = some ⟨n, c.pos, img.length⟩) ∧
    (∀ s n, Step.size? s = some n →
      (Fits img.length start (sizes ++ [n]) →
        (v.step j s).2 = some (s.value v.image (start + sizes.sum)) ∧
        ∃ c', (v.step j s).1.cursors[j]? = some c' ∧ c'.pos.toNat = c.pos.toNat + n ∧
          c'.overrun = none) ∧
      (¬ Fits img.length start (sizes ++ [n]) → (v.step j s).2 = some 0 ∧
        (v.step j s).1.cursors[j]? =
          some { c with overrun := c.overrun.or (some ⟨n, c.pos, img.length⟩) })) ∧
    ∀ img' steps' c', img'.length = img.length → Legal 1 steps' →
      issuedOn j steps' = issuedOn j steps →
      (after { image := img' } steps').cursors[j]? = some c' → c' = c := by
  intro v start sizes
  have follows := follows_after img legal
  have stands := follows.stands j c made
  have length : v.image.length = img.length := by rw [follows.image, length_written]
  refine ⟨follows.image, stands.of_fits, ?_, ?_, ?_⟩
  · intro fit n later split fits beyond
    have here : Stands img.length start sizes c := stands
    rw [split] at here
    exact here.of_first fits beyond
  · rw [← length] at stands ⊢
    exact fun s n reads => ⟨answer_of_fits stands made reads, answer_of_not_fits stands made reads⟩
  · intro img' steps' c' same legal' own made'
    have stands' := (follows_after img' legal').stands j c' made'
    rw [own, same] at stands'
    exact stands'.unique stands

-- Two views of three bytes. The second read of the first view lacks one byte of two, so the view
-- stays where it is, while the other view is set and reads a word that was written in between.
theorem sticky_exact_independent_two :
    let img : Image := ⟨#[0x12, 0x34, 0xFF], by decide⟩
    let steps : List (Nat × Step) :=
      [(0, .u16), (0, .view), (0, .u16), (1, .seek 1), (0, .write 2 [0x80]), (0, .u8)]
    Legal 1 steps ∧
      (after { image := img } steps).cursors[0]? = some ⟨2, some ⟨2, 2, 3⟩⟩ ∧
      ((after { image := img } steps).step 0 .u8).2 = some 0 ∧
      (after { image := img } steps).cursors[1]? = some ⟨1, none⟩ ∧
      ((after { image := img } steps).step 1 .i16).2 = some 0x3480 := by
  intro img steps
  have legal : Legal 1 steps := by decide
  have first : (after { image := img } steps).cursors[0]? = some ⟨2, some ⟨2, 2, 3⟩⟩ := by
    decide +kernel
  have second : (after { image := img } steps).cursors[1]? = some ⟨1, none⟩ := by decide +kernel
  have zero := ((sticky_exact_independent legal first).2.2.2.1 .u8 1 rfl).2 (by decide)
  have word := ((sticky_exact_independent legal second).2.2.2.1 .i16 2 rfl).1 (by decide)
  have spelled : Step.value (after { image := img } steps).image 1 .i16 = 0x3480 := by
    decide +kernel
  exact ⟨legal, first, zero.1, second, word.1.trans (congrArg some spelled)⟩

end Views

end ZCode

import ZCode.Fault

set_option autoImplicit false

namespace ZCode

structure Image where
  bytes : Array UInt8
  size_lt : bytes.size < 4294967296

namespace Image

def length (img : Image) : Nat :=
  img.bytes.size

def zeroed (length : UInt32) : Image :=
  ⟨Array.replicate length.toNat 0, by simpa using length.toNat_lt⟩

def setByte (img : Image) (pos : Nat) (b : UInt8) : Image :=
  ⟨img.bytes.setIfInBounds pos b, by simpa using img.size_lt⟩

-- Copies bytes to a position; what lies past the end of the image is dropped.
def write (img : Image) (pos : Nat) : List UInt8 → Image
  | [] => img
  | b :: rest => (img.setByte pos b).write (pos + 1) rest

def fill (img : Image) (b : UInt8) : Image :=
  ⟨Array.replicate img.bytes.size b, by simpa using img.size_lt⟩

def slice (img : Image) (pos count : Nat) : List UInt8 :=
  (img.bytes.extract pos (pos + count)).toList

def word (high low : UInt8) : UInt16 :=
  (high.toUInt16 <<< 8) ||| low.toUInt16

def u8 (img : Image) (pos : UInt32) : Except Overrun UInt8 :=
  match img.bytes[pos.toNat]? with
  | some b => .ok b
  | none => .error ⟨1, pos, img.length⟩

def u16 (img : Image) (pos : UInt32) : Except Overrun UInt16 :=
  match img.bytes[pos.toNat]?, img.bytes[pos.toNat + 1]? with
  | some high, some low => .ok (word high low)
  | _, _ => .error ⟨2, pos, img.length⟩

@[simp] theorem length_setByte (img : Image) (pos : Nat) (b : UInt8) :
    (img.setByte pos b).length = img.length := by
  simp [setByte, length]

@[simp] theorem length_write (img : Image) (pos : Nat) (bs : List UInt8) :
    (img.write pos bs).length = img.length := by
  induction bs generalizing img pos with
  | nil => rfl
  | cons b rest ih => simp [write, ih]

end Image

-- A reading position; a cursor that has overrun reads zeros until it is moved.
structure Cursor where
  pos : UInt32 := 0
  overrun : Option Overrun := none
  deriving DecidableEq, Repr

namespace Cursor

def seek (_ : Cursor) (pos : UInt32) : Cursor :=
  { pos := pos }

def advance {α : Type} (c : Cursor) (zero : α) (size : UInt32) (read : Except Overrun α) :
    α × Cursor :=
  match c.overrun, read with
  | none, .ok value => (value, { c with pos := c.pos + size })
  | none, .error o => (zero, { c with overrun := some o })
  | some _, _ => (zero, c)

def u8 (c : Cursor) (img : Image) : UInt8 × Cursor :=
  advance c 0 1 (img.u8 c.pos)

def u16 (c : Cursor) (img : Image) : UInt16 × Cursor :=
  advance c 0 2 (img.u16 c.pos)

def i16 (c : Cursor) (img : Image) : Int16 × Cursor :=
  let (w, next) := c.u16 img
  (w.toInt16, next)

end Cursor

structure Views where
  image : Image
  cursors : Array Cursor := #[{}]

namespace Views

inductive Step where
  | u8
  | u16
  | i16
  | seek (pos : UInt32)
  | view
  | write (addr : UInt32) (data : List UInt8)
  | len
  deriving DecidableEq, Repr

def step (v : Views) (i : Nat) (s : Step) : Views × Option Int :=
  let c := v.cursors.getD i {}
  let moved (c : Cursor) : Views := { v with cursors := v.cursors.setIfInBounds i c }
  match s with
  | .u8 => let (b, c) := c.u8 v.image; (moved c, some b.toNat)
  | .u16 => let (w, c) := c.u16 v.image; (moved c, some w.toNat)
  | .i16 => let (w, c) := c.i16 v.image; (moved c, some w.toInt)
  | .seek pos => (moved (c.seek pos), none)
  | .view => ({ v with cursors := v.cursors.push {} }, some v.cursors.size)
  | .write addr data => ({ v with image := v.image.write addr.toNat data }, none)
  | .len => (v, some v.image.length)

end Views

end ZCode

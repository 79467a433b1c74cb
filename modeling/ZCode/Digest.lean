import ZCode.Text.Digits

set_option autoImplicit false

namespace ZCode

open ZCode.Text

structure Digest where
  w0 : UInt64
  w1 : UInt64
  w2 : UInt64
  w3 : UInt64
  deriving DecidableEq, Repr, Hashable

namespace Digest

def wordBytes (w : UInt64) : List UInt8 :=
  [w, w >>> 8, w >>> 16, w >>> 24, w >>> 32, w >>> 40, w >>> 48, w >>> 56].map UInt64.toUInt8

def bytes (d : Digest) : List UInt8 :=
  [d.w0, d.w1, d.w2, d.w3].flatMap wordBytes

def hexText (d : Digest) : String :=
  String.join (d.bytes.map hexByte)

structure Chain where
  h0 : UInt64
  h1 : UInt64
  h2 : UInt64
  h3 : UInt64
  h4 : UInt64
  h5 : UInt64
  h6 : UInt64
  h7 : UInt64

-- The first 64 bits of the fractional parts of the square roots of the first eight primes.
def seed : Chain :=
  ⟨0x6a09e667f3bcc908, 0xbb67ae8584caa73b, 0x3c6ef372fe94f82b, 0xa54ff53a5f1d36f1,
    0x510e527fade682d1, 0x9b05688c2b3e6c1f, 0x1f83d9abfb41bd6b, 0x5be0cd19137e2179⟩

def schedule : List (Array Nat) :=
  [#[0, 1, 2, 3, 4, 5, 6, 7, 8, 9, 10, 11, 12, 13, 14, 15],
    #[14, 10, 4, 8, 9, 15, 13, 6, 1, 12, 0, 2, 11, 7, 5, 3],
    #[11, 8, 12, 0, 5, 2, 15, 13, 10, 14, 3, 6, 7, 1, 9, 4],
    #[7, 9, 3, 1, 13, 12, 11, 14, 2, 6, 5, 10, 4, 0, 15, 8],
    #[9, 0, 5, 7, 2, 4, 10, 15, 14, 1, 11, 12, 6, 8, 3, 13],
    #[2, 12, 6, 10, 0, 11, 8, 3, 4, 13, 7, 5, 15, 14, 1, 9],
    #[12, 5, 1, 15, 14, 13, 4, 10, 0, 7, 6, 3, 9, 2, 8, 11],
    #[13, 11, 7, 14, 12, 1, 3, 9, 5, 0, 15, 4, 8, 6, 2, 10],
    #[6, 15, 14, 9, 11, 3, 0, 8, 12, 2, 13, 7, 1, 4, 10, 5],
    #[10, 2, 8, 4, 7, 6, 1, 5, 15, 11, 9, 14, 3, 12, 13, 0],
    #[0, 1, 2, 3, 4, 5, 6, 7, 8, 9, 10, 11, 12, 13, 14, 15],
    #[14, 10, 4, 8, 9, 15, 13, 6, 1, 12, 0, 2, 11, 7, 5, 3]]

@[inline] def rotateRight (w n : UInt64) : UInt64 :=
  (w >>> n) ||| (w <<< (64 - n))

structure Column where
  a : UInt64
  b : UInt64
  c : UInt64
  d : UInt64

@[inline] def mix (a b c d x y : UInt64) : Column :=
  let a := a + b + x
  let d := rotateRight (d ^^^ a) 32
  let c := c + d
  let b := rotateRight (b ^^^ c) 24
  let a := a + b + y
  let d := rotateRight (d ^^^ a) 16
  let c := c + d
  let b := rotateRight (b ^^^ c) 63
  ⟨a, b, c, d⟩

def round (m : Array UInt64) (v : Chain × Chain) (order : Array Nat) : Chain × Chain :=
  let word (i : Nat) : UInt64 := m.getD (order.getD i 0) 0
  let (l, r) := v
  let p := mix l.h0 l.h4 r.h0 r.h4 (word 0) (word 1)
  let q := mix l.h1 l.h5 r.h1 r.h5 (word 2) (word 3)
  let s := mix l.h2 l.h6 r.h2 r.h6 (word 4) (word 5)
  let t := mix l.h3 l.h7 r.h3 r.h7 (word 6) (word 7)
  let e := mix p.a q.b s.c t.d (word 8) (word 9)
  let f := mix q.a s.b t.c p.d (word 10) (word 11)
  let g := mix s.a t.b p.c q.d (word 12) (word 13)
  let h := mix t.a p.b q.c s.d (word 14) (word 15)
  (⟨e.a, f.a, g.a, h.a, h.b, e.b, f.b, g.b⟩, ⟨g.c, h.c, e.c, f.c, f.d, g.d, h.d, e.d⟩)

def compress (h : Chain) (m : Array UInt64) (count : UInt64) (isLast : Bool) : Chain :=
  let mark : UInt64 := if isLast then 0xffffffffffffffff else 0
  let upper : Chain := { seed with h4 := seed.h4 ^^^ count, h6 := seed.h6 ^^^ mark }
  let (l, r) := schedule.foldl (round m) (h, upper)
  ⟨h.h0 ^^^ l.h0 ^^^ r.h0, h.h1 ^^^ l.h1 ^^^ r.h1, h.h2 ^^^ l.h2 ^^^ r.h2, h.h3 ^^^ l.h3 ^^^ r.h3,
    h.h4 ^^^ l.h4 ^^^ r.h4, h.h5 ^^^ l.h5 ^^^ r.h5, h.h6 ^^^ l.h6 ^^^ r.h6, h.h7 ^^^ l.h7 ^^^ r.h7⟩

def wordAt (bytes : Array UInt8) (pos : Nat) : UInt64 :=
  (List.range 8).foldr (fun i w => (w <<< 8) ||| (bytes.getD (pos + i) 0).toUInt64) 0

def blockAt (bytes : Array UInt8) (pos : Nat) : Array UInt64 :=
  (Array.range 16).map fun i => wordAt bytes (pos + 8 * i)

def ofBytes (bytes : Array UInt8) : Digest :=
  let blocks := max 1 ((bytes.size + 127) / 128)
  let start : Chain := { seed with h0 := seed.h0 ^^^ 0x01010020 }
  let h := (List.range blocks).foldl (fun h k =>
    compress h (blockAt bytes (128 * k)) (min bytes.size (128 * (k + 1))).toUInt64
      (k + 1 == blocks)) start
  ⟨h.h0, h.h1, h.h2, h.h3⟩

end Digest

end ZCode

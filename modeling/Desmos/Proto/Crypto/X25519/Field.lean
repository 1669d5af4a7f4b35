import Desmos.Library.I64
import Desmos.Proto.Crypto.Primitives

/-! # The hand-written X25519

Field elements are sixteen signed 64-bit limbs of sixteen bits each, with carries left pending.
Every arithmetic operation goes through the machine arithmetic of `I64`, so that a build which stops
on overflow is a case of it.
-/
namespace Desmos.Proto.X25519Field
open Library I64

abbrev Fe := Vector Int64 16

def zero : Fe := Vector.replicate 16 0

def gf121665 : Fe := (zero.set 0 0xDB41).set 1 1

variable (t : Traps)

/-- Where the carry of limb `i` goes: to the next limb, and from the last limb to
the first with a factor of 38. -/
def carryInto (o : Fe) (i : Fin 16) (c : Int64) : Option Fe :=
  if h : i.val < 15 then do
    pure (o.set (i.val + 1) (← wrappingAdd t o[i.val + 1] (← sub t c 1)))
  else do
    pure (o.set 0 (← wrappingAdd t o[0] (← mul t 38 (← sub t c 1))))

/-- One turn of the loop of `carry`. -/
def carryLimb (o : Fe) (i : Fin 16) : Option Fe := do
  let o := o.set i (← wrappingAdd t o[i] 0x10000)
  let c := shr o[i] 16
  let o ← carryInto t o i c
  pure (o.set i (← wrappingSub t o[i] (← shl t c 16)))

def carry (o : Fe) : Option Fe := Fin.foldlM 16 (carryLimb t) o

def constantTimeSwap (p q : Fe) (b : Int64) : Option (Fe × Fe) := do
  let c := ~~~(← wrappingSub t b 1)
  pure (Fin.foldl 16 (fun (p, q) i =>
    let x := c &&& (p[i] ^^^ q[i])
    (p.set i (p[i] ^^^ x), q.set i (q[i] ^^^ x))) (p, q))

/-- The borrow that a limb of a difference passes on. -/
def borrow (m : Int64) : Int64 := shr m 16 &&& 1

/-- One limb of `f - p`, whose limb at that place is `k`, with the borrow of the
limb before it. -/
def borrowLimb (f : Fe) (k : Int64) (m : Fe) (i : Fin 15) : Option Fe := do
  let m := m.set (i.val + 1) (← sub t (← sub t f[i.val + 1] k) (borrow m[i.val]))
  pure (m.set i.val (m[i.val] &&& 0xffff))

/-- The limbs of `f - p`, where the last one keeps the sign. -/
def subtractP (f : Fe) : Option Fe := do
  let m := zero.set 0 (← sub t f[0] 0xffed)
  let m ← Fin.foldlM 14 (fun m i => borrowLimb t f 0xffff m i.castSucc) m
  borrowLimb t f 0x7fff m 14

/-- One conditional subtraction of the prime. -/
def packRound (f : Fe) : Option Fe := do
  let m ← subtractP t f
  let b := borrow m[15]
  let (f, _) ← constantTimeSwap t f m (← sub t 1 b)
  pure f

/-- `x as u8`. -/
def asU8 (x : Int64) : UInt8 := x.toUInt64.toUInt8

/-- `b as i64`. -/
def asI64 (b : UInt8) : Int64 := b.toUInt64.toInt64

def pack (n : Fe) : Option Key32 := do
  let f ← carry t n
  let f ← carry t f
  let f ← carry t f
  let f ← packRound t f
  let f ← packRound t f
  pure (Fin.foldl 16 (fun (o : Key32) i =>
    (o.set (2 * i.val) (asU8 (f[i] &&& 0xff))).set (2 * i.val + 1) (asU8 (shr f[i] 8 &&& 0xff)))
    (Vector.replicate 32 0))

/-- One limb from two bytes. -/
def unpackLimb (n : Key32) (i : Fin 16) : Option Int64 := do
  add t (asI64 n[2 * i.val]) (← shl t (asI64 n[2 * i.val + 1]) 8)

def unpack (n : Key32) : Option Fe := do
  let o ← Fin.foldlM 16 (fun (o : Fe) i => do pure (o.set i (← unpackLimb t n i))) zero
  pure (o.set 15 (o[15] &&& 0x7fff))

def fadd (a b : Fe) : Option Fe :=
  Fin.foldlM 16 (fun (o : Fe) i => do pure (o.set i (← add t a[i] b[i]))) zero

def fsub (a b : Fe) : Option Fe :=
  Fin.foldlM 16 (fun (o : Fe) i => do pure (o.set i (← sub t a[i] b[i]))) zero

/-- The double-width accumulator of a product. -/
abbrev Wide := Vector Int64 31

/-- One row of the schoolbook product. -/
def mulRow (a b : Fe) (w : Wide) (i : Fin 16) : Option Wide :=
  Fin.foldlM 16 (fun (w : Wide) j => do
    pure (w.set (i.val + j.val) (← add t w[i.val + j.val] (← mul t a[i] b[j])))) w

/-- The upper limbs come back into the lower ones, as `2 ^ 256` is 38. -/
def foldLimb (w : Wide) (i : Fin 15) : Option Wide := do
  pure (w.set i.val (← add t w[i.val] (← mul t 38 w[i.val + 16])))

def fmul (a b : Fe) : Option Fe := do
  let w ← Fin.foldlM 16 (mulRow t a b) (Vector.replicate 31 0)
  let w ← Fin.foldlM 15 (foldLimb t) w
  let o ← carry t (Vector.ofFn fun i : Fin 16 => w[i.val])
  carry t o

def fsqr (a : Fe) : Option Fe := fmul t a a

/-- One turn of the inversion: square, and multiply unless the bit of the
exponent is clear. -/
def finvStep (i : Fe) (a : Fin 254) (c : Fe) : Option Fe := do
  let c ← fsqr t c
  if a.val ≠ 2 ∧ a.val ≠ 4 then fmul t c i else pure c

def finv (i : Fe) : Option Fe := Fin.foldrM 254 (finvStep t i) i

/-- The mutable variables that the ladder carries from turn to turn. -/
structure Ladder where
  a : Fe
  b : Fe
  c : Fe
  d : Fe

def clamp (n : Key32) : Key32 :=
  let z := n.set 31 ((n[31] &&& 127) ||| 64)
  z.set 0 (z[0] &&& 248)

def scalarBit (z : Key32) (i : Fin 255) : Int64 :=
  asI64 ((z[i.val / 8] >>> UInt8.ofNat (i.val % 8)) &&& 1)

/-- The field operations of one turn, between its two pairs of swaps. -/
def ladderArith (x : Fe) (s : Ladder) : Option Ladder := do
  let e ← fadd t s.a s.c
  let a ← fsub t s.a s.c
  let c ← fadd t s.b s.d
  let b ← fsub t s.b s.d
  let d ← fsqr t e
  let f ← fsqr t a
  let a ← fmul t c a
  let c ← fmul t b e
  let e ← fadd t a c
  let a ← fsub t a c
  let b ← fsqr t a
  let c ← fsub t d f
  let a ← fmul t c gf121665
  let a ← fadd t a d
  let c ← fmul t c a
  let a ← fmul t d f
  let d ← fmul t b x
  let b ← fsqr t e
  pure ⟨a, b, c, d⟩

def swapPoints (s : Ladder) (r : Int64) : Option Ladder := do
  let (a, b) ← constantTimeSwap t s.a s.b r
  let (c, d) ← constantTimeSwap t s.c s.d r
  pure ⟨a, b, c, d⟩

def ladderStep (z : Key32) (x : Fe) (i : Fin 255) (s : Ladder) : Option Ladder := do
  let r := scalarBit z i
  let s ← swapPoints t s r
  let s ← ladderArith t x s
  swapPoints t s r

def scalarmult (n p : Key32) : Option Key32 := do
  let z := clamp n
  let x ← unpack t p
  let s ← Fin.foldrM 255 (ladderStep t z x)
    ⟨zero.set 0 1, x, zero, zero.set 0 1⟩
  let invC ← finv t s.c
  let result ← fmul t s.a invC
  pack t result

def scalarmultBase (n : Key32) : Option Key32 := scalarmult t n basepoint

end Desmos.Proto.X25519Field

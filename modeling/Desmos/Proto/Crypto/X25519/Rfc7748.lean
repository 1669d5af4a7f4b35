import Desmos.Proto.Crypto.Primitives

/-! # X25519 as RFC 7748 writes it

The Montgomery ladder of section 5 over any commutative ring, and the function
X25519 on byte strings: exact arithmetic modulo `2 ^ 255 - 19`, swaps deferred from
turn to turn, and the final division as a power.
-/
namespace Desmos.Proto.Rfc7748
open Library

section Ladder
variable {F : Type*}

/-- The two points of the ladder in projective coordinates. -/
@[ext] structure Points (F : Type*) where
  x2 : F
  z2 : F
  x3 : F
  z3 : F

def Points.cswap (swap : Bool) (q : Points F) : Points F :=
  if swap then ⟨q.x3, q.z3, q.x2, q.z2⟩ else q

/-- Two swaps in a row are one swap by the exclusive or of their flags. -/
theorem Points.cswap_cswap (s r : Bool) (q : Points F) :
    (q.cswap s).cswap r = q.cswap (Bool.xor s r) := by
  cases s <;> cases r <;> rfl

/-- The points between two turns, with the swap that is still pending. -/
structure LadderState (F : Type*) where
  points : Points F
  swap : Bool

/-- The points once the pending swap is done. -/
def LadderState.settled (s : LadderState F) : Points F := s.points.cswap s.swap

variable [CommRing F]

/-- The arithmetic of one turn: double one point, add the other. -/
def Points.step (a24 x1 : F) (q : Points F) : Points F :=
  let A := q.x2 + q.z2
  let AA := A ^ 2
  let B := q.x2 - q.z2
  let BB := B ^ 2
  let E := AA - BB
  let C := q.x3 + q.z3
  let D := q.x3 - q.z3
  let DA := D * A
  let CB := C * B
  { x2 := AA * BB, z2 := E * (AA + a24 * E), x3 := (DA + CB) ^ 2, z3 := x1 * (DA - CB) ^ 2 }

/-- One turn of the loop for bit `kt` of the scalar. -/
def ladderStep (a24 x1 : F) (kt : Bool) (s : LadderState F) : LadderState F :=
  { points := (s.points.cswap (Bool.xor s.swap kt)).step a24 x1, swap := kt }

/-- Deferring the swap back to the next turn is doing it at once. -/
theorem settled_ladderStep (a24 x1 : F) (kt : Bool) (s : LadderState F) :
    (ladderStep a24 x1 kt s).settled = ((s.settled.cswap kt).step a24 x1).cswap kt := by
  rw [LadderState.settled, LadderState.settled, Points.cswap_cswap]
  rfl

/-- The loop from bit `bits - 1` down to bit 0, and the last pending swap. -/
def ladder (a24 : F) (bits k : ℕ) (x1 : F) : Points F :=
  (Fin.foldr bits (fun t s => ladderStep a24 x1 (k.testBit t.val) s)
    { points := { x2 := 1, z2 := 0, x3 := x1, z3 := 1 }, swap := false }).settled

end Ladder

def p : ℕ := 2 ^ 255 - 19

instance : NeZero p := ⟨by norm_num [p]⟩

def bits : ℕ := 255

theorem first_lt : 0 < 32 := by decide

theorem last_lt : 31 < 32 := by decide

def decodeLittleEndian (b : Key32) : ℕ := ∑ i : Fin 32, b[i.val].toNat * 256 ^ i.val

def decodeUCoordinate (u : Key32) : ℕ :=
  decodeLittleEndian (u.set 31 (getElem u 31 last_lt &&& 127) last_lt)

/-- The canonical encoding of a field element: its least residue. -/
def encodeUCoordinate (u : ZMod p) : Key32 :=
  Vector.ofFn fun i => UInt8.ofNat (u.val / 256 ^ i.val)

def decodeScalar25519 (k : Key32) : ℕ :=
  let k := k.set 0 (getElem k 0 first_lt &&& 248) first_lt
  let k := k.set 31 (getElem k 31 last_lt &&& 127) last_lt
  decodeLittleEndian (k.set 31 (getElem k 31 last_lt ||| 64) last_lt)

def x25519 (k u : Key32) : Key32 :=
  let q : Points (ZMod p) := ladder 121665 bits (decodeScalar25519 k) (decodeUCoordinate u)
  encodeUCoordinate (q.x2 * q.z2 ^ (p - 2))

end Desmos.Proto.Rfc7748

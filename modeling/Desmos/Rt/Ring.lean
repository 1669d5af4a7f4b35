import Desmos.Library.Counters
import Desmos.Library.Threads

/-! # The single-producer single-consumer ring

Two threads over one ring, in a machine with `w`-bit words. Every load, slot access and
store is a step of its own, so a schedule of the two threads is any interleaving of them.
-/
namespace Desmos.Rt
open Library

/-- A slot without an initialised value is `none`. -/
structure SpscRing (w : ℕ) (T : Type*) where
  mask : BitVec w
  buffer : Fin (mask.toNat + 1) → Option T
  head : BitVec w
  tail : BitVec w

namespace SpscRing
variable {w : ℕ} {T : Type*}

/-- `usize::is_power_of_two`. -/
def isPowerOfTwo (n : BitVec w) : Bool := (List.range w).any fun k => n == BitVec.ofNat w (2 ^ k)

/-- The constructor panics on a capacity that is no power of two. -/
def newSplit (capacity : BitVec w) : Option (SpscRing w T) :=
  if capacity = 0 then none
  else if isPowerOfTwo capacity = false then none
  else some { mask := capacity - 1, buffer := fun _ => none, head := 0, tail := 0 }

variable (r : SpscRing w T)

def capacity : BitVec w := r.mask + 1

/-- The slot of a counter; masking keeps it inside the buffer. -/
def slot (cur : BitVec w) : Fin (r.mask.toNat + 1) :=
  ⟨(cur &&& r.mask).toNat, by
    exact Nat.lt_succ_of_le Nat.and_le_right⟩

def write (cur : BitVec w) (value : Option T) : SpscRing w T :=
  { r with buffer := Function.update r.buffer (r.slot cur) value }

/-- The walk of the destructor. It stops at a slot without a value. -/
def dropFrom (r : SpscRing w T) (cur : BitVec w) : Option (List T) :=
  if _h : cur = r.tail then some []
  else match r.buffer (r.slot cur) with
  | none => none
  | some value => (dropFrom r (cur + 1)).map (value :: ·)
termination_by (r.tail - cur).toNat
decreasing_by exact Counter.toNat_sub_succ_lt _h

/-- The values that dropping the ring drops. -/
def dropRing : Option (List T) := r.dropFrom r.head

end SpscRing

inductive Side where
  | producer
  | consumer
  deriving DecidableEq

/-- Where a thread is in its call, with what it has loaded. -/
inductive RingThread (w : ℕ) (T : Type*) where
  | idle
  | pushLoadHead (value : T) (tail : BitVec w)
  | pushWrite (value : T) (tail : BitVec w)
  | pushStoreTail (value : T) (tail : BitVec w)
  | popLoadTail (head : BitVec w)
  | popRead (head : BitVec w)
  | popStoreHead (head : BitVec w) (value : T)

/-- What a step shows: a slot access with what the slot held, or the end of a call. -/
inductive RingEvent (T : Type*) where
  | loaded
  | wrote (old : Option T)
  | read (old : Option T)
  | pushed (value : T)
  | full (value : T)
  | popped (value : T)
  | empty

section Programs
variable {w : ℕ} {T : Type*}

def tryPush : Program (SpscRing w T) (RingThread w T) T (RingEvent T)
  | r, .idle, value => (.loaded, r, .pushLoadHead value r.tail)
  | r, .pushLoadHead value tail, _ =>
    if tail - r.head = r.capacity then (.full value, r, .idle)
    else (.loaded, r, .pushWrite value tail)
  | r, .pushWrite value tail, _ =>
    (.wrote (r.buffer (r.slot tail)), r.write tail (some value), .pushStoreTail value tail)
  | r, .pushStoreTail value tail, _ => (.pushed value, { r with tail := tail + 1 }, .idle)
  | r, thread, _ => (.loaded, r, thread)

/-- Reading moves the value out of the slot. -/
def tryPop : Program (SpscRing w T) (RingThread w T) T (RingEvent T)
  | r, .idle, _ => (.loaded, r, .popLoadTail r.head)
  | r, .popLoadTail head, _ =>
    if head = r.tail then (.empty, r, .idle) else (.loaded, r, .popRead head)
  | r, .popRead head, _ =>
    match r.buffer (r.slot head) with
    | some value => (.read (some value), r.write head none, .popStoreHead head value)
    | none => (.read none, r, .idle)
  | r, .popStoreHead head value, _ => (.popped value, { r with head := head + 1 }, .idle)
  | r, thread, _ => (.loaded, r, thread)

/-- The producer takes the value of its next call from the schedule. -/
def ringProgram : Side → Program (SpscRing w T) (RingThread w T) T (RingEvent T)
  | .producer => tryPush
  | .consumer => tryPop

def ringPool (r : SpscRing w T) : Pool Side (SpscRing w T) (RingThread w T) := ⟨r, fun _ => .idle⟩

def ringAfter (r : SpscRing w T) (schedule : List (Side × T)) :
    Pool Side (SpscRing w T) (RingThread w T) :=
  (Pool.interleave ringProgram).final (ringPool r) schedule

def ringEvents (r : SpscRing w T) (schedule : List (Side × T)) : List (RingEvent T) :=
  ((Pool.interleave ringProgram).trace (ringPool r) schedule).map Prod.snd

end Programs

end Desmos.Rt

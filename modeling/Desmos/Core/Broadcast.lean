import Desmos.Library.Threads

/-! # The broadcast ring

One publisher and any number of receivers over a ring of slots. `send` takes its position with one
atomic step and fills the slot with a second; `poll` loads the write position once and then reads
slot by slot.
-/
namespace Desmos.Core
open Library

/-- A shared item. The serial number, which the source does not have, tells the allocations
apart. -/
structure Arc (T : Type*) where
  serial : ℕ
  value : T
  deriving DecidableEq

structure Broadcast (T : Type*) where
  mask : UInt64
  slots : Fin (mask.toNat + 1) → Option (Arc T)
  writePos : UInt64
  /-- How many items have been allocated; a new one gets this serial number. -/
  arcs : ℕ

/-- `usize::next_power_of_two`: without overflow checks a result that does not fit is zero. -/
def nextPowerOfTwo (trap : Bool) (n : UInt64) : Option UInt64 :=
  if n.toNat.nextPowerOfTwo < 2 ^ 64 then some (UInt64.ofNat n.toNat.nextPowerOfTwo)
  else if trap then none
  else some 0

namespace Broadcast
variable {T : Type*}

def new (trap : Bool) (capacity : UInt64) : Option (Broadcast T) :=
  (nextPowerOfTwo trap capacity).map fun n =>
    let cap := if n < 2 then 2 else n
    { mask := cap - 1, slots := fun _ => none, writePos := 0, arcs := 0 }

def capacity (r : Broadcast T) : UInt64 := r.mask + 1

/-- The slot of a position; masking keeps it inside the ring. -/
def slot (r : Broadcast T) (pos : UInt64) : Fin (r.mask.toNat + 1) :=
  ⟨(pos &&& r.mask).toNat, by
    exact Nat.lt_succ_of_le Nat.and_le_right⟩

/-- Where a poll starts to read: a cursor that is too old snaps forward. -/
def start (r : Broadcast T) (cursor head : UInt64) : UInt64 :=
  if r.capacity < head - cursor then head - r.capacity else cursor

end Broadcast

/-- A slot as a poll found it, and how many items had been stored by then. -/
structure SlotRead (T : Type*) where
  pos : UInt64
  stored : ℕ
  got : Option (Arc T)
  deriving DecidableEq

/-- One call of `poll`: the cursor it started from, the write position it loaded and the slots it
has read. -/
structure Poll (T : Type*) where
  cursor : UInt64
  head : UInt64
  reads : List (SlotRead T)
  deriving DecidableEq

def Poll.items {T : Type*} (p : Poll T) : List (Arc T) := p.reads.filterMap SlotRead.got

inductive BroadcastThread (ι : Type*) where
  | publisher
  | receiver (i : ι)
  deriving DecidableEq

/-- Where a thread is in its call. A receiver starts by subscribing. -/
inductive Progress (T : Type*) where
  | idle
  | sending (pos : UInt64) (item : T)
  | subscribed (cursor : UInt64)
  | polling (poll : Poll T) (pos : UInt64)

inductive BroadcastEvent (T : Type*) where
  | loaded
  | began
  | stored (arc : Arc T)
  | returned (poll : Poll T)
  deriving DecidableEq

section Programs
variable {T ι : Type*}

def Broadcast.send : Program (Broadcast T) (Progress T) T (BroadcastEvent T)
  | r, .idle, item => (.began, { r with writePos := r.writePos + 1 }, .sending r.writePos item)
  | r, .sending pos item, _ =>
    (.stored ⟨r.arcs, item⟩, { r with
      slots := Function.update r.slots (r.slot pos) (some ⟨r.arcs, item⟩)
      arcs := r.arcs + 1 }, .idle)
  | r, thread, _ => (.loaded, r, thread)

def Broadcast.recv : Program (Broadcast T) (Progress T) T (BroadcastEvent T)
  | r, .idle, _ => (.loaded, r, .subscribed r.writePos)
  | r, .subscribed cursor, _ =>
    let head := r.writePos
    if head ≤ cursor then (.returned ⟨cursor, head, []⟩, r, .subscribed cursor)
    else (.loaded, r, .polling ⟨cursor, head, []⟩ (r.start cursor head))
  | r, .polling poll pos, _ =>
    let poll := { poll with reads := poll.reads ++ [⟨pos, r.arcs, r.slots (r.slot pos)⟩] }
    if pos + 1 < poll.head then (.loaded, r, .polling poll (pos + 1))
    else (.returned poll, r, .subscribed poll.head)
  | r, thread, _ => (.loaded, r, thread)

/-- The publisher takes the item of its next call from the schedule. -/
def broadcastProgram : BroadcastThread ι → Program (Broadcast T) (Progress T) T (BroadcastEvent T)
  | .publisher => Broadcast.send
  | .receiver _ => Broadcast.recv

def broadcastRun [DecidableEq ι] : Machine (Pool (BroadcastThread ι) (Broadcast T) (Progress T))
    (BroadcastThread ι × T) (BroadcastEvent T) :=
  Pool.interleave broadcastProgram

/-- A new ring, before anybody subscribed. -/
def Broadcast.pool (r : Broadcast T) : Pool (BroadcastThread ι) (Broadcast T) (Progress T) :=
  ⟨r, fun _ => .idle⟩

end Programs

section Observed
variable {T ι : Type*} [DecidableEq ι]

/-- How many calls of `send` have begun. -/
def begunIn (trace : List ((BroadcastThread ι × T) × BroadcastEvent T)) : ℕ :=
  trace.countP fun
    | (_, .began) => true
    | _ => false

def sentIn (trace : List ((BroadcastThread ι × T) × BroadcastEvent T)) : List (Arc T) :=
  trace.filterMap fun
    | (_, .stored arc) => some arc
    | _ => none

def pollsOf (i : ι) (trace : List ((BroadcastThread ι × T) × BroadcastEvent T)) : List (Poll T) :=
  trace.filterMap fun
    | ((thread, _), .returned poll) => if thread = .receiver i then some poll else none
    | _ => none

def obtainedBy (i : ι) (trace : List ((BroadcastThread ι × T) × BroadcastEvent T)) :
    List (Arc T) :=
  (pollsOf i trace).flatMap Poll.items

/-- A receiver obtains a selection of the sent items in their order. An item that a poll passes is
obtained, or at least as many later items as the ring has slots were sent before that poll. -/
def CleanStream (cap : ℕ) (trace : List ((BroadcastThread ι × T) × BroadcastEvent T)) (i : ι) :
    Prop :=
  (obtainedBy i trace).Sublist (sentIn trace) ∧
  ∀ poll ∈ pollsOf i trace, ∀ n, poll.cursor.toNat ≤ n → n < poll.head.toNat →
    (∃ arc ∈ obtainedBy i trace, arc.serial = n) ∨ cap ≤ poll.head.toNat - (n + 1)

end Observed

end Desmos.Core

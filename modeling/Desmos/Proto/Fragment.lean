import Mathlib.Data.List.AList
import Desmos.Library.Bytes
import Desmos.Library.Chunks

/-! # Fragmentation

The fragmenter cuts a payload into chunks and puts a header in front of each. The
reassembler collects chunks by the id in their headers. A `push` that returns nothing has
panicked.
-/
namespace Desmos.Proto
open Library

def fragmentHeaderLen : ℕ := 4
def maxFragments : ℕ := 64

inductive FragmentError where
  | shortHeader
  | invalidHeader
  | tooManyFragments
  | fragmentTooLarge
  | emptyPayload
  | inconsistent
  | mismatchedTotal
  deriving DecidableEq, Repr

structure FragmentHeader where
  fragmentId : UInt16
  offset : UInt8
  total : UInt8
  valid : offset < total

namespace FragmentHeader

def new (fragmentId : UInt16) (offset total : UInt8) : Except FragmentError FragmentHeader :=
  if h : total = 0 ∨ total ≤ offset then .error .invalidHeader
  else .ok ⟨fragmentId, offset, total, UInt8.not_le.mp fun hle => h (Or.inr hle)⟩

def bytes (h : FragmentHeader) : Bytes := toBe 2 h.fragmentId.toNat ++ [h.offset, h.total]

/-- Write a header over the first four bytes of a buffer. -/
def encode (h : FragmentHeader) (buf : Bytes) : Except FragmentError Bytes :=
  if buf.length < fragmentHeaderLen then .error .shortHeader
  else .ok (h.bytes ++ buf.drop fragmentHeaderLen)

def decode (buf : Bytes) : Except FragmentError FragmentHeader :=
  if buf.length < fragmentHeaderLen then .error .shortHeader
  else new (UInt16.ofNat (ofBe (slice buf 0 2))) (buf.getD 2 0) (buf.getD 3 0)

end FragmentHeader

/-- The loop of `fragment`, from chunk number `idx` on. -/
def fragmentChunks (fragmentId : UInt16) (total : UInt8) :
    (idx : ℕ) → List Bytes → Except FragmentError (List Bytes)
  | _, [] => .ok []
  | idx, chunk :: rest =>
    match FragmentHeader.new fragmentId (UInt8.ofNat idx) total with
    | .error e => .error e
    | .ok hdr =>
      match hdr.encode (List.replicate fragmentHeaderLen 0) with
      | .error e => .error e
      | .ok buf =>
        match fragmentChunks fragmentId total (idx + 1) rest with
        | .error e => .error e
        | .ok out => .ok ((buf ++ chunk) :: out)

def fragment (payload : Bytes) (maxFragmentLen : ℕ) (fragmentId : UInt16) :
    Except FragmentError (List Bytes) :=
  if payload = [] then .error .emptyPayload
  else if maxFragmentLen ≤ fragmentHeaderLen then .error .fragmentTooLarge
  else
    let bodyPerFragment := maxFragmentLen - fragmentHeaderLen
    let total := (payload.length + bodyPerFragment - 1) / bodyPerFragment
    if total = 0 ∨ maxFragments < total ∨ 255 < total then .error .tooManyFragments
    else fragmentChunks fragmentId (UInt8.ofNat total) 0 (chunks bodyPerFragment payload)

structure PartialGroup where
  total : UInt8
  slots : List (Option Bytes)
  received : ℕ
  deriving DecidableEq

structure Reassembler where
  inFlight : AList fun _ : UInt16 => PartialGroup
  order : List UInt16
  inFlightLimit : ℕ

namespace Reassembler

def new (inFlightLimit : ℕ) : Reassembler :=
  { inFlight := ∅, order := [], inFlightLimit := max inFlightLimit 1 }

variable (r : Reassembler)

/-- Evict the oldest group if a new one finds the reassembler full. -/
def makeRoom (fragmentId : UInt16) : Reassembler :=
  if fragmentId ∉ r.inFlight ∧ r.inFlightLimit ≤ r.inFlight.entries.length then
    match r.order with
    | [] => r
    | oldest :: order => { r with order, inFlight := r.inFlight.erase oldest }
  else r

/-- The group of a fragment, a new one if there is none. -/
def groupOf (hdr : FragmentHeader) : PartialGroup × Reassembler :=
  match r.inFlight.lookup hdr.fragmentId with
  | some group => (group, r)
  | none =>
    let group := { total := hdr.total, slots := List.replicate hdr.total.toNat none, received := 0 }
    (group, { r with order := r.order ++ [hdr.fragmentId]
                     inFlight := r.inFlight.insert hdr.fragmentId group })

/-- The bodies in the order of their slots; an empty slot panics. -/
def collect : List (Option Bytes) → Option Bytes
  | [] => some []
  | none :: _ => none
  | some body :: slots => (collect slots).map (body ++ ·)

/-- The end of `push`: a complete group leaves the reassembler. -/
def finish (hdr : FragmentHeader) (group : PartialGroup) :
    Option (Except FragmentError (Option Bytes) × Reassembler) :=
  if group.received = hdr.total.toNat then
    match r.inFlight.lookup hdr.fragmentId with
    | none => none
    | some done =>
      (collect done.slots).map fun out =>
        (.ok (some out), { r with inFlight := r.inFlight.erase hdr.fragmentId
                                  order := r.order.erase hdr.fragmentId })
  else some (.ok none, r)

def push (fragmentBytes : Bytes) : Option (Except FragmentError (Option Bytes) × Reassembler) :=
  match FragmentHeader.decode fragmentBytes with
  | .error e => some (.error e, r)
  | .ok hdr =>
    let body := fragmentBytes.drop fragmentHeaderLen
    if maxFragments < hdr.total.toNat then some (.error .tooManyFragments, r)
    else
      let (group, r) := (r.makeRoom hdr.fragmentId).groupOf hdr
      if group.total ≠ hdr.total then some (.error .mismatchedTotal, r)
      else
        match group.slots[hdr.offset.toNat]? with
        | none => none
        | some (some existing) =>
          -- the conflicting group stays where it is
          if existing ≠ body then some (.error .inconsistent, r) else r.finish hdr group
        | some none =>
          let group := { group with slots := group.slots.set hdr.offset.toNat (some body)
                                    received := group.received + 1 }
          finish { r with inFlight := r.inFlight.insert hdr.fragmentId group } hdr group

def clear : Reassembler := { r with inFlight := ∅, order := [] }

end Reassembler

end Desmos.Proto

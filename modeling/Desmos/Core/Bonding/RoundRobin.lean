import Desmos.Core.Bonding.Strategy
import Desmos.Library.Selection

/-! # The rotation of the round-robin strategy

The cursor is a `usize` that wraps around. At the wrap it starts over with the first link, which is
the link whose turn it is only if the number of links divides the number of cursor values.
-/
namespace Desmos.Core
open Library

/-- `RoundRobin` on a target whose `usize` has `w` bits. -/
def roundRobinOf (w : ℕ) (next : BitVec w) : BondingStrategy where
  σ := BitVec w
  name := "round-robin"
  state := next
  schedule next _ links :=
    let healthy := links.healthy
    if healthy.isEmpty then (.none, next)
    else
      match healthy[next.toNat % healthy.length]? with
      | some link => (.one link, next + 1#w)
      | none => (.none, next + 1#w)

/-- The strategy of the 64-bit targets is the one that the engine is modelled with. -/
theorem roundRobin_schedule_eq (next : UInt64) (packet : PacketMeta) (links : LinkTable) :
    (roundRobinOf 64 next.toBitVec).schedule next.toBitVec packet links =
      ((roundRobin next).schedule next packet links).map id UInt64.toBitVec := by
  by_cases h : links.healthy = []
  · simp [roundRobinOf, roundRobin, h]
  · have hlt : next.toNat % links.healthy.length < links.healthy.length :=
      Nat.mod_lt _ (List.length_pos_of_ne_nil h)
    simp [roundRobinOf, roundRobin, h, List.getElem?_eq_getElem hlt]

/-- Calls of `schedule`, each with its packet and the table at that time. -/
def rotation (w : ℕ) : Machine (BitVec w) (PacketMeta × LinkTable) LinkSelection :=
  fun next call => (roundRobinOf w next).schedule next call.1 call.2

section Rotation
variable {w : ℕ} {next : BitVec w} {healthy : List Link}

theorem rotation_step {call : PacketMeta × LinkTable} (hcall : call.2.healthy = healthy)
    (hne : healthy ≠ []) :
    rotation w next call = (selectAt healthy (next.toNat % healthy.length), next + 1#w) := by
  have hlt : next.toNat % healthy.length < healthy.length :=
    Nat.mod_lt _ (List.length_pos_of_ne_nil hne)
  simp [rotation, roundRobinOf, hcall, hne, selectAt, List.getElem?_eq_getElem hlt]

theorem rotation_trace {calls : List (PacketMeta × LinkTable)}
    (hcalls : ∀ call ∈ calls, call.2.healthy = healthy) (hne : healthy ≠ []) :
    ((rotation w).trace next calls).map Prod.snd = (List.range calls.length).map fun k =>
      selectAt healthy (wrappedIndex (2 ^ w) healthy.length next.toNat k) := by
  induction calls generalizing next with
  | nil => rfl
  | cons call calls ih =>
    have hstep : rotation w next call = _ := rotation_step (hcalls call List.mem_cons_self) hne
    have hnext : (next + 1#w).toNat = (next.toNat + 1) % 2 ^ w := by
      rw [BitVec.toNat_add, BitVec.toNat_ofNat, Nat.add_mod_mod]
    have hfirst : wrappedIndex (2 ^ w) healthy.length next.toNat 0 =
        next.toNat % healthy.length := by
      rw [wrappedIndex, Nat.add_zero, Nat.mod_eq_of_lt next.isLt]
    rw [Machine.trace_cons, List.map_cons, List.length_cons, List.range_succ_eq_map, List.map_cons,
      List.map_map, hstep, ih fun c hc => hcalls c (List.mem_cons_of_mem _ hc), hfirst, hnext]
    congr 2
    funext k
    exact congrArg (selectAt healthy) (wrappedIndex_succ _ _ _ k).symm

theorem map_selectAt_range (healthy : List Link) :
    (List.range healthy.length).map (selectAt healthy) = healthy.map .one := by
  apply List.ext_getElem
  · simp
  · intro i h₁ h₂
    have hi : i < healthy.length := by simpa using h₂
    simp [selectAt, List.getElem?_eq_getElem hi]

end Rotation

/-- `n` calls in a row over the same `n` healthy links choose each of them once exactly when the
cursor does not wrap around on the way, or `n` divides the number of its values. -/
theorem roundRobin_rotates_iff (w : ℕ) (next : BitVec w) (healthy : List Link)
    (hdistinct : healthy.Nodup) (hne : healthy ≠ []) (hlen : healthy.length < 2 ^ w)
    (calls : List (PacketMeta × LinkTable)) (hcalls : ∀ call ∈ calls, call.2.healthy = healthy)
    (hcount : calls.length = healthy.length) :
    (((rotation w).trace next calls).map Prod.snd).Perm (healthy.map .one) ↔
      next.toNat + healthy.length ≤ 2 ^ w ∨ healthy.length ∣ 2 ^ w := by
  have hpos := List.length_pos_of_ne_nil hne
  have hchosen : ((rotation w).trace next calls).map Prod.snd = ((List.range healthy.length).map
      (wrappedIndex (2 ^ w) healthy.length next.toNat)).map (selectAt healthy) := by
    rw [rotation_trace hcalls hne, hcount, List.map_map]
    rfl
  rw [hchosen, ← map_selectAt_range, ← perm_wrappedIndex_iff next.isLt hpos hlen.le]
  constructor
  · intro hperm
    have hall : ((List.range healthy.length).map (selectAt healthy)).Nodup := by
      rw [map_selectAt_range]
      exact hdistinct.map fun a b h => LinkSelection.one.inj h
    apply perm_range_of_nodup (hperm.nodup_iff.mpr hall).of_map
    · rw [List.forall_mem_map]
      exact fun k _ => Nat.mod_lt _ hpos
    · simp
  · intro hperm
    exact hperm.map _

namespace Sample

def rotatedLinks : LinkTable :=
  ⟨[.new 1 "eth0" ⟨.v4 #v[10, 0, 0, 2], 51820⟩ 10, .new 2 "wlan0" ⟨.v4 #v[10, 0, 0, 2], 51820⟩ 10,
    .new 3 "lte0" ⟨.v4 #v[10, 0, 0, 2], 51820⟩ 10]⟩

def rotatedCalls : List (PacketMeta × LinkTable) :=
  List.replicate 3 (.outbound 0 0, rotatedLinks)

def chosenFrom (w : ℕ) (next : BitVec w) : List (List LinkId) :=
  ((rotation w).trace next rotatedCalls).map fun e => e.2.links.map Link.id

end Sample

theorem roundRobin_rotates_three :
    (((rotation 32).trace 0 Sample.rotatedCalls).map Prod.snd).Perm
      (Sample.rotatedLinks.healthy.map .one) :=
  (roundRobin_rotates_iff 32 0 Sample.rotatedLinks.healthy (by decide) (by decide) (by decide)
    Sample.rotatedCalls (by decide) rfl).mpr (by decide)

/-- At the wrap of the cursor the first of three links is chosen twice, and the last one not at
all: with a `usize` of 64 bits, and with one of 32. -/
theorem roundRobin_repeats_at_wrap :
    Sample.chosenFrom 64 0xFFFFFFFFFFFFFFFF = [[1], [1], [2]] ∧
    Sample.chosenFrom 32 0xFFFFFFFF = [[1], [1], [2]] := by
  decide

end Desmos.Core

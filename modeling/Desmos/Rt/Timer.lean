import Desmos.Library.Machine
import Desmos.Library.U64

/-! # The timer wheel

Four levels of 32 slots. A timer lies in the level of its remaining delay, in the slot of
its expiry at that level's resolution, and moves down a level whenever the clock enters
its slot.
-/
namespace Desmos.Rt
open Library

abbrev TimerId := UInt64

/-- An entry of the wheel, and what `poll` makes of it. -/
structure FiredTimer where
  id : TimerId
  expiresAtMs : UInt64
  deriving DecidableEq, Repr

abbrev Level := Fin 4
abbrev Slot := Fin 32

def slotMask : UInt64 := 31

structure TimerWheel where
  levels : Level × Slot → List FiredTimer
  currentMs : UInt64
  nextId : UInt64

/-- The shift that takes a time to its slot number. -/
def slotBits (lvl : Level) : UInt64 := UInt64.ofNat lvl.val * 5

def slotIdx (lvl : Level) (t : UInt64) : Slot :=
  ⟨((t >>> slotBits lvl) &&& slotMask).toNat, by
    exact Nat.lt_of_le_of_lt Nat.and_le_right (by decide)⟩

def levelForDelta (delta : UInt64) : Level :=
  if delta < (1 : UInt64) <<< 5 then 0
  else if delta < (1 : UInt64) <<< 10 then 1
  else if delta < (1 : UInt64) <<< 15 then 2
  else 3

namespace TimerWheel

def new (startMs : UInt64) : TimerWheel :=
  { levels := fun _ => [], currentMs := startMs, nextId := 0 }

variable (wheel : TimerWheel)

def nowMs : UInt64 := wheel.currentMs

def insertEntry (entry : FiredTimer) : TimerWheel :=
  let delta := saturatingSub64 entry.expiresAtMs wheel.currentMs
  let lvl := levelForDelta delta
  let slot := (lvl, slotIdx lvl entry.expiresAtMs)
  { wheel with levels := Function.update wheel.levels slot (wheel.levels slot ++ [entry]) }

def schedule (afterMs : UInt64) : TimerId × TimerWheel :=
  let id := wheel.nextId
  let wheel := { wheel with nextId := wheel.nextId + 1 }
  (id, wheel.insertEntry ⟨id, saturatingAdd64 wheel.currentMs afterMs⟩)

def takeSlot (slot : Level × Slot) : List FiredTimer × TimerWheel :=
  (wheel.levels slot, { wheel with levels := Function.update wheel.levels slot [] })

def cascadeLevel (lvl : Level) : TimerWheel :=
  let (entries, wheel) := wheel.takeSlot (lvl, slotIdx lvl wheel.currentMs)
  entries.foldl insertEntry wheel

/-- Cascade a level if the bits of the clock below it are zero. -/
def cascadeAt (lvl : Level) (mask : UInt64) : TimerWheel :=
  if wheel.currentMs &&& mask = 0 then wheel.cascadeLevel lvl else wheel

def cascadeIfNeeded : TimerWheel :=
  let wheel := wheel.cascadeAt 3 ((1 : UInt64) <<< 15 - 1)
  let wheel := wheel.cascadeAt 2 ((1 : UInt64) <<< 10 - 1)
  wheel.cascadeAt 1 slotMask

/-- One millisecond of `poll`: what fires at the current time. -/
def tick : List FiredTimer × TimerWheel :=
  let wheel := wheel.cascadeIfNeeded
  wheel.takeSlot (0, slotIdx 0 wheel.currentMs)

/-- The loop of `poll`; it also ends where the clock cannot be advanced any more. -/
def poll (wheel : TimerWheel) (nowMs : UInt64) : List FiredTimer × TimerWheel :=
  if _h : wheel.currentMs ≤ nowMs then
    match _hadd : U64.add true wheel.currentMs 1 with
    | none => wheel.tick
    | some next =>
      let (fired, ticked) := wheel.tick
      let (rest, last) := poll { ticked with currentMs := next } nowMs
      (fired ++ rest, last)
  else ([], wheel)
termination_by nowMs.toNat + 1 - wheel.currentMs.toNat
decreasing_by
  have hsucc := U64.toNat_of_add_one _hadd
  have hle := UInt64.le_iff_toNat_le.mp _h
  omega

end TimerWheel

inductive TimerCall where
  | schedule (afterMs : UInt64)
  | poll (nowMs : UInt64)

inductive TimerAnswer where
  | scheduled (id : TimerId)
  | fired (out : List FiredTimer)

def timerWheel : Machine TimerWheel TimerCall TimerAnswer := fun wheel c =>
  match c with
  | .schedule afterMs => let (id, wheel) := wheel.schedule afterMs; (.scheduled id, wheel)
  | .poll nowMs => let (out, wheel) := wheel.poll nowMs; (.fired out, wheel)

end Desmos.Rt

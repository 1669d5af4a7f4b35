import Mathlib.Tactic

/-! # Read-write locks

A lock as it stands between two steps of its users: the value and the read guards that are
held. A guard that is taken and dropped within a step leaves no trace here, and write guards
are all of that kind.
-/
namespace Desmos.Library

structure RwLock (κ α : Type*) where
  value : α
  readers : List κ

namespace RwLock
variable {κ α : Type*}

def new (value : α) : RwLock κ α := { value, readers := [] }

variable (l : RwLock κ α)

def acquire (k : κ) : RwLock κ α := { l with readers := k :: l.readers }

def release [DecidableEq κ] (k : κ) : RwLock κ α :=
  { l with readers := l.readers.erase k }

/-- Take the write guard, assign and drop it, unless a read guard is held. -/
def tryWrite (value : α) : Option (RwLock κ α) :=
  if l.readers.isEmpty then some { l with value } else none

@[simp] theorem acquire_value (k : κ) : (l.acquire k).value = l.value := rfl

theorem tryWrite_of_mem {l : RwLock κ α} {k : κ} (h : k ∈ l.readers) (value : α) :
    l.tryWrite value = none := by
  have hne : l.readers.isEmpty = false := by
    rw [List.isEmpty_eq_false_iff]
    exact List.ne_nil_of_mem h
  simp [tryWrite, hne]

theorem tryWrite_readers {l l' : RwLock κ α} {value : α} (h : l.tryWrite value = some l') :
    l'.readers = l.readers := by
  unfold tryWrite at h
  split at h
  · cases h
    rfl
  · cases h

end RwLock

end Desmos.Library

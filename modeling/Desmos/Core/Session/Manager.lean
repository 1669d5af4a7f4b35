import Mathlib.Data.List.AList
import Desmos.Core.Session

/-! # The session table

A map from session ids to sessions in any of the four states. A slot is filed
under the id of the session it holds. The locks of the source order the
operations; each of them is atomic here.
-/
namespace Desmos.Core
open Proto

inductive AnySession where
  | handshaking (s : Session Handshaking)
  | established (s : Session Established)
  | rekeying (s : Session Rekeying)
  | closed (s : Session Closed)
  deriving DecidableEq

namespace AnySession

def id : AnySession → SessionId
  | handshaking s => s.id
  | established s => s.id
  | rekeying s => s.id
  | closed s => s.id

end AnySession

/-- The slots, in no particular order, each filed under the id of its session. -/
structure SessionTable where
  slots : AList fun _ : SessionId => AnySession
  filed : ∀ id s, slots.lookup id = some s → s.id = id
  deriving DecidableEq

variable {t : SessionTable} {id : SessionId} {s : AnySession}

namespace SessionTable

def new : SessionTable := ⟨∅, by simp⟩

section
variable (t : SessionTable)

def len : ℕ := t.slots.entries.length

def isEmpty : Bool := t.len == 0

/-- File a session under its own id. -/
def set (s : AnySession) : SessionTable where
  slots := t.slots.insert s.id s
  filed := by
    intro id s' h
    by_cases he : id = s.id
    · subst he
      rw [AList.lookup_insert, Option.some.injEq] at h
      rw [h]
    · rw [AList.lookup_insert_ne he] at h
      exact t.filed id s' h

/-- Also returns the slot that was filed under the same id before. -/
def insert (s : AnySession) : Option AnySession × SessionTable :=
  (t.slots.lookup s.id, t.set s)

def get (id : SessionId) : Option AnySession := t.slots.lookup id

def remove (id : SessionId) : Option AnySession × SessionTable where
  fst := t.slots.lookup id
  snd :=
    { slots := t.slots.erase id
      filed := by
        intro j s h
        by_cases he : j = id
        · subst he
          rw [AList.lookup_erase] at h
          cases h
        · rw [AList.lookup_erase_ne he] at h
          exact t.filed j s h }

def ids : List SessionId := t.slots.keys

def contains (id : SessionId) : Bool := decide (id ∈ t.slots)

end

theorem contains_eq_false_iff :
    t.contains id = false ↔ t.get id = none := by
  rw [contains, decide_eq_false_iff_not, get, AList.lookup_eq_none]

@[simp] theorem get_set_self (t : SessionTable) (s : AnySession) :
    (t.set s).get s.id = some s := AList.lookup_insert t.slots

theorem get_set_of_ne (t : SessionTable) (h : id ≠ s.id) :
    (t.set s).get id = t.get id := AList.lookup_insert_ne h

/-- A session in the table after a write is the one written or was there before. -/
theorem get_set_eq_some {s' : AnySession}
    (h : (t.set s).get id = some s') : (id = s.id ∧ s' = s) ∨ t.get id = some s' := by
  by_cases hid : id = s.id
  · subst hid
    rw [get_set_self] at h
    exact Or.inl ⟨rfl, (Option.some.inj h).symm⟩
  · rw [get_set_of_ne t hid] at h
    exact Or.inr h

/-- Writing a session back into its slot files nothing new. -/
theorem get_set_eq_none_iff {s' : AnySession}
    (hs : t.get id = some s) (he : s'.id = s.id) (j : SessionId) :
    (t.set s').get j = none ↔ t.get j = none := by
  have hid : s'.id = id := he.trans (t.filed id s hs)
  by_cases hj : j = s'.id
  · subst hj
    rw [get_set_self, hid, hs]
    simp
  · rw [get_set_of_ne t hj]

theorem get_remove_self (t : SessionTable) (id : SessionId) : (t.remove id).2.get id = none :=
  AList.lookup_erase id t.slots

theorem get_remove_of_ne (t : SessionTable) {j : SessionId} (h : j ≠ id) :
    (t.remove id).2.get j = t.get j := AList.lookup_erase_ne h

/-- A session under an id that was not in use adds one slot. -/
theorem len_set_of_free (h : t.get s.id = none) :
    (t.set s).len = t.len + 1 := by
  have hmem : s.id ∉ t.slots := AList.lookup_eq_none.mp h
  rw [len, set, AList.entries_insert_of_notMem hmem]
  rfl

/-- A session under an id that is in use takes the place of the one that was there. -/
theorem len_set_of_taken (h : t.get s.id ≠ none) :
    (t.set s).len = t.len := by
  have hmem : s.id ∈ t.slots.keys := AList.mem_keys.mp (by
    by_contra hnot
    exact h (AList.lookup_eq_none.mpr hnot))
  have hlen : ∀ t : SessionTable, t.len = t.slots.keys.length := fun _ => (List.length_map _).symm
  have hpos := List.length_pos_of_mem hmem
  rw [hlen, hlen, set, AList.keys_insert, List.length_cons, List.length_erase_of_mem hmem]
  omega

theorem len_remove_le (t : SessionTable) (id : SessionId) : (t.remove id).2.len ≤ t.len :=
  (List.kerase_sublist id t.slots.entries).length_le

end SessionTable

end Desmos.Core

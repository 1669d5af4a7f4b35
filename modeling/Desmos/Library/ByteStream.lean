import Desmos.Library.Bytes

/-! # Byte streams that arrive in segments

A read takes what has arrived, up to the room that it has. When all segments are taken the
peer has closed the stream, or the read fails.
-/
namespace Desmos.Library

structure ByteStream (ε : Type*) where
  segments : List Bytes
  failure : Option ε

namespace ByteStream
variable {ε : Type*}

def read (s : ByteStream ε) (room : ℕ) : Except ε (Bytes × ByteStream ε) :=
  match s.segments with
  | [] =>
    match s.failure with
    | none => .ok ([], s)
    | some e => .error e
  | segment :: segments =>
    if segment.length ≤ room then .ok (segment, { s with segments })
    else .ok (segment.take room, { s with segments := segment.drop room :: segments })

theorem read_segment {segment : Bytes} {room : ℕ} (h : segment.length ≤ room)
    (segments : List Bytes) (failure : Option ε) :
    (ByteStream.mk (segment :: segments) failure).read room = .ok (segment, ⟨segments, failure⟩) :=
  if_pos h

end ByteStream

/-- A cut into segments cuts at the end of a part of the stream, or a segment crosses it. -/
theorem exists_segment_crossing {segments : List Bytes} {n : ℕ} (hn : 0 < n)
    (h : n ≤ segments.flatten.length) : ∃ early here late, segments = early ++ here :: late ∧
      early.flatten.length < n ∧ n ≤ (early.flatten ++ here).length := by
  induction segments generalizing n with
  | nil =>
    simp at h
    omega
  | cons segment segments ih =>
    rcases Nat.lt_or_ge segment.length n with hlt | hge
    · have hrest : n - segment.length ≤ segments.flatten.length := by
        rw [List.flatten_cons, List.length_append] at h
        omega
      obtain ⟨early, here, late, rfl, hearly, hhere⟩ := ih (by omega) hrest
      refine ⟨segment :: early, here, late, rfl, ?_, ?_⟩
      · rw [List.flatten_cons, List.length_append]
        omega
      · rw [List.flatten_cons, List.append_assoc, List.length_append]
        omega
    · exact ⟨[], segment, segments, rfl, by simpa using hn, by simpa using hge⟩

end Desmos.Library

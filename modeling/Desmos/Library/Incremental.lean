import Desmos.Library.Bytes

/-! # Decoding a stream as it arrives

A decoder looks at the front of a buffer and answers with an item and its length, or asks for more
bytes, or fails. The receiver keeps what is not yet a whole item.
-/
namespace Desmos.Library

variable {α ε : Type*}

abbrev Decoder (ε α : Type*) := Bytes → Except ε (Option (α × ℕ))

namespace Decoder

/-- Decode items off the front of the buffer as long as there are whole ones. -/
def drainWithin (decode : Decoder ε α) : ℕ → Bytes → Except ε (List α × Bytes)
  | 0, buf => .ok ([], buf)
  | fuel + 1, buf =>
    match decode buf with
    | .error e => .error e
    | .ok none => .ok ([], buf)
    | .ok (some (item, n)) =>
      match drainWithin decode fuel (buf.drop n) with
      | .error e => .error e
      | .ok (items, rest) => .ok (item :: items, rest)

/-- An item takes at least one byte, so that there are no more items than bytes. -/
def drain (decode : Decoder ε α) (buf : Bytes) : Except ε (List α × Bytes) :=
  decode.drainWithin buf.length buf

/-- The receiver: each segment goes behind what is left in the buffer. -/
def receive (decode : Decoder ε α) : (buf : Bytes) → List Bytes → Except ε (List α × Bytes)
  | buf, [] => .ok ([], buf)
  | buf, segment :: segments =>
    match decode.drain (buf ++ segment) with
    | .error e => .error e
    | .ok (items, rest) =>
      match receive decode rest segments with
      | .error e => .error e
      | .ok (more, rest) => .ok (items ++ more, rest)

/-- The decoder finds an item behind each of its words, whatever follows, and asks for more on
everything that only starts one. -/
structure SelfDelimiting (decode : Decoder ε α) (Word : α → Bytes → Prop) : Prop where
  whole : ∀ {item word}, Word item word → ∀ rest,
    decode (word ++ rest) = .ok (some (item, word.length))
  part : ∀ {item word}, Word item word → ∀ {front}, front <+: word → front ≠ word →
    decode front = .ok none
  empty : decode [] = .ok none

namespace SelfDelimiting

variable {decode : Decoder ε α} {Word : α → Bytes → Prop} {items : List α} {words : List Bytes}

theorem word_ne_nil (h : decode.SelfDelimiting Word) {item : α} {word : Bytes}
    (hw : Word item word) : word ≠ [] := by
  rintro rfl
  have hsome := h.whole hw []
  rw [List.nil_append, h.empty] at hsome
  cases hsome

/-- The buffer is the start of the next word, or empty if there is none. -/
def Waiting (buf : Bytes) (words : List Bytes) : Prop :=
  buf <+: words.flatten ∧ ∀ word ∈ words.head?, ¬ word <+: buf

theorem decode_waiting (h : decode.SelfDelimiting Word)
    (hwords : List.Forall₂ Word items words) {buf : Bytes} (hbuf : Waiting buf words) :
    decode buf = .ok none := by
  cases hwords with
  | nil =>
    rw [List.prefix_nil.mp hbuf.1]
    exact h.empty
  | @cons item word items words hword hrest =>
    have hnot : ¬ word <+: buf := hbuf.2 word rfl
    have hfront : buf <+: word := by
      rcases List.prefix_or_prefix_of_prefix hbuf.1 (List.prefix_append word words.flatten) with
        hle | hle
      · exact hle
      · exact absurd hle hnot
    apply h.part hword hfront
    rintro rfl
    exact hnot List.prefix_rfl

/-- Draining the start of a sequence of words delivers the words that are whole. -/
theorem drainWithin_eq (h : decode.SelfDelimiting Word)
    (hwords : List.Forall₂ Word items words) {fuel : ℕ} {buf : Bytes}
    (hfuel : buf.length ≤ fuel) (hbuf : buf <+: words.flatten) :
    ∃ done left doneWords leftWords rest, items = done ++ left ∧ words = doneWords ++ leftWords ∧
      List.Forall₂ Word left leftWords ∧ buf = doneWords.flatten ++ rest ∧
      Waiting rest leftWords ∧ decode.drainWithin fuel buf = .ok (done, rest) := by
  induction hwords generalizing fuel buf with
  | nil =>
    have hempty : buf = [] := List.prefix_nil.mp hbuf
    subst hempty
    refine ⟨[], [], [], [], [], rfl, rfl, .nil, rfl, ⟨List.prefix_rfl, by simp⟩, ?_⟩
    cases fuel with
    | zero => rfl
    | succ fuel => simp [drainWithin, h.empty]
  | @cons item word items words hword hrest ih =>
    by_cases hle : word <+: buf
    · obtain ⟨tail, rfl⟩ := hle
      have htail : tail <+: words.flatten := (List.prefix_append_right_inj word).mp hbuf
      have hpos : 0 < word.length := List.length_pos_iff.mpr (h.word_ne_nil hword)
      rw [List.length_append] at hfuel
      obtain ⟨fuel, rfl⟩ : ∃ n, fuel = n + 1 := ⟨fuel - 1, by omega⟩
      obtain ⟨done, left, doneWords, leftWords, rest, rfl, rfl, hleft, rfl, hwait, hdrain⟩ :=
        @ih fuel _ (by omega) htail
      refine ⟨item :: done, left, word :: doneWords, leftWords, rest, rfl, rfl, hleft,
        by simp, hwait, ?_⟩
      rw [drainWithin, h.whole hword]
      simp [hdrain]
    · have hwait : Waiting buf (word :: words) := by
        refine ⟨hbuf, fun w hw => ?_⟩
        cases hw
        exact hle
      refine ⟨[], item :: items, [], word :: words, buf, rfl, rfl, .cons hword hrest, rfl,
        hwait, ?_⟩
      have hnone := h.decode_waiting (.cons hword hrest) hwait
      cases fuel with
      | zero => rfl
      | succ fuel => simp [drainWithin, hnone]

/-- However a sequence of words is cut into segments, the receiver delivers their items. -/
theorem receive_eq (h : decode.SelfDelimiting Word)
    (hwords : List.Forall₂ Word items words) {buf : Bytes} (hwait : Waiting buf words)
    {segments : List Bytes} (hcut : buf ++ segments.flatten = words.flatten) :
    decode.receive buf segments = .ok (items, []) := by
  induction segments generalizing items words buf with
  | nil =>
    cases hwords with
    | nil =>
      rw [List.prefix_nil.mp hwait.1]
      rfl
    | @cons item word items words hword hrest =>
      refine absurd ?_ (hwait.2 word rfl)
      rw [List.flatten_nil, List.append_nil] at hcut
      rw [hcut]
      exact List.prefix_append _ _
  | cons segment segments ih =>
    have hbuf : buf ++ segment <+: words.flatten := by
      rw [← hcut, List.flatten_cons, ← List.append_assoc]
      exact List.prefix_append _ _
    obtain ⟨done, left, doneWords, leftWords, rest, rfl, rfl, hleft, hsplit, hwait', hdrain⟩ :=
      h.drainWithin_eq hwords (Nat.le_refl _) hbuf
    have hcut' : rest ++ segments.flatten = leftWords.flatten := by
      rw [List.flatten_cons, ← List.append_assoc, hsplit, List.flatten_append,
        List.append_assoc] at hcut
      exact List.append_cancel_left hcut
    rw [receive, drain, hdrain]
    simp [ih hleft hwait' hcut']

end SelfDelimiting

end Decoder

end Desmos.Library

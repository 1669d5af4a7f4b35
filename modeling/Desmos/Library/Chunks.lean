import Mathlib.Tactic

/-! # Lists cut into chunks

Chunks of `n` items, the last one shorter if the items do not come out even.
-/
namespace Desmos.Library

variable {α : Type*} {n : ℕ}

def chunks (n : ℕ) (l : List α) : List (List α) :=
  if _h : n = 0 ∨ l = [] then [] else l.take n :: chunks n (l.drop n)
termination_by l.length
decreasing_by
  have hl : l ≠ [] := fun hl => _h (Or.inr hl)
  have hn : n ≠ 0 := fun hn => _h (Or.inl hn)
  have := List.length_pos_iff.mpr hl
  rw [List.length_drop]
  omega

theorem chunks_of_pos (hn : 0 < n) {l : List α} (hl : l ≠ []) :
    chunks n l = l.take n :: chunks n (l.drop n) := by
  rw [chunks, dif_neg]
  rintro (h | h)
  · omega
  · exact hl h

@[simp] theorem chunks_nil (n : ℕ) : chunks n ([] : List α) = [] := by
  rw [chunks, dif_pos (Or.inr rfl)]

/-- An induction over the chunks of a list. -/
theorem chunks_induction (hn : 0 < n) {motive : List α → Prop} (nil : motive [])
    (cons : ∀ l, l ≠ [] → motive (l.drop n) → motive l) (l : List α) : motive l := by
  induction hl : l.length using Nat.strong_induction_on generalizing l with
  | _ m ih =>
    by_cases h : l = []
    · rw [h]
      exact nil
    · have := List.length_pos_iff.mpr h
      exact cons l h (ih (l.drop n).length (by rw [List.length_drop]; omega) _ rfl)

theorem chunks_flatten (hn : 0 < n) (l : List α) : (chunks n l).flatten = l := by
  induction l using chunks_induction hn with
  | nil => simp
  | cons l hl ih => rw [chunks_of_pos hn hl, List.flatten_cons, ih, List.take_append_drop]

theorem chunks_length_le (hn : 0 < n) (l : List α) : ∀ c ∈ chunks n l, c.length ≤ n := by
  induction l using chunks_induction hn with
  | nil => simp
  | cons l hl ih =>
    rw [chunks_of_pos hn hl, List.forall_mem_cons]
    exact ⟨List.length_take_le n l, ih⟩

theorem chunks_length (hn : 0 < n) (l : List α) : (chunks n l).length = (l.length + n - 1) / n := by
  induction l using chunks_induction hn with
  | nil =>
    rw [chunks_nil, List.length_nil, List.length_nil, Nat.div_eq_of_lt (by omega)]
  | cons l hl ih =>
    have hpos := List.length_pos_iff.mpr hl
    rw [chunks_of_pos hn hl, List.length_cons, ih, List.length_drop, ← Nat.add_div_right _ hn]
    rcases Nat.lt_or_ge l.length n with hlt | hge
    · rw [show l.length - n + n - 1 + n = n - 1 + n by omega,
        show l.length + n - 1 = l.length - 1 + n by omega, Nat.add_div_right _ hn,
        Nat.add_div_right _ hn, Nat.div_eq_of_lt (by omega), Nat.div_eq_of_lt (by omega)]
    · rw [show l.length - n + n - 1 + n = l.length + n - 1 by omega]

end Desmos.Library

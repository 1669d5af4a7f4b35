import Mathlib.Tactic

/-! # Items spread over buckets

A finite family of lists, seen as the multiset of all its items.
-/
namespace Desmos.Library.Buckets

variable {ι α : Type*} [Fintype ι]

/-- All items, in whatever bucket. The sum is over a concrete index type in every use, so it
is not to be unfolded there. -/
@[irreducible] def content (b : ι → List α) : Multiset α := ∑ i, (b i : Multiset α)

theorem content_empty : content (fun _ : ι => ([] : List α)) = 0 := by
  simp [content]

theorem mem_content {b : ι → List α} {a : α} : a ∈ content b ↔ ∃ i, a ∈ b i := by
  simp [content, Multiset.mem_sum]

variable [DecidableEq ι]

theorem content_update (b : ι → List α) (i : ι) (items : List α) :
    content (Function.update b i items) + (b i : Multiset α) = content b + (items : Multiset α) := by
  have hsum : ∀ c : ι → List α, content c =
      (c i : Multiset α) + ∑ j ∈ Finset.univ.erase i, (c j : Multiset α) := by
    intro c
    rw [content]
    exact (Finset.add_sum_erase Finset.univ (fun j => (c j : Multiset α)) (Finset.mem_univ i)).symm
  have hrest : ∑ j ∈ Finset.univ.erase i, (Function.update b i items j : Multiset α) =
      ∑ j ∈ Finset.univ.erase i, (b j : Multiset α) := by
    apply Finset.sum_congr rfl
    intro j hj
    rw [Function.update_of_ne (Finset.ne_of_mem_erase hj)]
  rw [hsum, hsum b, hrest, Function.update_self]
  abel

theorem content_clear (b : ι → List α) (i : ι) :
    content b = content (Function.update b i []) + (b i : Multiset α) := by
  rw [content_update, Multiset.coe_nil, add_zero]

theorem content_push (b : ι → List α) (i : ι) (a : α) :
    content (Function.update b i (b i ++ [a])) = a ::ₘ content b := by
  have h := content_update b i (b i ++ [a])
  rw [← Multiset.coe_add, ← add_assoc, add_right_comm] at h
  rw [add_right_cancel h, Multiset.coe_singleton, add_comm, Multiset.singleton_add]

end Desmos.Library.Buckets

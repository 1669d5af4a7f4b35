import Mathlib.Tactic

/-! # Choosing from a list

Two ways to spread calls over the entries of a list: a cursor that rotates, on a counter that wraps
around, and a draw in proportion to weights, by a walk over their running sum.
-/
namespace Desmos.Library

theorem perm_range_of_nodup {n : ℕ} {l : List ℕ} (hnodup : l.Nodup) (hlt : ∀ i ∈ l, i < n)
    (hlen : n ≤ l.length) : l.Perm (List.range n) := by
  apply (List.subperm_of_subset hnodup _).perm_of_length_le
  · simpa using hlen
  · exact fun i hi => List.mem_range.mpr (hlt i hi)

/-- The entry of `n` that the `k`-th call from `cursor` chooses, on a counter with `m` values. -/
def wrappedIndex (m n cursor k : ℕ) : ℕ := (cursor + k) % m % n

section Rotation
variable {m n cursor : ℕ}

/-- The calls after the first are calls from the next value of the counter. -/
theorem wrappedIndex_succ (m n cursor k : ℕ) :
    wrappedIndex m n cursor (k + 1) = wrappedIndex m n ((cursor + 1) % m) k := by
  rw [wrappedIndex, wrappedIndex, Nat.mod_add_mod, Nat.add_assoc, Nat.add_comm 1 k]

/-- If the counter does not wrap around on the way, or wraps at a multiple of `n`, calls in a row
choose residues in a row. -/
theorem wrappedIndex_eq {k : ℕ} (hk : k < n) (h : cursor + n ≤ m ∨ n ∣ m) :
    wrappedIndex m n cursor k = (cursor + k) % n := by
  rcases h with hfit | hdvd
  · rw [wrappedIndex, Nat.mod_eq_of_lt (by omega : cursor + k < m)]
  · rw [wrappedIndex, Nat.mod_mod_of_dvd _ hdvd]

/-- Behind a wrap at another place the first entry comes around once more. -/
theorem wrappedIndex_repeats (hcursor : cursor < m) (hn : n ≤ m) (hwrap : m < cursor + n)
    (hdvd : ¬ n ∣ m) (hall : ∃ k < n, wrappedIndex m n cursor k = n - 1) :
    ∃ k < n, ∃ j < n, k ≠ j ∧ wrappedIndex m n cursor k = 0 ∧ wrappedIndex m n cursor j = 0 := by
  obtain ⟨k, hk, hlast⟩ := hall
  have hafter : wrappedIndex m n cursor (m - cursor) = 0 := by
    rw [wrappedIndex, Nat.add_sub_cancel' hcursor.le, Nat.mod_self, Nat.zero_mod]
  -- the last entry is chosen before the wrap, and not by the last call before it
  have hbefore : cursor + k < m := by
    by_contra hge
    have hmod : (cursor + k) % m = cursor + k - m := by
      rw [Nat.mod_eq_sub_mod (by omega), Nat.mod_eq_of_lt (by omega)]
    rw [wrappedIndex, hmod, Nat.mod_eq_of_lt (by omega)] at hlast
    omega
  rw [wrappedIndex, Nat.mod_eq_of_lt hbefore] at hlast
  have hnext : (cursor + k + 1) % n = 0 := by
    rw [Nat.add_mod, hlast]
    rcases Nat.lt_or_ge 1 n with hone | hone
    · rw [Nat.mod_eq_of_lt hone, Nat.sub_add_cancel hone.le, Nat.mod_self]
    · obtain rfl : n = 1 := by omega
      exact Nat.mod_one _
  have hmore : cursor + k + 1 < m := by
    refine lt_of_le_of_ne hbefore fun heq => hdvd ?_
    rw [← heq]
    exact Nat.dvd_of_mod_eq_zero hnext
  refine ⟨k + 1, by omega, m - cursor, by omega, by omega, ?_, hafter⟩
  rw [wrappedIndex, ← Nat.add_assoc, Nat.mod_eq_of_lt hmore]
  exact hnext

/-- `n` calls in a row choose every entry once exactly when the counter does not wrap around on the
way, or wraps at a multiple of `n`. -/
theorem perm_wrappedIndex_iff (hcursor : cursor < m) (hpos : 0 < n) (hn : n ≤ m) :
    ((List.range n).map (wrappedIndex m n cursor)).Perm (List.range n) ↔
      cursor + n ≤ m ∨ n ∣ m := by
  constructor
  · intro hperm
    by_contra hboth
    obtain ⟨hwrap, hdvd⟩ := not_or.mp hboth
    have hall : ∃ k < n, wrappedIndex m n cursor k = n - 1 := by
      have hmem := hperm.mem_iff.mpr (List.mem_range.mpr (Nat.sub_one_lt hpos.ne'))
      simpa using hmem
    obtain ⟨k, hk, j, hj, hne, hzero, hzero'⟩ :=
      wrappedIndex_repeats hcursor hn (not_le.mp hwrap) hdvd hall
    have hinj := List.inj_on_of_nodup_map (hperm.nodup_iff.mpr List.nodup_range)
    exact hne (hinj (List.mem_range.mpr hk) (List.mem_range.mpr hj) (hzero.trans hzero'.symm))
  · intro h
    have hinj : ∀ k ∈ List.range n, ∀ j ∈ List.range n,
        wrappedIndex m n cursor k = wrappedIndex m n cursor j → k = j := by
      intro k hk j hj heq
      rw [List.mem_range] at hk hj
      rw [wrappedIndex_eq hk h, wrappedIndex_eq hj h] at heq
      have hmod : k ≡ j [MOD n] := Nat.ModEq.add_left_cancel' cursor heq
      rwa [Nat.ModEq, Nat.mod_eq_of_lt hk, Nat.mod_eq_of_lt hj] at hmod
    apply perm_range_of_nodup (List.Nodup.map_on hinj List.nodup_range)
    · rw [List.forall_mem_map]
      exact fun k _ => Nat.mod_lt _ hpos
    · simp

end Rotation

/-- The entry that a walk over the running sum of the weights stops at. -/
def cumulativeIndex (pick : ℕ) : List ℕ → Option ℕ
  | [] => none
  | w :: ws => if pick < w then some 0 else (cumulativeIndex (pick - w) ws).map (· + 1)

section Proportion
variable {w : ℕ} {ws : List ℕ}

theorem cumulativeIndex_cons_add (pick : ℕ) :
    cumulativeIndex (w + pick) (w :: ws) = (cumulativeIndex pick ws).map (· + 1) := by
  rw [cumulativeIndex, if_neg (by omega), Nat.add_sub_cancel_left]

/-- A draw below the sum stops at an entry, and this entry has a weight. -/
theorem cumulativeIndex_of_lt {pick : ℕ} (h : pick < ws.sum) :
    ∃ i v, cumulativeIndex pick ws = some i ∧ ws[i]? = some v ∧ 0 < v := by
  induction ws generalizing pick with
  | nil => simp at h
  | cons w ws ih =>
    by_cases hw : pick < w
    · exact ⟨0, w, by rw [cumulativeIndex, if_pos hw], rfl, by omega⟩
    · rw [List.sum_cons] at h
      have hrest : pick - w < ws.sum := by omega
      obtain ⟨i, v, hi, hv, hpos⟩ := ih hrest
      exact ⟨i + 1, v, by rw [cumulativeIndex, if_neg hw, hi, Option.map_some], hv, hpos⟩

/-- Of the draws below the sum, an entry gets as many as its weight. -/
theorem count_cumulativeIndex {i v : ℕ} (h : ws[i]? = some v) :
    Nat.count (fun pick => cumulativeIndex pick ws = some i) ws.sum = v := by
  induction ws generalizing i with
  | nil => simp at h
  | cons w ws ih =>
    rw [List.sum_cons, Nat.count_add]
    simp only [cumulativeIndex_cons_add]
    have hfirst : ∀ pick < w, cumulativeIndex pick (w :: ws) = some 0 := fun pick hpick => by
      rw [cumulativeIndex, if_pos hpick]
    cases i with
    | zero =>
      cases h
      rw [Nat.count_of_forall hfirst, Nat.count_of_forall_not, Nat.add_zero]
      simp
    | succ i =>
      rw [Nat.count_of_forall_not fun pick hpick => by simp [hfirst pick hpick], Nat.zero_add]
      simpa using ih h

end Proportion

/-- A loop that keeps the last match finds what a search from the end finds. -/
theorem foldl_ite_some {α β : Type*} (p : α → Bool) (f : α → β) (xs : List α) :
    xs.foldl (fun found x => if p x then some (f x) else found) none =
      (xs.reverse.find? p).map f := by
  induction xs using List.reverseRecOn with
  | nil => rfl
  | append_singleton xs x ih =>
    rw [List.foldl_concat, ih, List.reverse_concat, List.find?_cons]
    cases p x <;> rfl

end Desmos.Library

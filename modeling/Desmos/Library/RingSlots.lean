import Mathlib.Tactic

/-! # What the slots of a ring hold

Items are numbered in the order in which they are stored, and item `n` goes into slot `n % cap`. A
reader that asks for a position gets the last item of its slot.
-/
namespace Desmos.Library.RingSlots

variable {cap w q n : ℕ}

/-- The last of the first `w` items in the slot of position `q`. -/
def latest (cap w q : ℕ) : Option ℕ :=
  if q % cap < w then some (q % cap + (w - 1 - q % cap) / cap * cap) else none

theorem latest_eq_some_iff (hcap : 0 < cap) :
    latest cap w q = some n ↔ n ≡ q [MOD cap] ∧ n < w ∧ w ≤ n + cap := by
  have hslot := Nat.mod_lt q hcap
  unfold latest
  constructor
  · intro h
    split_ifs at h with hlt
    cases h
    have hround := Nat.div_add_mod' (w - 1 - q % cap) cap
    have hrest := Nat.mod_lt (w - 1 - q % cap) hcap
    refine ⟨?_, by omega, by omega⟩
    rw [Nat.ModEq, Nat.add_mul_mod_self_right, Nat.mod_mod]
  · rintro ⟨hmod, hlt, hle⟩
    have hn := Nat.div_add_mod' n cap
    rw [hmod] at hn
    have hround : (w - 1 - q % cap) / cap = n / cap := by
      apply Nat.div_eq_of_lt_le
      · omega
      · rw [Nat.add_mul]
        omega
    rw [if_pos (by omega), hround]
    congr 1
    omega

@[simp] theorem latest_zero : latest cap 0 q = none := by
  simp [latest]

/-- A position gets its own item from the time it is stored until the next of its slot is. -/
theorem latest_self_iff (hcap : 0 < cap) : latest cap w q = some q ↔ q < w ∧ w ≤ q + cap := by
  rw [latest_eq_some_iff hcap]
  exact and_iff_right (Nat.ModEq.refl q)

theorem latest_succ (hcap : 0 < cap) (w q : ℕ) :
    latest cap (w + 1) q = if w ≡ q [MOD cap] then some w else latest cap w q := by
  ext n
  split_ifs with hslot
  · rw [latest_eq_some_iff hcap, Option.some.injEq]
    constructor
    · rintro ⟨hmod, hlt, hle⟩
      by_contra hne
      have := (hmod.trans hslot.symm).add_le_of_lt (by omega)
      omega
    · rintro rfl
      exact ⟨hslot, by omega, by omega⟩
  · rw [latest_eq_some_iff hcap, latest_eq_some_iff hcap]
    constructor
    · rintro ⟨hmod, hlt, hle⟩
      have hne : n ≠ w := by
        rintro rfl
        exact hslot hmod
      exact ⟨hmod, by omega, by omega⟩
    · rintro ⟨hmod, hlt, hle⟩
      have hne : w ≠ n + cap := by
        rintro rfl
        exact hslot (Nat.ModEq.trans Nat.add_modEq_right hmod)
      exact ⟨hmod, by omega, by omega⟩

/-- Reads at rising positions, each after as many stored items as those before it or more. If
every position that is read is obtained by some read, every read obtains its own. -/
theorem latest_self_of_covered (hcap : 0 < cap) {reads : List (ℕ × ℕ)}
    (horder : reads.Pairwise fun a b => a.1 < b.1 ∧ a.2 ≤ b.2)
    (hcovered : ∀ a ∈ reads, ∃ b ∈ reads, latest cap b.2 b.1 = some a.1) :
    ∀ a ∈ reads, latest cap a.2 a.1 = some a.1 := by
  have htri : ∀ a ∈ reads, ∀ b ∈ reads, a = b ∨ (a.1 < b.1 ∧ a.2 ≤ b.2) ∨
      (b.1 < a.1 ∧ b.2 ≤ a.2) := by
    intro a ha b hb
    obtain ⟨i, hi, rfl⟩ := List.getElem_of_mem ha
    obtain ⟨j, hj, rfl⟩ := List.getElem_of_mem hb
    rcases lt_trichotomy i j with hij | rfl | hji
    · exact Or.inr (Or.inl (List.pairwise_iff_getElem.mp horder i j hi hj hij))
    · exact Or.inl rfl
    · exact Or.inr (Or.inr (List.pairwise_iff_getElem.mp horder j i hj hi hji))
  -- the first read that comes too late would leave its position to nobody
  have hfresh : ∀ n, ∀ a ∈ reads, a.1 = n → a.2 ≤ a.1 + cap := by
    intro n
    induction n using Nat.strong_induction_on with
    | _ n ih =>
      rintro a ha rfl
      obtain ⟨b, hb, hgot⟩ := hcovered a ha
      obtain ⟨hmod, hlt, hle⟩ := (latest_eq_some_iff hcap).mp hgot
      rcases htri a ha b hb with rfl | ⟨-, hlater⟩ | ⟨hbefore, -⟩
      · exact hle
      · omega
      · have hround := hmod.symm.add_le_of_lt hbefore
        have hb' := ih b.1 hbefore b hb rfl
        omega
  -- and so would the last read that comes too early
  have hstored : ∀ k, ∀ a ∈ reads, (reads.map Prod.fst).sum - a.1 = k → a.1 < a.2 := by
    intro k
    induction k using Nat.strong_induction_on with
    | _ k ih =>
      rintro a ha rfl
      obtain ⟨b, hb, hgot⟩ := hcovered a ha
      obtain ⟨hmod, hlt, hle⟩ := (latest_eq_some_iff hcap).mp hgot
      rcases htri a ha b hb with rfl | ⟨hbefore, -⟩ | ⟨-, hlater⟩
      · exact hlt
      · have hround := hmod.add_le_of_lt hbefore
        have hbound : b.1 ≤ (reads.map Prod.fst).sum :=
          List.le_sum_of_mem (List.mem_map_of_mem hb)
        have hb' := ih _ (by omega) b hb rfl
        omega
      · omega
  intro a ha
  exact (latest_self_iff hcap).mpr ⟨hstored _ a ha rfl, hfresh _ a ha rfl⟩

end Desmos.Library.RingSlots

import Desmos.Core.Bonding.Reorder

/-! # What waits is ahead of what is expected

The largest number never waits: it is handed out or counted as a duplicate. So what waits stays
ahead in builds that wrap around as well.
-/
namespace Desmos.Core
open Library

namespace ReorderBuffer
variable {T : Type*} {trap : Bool} {buf buf' : ReorderBuffer T} {out : List T}
  {seq nowMs : UInt64} {payload : T}

theorem drainContiguous_empty (h : buf.pending.entries = []) :
    drainContiguous trap buf = some ([], buf) := by
  have hget : buf.pending.get? buf.nextExpected = none := by
    rw [SortedMap.get?, h]
    rfl
  rw [drainContiguous]
  split
  · rfl
  · next p hp =>
    rw [hget] at hp
    cases hp

theorem ahead_of_empty (h : buf.pending.entries = []) : buf.Ahead := by
  rintro d ⟨t, hmem⟩
  rw [h] at hmem
  cases hmem

theorem push_top_ahead (ha : buf.Ahead)
    (h : buf.push trap 0xFFFFFFFFFFFFFFFF payload nowMs = some (out, buf')) : buf'.Ahead := by
  have htop : ∀ k : UInt64, ¬ 0xFFFFFFFFFFFFFFFF < k := by
    intro k hk
    have := UInt64.lt_iff_toNat_lt.mp hk
    have := k.toNat_lt
    have htop : UInt64.toNat 0xFFFFFFFFFFFFFFFF = 2 ^ 64 - 1 := rfl
    omega
  have hdeliver : ∀ {mid : ReorderBuffer T}, mid.pending.entries = [] →
      deliver trap mid 0xFFFFFFFFFFFFFFFF payload = some (out, buf') → buf'.Ahead := by
    intro mid hempty hd
    simp only [deliver] at hd
    split at hd
    · next nextExpected delivered _ _ =>
      have hdrain : drainContiguous trap { mid with nextExpected, delivered } = some ([], _) :=
        drainContiguous_empty hempty
      rw [hdrain] at hd
      cases hd
      exact ahead_of_empty hempty
    · cases hd
  have hduplicate : buf.countDuplicate trap = some (out, buf') → buf'.Ahead := by
    intro hd
    obtain ⟨n, -, heq⟩ := Option.map_eq_some_iff.mp hd
    cases heq
    exact ha
  simp only [push] at h
  split at h
  · next hinit =>
    split at h
    · cases h
      intro d hd
      have hold := (ha d hd).1
      rw [hinit] at hold
      cases hold
    · cases h
  split at h
  · exact hduplicate h
  split at h
  · exact hduplicate h
  split at h
  · cases h
  next limit hlimit =>
  split at h
  · split at h
    · cases h
    next mid hskip =>
    obtain ⟨lost, rfl⟩ := skipTo_eq hskip
    refine hdeliver ?_ h
    simp only [SortedMap.retain, List.filter_eq_nil_iff]
    exact fun e _ hlt => htop e.1 (by simpa using hlt)
  next hless => exact absurd (not_le.mp hless) (htop limit)

/-- What waits is ahead of what is expected after any call, in any build. -/
theorem call_ahead {c : ReorderCall T} (ha : buf.Ahead) (h : buf.call trap c = some (out, buf')) :
    buf'.Ahead := by
  by_cases hc : InRange c
  · obtain ⟨ds, -, hstep⟩ := call_step ha hc h
    exact hstep.ahead ha hc
  · obtain ⟨d, ⟨nowMs, rfl⟩, htop⟩ : ∃ d, c.Pushes d ∧ d.1 = 0xFFFFFFFFFFFFFFFF := by
      simpa [InRange] using hc
    rw [call, htop] at h
    exact push_top_ahead ha h

theorem reorderRun_ahead (trap : Bool) (window gapTimeoutMs : UInt64) (run : List (ReorderCall T)) :
    ∀ buf, (reorderRun trap).final (some (new window gapTimeoutMs)) run = some buf → buf.Ahead := by
  refine Machine.final_invariant (I := fun s : Option (ReorderBuffer T) => ∀ buf, s = some buf →
    buf.Ahead) ?_ ?_ run
  · intro s c hs buf' hnext
    cases s with
    | none => cases hnext
    | some buf =>
      cases hcall : buf.call trap c with
      | none =>
        rw [reorderRun, Option.bind_some, hcall] at hnext
        cases hnext
      | some r =>
        rw [reorderRun, Option.bind_some, hcall] at hnext
        cases hnext
        exact call_ahead (hs buf rfl) hcall
  · rintro buf ⟨⟩
    exact new_ahead window gapTimeoutMs

end ReorderBuffer

end Desmos.Core

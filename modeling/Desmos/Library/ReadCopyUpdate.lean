import Mathlib.Data.Bool.Count
import Desmos.Library.Threads

/-! # Writers that copy, change and swap

A writer takes a snapshot of a shared list, changes items of the copy and swaps the copy in. Of two
writers that both copy before either swaps, the first swap is overwritten.
-/
namespace Desmos.Library

variable {α : Type*}

/-- What a writer does to each item, and whether it swaps at all. A writer that does not would
have changed nothing. -/
structure Writer (α : Type*) where
  fires : List α → Bool
  effect : α → α
  quiet : ∀ items, fires items = false → ∀ a ∈ items, effect a = a

inductive Copying (α : Type*) where
  | start
  | copied (snapshot : List α)
  | done

variable {items : List α}

namespace Writer

/-- One atomic step of a writer: its snapshot, then its swap. -/
def step (w : Writer α) : Program (List α) (Copying α) Unit Unit := fun shared pc _ =>
  match pc with
  | .start => ((), shared, .copied shared)
  | .copied snapshot =>
    ((), if w.fires snapshot then snapshot.map w.effect else shared, .done)
  | .done => ((), shared, .done)

/-- What is shared after two writers have taken the steps of a schedule. -/
def race (w : Bool → Writer α) (items : List α) (schedule : List Bool) : List α :=
  ((Pool.interleave fun k => (w k).step).final ⟨items, fun _ => .start⟩
    (schedule.map fun k => (k, ()))).shared

/-- A schedule that gives each of two writers its two steps. -/
def Interleaving (schedule : List Bool) : Prop :=
  schedule.count false = 2 ∧ schedule.count true = 2

/-- The writer whose swap comes first although the other has copied already. -/
def overwritten : List Bool → Option Bool
  | [a, b, c, _] => if a = b then none else some c
  | _ => none

/-- Each item is left alone by one of the writers, whatever the other has done to it. -/
def Apart (v w : Writer α) (items : List α) : Prop :=
  ∀ a ∈ items, (v.effect a = a ∧ v.effect (w.effect a) = w.effect a) ∨
    (w.effect a = a ∧ w.effect (v.effect a) = v.effect a)

theorem Apart.symm {v w : Writer α} (h : Apart v w items) : Apart w v items :=
  fun a ha => (h a ha).symm

theorem Apart.comm {v w : Writer α} (h : Apart v w items) :
    ∀ a ∈ items, w.effect (v.effect a) = v.effect (w.effect a) := by
  intro a ha
  rcases h a ha with ⟨h1, h2⟩ | ⟨h1, h2⟩
  · rw [h1, h2]
  · rw [h1, h2]

theorem swap_own (w : Writer α) (items : List α) :
    (if w.fires items then items.map w.effect else items) = items.map w.effect := by
  split
  · rfl
  · next hquiet =>
    have hsame := w.quiet items (by simpa using hquiet)
    rw [List.map_congr_left hsame, List.map_id']

/-- A copy made before the first writer's swap shows that swap only if there is nothing to show. -/
theorem Apart.overlap_iff {v w : Writer α} (h : Apart v w items) :
    (if w.fires items then items.map w.effect else items.map v.effect) =
        items.map (fun a => w.effect (v.effect a)) ↔
      (∀ a ∈ items, v.effect a = a) ∨ w.fires items = false := by
  cases hfires : w.fires items with
  | false =>
    have hsame := w.quiet items hfires
    have hmap : ∀ a ∈ items, v.effect a = w.effect (v.effect a) := by
      intro a ha
      rw [h.comm a ha, hsame a ha]
    simpa using hmap
  | true =>
    simp only [if_true, List.map_inj_left, reduceCtorEq, or_false]
    refine forall₂_congr fun a ha => ⟨fun heq => ?_, fun hv => by rw [hv]⟩
    rcases h a ha with ⟨hv, -⟩ | ⟨hw, hwv⟩
    · exact hv
    · rw [← hwv, ← heq, hw]

theorem interleaving_cases {schedule : List Bool} (h : Interleaving schedule) :
    ∃ k, schedule = [k, k, !k, !k] ∨ schedule = [k, !k, k, !k] ∨ schedule = [!k, k, k, !k] := by
  have hlen : schedule.length = 4 := by
    have hsum := List.count_false_add_count_true schedule
    have h0 := h.1
    have h1 := h.2
    omega
  obtain ⟨a, b, c, d, rfl⟩ := List.length_eq_four.mp hlen
  revert h
  unfold Interleaving
  revert a b c d
  decide

/-- The writers one after the other. -/
theorem race_serial (w : Bool → Writer α) (items : List α) (k : Bool) :
    race w items [k, k, !k, !k] = (items.map (w k).effect).map (w !k).effect := by
  rw [← swap_own (w !k) (items.map (w k).effect), ← swap_own (w k) items]
  cases k <;> simp [race, Pool.interleave, step, Machine.final, Function.update]

/-- The swap of the second writer does away with that of the first. -/
theorem race_overlap (w : Bool → Writer α) (items : List α) (k : Bool) :
    race w items [k, !k, k, !k] = if (w !k).fires items then items.map (w !k).effect
      else items.map (w k).effect := by
  rw [← swap_own (w k) items]
  cases k <;> simp [race, Pool.interleave, step, Machine.final, Function.update]

theorem race_overlap' (w : Bool → Writer α) (items : List α) (k : Bool) :
    race w items [!k, k, k, !k] = race w items [k, !k, k, !k] := by
  cases k <;> simp [race, Pool.interleave, step, Machine.final, Function.update]

/-- Two writers that are apart leave both their effects exactly if neither swap is overwritten,
or the overwritten one changed nothing, or the other did not swap. -/
theorem race_eq_both_iff {w : Bool → Writer α}
    (hapart : Apart (w false) (w true) items) {schedule : List Bool}
    (hs : Interleaving schedule) :
    race w items schedule = items.map (fun a => (w true).effect ((w false).effect a)) ↔
      ∀ k, overwritten schedule = some k →
        (∀ a ∈ items, (w k).effect a = a) ∨ (w !k).fires items = false := by
  -- by symmetry, both effects in the order of the schedule's first swap
  have hboth (k : Bool) : items.map (fun a => (w true).effect ((w false).effect a)) =
      items.map fun a => (w !k).effect ((w k).effect a) := by
    cases k with
    | false => rfl
    | true => exact List.map_congr_left hapart.comm
  have hk (k : Bool) : Apart (w k) (w !k) items := by
    cases k with
    | false => exact hapart
    | true => exact hapart.symm
  have hoverlap (k : Bool) : race w items [k, !k, k, !k] =
      items.map (fun a => (w true).effect ((w false).effect a)) ↔
        (∀ a ∈ items, (w k).effect a = a) ∨ (w !k).fires items = false := by
    rw [race_overlap, hboth k]
    exact (hk k).overlap_iff
  obtain ⟨k, rfl | rfl | rfl⟩ := interleaving_cases hs
  · rw [race_serial, hboth k, List.map_map]
    simp [overwritten, Function.comp_def]
  · rw [hoverlap k]
    simp [overwritten]
  · rw [race_overlap', hoverlap k]
    simp [overwritten]

end Writer

end Desmos.Library

import Desmos.Core.Bonding.Reorder.Accounting

/-! # What the gap timeout bounds

A poll that finds an overdue packet gives up the first gap, whichever packet is overdue, and hands
out the block behind it. It empties the buffer of overdue packets only if they all stand in that
block.
-/
namespace Desmos.Core
open Library

namespace ReorderBuffer
variable {T : Type*} {trap : Bool} {buf buf' : ReorderBuffer T} {nowMs : UInt64}

section
variable (buf : ReorderBuffer T)

/-- The packet is waiting, and has been for the gap timeout or longer. -/
def Overdue (nowMs : UInt64) (e : UInt64 × Pending T) : Prop :=
  e ∈ buf.pending.entries ∧ buf.gapTimeoutMs ≤ saturatingSub64 nowMs e.2.receivedAtMs

/-- The packet is waiting right behind a gap. -/
def BehindGap (e : UInt64 × Pending T) : Prop :=
  e ∈ buf.pending.entries ∧ buf.nextExpected < e.1 ∧
    ∀ d ∈ buf.pending.entries, d.1.toNat + 1 ≠ e.1.toNat

/-- A number is given up on the way from `buf` to `buf'` only if the packet right behind its gap
is overdue, or one right behind an earlier gap. -/
def GapsExcused (nowMs : UInt64) (buf' : ReorderBuffer T) : Prop :=
  ∀ n, buf.nextExpected.toNat ≤ n → n < buf'.nextExpected.toNat → n ∉ buf.keys →
    ∃ e, buf.Overdue nowMs e ∧ buf.BehindGap e ∧
      ∀ d ∈ buf.pending.entries, n < d.1.toNat → e.1 ≤ d.1

/-- If a packet is overdue, then so is the first one that waits, and no number between the two is
missing. -/
def OverdueInFront (nowMs : UInt64) : Prop :=
  ∀ e, buf.Overdue nowMs e → ∃ first, buf.Overdue nowMs first ∧
    (∀ d ∈ buf.pending.entries, first.1 ≤ d.1) ∧
    ∀ n, first.1.toNat ≤ n → n ≤ e.1.toNat → n ∈ buf.keys

end

theorem oldestAge_lt_iff (hne : buf.pending.entries ≠ []) :
    buf.oldestAge nowMs < buf.gapTimeoutMs ↔ ∀ e, ¬ buf.Overdue nowMs e := by
  have hages : (buf.pending.values.map fun p => saturatingSub64 nowMs p.receivedAtMs) ≠ [] := by
    simpa [SortedMap.values] using hne
  obtain ⟨m, hm⟩ := Option.ne_none_iff_exists'.mp (mt List.max?_eq_none_iff.mp hages)
  obtain ⟨hmem, hmax⟩ := List.max?_eq_some_iff.mp hm
  rw [oldestAge, hm, Option.getD_some]
  constructor
  · rintro hlt e ⟨he, hage⟩
    have hle := hmax _ (List.mem_map_of_mem (List.mem_map_of_mem he))
    exact absurd (hage.trans hle) (not_le.mpr hlt)
  · intro hnone
    obtain ⟨p, hp, rfl⟩ := List.mem_map.mp hmem
    obtain ⟨e, he, rfl⟩ := List.mem_map.mp hp
    exact not_le.mp fun hage => hnone e ⟨he, hage⟩

theorem drainContiguous_returns (trap : Bool) (buf : ReorderBuffer T)
    (hpend : ∀ e ∈ buf.pending.entries, buf.nextExpected ≤ e.1 ∧ e.1 ≠ 0xFFFFFFFFFFFFFFFF)
    (hcount : trap = true → buf.delivered.toNat ≤ buf.nextExpected.toNat) :
    ∃ r, drainContiguous trap buf = some r := by
  fun_induction drainContiguous trap buf with
  | case1 buf hget => exact ⟨_, rfl⟩
  | case2 => exact ⟨_, rfl⟩
  | case3 buf p hget next delivered hdel hnext hdrain ih =>
    have hsucc : (buf.nextExpected + 1).toNat = buf.nextExpected.toNat + 1 :=
      U64.toNat_succ (hpend _ (SortedMap.mem_of_get? hget)).2
    obtain rfl := U64.eq_of_add hnext
    obtain ⟨r, hr⟩ := ih (fun e he => by
      obtain ⟨hold, hne⟩ := SortedMap.mem_erase.mp he
      obtain ⟨hle, hmax⟩ := hpend e hold
      exact ⟨U64.succ_le (lt_of_le_of_ne hle (Ne.symm hne)), hmax⟩) fun htrap => by
        have hone := U64.toNat_of_add hdel (Or.inl htrap)
        have h1 : UInt64.toNat 1 = 1 := rfl
        have := hcount htrap
        dsimp only
        omega
    rw [hr] at hdrain
    cases hdrain
  | case4 buf p hget hstop =>
    have hsucc : (buf.nextExpected + 1).toNat = buf.nextExpected.toNat + 1 :=
      U64.toNat_succ (hpend _ (SortedMap.mem_of_get? hget)).2
    have hlt := (buf.nextExpected + 1).toNat_lt
    have h1 : UInt64.toNat 1 = 1 := rfl
    refine absurd (U64.add_eq_some ?_) (fun hdel => hstop _ _ (U64.add_eq_some ?_) hdel)
    · intro htrap
      have := hcount htrap
      omega
    · omega

/-- What a poll does: nothing while no packet is overdue, and else it drains from the first
packet that waits. -/
theorem pollTimeout_cases (nowMs : UInt64) (ha : buf.Ahead) (hroom : trap = true →
      buf.delivered.toNat ≤ buf.nextExpected.toNat ∧ buf.lost.toNat ≤ buf.nextExpected.toNat) :
    (buf.pollTimeout trap nowMs = some ([], buf) ∧ ∀ e, ¬ buf.Overdue nowMs e) ∨
    ∃ first lost block out buf', buf.pollTimeout trap nowMs = some (out, buf') ∧
      (∃ e, buf.Overdue nowMs e) ∧ first ∈ buf.pending.entries ∧
      (∀ d ∈ buf.pending.entries, first.1 ≤ d.1) ∧
      Drains trap { buf with lost, nextExpected := first.1 } block buf' := by
  by_cases hempty : buf.pending.entries = []
  · refine Or.inl ⟨?_, fun e he => ?_⟩
    · have hnone : buf.pending.isEmpty = true := List.isEmpty_iff.mpr hempty
      rw [pollTimeout, if_pos hnone]
    · rw [Overdue, hempty] at he
      exact absurd he.1 List.not_mem_nil
  have hsome : ¬ buf.pending.isEmpty = true := fun h => hempty (List.isEmpty_iff.mp h)
  by_cases hyoung : buf.oldestAge nowMs < buf.gapTimeoutMs
  · refine Or.inl ⟨?_, (oldestAge_lt_iff hempty).mp hyoung⟩
    rw [pollTimeout, if_neg hsome]
    exact if_pos hyoung
  obtain ⟨first, rest, hentries⟩ := List.exists_cons_of_ne_nil hempty
  have hfirst : buf.pending.firstKey? = some first.1 := by
    rw [SortedMap.firstKey?, hentries]
    rfl
  have hmem : first ∈ buf.pending.entries := hentries ▸ List.mem_cons_self
  have hleast := (SortedMap.firstKey?_spec hfirst).2
  have hlt := (ha.entries hmem).2.1
  have hgap := UInt64.lt_iff_toNat_lt.mp hlt
  have hskip : buf.skipTo trap first.1 =
      some { buf with lost := buf.lost + (first.1 - buf.nextExpected) } := by
    rw [skipTo, U64.sub_eq_some trap hlt.le]
    dsimp only
    rw [U64.add_eq_some, Option.map_some]
    intro htrap
    have := (hroom htrap).2
    have := first.1.toNat_lt
    rw [UInt64.toNat_sub_of_le _ _ hlt.le]
    omega
  have hpend : ∀ e ∈ buf.pending.entries, first.1 ≤ e.1 ∧ e.1 ≠ 0xFFFFFFFFFFFFFFFF :=
    fun e he => ⟨hleast e he, (ha.entries he).2.2⟩
  obtain ⟨⟨out, buf'⟩, hdrain⟩ := drainContiguous_returns trap
    { buf with lost := buf.lost + (first.1 - buf.nextExpected), nextExpected := first.1 } hpend
    fun htrap => by
      have := (hroom htrap).1
      dsimp only
      omega
  obtain ⟨block, -, hd⟩ := drainContiguous_drains hdrain hpend
  refine Or.inr ⟨first, _, block, out, buf', ?_, ?_, hmem, hleast, hd⟩
  · have hstep : ¬ (buf.pending.values.map fun p =>
        saturatingSub64 nowMs p.receivedAtMs).max?.getD 0 < buf.gapTimeoutMs := hyoung
    rw [pollTimeout, if_neg hsome]
    simp only [if_neg hstep, hfirst, if_pos hlt, hskip]
    exact hdrain
  · by_contra hnone
    exact hyoung ((oldestAge_lt_iff hempty).mpr fun e he => hnone ⟨e, he⟩)

section Drained
variable {first : UInt64 × Pending T} {lost : UInt64} {block : List (UInt64 × Pending T)}
  (hd : Drains trap { buf with lost, nextExpected := first.1 } block buf')
include hd

theorem Drains.entries_eq : buf.pending.entries = block ++ buf'.pending.entries := hd.entries

theorem Drains.mem_keys {n : ℕ} (hlow : first.1.toNat ≤ n)
    (hhigh : n < buf'.nextExpected.toNat) : n ∈ buf.keys := by
  have hmem : n ∈ block.map fun e => e.1.toNat := by
    have hnext := hd.next
    dsimp only at hnext
    rw [hd.numbers, List.mem_range'_1]
    dsimp only
    omega
  rw [keys, hd.entries_eq, List.map_append]
  exact List.mem_append_left _ hmem

theorem Drains.next_not_mem_keys : buf'.nextExpected.toNat ∉ buf.keys := by
  rw [keys, hd.entries_eq, List.map_append, List.mem_append, hd.numbers, List.mem_range'_1, not_or]
  constructor
  · have hnext := hd.next
    omega
  · intro hmem
    obtain ⟨e, he, hnumber⟩ := List.mem_map.mp hmem
    have := UInt64.lt_iff_toNat_lt.mp (hd.gap e he)
    omega

theorem Drains.gapTimeoutMs_eq : buf'.gapTimeoutMs = buf.gapTimeoutMs := by
  obtain ⟨pending, nextExpected, delivered, rfl⟩ := hd.frame
  rfl

theorem Drains.lt_next {e : UInt64 × Pending T} (he : e ∈ buf.pending.entries)
    (hout : e ∉ buf'.pending.entries) : e.1.toNat < buf'.nextExpected.toNat := by
  rw [hd.entries_eq, List.mem_append] at he
  exact UInt64.lt_iff_toNat_lt.mp (hd.mem_block (he.resolve_right hout)).2

theorem Drains.bounds_iff (ha : buf.Ahead) (hover : ∃ e, buf.Overdue nowMs e)
    (hfirst : first ∈ buf.pending.entries) (hleast : ∀ d ∈ buf.pending.entries, first.1 ≤ d.1) :
    ((∀ e, ¬ buf'.Overdue nowMs e) ∧ buf.GapsExcused nowMs buf') ↔ buf.OverdueInFront nowMs := by
  have hgap := UInt64.lt_iff_toNat_lt.mp (ha.entries hfirst).2.1
  have hnext : first.1.toNat ≤ buf'.nextExpected.toNat := by
    rw [hd.next]
    exact Nat.le_add_right _ _
  have hrest : ∀ e ∈ buf'.pending.entries, e ∈ buf.pending.entries := fun e he => by
    rw [hd.entries_eq]
    exact List.mem_append_right _ he
  constructor
  · rintro ⟨hnone, hexcused⟩ e he
    have hmissing : buf.nextExpected.toNat ∉ buf.keys := fun hmem => by
      obtain ⟨d, hd', hnumber⟩ := List.mem_map.mp hmem
      have := UInt64.lt_iff_toNat_lt.mp (ha.entries hd').2.1
      omega
    obtain ⟨f, hf, -, hbefore⟩ := hexcused _ le_rfl (by omega) hmissing
    have hfeq : f = first := SortedMap.eq_of_key_eq hf.1 hfirst
      (le_antisymm (hbefore first hfirst hgap) (hleast f hf.1))
    refine ⟨first, hfeq ▸ hf, hleast, fun n hlow hhigh => hd.mem_keys hlow ?_⟩
    have hout : e ∉ buf'.pending.entries := fun hin =>
      hnone e ⟨hin, hd.gapTimeoutMs_eq ▸ he.2⟩
    exact lt_of_le_of_lt hhigh (hd.lt_next he.1 hout)
  · intro hfront
    refine ⟨fun e he => ?_, fun n hlow hhigh hmissing => ?_⟩
    · obtain ⟨f, hf, hfleast, hblock⟩ :=
        hfront e ⟨hrest e he.1, hd.gapTimeoutMs_eq ▸ he.2⟩
      have hfle := UInt64.le_iff_toNat_le.mp (hfleast first hfirst)
      have hlt := UInt64.lt_iff_toNat_lt.mp (hd.gap e he.1)
      exact hd.next_not_mem_keys (hblock _ (by omega) hlt.le)
    · obtain ⟨e, he⟩ := hover
      obtain ⟨f, hf, hfleast, -⟩ := hfront e he
      refine ⟨f, hf, ⟨hf.1, (ha.entries hf.1).2.1, fun d hd' => ?_⟩, fun d hd' _ => hfleast d hd'⟩
      have := UInt64.le_iff_toNat_le.mp (hfleast d hd')
      omega

end Drained

theorem reorderRun_room {window gapTimeoutMs : UInt64} {run : List (ReorderCall T)}
    (hrun : (reorderRun trap).final (some (.new window gapTimeoutMs)) run = some buf) :
    trap = true →
      buf.delivered.toNat ≤ buf.nextExpected.toNat ∧ buf.lost.toNat ≤ buf.nextExpected.toNat := by
  rintro rfl
  have h := books hrun
  cases hpushed : pushedIn run with
  | nil =>
    obtain ⟨hd, hl⟩ := h.idle hpushed
    omega
  | cons first rest =>
    have hspan := h.span first (by rw [hpushed]; rfl)
    omega

/-- A poll of any reached buffer returns. It leaves no overdue packet, and gives up a number only
for an overdue packet right behind its gap or an earlier one, exactly when the overdue packets stand
in the first block of consecutive numbers and the first of the block is one of them. -/
theorem poll_bounds_waiting_iff (trap : Bool) (window gapTimeoutMs : UInt64)
    (run : List (ReorderCall T)) (buf : ReorderBuffer T)
    (hrun : (reorderRun trap).final (some (.new window gapTimeoutMs)) run = some buf)
    (nowMs : UInt64) :
    ∃ out buf', buf.pollTimeout trap nowMs = some (out, buf') ∧
      (((∀ e, ¬ buf'.Overdue nowMs e) ∧ buf.GapsExcused nowMs buf') ↔
        buf.OverdueInFront nowMs) := by
  have ha := reorderRun_ahead trap window gapTimeoutMs run buf hrun
  rcases pollTimeout_cases nowMs ha (reorderRun_room hrun) with
    ⟨hpoll, hnone⟩ | ⟨first, lost, block, out, buf', hpoll, hover, hfirst, hleast, hd⟩
  · refine ⟨[], buf, hpoll, fun _ e he => absurd he (hnone e), fun _ => ⟨hnone, ?_⟩⟩
    intro n hlow hhigh
    exact absurd hlow (Nat.not_le.mpr hhigh)
  · exact ⟨out, buf', hpoll, hd.bounds_iff ha hover hfirst hleast⟩

/-- Number 4 arrives long before number 2. -/
def Sample.twoGaps : List (ReorderCall Char) := [.push 0 'a' 0, .push 4 'e' 0, .push 2 'c' 100]

def Sample.beforePoll : ReorderBuffer Char :=
  ((reorderRun true).final (some (.new 8 50)) Sample.twoGaps).get (by decide +kernel)

def Sample.afterPoll : ReorderBuffer Char :=
  ((Sample.beforePoll.pollTimeout true 100).get (by decide +kernel)).2

theorem beforePoll_reached :
    (reorderRun true).final (some (.new 8 50)) Sample.twoGaps = some Sample.beforePoll :=
  (Option.some_get _).symm

theorem poll_bounds_waiting_iff_twoGaps :
    ∃ out buf', Sample.beforePoll.pollTimeout true 100 = some (out, buf') ∧
      (((∀ e, ¬ buf'.Overdue 100 e) ∧ Sample.beforePoll.GapsExcused 100 buf') ↔
        Sample.beforePoll.OverdueInFront 100) :=
  poll_bounds_waiting_iff true 8 50 Sample.twoGaps Sample.beforePoll beforePoll_reached 100

/-- The poll gives up number 1 for number 2, which has just come, and number 4 goes on waiting. -/
theorem poll_leaves_overdue_packet :
    (reorderRun true).final (some (.new 8 50)) Sample.twoGaps = some Sample.beforePoll ∧
    (∃ out, Sample.beforePoll.pollTimeout true 100 = some (out, Sample.afterPoll)) ∧
    (∃ e, Sample.afterPoll.Overdue 100 e) ∧
    ¬ Sample.beforePoll.GapsExcused 100 Sample.afterPoll := by
  refine ⟨beforePoll_reached, ⟨_, (Option.some_get _).symm⟩, ?_, fun hexcused => ?_⟩
  · have hover : ∃ e ∈ Sample.afterPoll.pending.entries,
        Sample.afterPoll.gapTimeoutMs ≤ saturatingSub64 100 e.2.receivedAtMs := by
      decide +kernel
    obtain ⟨e, he, hage⟩ := hover
    exact ⟨e, he, hage⟩
  · obtain ⟨e, he, -, hbefore⟩ := hexcused 1 (by decide +kernel) (by decide +kernel)
      (by decide +kernel)
    have hfresh : ∀ e ∈ Sample.beforePoll.pending.entries,
        (∀ d ∈ Sample.beforePoll.pending.entries, 1 < d.1.toNat → e.1 ≤ d.1) →
        ¬ Sample.beforePoll.gapTimeoutMs ≤ saturatingSub64 100 e.2.receivedAtMs := by
      decide +kernel
    exact hfresh e he.1 hbefore he.2

end ReorderBuffer

end Desmos.Core

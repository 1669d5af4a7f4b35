import Desmos.Core.Bonding.Reorder.Ledger

/-! # The accounts of whole runs

A run from a new buffer that no overflow stops. The ledgers of its calls add up: every packet that
was pushed is in one of the four places.
-/
namespace Desmos.Core
open Library

variable {T α : Type*}

/-- What `f` sees of the buffer in a run that stops at an overflow. -/
def observed (window gapTimeoutMs : UInt64)
    (f : List (ReorderCall T) → ReorderBuffer T → ReorderCall T → List α)
    (run : List (ReorderCall T)) : List α :=
  (reorderRun true).along (some (.new window gapTimeoutMs))
    (fun past s c => s.elim [] fun buf => f past buf c) run

def pushedIn (run : List (ReorderCall T)) : List (UInt64 × T) := run.flatMap ReorderCall.pushed

def returnedIn (window gapTimeoutMs : UInt64) (run : List (ReorderCall T)) : List T :=
  ((reorderRun true).trace (some (.new window gapTimeoutMs)) run).flatMap Prod.snd

/-- The packets that a run counts as duplicates. -/
def duplicatedIn (window gapTimeoutMs : UInt64) : List (ReorderCall T) → List (UInt64 × T) :=
  observed window gapTimeoutMs fun _ buf c => buf.duplicated c

/-- The packets that were waiting when a skip of the run threw them away. -/
def droppedIn (window gapTimeoutMs : UInt64) : List (ReorderCall T) → List (UInt64 × T) :=
  observed window gapTimeoutMs fun _ buf c => buf.dropped c

/-- The numbers that a run gives up although they had not been pushed, call by call. -/
def missingIn (window gapTimeoutMs : UInt64) : List (ReorderCall T) → List ℕ :=
  observed window gapTimeoutMs fun past buf c =>
    (buf.skipped c).filter (· ∉ (pushedIn past).map fun d => d.1.toNat)

namespace ReorderBuffer
variable {window gapTimeoutMs : UInt64} {run : List (ReorderCall T)} {buf buf' : ReorderBuffer T}
  {c : ReorderCall T}

theorem observed_concat {f : List (ReorderCall T) → ReorderBuffer T → ReorderCall T → List α}
    (h : (reorderRun true).final (some (.new window gapTimeoutMs)) run = some buf) :
    observed window gapTimeoutMs f (run ++ [c]) =
      observed window gapTimeoutMs f run ++ f run buf c := by
  rw [observed, Machine.along_concat, h]
  rfl

theorem pushedIn_concat (run : List (ReorderCall T)) (c : ReorderCall T) :
    pushedIn (run ++ [c]) = pushedIn run ++ c.pushed := by
  rw [pushedIn, List.flatMap_append, List.flatMap_singleton]
  rfl

theorem returnedIn_concat {out : List T}
    (h : (reorderRun true).final (some (.new window gapTimeoutMs)) run = some buf)
    (hcall : buf.call true c = some (out, buf')) :
    returnedIn window gapTimeoutMs (run ++ [c]) = returnedIn window gapTimeoutMs run ++ out := by
  have hstep : reorderRun true (some buf) c = (out, some buf') := by simp [reorderRun, hcall]
  rw [returnedIn, Machine.trace_append, List.flatMap_append, h, Machine.trace_cons, hstep]
  simp [returnedIn, Machine.trace]

theorem add_balance {returned waiting duplicated dropped pushed returned' waiting' duplicated'
    dropped' : Multiset α} (h : waiting + pushed = returned' + waiting' + duplicated' + dropped') :
    returned + waiting + duplicated + dropped + pushed =
      returned + returned' + waiting' + (duplicated + duplicated') + (dropped + dropped') := by
  calc returned + waiting + duplicated + dropped + pushed
      = returned + duplicated + dropped + (waiting + pushed) := by abel
    _ = returned + duplicated + dropped + (returned' + waiting' + duplicated' + dropped') := by
        rw [h]
    _ = returned + returned' + waiting' + (duplicated + duplicated') + (dropped + dropped') := by
        abel

/-- The accounts of a run that ends with `buf`. -/
structure Books (window gapTimeoutMs : UInt64) (run : List (ReorderCall T))
    (buf : ReorderBuffer T) : Prop where
  final : (reorderRun true).final (some (.new window gapTimeoutMs)) run = some buf
  ahead : buf.Ahead
  within : buf.Within
  config : buf.window = window
  initialised : buf.initialised = true ↔ pushedIn run ≠ []
  delivered : buf.delivered.toNat = (returnedIn window gapTimeoutMs run).length
  duplicates : buf.duplicates.toNat = (duplicatedIn window gapTimeoutMs run).length
  lost : buf.lost.toNat =
    (missingIn window gapTimeoutMs run).length + (droppedIn window gapTimeoutMs run).length
  idle : pushedIn run = [] → buf.delivered.toNat = 0 ∧ buf.lost.toNat = 0
  span : ∀ first ∈ (pushedIn run).head?,
    first.1.toNat + buf.delivered.toNat + buf.lost.toNat = buf.nextExpected.toNat
  balance : ∃ returned : List (UInt64 × T), returned.map Prod.snd = returnedIn window gapTimeoutMs run ∧
    (pushedIn run : Multiset (UInt64 × T)) = returned + buf.waiting +
      duplicatedIn window gapTimeoutMs run + droppedIn window gapTimeoutMs run
  known : ∀ d ∈ pushedIn run, d.1.toNat < buf.nextExpected.toNat ∨ d.1.toNat ∈ buf.keys

theorem Books.new (window gapTimeoutMs : UInt64) :
    Books window gapTimeoutMs ([] : List (ReorderCall T)) (.new window gapTimeoutMs) where
  final := rfl
  ahead := new_ahead window gapTimeoutMs
  within := by
    intro e he
    cases he
  config := rfl
  initialised := by simp [ReorderBuffer.new, pushedIn]
  delivered := rfl
  duplicates := rfl
  lost := rfl
  idle _ := ⟨rfl, rfl⟩
  span := by simp [pushedIn]
  balance := ⟨[], rfl, rfl⟩
  known := by simp [pushedIn]

theorem Books.missing_eq (h : Books window gapTimeoutMs run buf) (c : ReorderCall T) :
    (buf.skipped c).filter (· ∉ (pushedIn run).map fun d => d.1.toNat) =
      (buf.skipped c).filter (· ∉ buf.keys) := by
  refine List.filter_congr fun n hn => ?_
  have hge := le_of_mem_skipped hn
  rw [decide_eq_decide, not_iff_not]
  constructor
  · intro hpushed
    obtain ⟨d, hd, rfl⟩ := List.mem_map.mp hpushed
    rcases h.known d hd with hlt | hkey
    · omega
    · exact hkey
  · intro hkey
    obtain ⟨e, he, rfl⟩ := List.mem_map.mp hkey
    obtain ⟨returned, -, hbalance⟩ := h.balance
    have hmem : (e.1, e.2.payload) ∈ (pushedIn run : Multiset (UInt64 × T)) := by
      have hwaiting : (e.1, e.2.payload) ∈ buf.waiting := List.mem_map_of_mem he
      rw [hbalance]
      simp [hwaiting]
    exact List.mem_map_of_mem (f := fun d => d.1.toNat) (Multiset.mem_coe.mp hmem)

theorem Books.uninitialised (h : Books window gapTimeoutMs run buf) (hnone : pushedIn run = []) :
    buf.initialised = false := by
  by_contra hinit
  exact h.initialised.mp (by simpa using hinit) hnone

theorem Books.step {out : List T} (h : Books window gapTimeoutMs run buf)
    (hcall : buf.call true c = some (out, buf')) :
    Books window gapTimeoutMs (run ++ [c]) buf' := by
  obtain ⟨returned, hout, hl⟩ := call_ledger h.ahead h.within hcall
  have hpushed := pushedIn_concat run c
  have hreturned := returnedIn_concat h.final hcall
  have hduplicated : duplicatedIn window gapTimeoutMs (run ++ [c]) =
      duplicatedIn window gapTimeoutMs run ++ buf.duplicated c := observed_concat h.final
  have hdropped : droppedIn window gapTimeoutMs (run ++ [c]) =
      droppedIn window gapTimeoutMs run ++ buf.dropped c := observed_concat h.final
  have hmissing : missingIn window gapTimeoutMs (run ++ [c]) =
      missingIn window gapTimeoutMs run ++ (buf.skipped c).filter (· ∉ buf.keys) :=
    (observed_concat h.final).trans (congrArg _ (h.missing_eq c))
  constructor
  case final =>
    rw [Machine.final_concat, h.final]
    simp [reorderRun, hcall]
  case ahead => exact call_ahead h.ahead hcall
  case within => exact hl.within
  case config => exact hl.window.trans h.config
  case initialised =>
    rw [hl.initialised, h.initialised, hpushed, Ne, Ne, Ne, List.append_eq_nil_iff, not_and_or]
  case delivered =>
    rw [hl.delivered, h.delivered, hreturned, List.length_append, ← hout, List.length_map]
  case duplicates =>
    rw [hl.duplicates, h.duplicates, hduplicated, List.length_append]
  case lost =>
    have hsplit := skipped_split h.ahead h.within c
    rw [hl.lost, h.lost, hmissing, hdropped, List.length_append, List.length_append, ← hsplit]
    omega
  case idle =>
    intro hnone
    rw [hpushed, List.append_eq_nil_iff] at hnone
    obtain ⟨hd, hlost⟩ := h.idle hnone.1
    have hinit := h.uninitialised hnone.1
    have hempty : buf.waiting = [] := by rw [waiting, h.ahead.entries_eq_nil hinit, List.map_nil]
    have hcard := congrArg Multiset.card hl.balance
    simp only [hempty, hnone.2, Multiset.card_add, Multiset.coe_card, List.length_nil] at hcard
    have hdelivered := hl.delivered
    have hskipped := hl.lost
    rw [(hl.first hinit).1, List.length_nil] at hskipped
    omega
  case span =>
    intro first hfirst
    have hdelivered := hl.delivered
    have hskipped := hl.lost
    rw [hpushed] at hfirst
    cases hrun : pushedIn run with
    | nil =>
      obtain ⟨hskip, hnext⟩ := hl.first (h.uninitialised hrun)
      obtain ⟨hd, hlost⟩ := h.idle hrun
      rw [hrun, List.nil_append] at hfirst
      have hstart := hnext first (List.mem_of_mem_head? hfirst)
      rw [hskip, List.length_nil] at hskipped
      omega
    | cons d ds =>
      have hinit : buf.initialised = true := h.initialised.mpr (by rw [hrun]; simp)
      have hnext := hl.next hinit
      have hspan := h.span first (by rw [hrun] at hfirst ⊢; exact hfirst)
      omega
  case balance =>
    obtain ⟨before, hbefore, hbalance⟩ := h.balance
    refine ⟨before ++ returned, ?_, ?_⟩
    · rw [List.map_append, hbefore, hout, hreturned]
    · rw [hpushed, hduplicated, hdropped]
      simp only [← Multiset.coe_add]
      rw [hbalance]
      exact add_balance hl.balance
  case known =>
    intro d hd
    rw [hpushed, List.mem_append] at hd
    rcases hd with hd | hd
    · rcases h.known d hd with hlt | hkey
      · have hnext := hl.next (h.initialised.mpr (List.ne_nil_of_mem hd))
        exact Or.inl (by omega)
      · obtain ⟨e, he, hnumber⟩ := List.mem_map.mp hkey
        rw [← hnumber]
        have hwaiting : (e.1, e.2.payload) ∈ buf.waiting := List.mem_map_of_mem he
        exact hl.known (e.1, e.2.payload) (List.mem_append_left _ hwaiting)
    · exact hl.known d (List.mem_append_right _ hd)

theorem books (hrun : (reorderRun true).final (some (.new window gapTimeoutMs)) run = some buf) :
    Books window gapTimeoutMs run buf := by
  induction run using List.reverseRecOn generalizing buf with
  | nil =>
    cases hrun
    exact Books.new window gapTimeoutMs
  | append_singleton run c ih =>
    rw [Machine.final_concat] at hrun
    cases hpast : (reorderRun true).final (some (.new window gapTimeoutMs)) run with
    | none =>
      rw [hpast] at hrun
      cases hrun
    | some past =>
      rw [hpast, reorderRun, Option.bind_some] at hrun
      cases hcall : past.call true c with
      | none =>
        rw [hcall] at hrun
        cases hrun
      | some r =>
        rw [hcall] at hrun
        cases hrun
        exact (ih hpast).step hcall

/-- In a run that no overflow stops, behind its first push: the numbers no longer expected were
handed out or lost; `delivered` counts the payloads handed out; what waits is inside the window; and
each packet pushed is handed out, waiting, a counted duplicate or dropped by a window skip. -/
theorem reorder_accounts (window gapTimeoutMs : UInt64) (run : List (ReorderCall T))
    (buf : ReorderBuffer T)
    (hrun : (reorderRun true).final (some (.new window gapTimeoutMs)) run = some buf)
    (first : UInt64 × T) (hfirst : (pushedIn run).head? = some first) :
    first.1.toNat ≤ buf.nextExpected.toNat ∧
    buf.delivered.toNat + buf.lost.toNat = buf.nextExpected.toNat - first.1.toNat ∧
    buf.delivered.toNat = (returnedIn window gapTimeoutMs run).length ∧
    (∀ e ∈ buf.pending.entries, buf.nextExpected.toNat < e.1.toNat ∧
      e.1.toNat < buf.nextExpected.toNat + window.toNat) ∧
    buf.duplicates.toNat = (duplicatedIn window gapTimeoutMs run).length ∧
    ∃ returned : List (UInt64 × T), returned.map Prod.snd = returnedIn window gapTimeoutMs run ∧
      (pushedIn run : Multiset (UInt64 × T)) = returned + buf.waiting +
        duplicatedIn window gapTimeoutMs run + droppedIn window gapTimeoutMs run := by
  have h := books hrun
  have hspan := h.span first hfirst
  refine ⟨by omega, by omega, h.delivered, fun e he => ⟨?_, ?_⟩, h.duplicates, h.balance⟩
  · exact UInt64.lt_iff_toNat_lt.mp (h.ahead.entries he).2.1
  · rw [← h.config]
    exact h.within e he

/-- A packet that waits, its number again, and one beyond the window. -/
def Sample.windowSkip : List (ReorderCall Char) :=
  [.push 0 'a' 0, .push 2 'c' 0, .push 2 'C' 0, .push 5 'f' 0]

theorem reorder_accounts_skip :
    ∃ buf, (reorderRun true).final (some (.new 4 50)) Sample.windowSkip = some buf ∧
    UInt64.toNat 0 ≤ buf.nextExpected.toNat ∧
    buf.delivered.toNat + buf.lost.toNat = buf.nextExpected.toNat - UInt64.toNat 0 ∧
    buf.delivered.toNat = (returnedIn 4 50 Sample.windowSkip).length ∧
    (∀ e ∈ buf.pending.entries, buf.nextExpected.toNat < e.1.toNat ∧
      e.1.toNat < buf.nextExpected.toNat + UInt64.toNat 4) ∧
    buf.duplicates.toNat = (duplicatedIn 4 50 Sample.windowSkip).length ∧
    ∃ returned : List (UInt64 × Char), returned.map Prod.snd = returnedIn 4 50 Sample.windowSkip ∧
      (pushedIn Sample.windowSkip : Multiset (UInt64 × Char)) = returned + buf.waiting +
        duplicatedIn 4 50 Sample.windowSkip + droppedIn 4 50 Sample.windowSkip := by
  have hruns : ((reorderRun true).final (some (.new 4 50)) Sample.windowSkip).isSome = true := by
    decide +kernel
  obtain ⟨buf, hbuf⟩ := Option.isSome_iff_exists.mp hruns
  exact ⟨buf, hbuf, reorder_accounts 4 50 Sample.windowSkip buf hbuf (0, 'a') rfl⟩

end ReorderBuffer

end Desmos.Core

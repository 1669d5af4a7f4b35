import Desmos.Library.Machine
import Desmos.Library.SortedMap
import Desmos.Library.U64

/-! # The reorder buffer

Packets wait under their sequence number until every earlier one has arrived or has been
given up. `trap` is the build's choice at an overflow; a call that returns nothing has
panicked.
-/
namespace Desmos.Core
open Library

structure Pending (T : Type*) where
  payload : T
  receivedAtMs : UInt64

structure ReorderBuffer (T : Type*) where
  nextExpected : UInt64
  pending : SortedMap UInt64 (Pending T)
  window : UInt64
  gapTimeoutMs : UInt64
  initialised : Bool
  delivered : UInt64
  lost : UInt64
  duplicates : UInt64

namespace ReorderBuffer
variable {T : Type*}

def new (window gapTimeoutMs : UInt64) : ReorderBuffer T :=
  { nextExpected := 0, pending := .empty, window, gapTimeoutMs, initialised := false
    delivered := 0, lost := 0, duplicates := 0 }

/-- Release what is pending from `nextExpected` on, up to the next gap. -/
def drainContiguous (trap : Bool) (buf : ReorderBuffer T) : Option (List T × ReorderBuffer T) :=
  match _h : buf.pending.get? buf.nextExpected with
  | none => some ([], buf)
  | some p =>
    match U64.add trap buf.nextExpected 1, U64.add trap buf.delivered 1 with
    | some nextExpected, some delivered =>
      match drainContiguous trap
        { buf with pending := buf.pending.erase buf.nextExpected, nextExpected, delivered } with
      | some (out, buf) => some (p.payload :: out, buf)
      | none => none
    | _, _ => none
termination_by buf.pending.entries.length
decreasing_by exact SortedMap.length_erase_lt (SortedMap.mem_of_get? _h)

variable (trap : Bool)

variable (buf : ReorderBuffer T)

/-- Hand `payload` out as number `seq`, and what has waited for it. -/
def deliver (seq : UInt64) (payload : T) : Option (List T × ReorderBuffer T) :=
  match U64.add trap seq 1, U64.add trap buf.delivered 1 with
  | some nextExpected, some delivered =>
    match drainContiguous trap { buf with nextExpected, delivered } with
    | some (out, buf) => some (payload :: out, buf)
    | none => none
  | _, _ => none

/-- Count the numbers from `nextExpected` up to `seq` as lost. -/
def skipTo (seq : UInt64) : Option (ReorderBuffer T) :=
  match U64.sub trap seq buf.nextExpected with
  | some skipped => (U64.add trap buf.lost skipped).map fun lost => { buf with lost }
  | none => none

def countDuplicate : Option (List T × ReorderBuffer T) :=
  (U64.add trap buf.duplicates 1).map fun duplicates => ([], { buf with duplicates })

def push (seq : UInt64) (payload : T) (nowMs : UInt64) : Option (List T × ReorderBuffer T) :=
  if buf.initialised = false then
    match U64.add trap seq 1, U64.add trap buf.delivered 1 with
    | some nextExpected, some delivered =>
      some ([payload], { buf with initialised := true, nextExpected, delivered })
    | _, _ => none
  else if seq < buf.nextExpected then buf.countDuplicate trap
  else if buf.pending.contains seq = true then buf.countDuplicate trap
  else
    match U64.add trap buf.nextExpected buf.window with
    | none => none
    | some limit =>
      if limit ≤ seq then
        -- window pressure: whatever was still waiting below `seq` is dropped
        match buf.skipTo trap seq with
        | none => none
        | some buf =>
          deliver trap { buf with pending := buf.pending.retain fun k => seq < k } seq payload
      else if seq = buf.nextExpected then deliver trap buf seq payload
      else some ([], { buf with pending := buf.pending.insert seq ⟨payload, nowMs⟩ })

def pollTimeout (nowMs : UInt64) : Option (List T × ReorderBuffer T) :=
  if buf.pending.isEmpty = true then some ([], buf)
  else
    let ages := buf.pending.values.map fun p => saturatingSub64 nowMs p.receivedAtMs
    if ages.max?.getD 0 < buf.gapTimeoutMs then some ([], buf)
    else
      match buf.pending.firstKey? with
      | none => none
      | some oldestSeq =>
        if buf.nextExpected < oldestSeq then
          match buf.skipTo trap oldestSeq with
          | none => none
          | some buf => drainContiguous trap { buf with nextExpected := oldestSeq }
        else drainContiguous trap buf

end ReorderBuffer

inductive ReorderCall (T : Type*) where
  | push (seq : UInt64) (payload : T) (nowMs : UInt64)
  | pollTimeout (nowMs : UInt64)

variable {T : Type*}

def ReorderBuffer.call (trap : Bool) (buf : ReorderBuffer T) :
    ReorderCall T → Option (List T × ReorderBuffer T)
  | .push seq payload nowMs => buf.push trap seq payload nowMs
  | .pollTimeout nowMs => buf.pollTimeout trap nowMs

/-- The buffer under a run of calls; after a panic nothing comes any more. -/
def reorderRun (trap : Bool) : Machine (Option (ReorderBuffer T)) (ReorderCall T) (List T) :=
  fun s c =>
    match s.bind fun buf => buf.call trap c with
    | some (out, buf) => (out, some buf)
    | none => ([], none)

def ReorderCall.Pushes (c : ReorderCall T) (d : UInt64 × T) : Prop :=
  ∃ nowMs, c = .push d.1 d.2 nowMs

variable {ds : List (UInt64 × T)} {buf buf' : ReorderBuffer T}

namespace ReorderBuffer

def Holds (buf : ReorderBuffer T) (d : UInt64 × T) : Prop :=
  ∃ receivedAtMs, (d.1, ⟨d.2, receivedAtMs⟩) ∈ buf.pending.entries

/-- What waits is ahead of what is expected, in a buffer that has seen its first packet. -/
def Ahead (buf : ReorderBuffer T) : Prop :=
  ∀ d, buf.Holds d → buf.initialised = true ∧ buf.nextExpected < d.1 ∧ d.1 ≠ 0xFFFFFFFFFFFFFFFF

/-- `ds` is what a buffer released on the way from `buf` to `buf'`. -/
structure Released (buf buf' : ReorderBuffer T) (ds : List (UInt64 × T)) : Prop where
  increasing : ds.Pairwise fun a b => a.1 < b.1
  range : ∀ d ∈ ds, buf.nextExpected ≤ d.1 ∧ d.1 < buf'.nextExpected
  next : buf.nextExpected ≤ buf'.nextExpected
  held : ∀ d ∈ ds, buf.Holds d
  kept : ∀ d, buf'.Holds d → buf.Holds d ∧ buf'.nextExpected < d.1
  initialised : buf'.initialised = buf.initialised

section Calls
variable {trap : Bool} {buf buf' mid : ReorderBuffer T} {out : List T} {seq nowMs : UInt64}
  {payload : T} {block : List (UInt64 × Pending T)}

/-- `block` is what draining takes out of `buf`: the consecutive numbers at the front of what is
pending, up to the next gap. -/
structure Drains (trap : Bool) (buf : ReorderBuffer T) (block : List (UInt64 × Pending T))
    (buf' : ReorderBuffer T) : Prop where
  entries : buf.pending.entries = block ++ buf'.pending.entries
  numbers : block.map (fun e => e.1.toNat) = List.range' buf.nextExpected.toNat block.length
  next : buf'.nextExpected.toNat = buf.nextExpected.toNat + block.length
  gap : ∀ e ∈ buf'.pending.entries, buf'.nextExpected < e.1
  delivered : trap = true → buf'.delivered.toNat = buf.delivered.toNat + block.length
  frame : ∃ pending nextExpected delivered,
    buf' = { buf with pending, nextExpected, delivered }

theorem drainContiguous_drains (h : drainContiguous trap buf = some (out, buf'))
    (hpend : ∀ e ∈ buf.pending.entries, buf.nextExpected ≤ e.1 ∧ e.1 ≠ 0xFFFFFFFFFFFFFFFF) :
    ∃ block, block.map (fun e => e.2.payload) = out ∧ Drains trap buf block buf' := by
  fun_induction drainContiguous trap buf generalizing out with
  | case1 buf hget =>
    cases h
    refine ⟨[], rfl, rfl, rfl, rfl, fun e he => ?_, fun _ => rfl, _, _, _, rfl⟩
    refine lt_of_le_of_ne (hpend e he).1 fun heq => ?_
    rw [heq] at hget
    exact SortedMap.not_mem_of_get? hget he
  | case2 buf p hget next delivered hdel hnext tail buf'' hdrain ih =>
    cases h
    obtain rfl := U64.eq_of_add hnext
    have hfirst := SortedMap.entries_of_get?_least hget fun e he => (hpend e he).1
    have hsucc := U64.toNat_succ (hpend _ (SortedMap.mem_of_get? hget)).2
    obtain ⟨block, hout, hd⟩ := ih hdrain fun e he => by
      obtain ⟨hold, hne⟩ := SortedMap.mem_erase.mp he
      obtain ⟨hle, hmax⟩ := hpend e hold
      exact ⟨U64.succ_le (lt_of_le_of_ne hle (Ne.symm hne)), hmax⟩
    have hentries := hd.entries
    have hnumbers := hd.numbers
    have hnext' := hd.next
    simp only [hsucc] at hentries hnumbers hnext'
    refine ⟨(buf.nextExpected, p) :: block, by rw [List.map_cons, hout], ?_, ?_, ?_, hd.gap, ?_, ?_⟩
    · rw [hfirst, hentries, List.cons_append]
    · rw [List.map_cons, hnumbers, List.length_cons, List.range'_succ]
    · rw [hnext', List.length_cons]
      omega
    · intro htrap
      have hcount := hd.delivered htrap
      have hone := U64.toNat_of_add hdel (Or.inl htrap)
      have h1 : UInt64.toNat 1 = 1 := rfl
      rw [List.length_cons]
      simp only at hcount
      omega
    · obtain ⟨pending, nextExpected, count, hframe⟩ := hd.frame
      exact ⟨pending, nextExpected, count, hframe⟩
  | case3 => cases h
  | case4 => cases h

theorem Drains.mem_block (h : Drains trap buf block buf')
    {e : UInt64 × Pending T} (he : e ∈ block) :
    buf.nextExpected ≤ e.1 ∧ e.1 < buf'.nextExpected := by
  have hnumber : e.1.toNat ∈ block.map fun e => e.1.toNat := List.mem_map_of_mem he
  rw [h.numbers, List.mem_range'_1, ← h.next] at hnumber
  exact ⟨UInt64.le_iff_toNat_le.mpr hnumber.1, UInt64.lt_iff_toNat_lt.mpr hnumber.2⟩

theorem Drains.released (h : Drains trap buf block buf') :
    Released buf buf' (block.map fun e => (e.1, e.2.payload)) where
  increasing := by
    have hnumbers : (block.map fun e => e.1.toNat).Pairwise (· < ·) := by
      rw [h.numbers]
      exact List.pairwise_lt_range'
    apply List.pairwise_map.mpr
    exact (List.pairwise_map.mp hnumbers).imp UInt64.lt_iff_toNat_lt.mpr
  range := by
    intro d hd
    obtain ⟨e, he, rfl⟩ := List.mem_map.mp hd
    exact h.mem_block he
  next := by
    rw [UInt64.le_iff_toNat_le, h.next]
    exact Nat.le_add_right _ _
  held := by
    intro d hd
    obtain ⟨e, he, rfl⟩ := List.mem_map.mp hd
    refine ⟨e.2.receivedAtMs, ?_⟩
    rw [h.entries]
    exact List.mem_append_left _ he
  kept := by
    rintro d ⟨t, hmem⟩
    refine ⟨⟨t, ?_⟩, h.gap _ hmem⟩
    rw [h.entries]
    exact List.mem_append_right _ hmem
  initialised := by
    obtain ⟨pending, nextExpected, delivered, rfl⟩ := h.frame
    rfl

theorem drainContiguous_released (h : drainContiguous trap buf = some (out, buf'))
    (hpend : ∀ d, buf.Holds d → buf.nextExpected ≤ d.1 ∧ d.1 ≠ 0xFFFFFFFFFFFFFFFF) :
    ∃ ds, ds.map Prod.snd = out ∧ Released buf buf' ds := by
  obtain ⟨block, hout, hd⟩ := drainContiguous_drains h fun e he =>
    hpend (e.1, e.2.payload) ⟨e.2.receivedAtMs, he⟩
  refine ⟨_, ?_, hd.released⟩
  rw [List.map_map, ← hout]
  rfl

/-- `ds` is what a call hands out on the way from `buf` to `buf'`, if it feeds in the
packets in `new`. -/
structure Step (buf : ReorderBuffer T) (new : UInt64 × T → Prop) (buf' : ReorderBuffer T)
    (ds : List (UInt64 × T)) : Prop where
  increasing : ds.Pairwise fun a b => a.1 < b.1
  above : buf.initialised = true → ∀ d ∈ ds, buf.nextExpected ≤ d.1
  below : ∀ d ∈ ds, d.1 < buf'.nextExpected
  next : buf.initialised = true → buf.nextExpected ≤ buf'.nextExpected
  origin : ∀ d ∈ ds, buf.Holds d ∨ new d
  kept : ∀ d, buf'.Holds d →
    (buf.Holds d ∨ new d) ∧ buf'.initialised = true ∧ buf'.nextExpected < d.1
  initialised : buf.initialised = true → buf'.initialised = true
  started : ds ≠ [] → buf'.initialised = true

theorem Step.cons {new : UInt64 × T → Prop} {d : UInt64 × T}
    (h : buf.Step new buf' ds) (hnew : new d)
    (hlow : buf.initialised = true → buf.nextExpected ≤ d.1) (hhigh : d.1 < buf'.nextExpected)
    (hfirst : ∀ e ∈ ds, d.1 < e.1) (hinit : buf'.initialised = true) :
    buf.Step new buf' (d :: ds) where
  increasing := List.pairwise_cons.mpr ⟨hfirst, h.increasing⟩
  above hbuf := List.forall_mem_cons.mpr ⟨hlow hbuf, h.above hbuf⟩
  below := List.forall_mem_cons.mpr ⟨hhigh, h.below⟩
  next := h.next
  origin := List.forall_mem_cons.mpr ⟨Or.inr hnew, h.origin⟩
  kept := h.kept
  initialised := h.initialised
  started _ := hinit

theorem Step.idle (h : buf.Ahead) (new : UInt64 × T → Prop) : buf.Step new buf [] where
  increasing := .nil
  above := by simp
  below := by simp
  next _ := le_rfl
  origin := by simp
  kept d hd := ⟨Or.inl hd, (h d hd).1, (h d hd).2.1⟩
  initialised h := h
  started h := absurd rfl h

theorem Released.step (h : Released mid buf' ds)
    (hnext : buf.nextExpected ≤ mid.nextExpected) (hheld : ∀ d, mid.Holds d → buf.Holds d)
    (hinit : mid.initialised = true) (new : UInt64 × T → Prop) : buf.Step new buf' ds where
  increasing := h.increasing
  above _ d hd := hnext.trans (h.range d hd).1
  below d hd := (h.range d hd).2
  next _ := hnext.trans h.next
  origin d hd := Or.inl (hheld d (h.held d hd))
  kept d hd :=
    ⟨Or.inl (hheld d (h.kept d hd).1), h.initialised.trans hinit, (h.kept d hd).2⟩
  initialised _ := h.initialised.trans hinit
  started _ := h.initialised.trans hinit

theorem deliver_step (h : deliver trap mid seq payload = some (out, buf'))
    (hinit : mid.initialised = true) (hnext : buf.nextExpected ≤ seq)
    (hmax : seq ≠ 0xFFFFFFFFFFFFFFFF)
    (hheld : ∀ d, mid.Holds d → buf.Holds d ∧ seq < d.1 ∧ d.1 ≠ 0xFFFFFFFFFFFFFFFF) :
    ∃ ds, ds.map Prod.snd = out ∧ buf.Step (fun d => d = (seq, payload)) buf' ds := by
  simp only [deliver] at h
  split at h
  · next nextExpected delivered hadd hdel =>
    obtain rfl := U64.eq_of_add hadd
    split at h
    · next tail last hdrain =>
      cases h
      have hlt := U64.lt_succ hmax
      obtain ⟨ds, hout, hrel⟩ := drainContiguous_released hdrain
        fun d hd => ⟨U64.succ_le (hheld d hd).2.1, (hheld d hd).2.2⟩
      have hstep := hrel.step (hnext.trans hlt.le) (fun d hd => (hheld d hd).1) hinit
        fun d => d = (seq, payload)
      have hrange : ∀ d ∈ ds, seq < d.1 := fun d hd => lt_of_lt_of_le hlt (hrel.range d hd).1
      refine ⟨(seq, payload) :: ds, by rw [List.map_cons, hout], ?_⟩
      exact hstep.cons rfl (fun _ => hnext) (lt_of_lt_of_le hlt hrel.next) hrange
        (hrel.initialised.trans hinit)
    · cases h
  · cases h

theorem skipTo_eq (h : buf.skipTo trap seq = some mid) : ∃ lost, mid = { buf with lost } := by
  unfold skipTo at h
  split at h
  · obtain ⟨lost, -, rfl⟩ := Option.map_eq_some_iff.mp h
    exact ⟨lost, rfl⟩
  · cases h

theorem countDuplicate_step (ha : buf.Ahead) (new : UInt64 × T → Prop)
    (h : buf.countDuplicate trap = some (out, buf')) :
    ∃ ds, ds.map Prod.snd = out ∧ buf.Step new buf' ds := by
  obtain ⟨n, -, heq⟩ := Option.map_eq_some_iff.mp h
  cases heq
  have hidle := Step.idle ha new
  exact ⟨[], rfl, hidle.increasing, hidle.above, hidle.below, hidle.next, hidle.origin, hidle.kept,
    hidle.initialised, hidle.started⟩

/-- The four ways a packet can take. -/
theorem push_step (ha : buf.Ahead) (hmax : seq ≠ 0xFFFFFFFFFFFFFFFF)
    (h : buf.push trap seq payload nowMs = some (out, buf')) :
    ∃ ds, ds.map Prod.snd = out ∧ buf.Step (fun d => d = (seq, payload)) buf' ds := by
  simp only [push] at h
  split at h
  · next hinit =>
    split at h
    · next nextExpected delivered hadd hdel =>
      cases h
      obtain rfl := U64.eq_of_add hadd
      have hnone : ∀ d, ¬ buf.Holds d := fun d hd => by simpa [hinit] using (ha d hd).1
      exact ⟨[(seq, payload)], rfl, by simp, by simp [hinit], by simpa using U64.lt_succ hmax,
        by simp [hinit], by simp, fun d hd => absurd hd (hnone d), fun _ => rfl, fun _ => rfl⟩
    · cases h
  next hinit =>
  replace hinit : buf.initialised = true := by simpa using hinit
  split at h
  · exact countDuplicate_step ha _ h
  next hge =>
  split at h
  · exact countDuplicate_step ha _ h
  next hfresh =>
  split at h
  · cases h
  split at h
  · -- window pressure
    split at h
    · cases h
    next mid hskip =>
    obtain ⟨lost, rfl⟩ := skipTo_eq hskip
    refine deliver_step h hinit (not_lt.mp hge) hmax ?_
    rintro d ⟨t, hmem⟩
    obtain ⟨hmem, hlt⟩ := SortedMap.mem_retain.mp hmem
    exact ⟨⟨t, hmem⟩, by simpa using hlt, (ha d ⟨t, hmem⟩).2.2⟩
  split at h
  · -- in order
    next heq =>
    subst heq
    exact deliver_step h hinit le_rfl hmax fun d hd => ⟨hd, (ha d hd).2⟩
  · next hne =>
    cases h
    have hlt : buf.nextExpected < seq := lt_of_le_of_ne (not_lt.mp hge) (Ne.symm hne)
    refine ⟨[], rfl, .nil, by simp, by simp, fun _ => le_rfl, by simp, ?_, fun h => h, by simp⟩
    rintro d ⟨t, hmem⟩
    rcases SortedMap.mem_insert.mp hmem with heq | ⟨hmem, -⟩
    · obtain ⟨h1, h2, -⟩ : d.1 = seq ∧ d.2 = payload ∧ t = nowMs := by simpa using heq
      exact ⟨Or.inr (Prod.ext h1 h2), hinit, h1 ▸ hlt⟩
    · exact ⟨Or.inl ⟨t, hmem⟩, hinit, (ha d ⟨t, hmem⟩).2.1⟩

theorem pollTimeout_step (ha : buf.Ahead) (new : UInt64 × T → Prop)
    (h : buf.pollTimeout trap nowMs = some (out, buf')) :
    ∃ ds, ds.map Prod.snd = out ∧ buf.Step new buf' ds := by
  simp only [pollTimeout] at h
  split at h
  · cases h
    exact ⟨[], rfl, .idle ha new⟩
  split at h
  · cases h
    exact ⟨[], rfl, .idle ha new⟩
  split at h
  · cases h
  next oldestSeq hfirst =>
  obtain ⟨⟨p, hp⟩, hleast⟩ := SortedMap.firstKey?_spec hfirst
  obtain ⟨hinit, hlt, -⟩ := ha (oldestSeq, p.payload) ⟨p.receivedAtMs, hp⟩
  rw [if_pos hlt] at h
  split at h
  · cases h
  next mid hskip =>
  obtain ⟨lost, rfl⟩ := skipTo_eq hskip
  obtain ⟨ds, hout, hrel⟩ := drainContiguous_released h fun d hd => by
    obtain ⟨t, hmem⟩ := hd
    exact ⟨hleast _ hmem, (ha d ⟨t, hmem⟩).2.2⟩
  exact ⟨ds, hout, hrel.step hlt.le (fun d hd => hd) hinit new⟩

end Calls

/-- The call's packet, if it has one, has a number below the top of the range. -/
def InRange (c : ReorderCall T) : Prop := ∀ d, c.Pushes d → d.1 ≠ 0xFFFFFFFFFFFFFFFF

variable {c : ReorderCall T}

theorem call_step {trap : Bool} {out : List T}
    (ha : buf.Ahead) (hc : InRange c) (h : buf.call trap c = some (out, buf')) :
    ∃ ds, ds.map Prod.snd = out ∧ buf.Step c.Pushes buf' ds := by
  cases c with
  | push seq payload nowMs =>
    have hnew : ReorderCall.Pushes (.push seq payload nowMs) = fun d => d = (seq, payload) := by
      funext d
      simp [ReorderCall.Pushes, Prod.ext_iff, eq_comm]
    rw [hnew]
    exact push_step ha (hc (seq, payload) ⟨nowMs, rfl⟩) h
  | pollTimeout nowMs => exact pollTimeout_step ha _ h

theorem Step.ahead
    (h : buf.Step c.Pushes buf' ds) (ha : buf.Ahead) (hc : InRange c) : buf'.Ahead := by
  intro d hd
  obtain ⟨hold | hnew, hinit, hlt⟩ := h.kept d hd
  · exact ⟨hinit, hlt, (ha d hold).2.2⟩
  · exact ⟨hinit, hlt, hc d hnew⟩

theorem new_ahead (window gapTimeoutMs : UInt64) : (new window gapTimeoutMs : ReorderBuffer T).Ahead := by
  rintro d ⟨t, hmem⟩
  cases hmem

/-- What a run hands out, call by call, from a buffer that has handed out numbers below
`nextExpected`. -/
structure Deliveries (buf : ReorderBuffer T) (run : List (ReorderCall T))
    (dss : List (List (UInt64 × T))) : Prop where
  increasing : dss.flatten.Pairwise fun a b => a.1 < b.1
  above : buf.initialised = true → ∀ d ∈ dss.flatten, buf.nextExpected ≤ d.1
  origin : ∀ i ds, dss[i]? = some ds → ∀ d ∈ ds, buf.Holds d ∨ ∃ c ∈ run.take (i + 1), c.Pushes d

theorem Deliveries.of_silent (run : List (ReorderCall T)) {n : ℕ} :
    Deliveries buf run (List.replicate n []) where
  increasing := by simp
  above := by simp
  origin i ds h := by
    obtain rfl : ds = [] := List.eq_of_mem_replicate (List.mem_of_getElem? h)
    simp

theorem Deliveries.cons {run : List (ReorderCall T)}
    {dss : List (List (UInt64 × T))} (hstep : buf.Step c.Pushes buf' ds)
    (h : Deliveries buf' run dss) : Deliveries buf (c :: run) (ds :: dss) where
  increasing := by
    rw [List.flatten_cons, List.pairwise_append]
    refine ⟨hstep.increasing, h.increasing, fun d hd e he => ?_⟩
    have hinit := hstep.started (List.ne_nil_of_mem hd)
    exact lt_of_lt_of_le (hstep.below d hd) (h.above hinit e he)
  above hinit d hd := by
    rcases List.mem_append.mp hd with hd | hd
    · exact hstep.above hinit d hd
    · exact (hstep.next hinit).trans (h.above (hstep.initialised hinit) d hd)
  origin i es hes d hd := by
    cases i with
    | zero =>
      cases hes
      rcases hstep.origin d hd with hold | hnew
      · exact Or.inl hold
      · exact Or.inr ⟨c, by simp, hnew⟩
    | succ i =>
      rcases h.origin i es (by simpa using hes) d hd with hold | ⟨c', hc', hpush⟩
      · rcases (hstep.kept d hold).1 with hold | hnew
        · exact Or.inl hold
        · exact Or.inr ⟨c, by simp, hnew⟩
      · exact Or.inr ⟨c', List.mem_cons_of_mem _ hc', hpush⟩

theorem trace_panicked (trap : Bool) (run : List (ReorderCall T)) :
    ((reorderRun trap).trace none run).map Prod.snd =
      (List.replicate run.length []).map (List.map Prod.snd : List (UInt64 × T) → List T) := by
  induction run with
  | nil => rfl
  | cons c run ih =>
    exact congrArg _ ih

theorem run_deliveries (trap : Bool) (run : List (ReorderCall T)) (buf : ReorderBuffer T)
    (ha : buf.Ahead) (hrun : ∀ c ∈ run, InRange c) : ∃ dss,
      dss.map (List.map Prod.snd) = ((reorderRun trap).trace (some buf) run).map Prod.snd ∧
      Deliveries buf run dss := by
  induction run generalizing buf with
  | nil => exact ⟨[], rfl, Deliveries.of_silent (n := 0) []⟩
  | cons c run ih =>
    rw [Machine.trace_cons, List.map_cons]
    cases hcall : buf.call trap c with
    | none =>
      have hstop : reorderRun trap (some buf) c = ([], none) := by simp [reorderRun, hcall]
      refine ⟨List.replicate (run.length + 1) [], ?_, .of_silent _⟩
      rw [hstop, trace_panicked]
      rfl
    | some r =>
      obtain ⟨out, buf'⟩ := r
      have hgo : reorderRun trap (some buf) c = (out, some buf') := by simp [reorderRun, hcall]
      have hc := hrun c List.mem_cons_self
      obtain ⟨ds, rfl, hstep⟩ := call_step ha hc hcall
      obtain ⟨dss, hout, hdss⟩ := ih buf' (hstep.ahead ha hc) fun e he =>
        hrun e (List.mem_cons_of_mem _ he)
      refine ⟨ds :: dss, ?_, hdss.cons hstep⟩
      rw [hgo, List.map_cons, hout]

/-- The payloads that a run hands out, call by call, are packets with strictly increasing
numbers, and each was pushed under its number by then. -/
theorem reorder_emits_in_order (trap : Bool) (window gapTimeoutMs : UInt64)
    (run : List (ReorderCall T))
    (hrun : ∀ seq payload nowMs, .push seq payload nowMs ∈ run → seq ≠ 0xFFFFFFFFFFFFFFFF) :
    ∃ deliveries : List (List (UInt64 × T)),
      deliveries.map (List.map Prod.snd) =
        ((reorderRun trap).trace (some (new window gapTimeoutMs)) run).map Prod.snd ∧
      (deliveries.flatten.Pairwise fun a b => a.1 < b.1) ∧
      ∀ i ds, deliveries[i]? = some ds → ∀ d ∈ ds,
        ∃ nowMs, .push d.1 d.2 nowMs ∈ run.take (i + 1) := by
  obtain ⟨dss, hout, h⟩ := run_deliveries trap run (new window gapTimeoutMs)
    (new_ahead window gapTimeoutMs) (by
      rintro c hc d ⟨nowMs, rfl⟩
      exact hrun d.1 d.2 nowMs hc)
  refine ⟨dss, hout, h.increasing, fun i ds hds d hd => ?_⟩
  rcases h.origin i ds hds d hd with ⟨t, hmem⟩ | ⟨c, hc, nowMs, rfl⟩
  · cases hmem
  · exact ⟨nowMs, hc⟩

end ReorderBuffer

/-- A packet that comes early, its predecessor, and one far beyond the window. -/
def Sample.earlyPacket : List (ReorderCall Char) :=
  [.push 5 'a' 0, .push 7 'c' 1, .push 6 'b' 2, .push 900 'z' 3]

theorem early_packet_waits : ∃ deliveries : List (List (UInt64 × Char)),
    deliveries.map (List.map Prod.snd) =
      ((reorderRun true).trace (some (.new 128 50)) Sample.earlyPacket).map Prod.snd ∧
    (deliveries.flatten.Pairwise fun a b => a.1 < b.1) ∧
    ∀ i ds, deliveries[i]? = some ds → ∀ d ∈ ds,
      ∃ nowMs, .push d.1 d.2 nowMs ∈ Sample.earlyPacket.take (i + 1) := by
  apply ReorderBuffer.reorder_emits_in_order
  intro seq payload nowMs hmem
  simp only [Sample.earlyPacket, List.mem_cons, ReorderCall.push.injEq, List.not_mem_nil,
    or_false] at hmem
  rcases hmem with ⟨rfl, -⟩ | ⟨rfl, -⟩ | ⟨rfl, -⟩ | ⟨rfl, -⟩ <;> decide

end Desmos.Core

import Desmos.Library.Machine
import Desmos.Library.SortedMap
import Desmos.Library.U64

/-! # The probe scheduler

Probes are numbered in the order of their issue and wait in a map from number to send time until
they are acknowledged or drained. What waits is always what was issued and has not been resolved.
-/
namespace Desmos.Core
open Library

structure ProbeAck where
  seq : UInt64
  rttUs : UInt32
  deriving DecidableEq

structure ProbeScheduler where
  intervalUs : UInt64
  timeoutUs : UInt64
  lastSendUs : Option UInt64
  nextSeq : UInt64
  inFlight : SortedMap UInt64 UInt64

variable {intervalUs timeoutUs : UInt64}

namespace ProbeScheduler

/-- Nothing stands for the failed assertions. -/
def new (intervalUs timeoutUs : UInt64) : Option ProbeScheduler :=
  if 0 < intervalUs ∧ 0 < timeoutUs then
    some { intervalUs, timeoutUs, lastSendUs := none, nextSeq := 0, inFlight := .empty }
  else none

variable (p : ProbeScheduler)

variable (nowUs : UInt64)

def isDue : Bool :=
  match p.lastSendUs with
  | none => true
  | some last => p.intervalUs ≤ saturatingSub64 nowUs last

def issue : UInt64 × ProbeScheduler :=
  (p.nextSeq, { p with
    nextSeq := p.nextSeq + 1
    inFlight := p.inFlight.insert p.nextSeq nowUs
    lastSendUs := some nowUs })

def onAck (seq nowUs : UInt64) : Option ProbeAck × ProbeScheduler :=
  match p.inFlight.get? seq with
  | none => (none, p)
  | some sendUs =>
    (some ⟨seq, (saturatingSub64 nowUs sendUs).toUInt32⟩,
      { p with inFlight := p.inFlight.erase seq })

def drainTimeouts : List UInt64 × ProbeScheduler :=
  let expired := p.inFlight.entries.filterMap fun e =>
    if p.timeoutUs ≤ saturatingSub64 nowUs e.2 then some e.1 else none
  (expired, { p with inFlight := expired.foldl SortedMap.erase p.inFlight })

theorem timeoutUs_of_new {p : ProbeScheduler}
    (h : new intervalUs timeoutUs = some p) : p.timeoutUs = timeoutUs := by
  unfold new at h
  split at h
  · cases h
    rfl
  · cases h

theorem onAck_timeoutUs (seq nowUs : UInt64) : (p.onAck seq nowUs).2.timeoutUs = p.timeoutUs := by
  unfold onAck
  split <;> rfl

theorem drainTimeouts_fst : (p.drainTimeouts nowUs).1 = (p.inFlight.entries.filter fun e =>
      p.timeoutUs.toNat ≤ nowUs.toNat - e.2.toNat).map Prod.fst := by
  rw [drainTimeouts, ← List.filterMap_eq_map, List.filterMap_filter]
  apply List.filterMap_congr
  intro e _
  simp only [UInt64.le_iff_toNat_le, toNat_saturatingSub64, Function.comp_apply,
    decide_eq_true_eq]

end ProbeScheduler

inductive ProbeCall where
  | issue (nowUs : UInt64)
  | onAck (seq nowUs : UInt64)
  | drainTimeouts (nowUs : UInt64)
  deriving DecidableEq

def ProbeCall.isIssue : ProbeCall → Bool
  | .issue _ => true
  | _ => false

inductive ProbeAnswer where
  | issued (seq : UInt64)
  | acked (ack : Option ProbeAck)
  | drained (seqs : List UInt64)
  deriving DecidableEq

def probeRun : Machine ProbeScheduler ProbeCall ProbeAnswer
  | p, .issue nowUs => ((.issued (p.issue nowUs).1), (p.issue nowUs).2)
  | p, .onAck seq nowUs => (.acked (p.onAck seq nowUs).1, (p.onAck seq nowUs).2)
  | p, .drainTimeouts nowUs => (.drained (p.drainTimeouts nowUs).1, (p.drainTimeouts nowUs).2)

/-- The numbers that were handed out, with the times of their issue. -/
def issuedIn (trace : List (ProbeCall × ProbeAnswer)) : List (UInt64 × UInt64) :=
  trace.filterMap fun
    | (.issue nowUs, .issued seq) => some (seq, nowUs)
    | _ => none

/-- The numbers of the acknowledgements that were successful. -/
def ackedIn (trace : List (ProbeCall × ProbeAnswer)) : List UInt64 :=
  trace.filterMap fun
    | (_, .acked (some ack)) => some ack.seq
    | _ => none

def drainedIn (trace : List (ProbeCall × ProbeAnswer)) : List UInt64 :=
  trace.flatMap fun
    | (_, .drained seqs) => seqs
    | _ => []

/-- The probes that were issued and neither acknowledged nor drained, in the order of their
issue. -/
def outstanding (trace : List (ProbeCall × ProbeAnswer)) : List (UInt64 × UInt64) :=
  (issuedIn trace).filter fun e => e.1 ∉ ackedIn trace ++ drainedIn trace

section Append
variable (trace trace' : List (ProbeCall × ProbeAnswer))

theorem issuedIn_append : issuedIn (trace ++ trace') = issuedIn trace ++ issuedIn trace' :=
  List.filterMap_append

theorem ackedIn_append : ackedIn (trace ++ trace') = ackedIn trace ++ ackedIn trace' :=
  List.filterMap_append

theorem drainedIn_append : drainedIn (trace ++ trace') = drainedIn trace ++ drainedIn trace' :=
  List.flatMap_append

end Append

/-- The scheduler and what it has answered agree. -/
structure Accounts (trace : List (ProbeCall × ProbeAnswer)) (p : ProbeScheduler) : Prop where
  next : p.nextSeq = UInt64.ofNat (issuedIn trace).length
  numbers : (issuedIn trace).map Prod.fst = (List.range (issuedIn trace).length).map UInt64.ofNat
  resolved : (ackedIn trace ++ drainedIn trace).Nodup
  known : ackedIn trace ++ drainedIn trace ⊆ (issuedIn trace).map Prod.fst
  waiting : p.inFlight.entries = outstanding trace

namespace Accounts
variable {trace : List (ProbeCall × ProbeAnswer)} {p : ProbeScheduler}

theorem start
    (h : ProbeScheduler.new intervalUs timeoutUs = some p) : Accounts [] p := by
  unfold ProbeScheduler.new at h
  split at h
  · cases h
    exact ⟨rfl, rfl, .nil, List.Subset.refl _, rfl⟩
  · cases h

section
variable (h : Accounts trace p)
include h

theorem issued_nodup (hroom : (issuedIn trace).length ≤ 2 ^ 64) :
    ((issuedIn trace).map Prod.fst).Nodup := by
  rw [h.numbers]
  apply List.Nodup.map_on _ List.nodup_range
  intro i hi j hj heq
  rw [List.mem_range] at hi hj
  have hnat := congrArg UInt64.toNat heq
  rwa [UInt64.toNat_ofNat', UInt64.toNat_ofNat', Nat.mod_eq_of_lt (by omega),
    Nat.mod_eq_of_lt (by omega)] at hnat

theorem lt_next (hroom : (issuedIn trace).length < 2 ^ 64) {seq : UInt64}
    (hseq : seq ∈ (issuedIn trace).map Prod.fst) : seq < p.nextSeq := by
  rw [h.numbers, List.mem_map] at hseq
  obtain ⟨i, hi, rfl⟩ := hseq
  rw [List.mem_range] at hi
  rw [h.next, UInt64.lt_iff_toNat_lt, UInt64.toNat_ofNat', UInt64.toNat_ofNat',
    Nat.mod_eq_of_lt (by omega), Nat.mod_eq_of_lt (by omega)]
  exact hi

theorem issue (hroom : (issuedIn trace).length < 2 ^ 64) (nowUs : UInt64) :
    Accounts (trace ++ [(ProbeCall.issue nowUs, ProbeAnswer.issued (p.issue nowUs).1)])
      (p.issue nowUs).2 := by
  generalize hlast : [(ProbeCall.issue nowUs, ProbeAnswer.issued (p.issue nowUs).1)] = last
  have hissued : issuedIn (trace ++ last) = issuedIn trace ++ [(p.nextSeq, nowUs)] := by
    rw [issuedIn_append, ← hlast]
    rfl
  have hacked : ackedIn (trace ++ last) = ackedIn trace := by
    rw [ackedIn_append, ← hlast]
    exact List.append_nil _
  have hdrained : drainedIn (trace ++ last) = drainedIn trace := by
    rw [drainedIn_append, ← hlast]
    exact List.append_nil _
  have hfresh : p.nextSeq ∉ ackedIn trace ++ drainedIn trace := by
    intro hmem
    exact absurd (h.lt_next hroom (h.known hmem)) (lt_irrefl _)
  constructor
  · rw [hissued, List.length_append, List.length_singleton, UInt64.ofNat_add, ← h.next]
    rfl
  · rw [hissued, List.map_append, List.length_append, List.length_singleton, List.range_succ,
      List.map_append, ← h.numbers, List.map_singleton, List.map_singleton, ← h.next]
  · rw [hacked, hdrained]
    exact h.resolved
  · rw [hacked, hdrained, hissued, List.map_append]
    exact List.Subset.trans h.known (List.subset_append_left _ _)
  · have hlast : ∀ e ∈ p.inFlight.entries, e.1 < p.nextSeq := by
      intro e he
      rw [h.waiting] at he
      exact h.lt_next hroom (List.mem_map_of_mem (List.mem_of_mem_filter he))
    change SortedMap.insertEntry p.nextSeq nowUs p.inFlight.entries = _
    rw [SortedMap.insertEntry_of_lt hlast, outstanding, hissued, hacked, hdrained,
      List.filter_append, h.waiting, List.filter_cons_of_pos (by simpa using hfresh)]
    rfl

theorem resolve {trace' : List (ProbeCall × ProbeAnswer)}
    {p' : ProbeScheduler} (seqs : List UInt64) (hissued : issuedIn trace' = issuedIn trace)
    (hnext : p'.nextSeq = p.nextSeq)
    (hresolved : (ackedIn trace' ++ drainedIn trace').Perm
      (ackedIn trace ++ drainedIn trace ++ seqs))
    (hnodup : seqs.Nodup) (hwaiting : seqs ⊆ p.inFlight.entries.map Prod.fst)
    (hentries : p'.inFlight.entries = p.inFlight.entries.filter fun e => e.1 ∉ seqs) :
    Accounts trace' p' := by
  have hout : ∀ seq ∈ seqs, ∃ e ∈ issuedIn trace, e.1 = seq ∧
      seq ∉ ackedIn trace ++ drainedIn trace := by
    intro seq hseq
    obtain ⟨e, he, rfl⟩ := List.mem_map.mp (hwaiting hseq)
    rw [h.waiting, outstanding, List.mem_filter, decide_eq_true_iff] at he
    exact ⟨e, he.1, rfl, he.2⟩
  constructor
  · rw [hnext, hissued, h.next]
  · rw [hissued, h.numbers]
  · rw [hresolved.nodup_iff, List.nodup_append]
    refine ⟨h.resolved, hnodup, ?_⟩
    rintro seq hseq _ hmem rfl
    obtain ⟨-, -, -, hnot⟩ := hout seq hmem
    exact hnot hseq
  · intro seq hseq
    rw [hissued]
    rcases List.mem_append.mp (hresolved.mem_iff.mp hseq) with hold | hnew
    · exact h.known hold
    · obtain ⟨e, he, rfl, -⟩ := hout seq hnew
      exact List.mem_map_of_mem he
  · rw [hentries, h.waiting, outstanding, outstanding, hissued, List.filter_filter]
    apply List.filter_congr
    intro e _
    rw [← Bool.decide_and, decide_eq_decide, hresolved.mem_iff, List.mem_append (s := _ ++ _),
      not_or, and_comm]

theorem onAck (seq nowUs : UInt64) :
    Accounts (trace ++ [(ProbeCall.onAck seq nowUs, ProbeAnswer.acked (p.onAck seq nowUs).1)])
      (p.onAck seq nowUs).2 := by
  have hissued : ∀ a, issuedIn (trace ++ [(ProbeCall.onAck seq nowUs, ProbeAnswer.acked a)]) =
      issuedIn trace := by
    intro a
    rw [issuedIn_append]
    exact List.append_nil _
  have hdrained : ∀ a, drainedIn (trace ++ [(ProbeCall.onAck seq nowUs, ProbeAnswer.acked a)]) =
      drainedIn trace := by
    intro a
    rw [drainedIn_append]
    exact List.append_nil _
  cases hget : p.inFlight.get? seq with
  | none =>
    have hcall : p.onAck seq nowUs = (none, p) := by rw [ProbeScheduler.onAck, hget]
    rw [hcall]
    refine h.resolve [] (hissued _) (by rfl) ?_ .nil (List.nil_subset _) (by simp)
    rw [hdrained, ackedIn_append, List.append_nil]
    exact List.Perm.of_eq (congrArg (· ++ drainedIn trace) (List.append_nil _))
  | some sendUs =>
    have hcall : p.onAck seq nowUs = (some ⟨seq, (saturatingSub64 nowUs sendUs).toUInt32⟩,
        { p with inFlight := p.inFlight.erase seq }) := by
      rw [ProbeScheduler.onAck, hget]
    have hmem := SortedMap.mem_of_get? hget
    rw [hcall]
    refine h.resolve [seq] (hissued _) (by rfl) ?_ (List.nodup_singleton _) ?_ ?_
    · rw [hdrained, ackedIn_append, List.append_assoc, List.append_assoc]
      exact List.perm_append_comm.append_left _
    · intro s hs
      rw [List.mem_singleton.mp hs]
      exact List.mem_map_of_mem hmem
    · simp [SortedMap.erase, SortedMap.retain]

theorem drainTimeouts (nowUs : UInt64) : Accounts (trace ++ [(ProbeCall.drainTimeouts nowUs,
      ProbeAnswer.drained (p.drainTimeouts nowUs).1)]) (p.drainTimeouts nowUs).2 := by
  have hsub : ((p.drainTimeouts nowUs).1).Sublist (p.inFlight.entries.map Prod.fst) := by
    rw [ProbeScheduler.drainTimeouts_fst]
    exact List.filter_sublist.map _
  refine h.resolve (p.drainTimeouts nowUs).1 ?_ (by rfl) ?_ (hsub.nodup p.inFlight.keys_nodup)
    hsub.subset (SortedMap.entries_foldl_erase _ _)
  · rw [issuedIn_append]
    exact List.append_nil _
  · have hdrained : drainedIn [(ProbeCall.drainTimeouts nowUs,
        ProbeAnswer.drained (p.drainTimeouts nowUs).1)] = (p.drainTimeouts nowUs).1 :=
      List.append_nil _
    have hacked : ackedIn [(ProbeCall.drainTimeouts nowUs,
        ProbeAnswer.drained (p.drainTimeouts nowUs).1)] = [] := rfl
    rw [ackedIn_append, drainedIn_append, hacked, hdrained, List.append_nil, List.append_assoc]

theorem perm (hnodup : ((issuedIn trace).map Prod.fst).Nodup) :
    (ackedIn trace ++ drainedIn trace ++ p.inFlight.entries.map Prod.fst).Perm
      ((issuedIn trace).map Prod.fst) := by
  have hkeys : p.inFlight.entries.map Prod.fst = ((issuedIn trace).map Prod.fst).filter
      fun seq => seq ∉ ackedIn trace ++ drainedIn trace := by
    rw [h.waiting, outstanding, List.filter_map]
    rfl
  rw [hkeys]
  apply (List.perm_ext_iff_of_nodup _ hnodup).mpr
  · intro seq
    rw [List.mem_append, List.mem_filter, decide_eq_true_iff]
    constructor
    · rintro (hresolved | ⟨hissued, -⟩)
      · exact h.known hresolved
      · exact hissued
    · intro hissued
      by_cases hresolved : seq ∈ ackedIn trace ++ drainedIn trace
      · exact Or.inl hresolved
      · exact Or.inr ⟨hissued, hresolved⟩
  · rw [List.nodup_append]
    refine ⟨h.resolved, hnodup.filter _, ?_⟩
    rintro seq hresolved _ hkept rfl
    rw [List.mem_filter, decide_eq_true_iff] at hkept
    exact hkept.2 hresolved

end

end Accounts

theorem accounts_of_run {p : ProbeScheduler}
    (hnew : ProbeScheduler.new intervalUs timeoutUs = some p) (run : List ProbeCall)
    (hroom : run.countP ProbeCall.isIssue ≤ 2 ^ 64) :
    Accounts (probeRun.trace p run) (probeRun.final p run) ∧
      (issuedIn (probeRun.trace p run)).length = run.countP ProbeCall.isIssue ∧
      (probeRun.final p run).timeoutUs = p.timeoutUs := by
  induction run using List.reverseRecOn with
  | nil => exact ⟨Accounts.start hnew, rfl, rfl⟩
  | append_singleton run call ih =>
    rw [List.countP_append] at hroom
    obtain ⟨haccounts, hcount, htimeout⟩ := ih (by omega)
    rw [Machine.trace_append, Machine.final_concat, List.countP_append, ← hcount]
    cases call with
    | issue nowUs =>
      have hleft : (issuedIn (probeRun.trace p run)).length < 2 ^ 64 := by
        rw [List.countP_singleton, ProbeCall.isIssue] at hroom
        simp at hroom
        omega
      refine ⟨haccounts.issue hleft nowUs, ?_, htimeout⟩
      simp [issuedIn, Machine.trace, probeRun, ProbeCall.isIssue]
    | onAck seq nowUs =>
      refine ⟨haccounts.onAck seq nowUs, ?_, ?_⟩
      · simp [issuedIn, Machine.trace, probeRun, ProbeCall.isIssue]
      · exact (ProbeScheduler.onAck_timeoutUs _ seq nowUs).trans htimeout
    | drainTimeouts nowUs =>
      refine ⟨haccounts.drainTimeouts nowUs, ?_, htimeout⟩
      simp [issuedIn, Machine.trace, probeRun, ProbeCall.isIssue]

/-- Every probe of a run is acknowledged once, drained once or still in flight, and a drain takes
exactly those in flight that are as old as the timeout, in the order of their issue. -/
theorem probes_accounted {p : ProbeScheduler} {intervalUs timeoutUs : UInt64}
    (hnew : ProbeScheduler.new intervalUs timeoutUs = some p) (run : List ProbeCall)
    (hissues : run.countP ProbeCall.isIssue < 2 ^ 64) :
    let trace := probeRun.trace p run
    let q := probeRun.final p run
    ((issuedIn trace).map Prod.fst).Nodup ∧
    (issuedIn trace).length = run.countP ProbeCall.isIssue ∧
    (ackedIn trace ++ drainedIn trace ++ q.inFlight.entries.map Prod.fst).Perm
      ((issuedIn trace).map Prod.fst) ∧
    (issuedIn trace).length =
      (ackedIn trace).length + (drainedIn trace).length + q.inFlight.entries.length ∧
    ∀ nowUs, (q.drainTimeouts nowUs).1 = ((outstanding trace).filter fun e =>
      timeoutUs.toNat ≤ nowUs.toNat - e.2.toNat).map Prod.fst := by
  intro trace q
  obtain ⟨haccounts, hcount, htimeout⟩ := accounts_of_run hnew run hissues.le
  have hnodup := haccounts.issued_nodup (by omega)
  have hperm := haccounts.perm hnodup
  refine ⟨hnodup, hcount, hperm, ?_, ?_⟩
  · have hlength := hperm.length_eq
    simp only [List.length_append, List.length_map] at hlength
    exact hlength.symm
  · intro nowUs
    rw [ProbeScheduler.drainTimeouts_fst, haccounts.waiting, htimeout,
      ProbeScheduler.timeoutUs_of_new hnew]

/-- Two probes: the first is acknowledged, twice, and the second is drained. -/
theorem probes_accounted_sample :
    ∃ p, ProbeScheduler.new 500000 2000000 = some p ∧
      (issuedIn (probeRun.trace p [.issue 0, .issue 500000, .onAck 0 600000, .onAck 0 700000,
        .onAck 9 700000, .drainTimeouts 2500000])).length = 1 + 1 + 0 := by
  refine ⟨_, rfl, ?_⟩
  exact (@probes_accounted _ 500000 2000000 rfl [.issue 0, .issue 500000, .onAck 0 600000,
    .onAck 0 700000, .onAck 9 700000, .drainTimeouts 2500000] (by decide)).2.2.2.1

end Desmos.Core

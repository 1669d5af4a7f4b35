import Mathlib.Data.List.AList
import Desmos.Core.Bonding.LinkState
import Desmos.Core.Bonding.Strategy

/-! # The failover controller

One state machine for every link that has been registered or probed, and the rebuilding of the
engine's table from their verdicts. The source keeps the machines in a hash map.
-/
namespace Desmos.Core
open Library Proto

structure LinkTransition where
  linkId : LinkId
  source : LinkState
  target : LinkState
  deriving DecidableEq

def LinkTransition.fromTransition (linkId : LinkId) (t : Transition) : LinkTransition :=
  { linkId := linkId, source := t.source, target := t.target }

structure FailoverController where
  machines : AList fun _ : LinkId => LinkStateMachine

namespace FailoverController

def new : FailoverController := { machines := ∅ }

variable (c : FailoverController)

def machineOf (linkId : LinkId) : LinkStateMachine :=
  (c.machines.lookup linkId).getD .new

def register (linkId : LinkId) : FailoverController :=
  match c.machines.lookup linkId with
  | some _ => c
  | none => { machines := c.machines.insert linkId .new }

def deregister (linkId : LinkId) : FailoverController :=
  { machines := c.machines.erase linkId }

def stateOf (linkId : LinkId) : Option LinkState :=
  (c.machines.lookup linkId).map LinkStateMachine.state

def onProbe (trap : Bool) (c : FailoverController) (linkId : LinkId) (sample : ProbeSample)
    (nowMs : UInt64) : Option (Option LinkTransition × FailoverController) :=
  ((c.machineOf linkId).onProbe trap sample nowMs).map fun (t, machine) =>
    (t.map (.fromTransition linkId), { machines := c.machines.insert linkId machine })

def ticked (nowMs : UInt64) : AList fun _ : LinkId => LinkStateMachine where
  entries := c.machines.entries.map fun e => ⟨e.1, (e.2.tick nowMs).2⟩
  nodupKeys := by
    have hkeys : (c.machines.entries.map fun e : Sigma fun _ : LinkId => LinkStateMachine =>
        (⟨e.1, (e.2.tick nowMs).2⟩ : Sigma fun _ : LinkId => LinkStateMachine)).keys =
          c.machines.entries.keys := by
      simp [List.keys]
    rw [List.NodupKeys, hkeys]
    exact c.machines.nodupKeys

def tick (c : FailoverController) (nowMs : UInt64) : List LinkTransition × FailoverController :=
  (c.machines.entries.filterMap fun e => (e.2.tick nowMs).1.map (.fromTransition e.1),
    { machines := c.ticked nowMs })

/-- The verdict on a link: one that is not registered counts as healthy. -/
def shouldBeHealthy (linkId : LinkId) : Bool :=
  ((c.stateOf linkId).getD .healthy).isBondable

def rebuild (existing : Link) : Link :=
  { id := existing.id, name := existing.name, peer := existing.peer, weight := existing.weight
    healthy := c.shouldBeHealthy existing.id }

def applyToEngine (engine : Engine) : Engine :=
  let current := engine.linksSnapshot
  let dirty := current.links.any fun existing =>
    existing.healthy != c.shouldBeHealthy existing.id
  if dirty then engine.swapLinks ⟨current.links.map c.rebuild⟩ else engine

end FailoverController

inductive FailoverCall where
  | register (linkId : LinkId)
  | deregister (linkId : LinkId)
  | onProbe (linkId : LinkId) (sample : ProbeSample) (nowMs : UInt64)
  | tick (nowMs : UInt64)
  deriving DecidableEq

def FailoverController.call (trap : Bool) (c : FailoverController) :
    FailoverCall → Option (List LinkTransition × FailoverController)
  | .register linkId => some ([], c.register linkId)
  | .deregister linkId => some ([], c.deregister linkId)
  | .onProbe linkId sample nowMs =>
    (c.onProbe trap linkId sample nowMs).map fun (t, c) => (t.toList, c)
  | .tick nowMs => some (c.tick nowMs)

/-- The controller under a run of calls; a panic ends it. -/
def failoverRun (trap : Bool) :
    Machine (Option FailoverController) FailoverCall (List LinkTransition) :=
  fun s call =>
    match s.bind fun c => c.call trap call with
    | some (out, c) => (out, some c)
    | none => ([], none)

/-- What a link's own machine has seen since it was last dropped. -/
def ownHistory (linkId : LinkId) (calls : List FailoverCall) : List LinkCall :=
  calls.foldl (fun history call =>
    match call with
    | .register _ => history
    | .deregister id => if id = linkId then [] else history
    | .onProbe id sample nowMs => if id = linkId then history ++ [.onProbe sample nowMs] else history
    | .tick nowMs => history ++ [.tick nowMs]) []

variable {trap : Bool} {c : FailoverController}

namespace FailoverController

section
variable (c : FailoverController)

theorem machineOf_insert (id linkId : LinkId) (m : LinkStateMachine) :
    machineOf { machines := c.machines.insert id m } linkId =
      if linkId = id then m else c.machineOf linkId := by
  unfold machineOf
  by_cases h : linkId = id
  · subst h
    rw [AList.lookup_insert, if_pos rfl]
    rfl
  · rw [AList.lookup_insert_ne h, if_neg h]

theorem machineOf_register (id linkId : LinkId) :
    (c.register id).machineOf linkId = c.machineOf linkId := by
  unfold register
  split
  · rfl
  · next hnone =>
    rw [machineOf_insert]
    split
    · next h => rw [h, machineOf, hnone, Option.getD_none]
    · rfl

theorem machineOf_deregister (id linkId : LinkId) :
    (c.deregister id).machineOf linkId = if id = linkId then .new else c.machineOf linkId := by
  unfold machineOf deregister
  by_cases h : id = linkId
  · subst h
    rw [AList.lookup_erase, if_pos rfl, Option.getD_none]
  · rw [AList.lookup_erase_ne (Ne.symm h), if_neg h]

theorem machineOf_tick (nowMs : UInt64) (linkId : LinkId) :
    (c.tick nowMs).2.machineOf linkId = ((c.machineOf linkId).tick nowMs).2 := by
  have hlookup : (c.ticked nowMs).lookup linkId =
      (c.machines.lookup linkId).map fun m => (m.tick nowMs).2 :=
    List.dlookup_map₂ (γ := fun _ => LinkStateMachine) (δ := fun _ => LinkStateMachine)
      (l := c.machines.entries) (f := fun _ m => (m.tick nowMs).2) linkId
  unfold machineOf tick
  rw [hlookup]
  cases c.machines.lookup linkId <;> rfl

end

/-- Everything that one call can do to one link's machine. -/
theorem machineOf_call {c' : FailoverController} {call : FailoverCall}
    {out : List LinkTransition} (h : c.call trap call = some (out, c')) (linkId : LinkId) :
    match call with
    | .register _ => c'.machineOf linkId = c.machineOf linkId
    | .deregister id => c'.machineOf linkId = if id = linkId then .new else c.machineOf linkId
    | .onProbe id sample nowMs =>
      if id = linkId then ∃ t, (c.machineOf linkId).onProbe trap sample nowMs =
        some (t, c'.machineOf linkId)
      else c'.machineOf linkId = c.machineOf linkId
    | .tick nowMs => c'.machineOf linkId = ((c.machineOf linkId).tick nowMs).2 := by
  cases call with
  | register id =>
    cases h
    exact c.machineOf_register id linkId
  | deregister id =>
    cases h
    exact c.machineOf_deregister id linkId
  | tick nowMs =>
    cases h
    exact c.machineOf_tick nowMs linkId
  | onProbe id sample nowMs =>
    obtain ⟨⟨t, c₁⟩, hprobe, heq⟩ := Option.map_eq_some_iff.mp h
    cases heq
    obtain ⟨⟨t, m⟩, hm, heq⟩ := Option.map_eq_some_iff.mp hprobe
    cases heq
    rw [machineOf_insert]
    by_cases hid : id = linkId
    · subst hid
      simp only [if_true]
      exact ⟨t, hm⟩
    · simp only [if_neg hid, if_neg (Ne.symm hid)]

theorem failoverRun_next {s : Option FailoverController} {c' : FailoverController}
    {call : FailoverCall} (h : (failoverRun trap s call).2 = some c') :
    ∃ c out, s = some c ∧ c.call trap call = some (out, c') := by
  unfold failoverRun at h
  split at h
  · next out c hcall =>
    obtain ⟨c₀, rfl, hcall⟩ := Option.bind_eq_some_iff.mp hcall
    cases h
    exact ⟨c₀, out, rfl, hcall⟩
  · cases h

end FailoverController

theorem linkRun_some {m m' : LinkStateMachine} {c : LinkCall} {t : Option Transition}
    (h : m.call trap c = some (t, m')) : (linkRun trap (some m) c).2 = some m' := by
  simp [linkRun, h]

theorem ownHistory_concat (linkId : LinkId) (past : List FailoverCall) (call : FailoverCall) :
    ownHistory linkId (past ++ [call]) =
      match call with
      | .register _ => ownHistory linkId past
      | .deregister id => if id = linkId then [] else ownHistory linkId past
      | .onProbe id sample nowMs =>
        if id = linkId then ownHistory linkId past ++ [.onProbe sample nowMs]
        else ownHistory linkId past
      | .tick nowMs => ownHistory linkId past ++ [.tick nowMs] := by
  simp [ownHistory]

/-- In a controller each link has its own machine, driven by the link's own history. -/
theorem machineOf_eq_linkRun (trap : Bool) (calls : List FailoverCall)
    (hc : (failoverRun trap).final (some .new) calls = some c) (linkId : LinkId) :
    (linkRun trap).final (some .new) (ownHistory linkId calls) = some (c.machineOf linkId) := by
  refine Machine.final_history (m := failoverRun trap) (s := some .new)
    (I := fun past s => ∀ c, s = some c →
      (linkRun trap).final (some .new) (ownHistory linkId past) = some (c.machineOf linkId))
    ?_ ?_ calls c hc
  · intro c hc
    cases hc
    rfl
  · intro past call ih c' hc'
    obtain ⟨c, out, hc, hcall⟩ := FailoverController.failoverRun_next hc'
    have hstep := FailoverController.machineOf_call hcall linkId
    have hown := ih c hc
    rw [ownHistory_concat]
    cases call with
    | register id => rw [hown, hstep]
    | deregister id =>
      by_cases hid : id = linkId
      · simp only [if_pos hid] at hstep ⊢
        rw [hstep]
        rfl
      · simp only [if_neg hid] at hstep ⊢
        rw [hown, hstep]
    | onProbe id sample nowMs =>
      by_cases hid : id = linkId
      · simp only [if_pos hid] at hstep ⊢
        obtain ⟨t, ht⟩ := hstep
        rw [Machine.final_concat, hown]
        exact linkRun_some ht
      · simp only [if_neg hid] at hstep ⊢
        rw [hown, hstep]
    | tick nowMs =>
      rw [Machine.final_concat, hown, hstep]
      rfl

theorem LinkStateMachine.onProbe_eq_none {m : LinkStateMachine}
    {sample : ProbeSample} {nowMs : UInt64} (h : m.onProbe trap sample nowMs = none) :
    trap = true ∧ 2 ^ 64 ≤ nowMs.toNat + 10000 := by
  have hnext : (m.count sample).computeNext trap nowMs = none := Option.map_eq_none_iff.mp h
  have hadd : U64.add trap nowMs probationMs = none := by
    by_contra hsome
    obtain ⟨untilMs, huntil⟩ := Option.ne_none_iff_exists'.mp hsome
    unfold computeNext at hnext
    simp only [huntil, Option.map_some] at hnext
    repeat' split at hnext
    all_goals cases hnext
  unfold U64.add at hadd
  split at hadd
  · next hover => exact hover
  · cases hadd

namespace FailoverController

theorem call_eq_none {call : FailoverCall}
    (h : c.call trap call = none) :
    trap = true ∧ ∃ id sample nowMs, call = .onProbe id sample nowMs ∧
      2 ^ 64 ≤ nowMs.toNat + 10000 := by
  cases call with
  | register id => cases h
  | deregister id => cases h
  | tick nowMs => cases h
  | onProbe id sample nowMs =>
    have hprobe := Option.map_eq_none_iff.mp (Option.map_eq_none_iff.mp h)
    obtain ⟨htrap, hover⟩ := LinkStateMachine.onProbe_eq_none hprobe
    exact ⟨htrap, id, sample, nowMs, rfl, hover⟩

theorem failoverRun_eq_none {calls : List FailoverCall}
    (h : (failoverRun trap).final (some c) calls = none) :
    trap = true ∧ ∃ id sample nowMs, .onProbe id sample nowMs ∈ calls ∧
      2 ^ 64 ≤ nowMs.toNat + 10000 := by
  induction calls generalizing c with
  | nil => cases h
  | cons call calls ih =>
    rw [Machine.final_cons] at h
    cases hcall : c.call trap call with
    | none =>
      obtain ⟨htrap, id, sample, nowMs, rfl, hover⟩ := call_eq_none hcall
      exact ⟨htrap, id, sample, nowMs, List.mem_cons_self, hover⟩
    | some r =>
      have hgo : (failoverRun trap (some c) call).2 = some r.2 := by simp [failoverRun, hcall]
      rw [hgo] at h
      obtain ⟨htrap, id, sample, nowMs, hmem, hover⟩ := ih h
      exact ⟨htrap, id, sample, nowMs, List.mem_cons_of_mem _ hmem, hover⟩

/-- Where nothing is dirty, rebuilding would change nothing. -/
theorem rebuild_of_clean {links : List Link}
    (hclean : (links.any fun existing => existing.healthy != c.shouldBeHealthy existing.id) = false) :
    ∀ l ∈ links, c.rebuild l = l := by
  intro l hl
  have hflag : l.healthy = c.shouldBeHealthy l.id := by
    simpa using List.any_eq_false.mp hclean l hl
  unfold rebuild
  rw [← hflag]

theorem applyToEngine_links (c : FailoverController) (e : Engine) :
    (c.applyToEngine e).links.links = e.links.links.map c.rebuild := by
  unfold applyToEngine
  by_cases hdirty : (e.linksSnapshot.links.any fun existing =>
      existing.healthy != c.shouldBeHealthy existing.id) = true
  · rw [if_pos hdirty]
    rfl
  · rw [if_neg hdirty]
    have hsame : ∀ l ∈ e.links.links, c.rebuild l = l :=
      rebuild_of_clean (Bool.eq_false_iff.mpr hdirty)
    rw [List.map_congr_left hsame, List.map_id']

theorem shouldBeHealthy_iff (c : FailoverController) (linkId : LinkId) :
    c.shouldBeHealthy linkId = true ↔ c.stateOf linkId ≠ some .dead := by
  unfold shouldBeHealthy
  cases hst : c.stateOf linkId with
  | none => simp [LinkState.isBondable]
  | some st => cases st <;> simp [LinkState.isBondable]

theorem mem_healthy_applyToEngine {e : Engine} {l : Link} :
    l ∈ (c.applyToEngine e).links.healthy ↔
      l ∈ (c.applyToEngine e).links.links ∧ c.stateOf l.id ≠ some .dead := by
  rw [LinkTable.healthy, List.mem_filter, ← c.shouldBeHealthy_iff]
  refine and_congr_right fun hl => ?_
  rw [applyToEngine_links] at hl
  obtain ⟨existing, -, rfl⟩ := List.mem_map.mp hl
  rfl

theorem healthy_applyToEngine_eq_nil (c : FailoverController) (e : Engine) :
    (c.applyToEngine e).links.healthy = [] ↔
      ∀ l ∈ e.links.links, c.stateOf l.id = some .dead := by
  rw [List.eq_nil_iff_forall_not_mem]
  constructor
  · intro h l hl
    by_contra hne
    have hmem : c.rebuild l ∈ (c.applyToEngine e).links.links := by
      rw [applyToEngine_links]
      exact List.mem_map_of_mem hl
    exact h _ (mem_healthy_applyToEngine.mpr ⟨hmem, hne⟩)
  · intro h l hl
    obtain ⟨hmem, hne⟩ := mem_healthy_applyToEngine.mp hl
    rw [applyToEngine_links] at hmem
    obtain ⟨existing, hex, rfl⟩ := List.mem_map.mp hmem
    exact hne (h existing hex)

end FailoverController

/-- After any run of calls and a rebuilding of the table, every flag is the verdict of the link's
machine, nothing else has changed, and what any strategy of the source then schedules avoids the
dead links; it schedules nothing exactly if all are dead. -/
theorem dead_links_carry_no_traffic (trap : Bool) (c : FailoverController)
    (calls : List FailoverCall) (e : Engine) :
    ((failoverRun trap).final (some c) calls = none → trap = true ∧
      ∃ id sample nowMs, .onProbe id sample nowMs ∈ calls ∧ 2 ^ 64 ≤ nowMs.toNat + 10000) ∧
    ∀ c', (failoverRun trap).final (some c) calls = some c' →
      (c'.applyToEngine e).links.links = e.links.links.map (fun l =>
        { l with healthy := (c'.stateOf l.id).elim true LinkState.isBondable }) ∧
      ∀ strategy : BondingStrategy, strategy.OfSource → ∀ packets,
        ∀ a ∈ Engine.scheduleRun.trace ((c'.applyToEngine e).swapStrategy strategy) packets,
          (∀ l ∈ LinkSelection.links a.2,
            l ∈ (c'.applyToEngine e).links.links ∧ c'.stateOf l.id ≠ some .dead) ∧
          (a.2 = .none ↔ ∀ l ∈ e.links.links, c'.stateOf l.id = some .dead) := by
  refine ⟨FailoverController.failoverRun_eq_none, fun c' _ => ⟨?_, ?_⟩⟩
  · rw [FailoverController.applyToEngine_links]
    refine List.map_congr_left fun l _ => ?_
    unfold FailoverController.rebuild FailoverController.shouldBeHealthy
    cases c'.stateOf l.id <;> rfl
  · intro strategy hs packets a ha
    have hdrawn := Engine.scheduleRun_drawnFrom
      (e := (c'.applyToEngine e).swapStrategy strategy) hs.healthyOnly packets a ha
    refine ⟨fun l hl => ?_, ?_⟩
    · exact FailoverController.mem_healthy_applyToEngine.mp (hdrawn.mem l hl)
    · rw [← c'.healthy_applyToEngine_eq_nil e]
      exact hdrawn.none_iff

def Sample.loopback : SocketAddr := ⟨.v4 #v[127, 0, 0, 1], 51820⟩

def Sample.threeLinks : Engine :=
  .newWithRoundRobin
    ⟨[.new 1 "a" loopback 10, .new 2 "b" loopback 10, .new 3 "c" loopback 10]⟩

def Sample.silence : List FailoverCall := List.replicate 3 (.onProbe 1 .noResponse 0)

theorem silent_link_machine : ∃ c, (failoverRun true).final (some .new) Sample.silence = some c ∧
    (linkRun true).final (some .new) (ownHistory 1 Sample.silence) = some (c.machineOf 1) :=
  ⟨_, rfl, machineOf_eq_linkRun true Sample.silence rfl 1⟩

theorem silent_link_skipped : ∃ c', (failoverRun true).final (some .new) Sample.silence = some c' ∧
    c'.stateOf 1 = some .dead ∧
    ∀ packets, ∀ a ∈ Engine.scheduleRun.trace
        ((c'.applyToEngine Sample.threeLinks).swapStrategy (roundRobin 0)) packets,
      ∀ l ∈ LinkSelection.links a.2, c'.stateOf l.id ≠ some .dead := by
  refine ⟨_, rfl, rfl, fun packets a ha l hl => ?_⟩
  have h := (dead_links_carry_no_traffic true .new Sample.silence Sample.threeLinks).2 _ rfl
  exact ((h.2 _ (.roundRobin 0) packets a ha).1 l hl).2

end Desmos.Core

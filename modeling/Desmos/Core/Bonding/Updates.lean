import Desmos.Core.Bonding.Failover

/-! # Operator updates beside failover decisions

The operator's switch and the failover controller write the same health flag. A link that was
switched off is scheduled again as soon as the controller rebuilds the table.
-/
namespace Desmos.Core
open Library Proto

/-- The engine of a tunnel and the controller that watches its links. -/
structure BondingSystem where
  engine : Engine
  controller : FailoverController

inductive BondingCall where
  | failover (call : FailoverCall)
  | applyToEngine
  | updateLink (name : String) (weight : Option UInt32) (enabled : Option Bool)

/-- The call switches the links with this name on. -/
def BondingCall.Enables (name : String) (call : BondingCall) : Prop :=
  ∃ weight, call = .updateLink name weight (some true)

/-- The system under a run of calls; a panic ends it. Scheduling is left out: it changes no
table and no controller. -/
def bondingRun (trap : Bool) : Machine (Option BondingSystem) BondingCall Unit :=
  fun s call => ((), s.bind fun sys =>
    match call with
    | .failover call => (sys.controller.call trap call).map fun r => { sys with controller := r.2 }
    | .applyToEngine => some { sys with engine := sys.controller.applyToEngine sys.engine }
    | .updateLink name weight enabled =>
      some { sys with engine := (sys.engine.updateLink name weight enabled).2 })

/-- No strategy of the source, in any state, sends a packet on a link with this name. -/
def Engine.NeverSelects (e : Engine) (name : String) : Prop :=
  ∀ strategy : BondingStrategy, strategy.OfSource → ∀ packet,
    ∀ l ∈ ((e.swapStrategy strategy).schedule packet).1.links, l.name ≠ name

/-- Every link with this name is marked dead. -/
def LinkTable.Off (t : LinkTable) (name : String) : Prop :=
  ∀ l ∈ t.links, l.name = name → l.healthy = false

theorem Engine.neverSelects_iff (e : Engine) (name : String) :
    e.NeverSelects name ↔ e.links.Off name := by
  constructor
  · intro h l hl hname
    by_contra hhealthy
    have hmem : l ∈ e.links.healthy := List.mem_filter.mpr ⟨hl, by simpa using hhealthy⟩
    have hne : e.links.healthy ≠ [] := List.ne_nil_of_mem hmem
    -- redundant sends on every healthy link
    have hsel : ((e.swapStrategy redundant).schedule
        (.outbound ⟨0⟩ ⟨0⟩)).1 = .many e.links.healthy := by
      simp [Engine.schedule, Engine.swapStrategy, redundant, hne]
    refine h redundant .redundant (.outbound ⟨0⟩ ⟨0⟩) l ?_ hname
    rw [hsel]
    exact hmem
  · intro h strategy hs packet l hl hname
    have hdrawn := (hs.healthyOnly strategy.state packet e.links).mem l hl
    obtain ⟨hmem, hhealthy⟩ := List.mem_filter.mp hdrawn
    rw [h l hmem hname] at hhealthy
    cases hhealthy

@[simp] theorem Link.update_name (l : Link) (name : String) (weight : Option UInt32)
    (enabled : Option Bool) : (l.update name weight enabled).name = l.name := by
  unfold Link.update
  split
  · cases enabled with
    | none => rfl
    | some b => cases b <;> rfl
  · rfl

@[simp] theorem Link.update_id (l : Link) (name : String) (weight : Option UInt32)
    (enabled : Option Bool) : (l.update name weight enabled).id = l.id := by
  unfold Link.update
  split
  · cases enabled with
    | none => rfl
    | some b => cases b <;> rfl
  · rfl

variable {name : String} {weight : Option UInt32} {enabled : Option Bool} {l : Link} {trap : Bool}
  {sys : BondingSystem} {run : List BondingCall}

/-- Where no link has the name, updating would change nothing. -/
theorem Link.update_of_absent {links : List Link}
    (habsent : (links.any fun link => link.name == name) = false) :
    ∀ l ∈ links, l.update name weight enabled = l := by
  intro l hl
  have hne : l.name ≠ name := by
    simpa using List.any_eq_false.mp habsent l hl
  unfold Link.update
  rw [if_neg hne]

theorem Engine.updateLink_links (e : Engine) (name : String) (weight : Option UInt32)
    (enabled : Option Bool) : (e.updateLink name weight enabled).2.links.links =
      e.links.links.map fun l => l.update name weight enabled := by
  unfold Engine.updateLink
  by_cases hfound : (e.linksSnapshot.links.any fun link => link.name == name) = true
  · rw [if_pos hfound]
    rfl
  · rw [if_neg hfound]
    have hsame : ∀ l ∈ e.links.links, l.update name weight enabled = l :=
      Link.update_of_absent (Bool.eq_false_iff.mpr hfound)
    rw [List.map_congr_left hsame, List.map_id']

/-- The ids and names of a table, by position. -/
def LinkTable.labels (t : LinkTable) : List (LinkId × String) := t.links.map fun l => (l.id, l.name)

theorem LinkTable.exists_of_labels {t u : LinkTable} (h : t.labels = u.labels)
    (hl : l ∈ u.links) : ∃ l' ∈ t.links, l'.id = l.id ∧ l'.name = l.name := by
  have hmem : (l.id, l.name) ∈ t.labels := by
    rw [h]
    exact List.mem_map_of_mem hl
  obtain ⟨l', hl', heq⟩ := List.mem_map.mp hmem
  exact ⟨l', hl', (Prod.mk.inj heq).1, (Prod.mk.inj heq).2⟩

theorem Engine.updateLink_labels (e : Engine) (name : String) (weight : Option UInt32)
    (enabled : Option Bool) :
    (e.updateLink name weight enabled).2.links.labels = e.links.labels := by
  unfold LinkTable.labels
  rw [Engine.updateLink_links, List.map_map]
  exact List.map_congr_left fun l _ => by simp

theorem FailoverController.applyToEngine_labels (c : FailoverController) (e : Engine) :
    (c.applyToEngine e).links.labels = e.links.labels := by
  unfold LinkTable.labels
  rw [applyToEngine_links, List.map_map]
  rfl

theorem Link.update_off {other : String} (hoff : l.name = name → l.healthy = false)
    (henabled : other = name → enabled ≠ some true) (hname : l.name = name) :
    (l.update other weight enabled).healthy = false := by
  have hl := hoff hname
  unfold Link.update
  split
  · next hother =>
    have hne := henabled (hother.symm.trans hname)
    cases enabled with
    | none => exact hl
    | some b =>
      cases b with
      | false => rfl
      | true => exact absurd rfl hne
  · exact hl

namespace BondingSystem

variable {trap : Bool} {sys sys' : BondingSystem} {call : BondingCall} {name : String}

theorem labels_step (h : (bondingRun trap (some sys) call).2 = some sys') :
    sys'.engine.links.labels = sys.engine.links.labels := by
  cases call with
  | failover call =>
    obtain ⟨r, -, rfl⟩ := Option.map_eq_some_iff.mp h
    rfl
  | applyToEngine =>
    cases h
    exact FailoverController.applyToEngine_labels _ _
  | updateLink name weight enabled =>
    cases h
    exact Engine.updateLink_labels _ _ _ _

theorem off_step (h : (bondingRun trap (some sys) call).2 = some sys')
    (hoff : sys.engine.links.Off name) (hcall : ¬ call.Enables name)
    (hdead : call = .applyToEngine → ∀ l ∈ sys.engine.links.links, l.name = name →
      sys.controller.stateOf l.id = some .dead) : sys'.engine.links.Off name := by
  cases call with
  | failover call =>
    obtain ⟨r, -, rfl⟩ := Option.map_eq_some_iff.mp h
    exact hoff
  | applyToEngine =>
    cases h
    intro l hl hname
    rw [FailoverController.applyToEngine_links] at hl
    obtain ⟨existing, hex, rfl⟩ := List.mem_map.mp hl
    have hst := hdead rfl existing hex hname
    have hflag := (sys.controller.shouldBeHealthy_iff existing.id).not.mpr (by simpa using hst)
    exact Bool.eq_false_iff.mpr hflag
  | updateLink other weight enabled =>
    cases h
    intro l hl hname
    rw [Engine.updateLink_links] at hl
    obtain ⟨existing, hex, rfl⟩ := List.mem_map.mp hl
    rw [Link.update_name] at hname
    refine Link.update_off (hoff existing hex) ?_ hname
    rintro rfl rfl
    exact hcall ⟨weight, rfl⟩

theorem bondingRun_next {s : Option BondingSystem} (h : (bondingRun trap s call).2 = some sys') :
    ∃ sys, s = some sys := by
  obtain ⟨sys, rfl, -⟩ := Option.bind_eq_some_iff.mp h
  exact ⟨sys, rfl⟩

theorem labels_run {run : List BondingCall}
    (h : (bondingRun trap).final (some sys) run = some sys') :
    sys'.engine.links.labels = sys.engine.links.labels := by
  refine Machine.final_history (m := bondingRun trap) (s := some sys)
    (I := fun _ s => ∀ sys', s = some sys' → sys'.engine.links.labels = sys.engine.links.labels)
    ?_ ?_ run sys' h
  · intro sys' h
    cases h
    rfl
  · intro past call ih sys' h
    obtain ⟨mid, hmid⟩ := bondingRun_next h
    rw [hmid] at h
    exact (labels_step h).trans (ih mid hmid)

end BondingSystem

/-- Along the whole run, nothing is sent on a link with this name. -/
def StaysOff (trap : Bool) (sys : BondingSystem) (name : String) (run : List BondingCall) : Prop :=
  ∀ past rest, run = past ++ rest → ∀ sys',
    (bondingRun trap).final (some sys) past = some sys' → sys'.engine.NeverSelects name

/-- Whenever the run rebuilds the table, the machine of every link with this name is dead. -/
def RebuildsWhileDead (trap : Bool) (sys : BondingSystem) (name : String)
    (run : List BondingCall) : Prop :=
  ∀ past rest, run = past ++ .applyToEngine :: rest → ∀ sys',
    (bondingRun trap).final (some sys) past = some sys' →
    ∀ l ∈ sys.engine.links.links, l.name = name → sys'.controller.stateOf l.id = some .dead

theorem BondingSystem.off_run {sys' : BondingSystem}
    (h : (bondingRun trap).final (some sys) run = some sys')
    (hoff : sys.engine.links.Off name) (hrun : ∀ call ∈ run, ¬ call.Enables name)
    (hdead : RebuildsWhileDead trap sys name run) : sys'.engine.links.Off name := by
  refine Machine.final_history (m := bondingRun trap) (s := some sys)
    (I := fun past s => (∀ call ∈ past, ¬ call.Enables name) → RebuildsWhileDead trap sys name past →
      ∀ sys', s = some sys' → sys'.engine.links.Off name) ?_ ?_ run hrun hdead sys' h
  · intro _ _ sys' h
    cases h
    exact hoff
  · intro past call ih hpast hdead sys' h
    obtain ⟨mid, hmid⟩ := bondingRun_next h
    have hbefore : mid.engine.links.Off name := by
      refine ih (fun c hc => hpast c (List.mem_append_left _ hc)) ?_ mid hmid
      rintro front rest rfl
      exact hdead front (rest ++ [call]) (by simp)
    have hlabels := labels_run hmid
    rw [hmid] at h
    refine off_step h hbefore (hpast call (by simp)) ?_
    rintro rfl l hl hname
    obtain ⟨l', hl', hid, hname'⟩ := LinkTable.exists_of_labels hlabels.symm hl
    rw [← hid]
    exact hdead past [] rfl mid hmid l' hl' (hname'.trans hname)

theorem staysOff_iff (hoff : sys.engine.links.Off name) (hrun : ∀ call ∈ run, ¬ call.Enables name) :
    StaysOff trap sys name run ↔ RebuildsWhileDead trap sys name run := by
  constructor
  · rintro h past rest rfl mid hmid l hl hname
    have hafter : (bondingRun trap).final (some sys) (past ++ [.applyToEngine]) =
        some { mid with engine := mid.controller.applyToEngine mid.engine } := by
      rw [Machine.final_concat, hmid]
      rfl
    have hnever := h (past ++ [.applyToEngine]) rest (by simp) _ hafter
    obtain ⟨l', hl', hid, hname'⟩ :=
      LinkTable.exists_of_labels (BondingSystem.labels_run hmid) hl
    have hmem : mid.controller.rebuild l' ∈
        (mid.controller.applyToEngine mid.engine).links.links := by
      rw [FailoverController.applyToEngine_links]
      exact List.mem_map_of_mem hl'
    have hflag := (Engine.neverSelects_iff _ name).mp hnever _ hmem (hname'.trans hname)
    by_contra hne
    rw [← hid] at hne
    have htrue := (mid.controller.shouldBeHealthy_iff l'.id).mpr hne
    exact Bool.eq_false_iff.mp hflag htrue
  · rintro h past rest rfl sys' hsys'
    rw [Engine.neverSelects_iff]
    refine BondingSystem.off_run hsys' hoff (fun c hc => hrun c (List.mem_append_left _ hc)) ?_
    rintro front back rfl
    exact h front (back ++ rest) (by simp)

/-- After an update that switches the links with a name off, they stay off along a run that does
not switch them on again exactly if every rebuilding of the table finds their machines dead. -/
theorem switched_off_stays_off_iff (trap : Bool) (e : Engine) (c : FailoverController)
    (name : String) (weight : Option UInt32) (run : List BondingCall)
    (hrun : ∀ call ∈ run, ¬ call.Enables name) :
    StaysOff trap ⟨(e.updateLink name weight (some false)).2, c⟩ name run ↔
      RebuildsWhileDead trap ⟨(e.updateLink name weight (some false)).2, c⟩ name run := by
  apply staysOff_iff _ hrun
  intro l hl hname
  rw [Engine.updateLink_links] at hl
  obtain ⟨existing, -, rfl⟩ := List.mem_map.mp hl
  rw [Link.update_name] at hname
  simp [Link.update, hname, Link.markDead]

/-- Until the table is next rebuilt, the probes of the link do not switch it on. -/
theorem switched_off_until_rebuilt : StaysOff true
    ⟨(Sample.threeLinks.updateLink "a" none (some false)).2, .new⟩ "a"
    [.failover (.onProbe 1 .good 0), .failover (.tick 1)] := by
  rw [switched_off_stays_off_iff true Sample.threeLinks .new "a" none _ (by
    rintro call hcall ⟨weight, rfl⟩
    simp at hcall)]
  intro past rest hsplit
  have hmem : BondingCall.applyToEngine ∈
      [BondingCall.failover (.onProbe 1 .good 0), .failover (.tick 1)] := by
    rw [hsplit]
    simp
  simp at hmem

/-- A link that has just been switched off, a rebuilding of the table, and the next packet. -/
theorem switched_off_link_scheduled :
    (Sample.threeLinks.updateLink "a" none (some false)).1 = true ∧
    ((FailoverController.new.applyToEngine
        (Sample.threeLinks.updateLink "a" none (some false)).2).schedule (.outbound ⟨0⟩ ⟨0⟩)).1 =
      .one (.new 1 "a" Sample.loopback 10) :=
  ⟨rfl, rfl⟩

end Desmos.Core

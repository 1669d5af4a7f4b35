import Desmos.Core.Bonding
import Desmos.Library.Machine

/-! # What the strategies select from

Every strategy of the source draws from the healthy links of the table it is given, and
selects nothing only if there are none.
-/
namespace Desmos.Core
open Library Proto

/-- The selection holds healthy links only, and none only if the table has none. -/
structure LinkSelection.DrawnFrom (sel : LinkSelection) (table : LinkTable) : Prop where
  mem : ∀ l ∈ sel.links, l ∈ table.healthy
  none_iff : sel = .none ↔ table.healthy = []

/-- Whatever its state, the strategy draws from the healthy links. -/
def BondingStrategy.HealthyOnly (s : BondingStrategy) : Prop :=
  ∀ st packet table, (s.schedule st packet table).1.DrawnFrom table

/-- The selection is one link out of the list. -/
def LinkSelection.OneOf (sel : LinkSelection) (links : List Link) : Prop :=
  ∃ link ∈ links, sel = .one link

def selectAt (links : List Link) (i : ℕ) : LinkSelection := (links[i]?).elim .none .one

variable {links healthy : List Link} {s : BondingStrategy}

@[simp] theorem selectAt_of_getElem? {i : ℕ} {link : Link}
    (h : links[i]? = some link) : selectAt links i = .one link := by
  rw [selectAt, h, Option.elim_some]

namespace LinkSelection

variable {table : LinkTable}

theorem drawnFrom_none (h : table.healthy = []) : none.DrawnFrom table :=
  ⟨nofun, fun _ => h, fun _ => rfl⟩

theorem OneOf.drawnFrom {sel : LinkSelection} (h : sel.OneOf table.healthy) :
    sel.DrawnFrom table := by
  obtain ⟨link, hmem, rfl⟩ := h
  refine ⟨fun l hl => ?_, nofun, fun hnil => ?_⟩
  · rw [List.mem_singleton.mp hl]
    exact hmem
  · rw [hnil] at hmem
    cases hmem

end LinkSelection

theorem getElem?_mod_length {α : Type*} {l : List α} (h : l ≠ []) (n : ℕ) :
    ∃ a ∈ l, l[n % l.length]? = some a := by
  have hlt : n % l.length < l.length := Nat.mod_lt _ (List.length_pos_of_ne_nil h)
  exact ⟨l[n % l.length], List.getElem_mem hlt, List.getElem?_eq_getElem hlt⟩

theorem uniformPick_oneOf (draw : UInt64) (h : healthy ≠ []) :
    (uniformPick draw healthy).OneOf healthy := by
  obtain ⟨link, hmem, hget⟩ := getElem?_mod_length h draw.toNat
  refine ⟨link, hmem, ?_⟩
  unfold uniformPick
  rw [hget]

theorem weightedWalk_oneOf (pick cumulative : UInt64) (h : links ≠ []) :
    (weightedWalk pick cumulative links).OneOf links := by
  fun_induction weightedWalk pick cumulative links with
  | case1 => exact absurd rfl h
  | case2 _ link => exact ⟨link, List.mem_singleton.mpr rfl, rfl⟩
  | case3 _ link links hne cumulative hlt => exact ⟨link, List.mem_cons_self, rfl⟩
  | case4 _ link links hne cumulative hge ih =>
    obtain ⟨l, hl, heq⟩ := ih fun hnil => hne hnil
    exact ⟨l, List.mem_cons_of_mem _ hl, heq⟩

theorem adaptiveWalk_oneOf (pick cumulative : Float32) {links : List (Link × Float32)}
    (h : links ≠ []) : (adaptiveWalk pick cumulative links).OneOf (links.map Prod.fst) := by
  fun_induction adaptiveWalk pick cumulative links with
  | case1 => exact absurd rfl h
  | case2 _ link => exact ⟨link, by simp, rfl⟩
  | case3 _ link w rest hne cumulative hlt => exact ⟨link, by simp, rfl⟩
  | case4 _ link w rest hne cumulative hge ih =>
    obtain ⟨l, hl, heq⟩ := ih fun hnil => hne hnil
    exact ⟨l, List.mem_cons_of_mem _ hl, heq⟩

theorem adaptiveWalk_zip_oneOf (pick cumulative : Float32) (weightOf : Link → Float32)
    (h : healthy ≠ []) :
    (adaptiveWalk pick cumulative (healthy.zip (healthy.map weightOf))).OneOf healthy := by
  have hfst : (healthy.zip (healthy.map weightOf)).map Prod.fst = healthy :=
    List.map_fst_zip (by simp)
  have hne : healthy.zip (healthy.map weightOf) ≠ [] := by
    intro hnil
    rw [hnil] at hfst
    exact h hfst.symm
  have hwalk := adaptiveWalk_oneOf pick cumulative hne
  rw [hfst] at hwalk
  exact hwalk

theorem BondingStrategy.healthyOnly_of_oneOf
    (hnone : ∀ st packet table, table.healthy = [] → (s.schedule st packet table).1 = .none)
    (hone : ∀ st packet table, table.healthy ≠ [] →
      (s.schedule st packet table).1.OneOf table.healthy) : s.HealthyOnly := by
  intro st packet table
  by_cases h : table.healthy = []
  · rw [hnone st packet table h]
    exact LinkSelection.drawnFrom_none h
  · exact (hone st packet table h).drawnFrom

theorem roundRobin_oneOf (next st : UInt64) (packet : PacketMeta) (table : LinkTable)
    (h : table.healthy ≠ []) :
    ((roundRobin next).schedule st packet table).1.OneOf table.healthy := by
  obtain ⟨link, hmem, hget⟩ := getElem?_mod_length h st.toNat
  refine ⟨link, hmem, ?_⟩
  simp [roundRobin, h, hget]

theorem roundRobin_healthyOnly (next : UInt64) : (roundRobin next).HealthyOnly :=
  BondingStrategy.healthyOnly_of_oneOf (fun _ _ _ h => by simp [roundRobin, h])
    (roundRobin_oneOf next)

theorem weighted_oneOf (rngState st : UInt64) (packet : PacketMeta) (table : LinkTable)
    (h : table.healthy ≠ []) :
    ((weighted rngState).schedule st packet table).1.OneOf table.healthy := by
  simp only [weighted, List.isEmpty_iff, h, if_false]
  split
  · exact uniformPick_oneOf _ h
  · exact weightedWalk_oneOf _ _ h

theorem weighted_healthyOnly (rngState : UInt64) : (weighted rngState).HealthyOnly :=
  BondingStrategy.healthyOnly_of_oneOf (fun _ _ _ h => by simp [weighted, h])
    (weighted_oneOf rngState)

theorem redundant_schedule (st : redundant.σ) (packet : PacketMeta) (table : LinkTable)
    (h : table.healthy ≠ []) : (redundant.schedule st packet table).1 = .many table.healthy := by
  simp [redundant, h]

theorem redundant_healthyOnly : redundant.HealthyOnly := by
  intro st packet table
  by_cases h : table.healthy = []
  · simpa [redundant, h] using LinkSelection.drawnFrom_none h
  · rw [redundant_schedule st packet table h]
    exact ⟨fun l hl => hl, nofun, fun hnil => absurd hnil h⟩

theorem latencyAdaptive_oneOf (init st : AdaptiveState) (packet : PacketMeta) (table : LinkTable)
    (h : table.healthy ≠ []) :
    ((latencyAdaptive init).schedule st packet table).1.OneOf table.healthy := by
  simp only [latencyAdaptive, List.isEmpty_iff, h, if_false]
  split
  · exact uniformPick_oneOf _ h
  · exact adaptiveWalk_zip_oneOf _ _ _ h

theorem latencyAdaptive_healthyOnly (init : AdaptiveState) :
    (latencyAdaptive init).HealthyOnly :=
  BondingStrategy.healthyOnly_of_oneOf (fun _ _ _ h => by simp [latencyAdaptive, h])
    (latencyAdaptive_oneOf init)

/-- A strategy of the source in any of its states. -/
inductive BondingStrategy.OfSource : BondingStrategy → Prop
  | roundRobin (next : UInt64) : OfSource (roundRobin next)
  | weighted (rngState : UInt64) : OfSource (weighted rngState)
  | redundant : OfSource redundant
  | latencyAdaptive (init : AdaptiveState) : OfSource (latencyAdaptive init)

theorem BondingStrategy.OfSource.healthyOnly (h : s.OfSource) : s.HealthyOnly := by
  cases h with
  | roundRobin next => exact roundRobin_healthyOnly next
  | weighted rngState => exact weighted_healthyOnly rngState
  | redundant => exact redundant_healthyOnly
  | latencyAdaptive init => exact latencyAdaptive_healthyOnly init

theorem LinkSelection.OneOf.links_ne_nil {sel : LinkSelection}
    (h : sel.OneOf links) : sel.links ≠ [] := by
  obtain ⟨link, -, rfl⟩ := h
  exact List.cons_ne_nil _ _

/-- As long as there is a healthy link, a strategy of the source finds one. -/
theorem BondingStrategy.OfSource.links_ne_nil (h : s.OfSource) (st : s.σ)
    (packet : PacketMeta) (table : LinkTable) (hne : table.healthy ≠ []) :
    (s.schedule st packet table).1.links ≠ [] := by
  cases h with
  | roundRobin next => exact (roundRobin_oneOf next st packet table hne).links_ne_nil
  | weighted rngState => exact (weighted_oneOf rngState st packet table hne).links_ne_nil
  | redundant =>
    rw [redundant_schedule st packet table hne]
    exact hne
  | latencyAdaptive init => exact (latencyAdaptive_oneOf init st packet table hne).links_ne_nil

namespace Engine

def scheduleRun : Machine Engine PacketMeta LinkSelection := Engine.schedule

/-- Scheduling leaves the table alone, so every packet of a run goes to the links that are
healthy at its start. -/
theorem scheduleRun_drawnFrom {e : Engine} (h : e.strategy.HealthyOnly)
    (packets : List PacketMeta) :
    ∀ a ∈ scheduleRun.trace e packets, LinkSelection.DrawnFrom a.2 e.links := by
  refine Machine.trace_invariant (I := fun s => s.links = e.links ∧ s.strategy.HealthyOnly)
    (p := fun a => LinkSelection.DrawnFrom a.2 e.links) ?_ ?_ ⟨rfl, h⟩
  · rintro s packet ⟨hlinks, hs⟩
    exact ⟨hlinks, hs⟩
  · rintro s packet ⟨hlinks, hs⟩
    rw [← hlinks]
    exact hs s.strategy.state packet s.links

end Engine

end Desmos.Core

import Desmos.Core.Bonding.Updates
import Desmos.Library.ReadCopyUpdate

/-! # Concurrent writers of the link table

The engine's lock is released between the snapshot and the swap of `updateLink` and of
`applyToEngine`. Two calls that change different links may lose a change.
-/
namespace Desmos.Core
open Library Proto

/-- A call that rewrites the engine's link table. -/
inductive TableWrite where
  | updateLink (name : String) (weight : Option UInt32) (enabled : Option Bool)
  | applyToEngine (controller : FailoverController)

namespace TableWrite

def run (e : Engine) : TableWrite → Engine
  | .updateLink name weight enabled => (e.updateLink name weight enabled).2
  | .applyToEngine controller => controller.applyToEngine e

def writer : TableWrite → Writer Link
  | .updateLink name weight enabled =>
    { fires := fun links => links.any fun link => link.name == name
      effect := fun link => link.update name weight enabled
      quiet := fun _ => Link.update_of_absent }
  | .applyToEngine controller =>
    { fires := fun links => links.any fun existing =>
        existing.healthy != controller.shouldBeHealthy existing.id
      effect := controller.rebuild
      quiet := fun _ => FailoverController.rebuild_of_clean }

theorem run_links (e : Engine) (call : TableWrite) :
    (call.run e).links.links =
      (call.writer.step e.links.links (.copied (call.writer.step e.links.links .start ()).2.1)
        ()).2.1 := by
  have hstep : (call.writer.step e.links.links (.copied e.links.links) ()).2.1 =
      e.links.links.map call.writer.effect := call.writer.swap_own e.links.links
  refine Eq.trans ?_ hstep.symm
  cases call with
  | updateLink name weight enabled => exact e.updateLink_links name weight enabled
  | applyToEngine controller => exact controller.applyToEngine_links e

/-- No link is changed by both calls: they name different links, or the rebuilding agrees with
the updated links as they were and as they become. -/
def DifferentLinks (links : List Link) : TableWrite → TableWrite → Prop
  | .updateLink name _ _, .updateLink other _ _ => name ≠ other
  | .updateLink name weight enabled, .applyToEngine c => ∀ l ∈ links, l.name = name →
      c.rebuild l = l ∧ c.rebuild (l.update name weight enabled) = l.update name weight enabled
  | .applyToEngine c, .updateLink name weight enabled => ∀ l ∈ links, l.name = name →
      c.rebuild l = l ∧ c.rebuild (l.update name weight enabled) = l.update name weight enabled
  | .applyToEngine _, .applyToEngine _ => False

theorem update_of_name_ne {l : Link} {name : String} (h : l.name ≠ name) (weight : Option UInt32)
    (enabled : Option Bool) : l.update name weight enabled = l := by
  unfold Link.update
  rw [if_neg h]

theorem apart_update_apply {links : List Link} {name : String} {weight : Option UInt32}
    {enabled : Option Bool} {c : FailoverController}
    (h : DifferentLinks links (.updateLink name weight enabled) (.applyToEngine c)) :
    Writer.Apart (writer (.updateLink name weight enabled)) (writer (.applyToEngine c)) links := by
  intro l hl
  by_cases hname : l.name = name
  · exact Or.inr (h l hl hname)
  · exact Or.inl ⟨update_of_name_ne hname weight enabled,
      update_of_name_ne (l := c.rebuild l) hname weight enabled⟩

theorem DifferentLinks.apart {links : List Link} {v w : TableWrite}
    (h : DifferentLinks links v w) : Writer.Apart v.writer w.writer links := by
  cases v with
  | updateLink name weight enabled =>
    cases w with
    | updateLink other weight' enabled' =>
      intro l hl
      by_cases hname : l.name = name
      · have hother : l.name ≠ other := fun heq => h (hname.symm.trans heq)
        have hafter : (l.update name weight enabled).name ≠ other := by rwa [Link.update_name]
        exact Or.inr ⟨update_of_name_ne hother weight' enabled',
          update_of_name_ne hafter weight' enabled'⟩
      · have hafter : (l.update other weight' enabled').name ≠ name := by rwa [Link.update_name]
        exact Or.inl ⟨update_of_name_ne hname weight enabled,
          update_of_name_ne hafter weight enabled⟩
    | applyToEngine c => exact apart_update_apply h
  | applyToEngine c =>
    cases w with
    | updateLink name weight enabled => exact Writer.Apart.symm (apart_update_apply h)
    | applyToEngine c' => exact False.elim h

end TableWrite

/-- Of two concurrent calls on different links, the final table holds both effects exactly if no
swap is overwritten, or the overwritten one changed nothing, or the other call did not swap. -/
theorem no_link_update_lost_iff (links : List Link) (call : Bool → TableWrite)
    (hdiff : TableWrite.DifferentLinks links (call false) (call true)) (schedule : List Bool)
    (hs : Writer.Interleaving schedule) :
    Writer.race (fun k => (call k).writer) links schedule =
        links.map (fun l => (call true).writer.effect ((call false).writer.effect l)) ↔
      ∀ k, Writer.overwritten schedule = some k →
        (∀ l ∈ links, (call k).writer.effect l = l) ∨ (call !k).writer.fires links = false :=
  Writer.race_eq_both_iff hdiff.apart hs

/-- Two operators who change the weights of different links. -/
def Sample.reweigh : Bool → TableWrite
  | false => .updateLink "a" (some 20) none
  | true => .updateLink "b" (some 30) none

theorem Sample.reweigh_different :
    TableWrite.DifferentLinks threeLinks.links.links (reweigh false) (reweigh true) := by
  change "a" ≠ "b"
  decide

theorem serial_updates_kept : Writer.race (fun k => (Sample.reweigh k).writer)
    Sample.threeLinks.links.links [true, true, false, false] =
      Sample.threeLinks.links.links.map fun l =>
        (Sample.reweigh true).writer.effect ((Sample.reweigh false).writer.effect l) :=
  (no_link_update_lost_iff Sample.threeLinks.links.links Sample.reweigh
    Sample.reweigh_different [true, true, false, false] ⟨rfl, rfl⟩).mpr (by decide)

/-- Both take their snapshots first: the weight of `a` is back where it was. -/
theorem overlapping_update_lost :
    TableWrite.DifferentLinks Sample.threeLinks.links.links (Sample.reweigh false)
      (Sample.reweigh true) ∧
    Writer.Interleaving [false, true, false, true] ∧
    Writer.race (fun k => (Sample.reweigh k).writer) Sample.threeLinks.links.links
      [false, true, false, true] =
      [.new 1 "a" Sample.loopback 10, .new 2 "b" Sample.loopback 30, .new 3 "c" Sample.loopback 10] :=
  ⟨Sample.reweigh_different, ⟨rfl, rfl⟩, by decide⟩

end Desmos.Core

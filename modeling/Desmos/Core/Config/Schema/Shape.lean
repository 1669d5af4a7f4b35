import Desmos.Core.Config.Schema
import Desmos.Library.Reader

/-! # Addresses in a value tree

A place in a value is an address: keys into tables and indices into arrays. What stands there is
told by its shape. A walk of the parser replaces the table at one address, and no shape elsewhere
changes.
-/
namespace Desmos.Core
open Library

inductive Step where
  | key (k : String)
  | index (i : ℕ)
  deriving DecidableEq

abbrev Address := List Step

inductive Shape where
  | table
  | array (length : ℕ)
  | scalar (v : Value)

namespace Value

def find : Value → Address → Option Value
  | v, [] => some v
  | .table t, .key k :: a => (t.lookup k).bind fun v => v.find a
  | .array items, .index i :: a => items[i]?.bind fun v => v.find a
  | _, _ => none

def shape : Value → Shape
  | .table _ => .table
  | .array items => .array items.length
  | v => .scalar v

def shapeAt (v : Value) (a : Address) : Option Shape := (v.find a).map shape

variable {v w : Value} {t : Table} {items : List Value} {k : String} {i : ℕ} {a b : Address}

@[simp] theorem find_nil (v : Value) : v.find [] = some v := by
  cases v <;> rfl

@[simp] theorem shapeAt_nil (v : Value) : v.shapeAt [] = some v.shape := by
  simp [shapeAt]

theorem find_append (v : Value) (a b : Address) :
    v.find (a ++ b) = (v.find a).bind fun w => w.find b := by
  induction a generalizing v with
  | nil => simp
  | cons s a ih =>
    cases v with
    | table t =>
      cases s with
      | key k => cases h : t.lookup k <;> simp [find, h, ih]
      | index i => rfl
    | array items =>
      cases s with
      | key k => rfl
      | index i => cases h : items[i]? <;> simp [find, h, ih]
    | _ => cases s <;> rfl

@[simp] theorem shapeAt_table_key :
    (Value.table t).shapeAt (.key k :: a) = (t.lookup k).bind fun v => v.shapeAt a := by
  cases h : t.lookup k <;> simp [shapeAt, find, h]

@[simp] theorem shapeAt_table_index : (Value.table t).shapeAt (.index i :: a) = none := rfl

@[simp] theorem shapeAt_array_index :
    (Value.array items).shapeAt (.index i :: a) = items[i]?.bind fun v => v.shapeAt a := by
  cases h : items[i]? <;> simp [shapeAt, find, h]

@[simp] theorem shapeAt_array_key : (Value.array items).shapeAt (.key k :: a) = none := rfl

/-- Nothing stands below an address at which nothing stands. -/
theorem shapeAt_append_none (h : v.shapeAt a = none) : v.shapeAt (a ++ b) = none := by
  have hfind : v.find a = none := Option.map_eq_none_iff.mp h
  rw [shapeAt, find_append, hfind]
  rfl

theorem shape_eq_table (h : v.shape = .table) : ∃ t, v = .table t := by
  cases v with
  | table t => exact ⟨t, rfl⟩
  | _ => cases h

theorem shape_eq_array {n : ℕ} (h : v.shape = .array n) :
    ∃ items, v = .array items ∧ items.length = n := by
  cases v with
  | array items => exact ⟨items, rfl, Shape.array.inj h⟩
  | _ => cases h

end Value

/-- From `v` to `v'` the table `sub` at the address `a` has become `sub'`. If there was nothing,
`sub` is empty, and the tables on the way are new as well. -/
structure Replaced (v v' : Value) (a : Address) (sub sub' : Value) : Prop where
  before : ∀ b, sub.shapeAt b = (v.shapeAt (a ++ b)).or (if b = [] then some .table else none)
  after : ∀ b, v'.shapeAt (a ++ b) = sub'.shapeAt b
  elsewhere : ∀ b, ¬ a <+: b →
    v'.shapeAt b = (v.shapeAt b).or (if b <+: a then some .table else none)

namespace Replaced
variable {v v' sub sub' w w' : Value} {t : Table} {k : String} {a : Address}

theorem self (v v' : Value) : Replaced v v' [] v v' where
  before b := by
    cases b with
    | nil => simp
    | cons s b => simp
  after _ := rfl
  elsewhere b hb := absurd List.nil_prefix hb

theorem field (h : Replaced w w' a sub sub')
    (hw : t.lookup k = some w ∨ t.lookup k = none ∧ w = .table []) :
    Replaced (.table t) (.table (SortedMap.insertEntry k w' t)) (.key k :: a) sub sub' where
  before b := by
    rw [List.cons_append, Value.shapeAt_table_key, h.before b]
    rcases hw with hw | ⟨hw, rfl⟩
    · rw [hw]
      rfl
    · rw [hw]
      cases hab : a ++ b with
      | nil =>
        rw [(List.append_eq_nil_iff.mp hab).2]
        rfl
      | cons s c => cases s <;> rfl
  after b := by
    rw [List.cons_append, Value.shapeAt_table_key, SortedMap.lookup_insertEntry, if_pos rfl]
    exact h.after b
  elsewhere b hb := by
    cases b with
    | nil => rfl
    | cons s b =>
      cases s with
      | index i => simp
      | key j =>
        rw [Value.shapeAt_table_key, Value.shapeAt_table_key, SortedMap.lookup_insertEntry]
        by_cases hj : j = k
        · subst hj
          have hb' : ¬ a <+: b := fun hab => hb (List.cons_prefix_cons.mpr ⟨rfl, hab⟩)
          rw [if_pos rfl]
          simp only [List.cons_prefix_cons, true_and]
          rcases hw with hw | ⟨hw, rfl⟩
          · rw [hw]
            exact h.elsewhere b hb'
          · rw [hw, Option.bind_some, h.elsewhere b hb']
            cases b with
            | nil => rw [if_pos List.nil_prefix]; rfl
            | cons s b => cases s <;> rfl
        · have hpre : ¬ (Step.key j :: b) <+: (Step.key k :: a) := fun hpre =>
            hj (Step.key.inj (List.cons_prefix_cons.mp hpre).1)
          rw [if_neg hj, if_neg hpre, Option.or_none]

theorem last (items : List Value) (w w' : Value) :
    Replaced (.array (items ++ [w])) (.array (items ++ [w'])) [.index items.length] w w' where
  before b := by
    have hself := (self w w).before b
    simpa using hself
  after b := by simp
  elsewhere b hb := by
    cases b with
    | nil => simp [Value.shape]
    | cons s b =>
      cases s with
      | key k => simp
      | index i =>
        have hi : i ≠ items.length := fun hi =>
          hb (List.cons_prefix_cons.mpr ⟨by rw [hi], List.nil_prefix⟩)
        have hpre : ¬ (Step.index i :: b) <+: [Step.index items.length] := fun hpre =>
          hi (Step.index.inj (List.cons_prefix_cons.mp hpre).1)
        rw [if_neg hpre, Option.or_none, Value.shapeAt_array_index, Value.shapeAt_array_index]
        rcases lt_or_gt_of_ne hi with hlt | hgt
        · rw [List.getElem?_append_left hlt, List.getElem?_append_left hlt]
        · rw [List.getElem?_eq_none (by simpa using hgt), List.getElem?_eq_none (by simpa using hgt)]

theorem trans {b : Address} {mid mid' : Value} (h : Replaced v v' a mid mid')
    (h' : Replaced mid mid' b sub sub') : Replaced v v' (a ++ b) sub sub' where
  before c := by
    rw [h'.before, h.before, List.append_assoc, Option.or_assoc]
    congr 1
    by_cases hc : c = []
    · split <;> rfl
    · rw [if_neg hc, if_neg (fun hbc => hc (List.append_eq_nil_iff.mp hbc).2)]
      rfl
  after c := by rw [List.append_assoc, h.after, h'.after]
  elsewhere c hc := by
    by_cases hac : a <+: c
    · obtain ⟨d, rfl⟩ := hac
      have hbd : ¬ b <+: d := fun hbd => hc ((List.prefix_append_right_inj a).mpr hbd)
      rw [h.after, h'.elsewhere d hbd, h.before, Option.or_assoc]
      congr 1
      simp only [List.prefix_append_right_inj]
      by_cases hd : d = []
      · rw [if_pos hd, hd, if_pos List.nil_prefix]
        rfl
      · rw [if_neg hd]
        rfl
    · rw [h.elsewhere c hac]
      congr 1
      have hiff : c <+: a ↔ c <+: a ++ b := by
        constructor
        · intro hca
          exact hca.trans (List.prefix_append a b)
        · intro hcab
          exact (List.prefix_or_prefix_of_prefix hcab (List.prefix_append a b)).resolve_right hac
      simp only [hiff]

/-- What is the same in the two tables is the same in the whole. -/
theorem same {c : Address} (h : Replaced v v' a sub sub') (hc : sub'.shapeAt c = sub.shapeAt c) :
    v'.shapeAt (a ++ c) =
      (v.shapeAt (a ++ c)).or (if a ++ c <+: a then some .table else none) := by
  have hiff : a ++ c <+: a ↔ c = [] := by
    constructor
    · intro hpre
      have hlen := hpre.length_le
      rw [List.length_append] at hlen
      exact List.length_eq_zero_iff.mp (by omega)
    · rintro rfl
      rw [List.append_nil]
  rw [h.after, hc, h.before]
  simp only [hiff]

end Replaced

section Walks
variable {change : Table → Except ParseError Table} {t t' : Table} {ks : List String}

theorem navigate_append (change : Table → Except ParseError Table) (p q : List PathSeg) :
    navigate change (p ++ q) = navigate (navigate change q) p := by
  induction p with
  | nil => rfl
  | cons seg p ih =>
    funext t
    cases seg with
    | table k => simp only [List.cons_append, navigate, ih]
    | arrayTail k => simp only [List.cons_append, navigate, ih]

/-- A walk through tables replaces the one it ends at. -/
theorem navigate_table_ok (hok : navigate change (ks.map .table) t = .ok t') :
    ∃ sub sub', change sub = .ok sub' ∧
      Replaced (.table t) (.table t') (ks.map .key) (.table sub) (.table sub') := by
  induction ks generalizing t t' with
  | nil => exact ⟨t, t', hok, .self _ _⟩
  | cons k ks ih =>
    rw [List.map_cons, navigate] at hok
    split at hok
    · next inner hinner =>
      obtain ⟨inner', hrec, hok⟩ := bind_eq_ok.mp hok
      cases hok
      obtain ⟨sub, sub', hchange, hrep⟩ := ih hrec
      refine ⟨sub, sub', hchange, hrep.field ?_⟩
      cases hk : t.lookup k with
      | none =>
        rw [hk] at hinner
        cases hinner
        exact .inr ⟨rfl, rfl⟩
      | some w =>
        rw [hk] at hinner
        cases hinner
        exact .inl rfl
    · cases hok

/-- A walk to the last table of an array that is there replaces that one. -/
theorem navigate_arrayTail_ok {last : String} {n : ℕ}
    (hok : navigate change (ks.map .table ++ [.arrayTail last]) t = .ok t')
    (hlast : (Value.table t).shapeAt (ks.map .key ++ [.key last]) = some (.array (n + 1))) :
    ∃ sub sub', change sub = .ok sub' ∧ Replaced (.table t) (.table t')
      (ks.map .key ++ [.key last, .index n]) (.table sub) (.table sub') := by
  rw [navigate_append] at hok
  obtain ⟨mid, mid', hmid, hrep⟩ := navigate_table_ok hok
  have hshape : (Value.table mid).shapeAt [.key last] = some (.array (n + 1)) := by
    rw [hrep.before, hlast]
    rfl
  rw [Value.shapeAt_table_key] at hshape
  obtain ⟨w, hw, hshape⟩ := Option.bind_eq_some_iff.mp hshape
  rw [Value.shapeAt_nil, Option.some.injEq] at hshape
  obtain ⟨items, rfl, hlength⟩ := Value.shape_eq_array hshape
  obtain ⟨init, item, rfl⟩ : ∃ init item, items = init ++ [item] := by
    rcases List.eq_nil_or_concat items with rfl | h
    · simp at hlength
    · simpa using h
  have hn : init.length = n := by simpa using hlength
  rw [navigate, hw] at hmid
  have hnonempty : (init ++ [item]).isEmpty = false := by simp
  simp only [Option.getD_some, hnonempty, Bool.false_eq_true, if_false, List.getLast?_concat,
    List.dropLast_concat] at hmid
  cases item with
  | table sub =>
    obtain ⟨sub', hchange, hmid⟩ := bind_eq_ok.mp hmid
    cases hmid
    have hinner := (Replaced.last init (.table sub) (.table sub')).field (.inl hw)
    rw [hn] at hinner
    exact ⟨sub, sub', hchange, hrep.trans hinner⟩
  | _ => cases hmid

end Walks

end Desmos.Core

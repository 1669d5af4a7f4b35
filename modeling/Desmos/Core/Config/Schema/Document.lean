import Desmos.Core.Config.Schema.Grammar
import Desmos.Core.Config.Schema.Shape

/-! # What a document says

The outline of a document is read off its statements alone. The value that the parser returns holds
exactly what the outline says.
-/
namespace Desmos.Core
open Library

structure Outline where
  /-- The table that the next line belongs to. -/
  place : Address
  /-- The assignments, last one first. -/
  lines : List (Address × Value)
  /-- The tables of the headers. -/
  opened : List Address
  /-- The arrays that the headers in double brackets add to. -/
  pushes : List Address

def assignedLength : Option Value → ℕ
  | some (.array items) => items.length
  | _ => 0

/-- The length of an array that is assigned or added to, or both. -/
def Outline.size (o : Outline) (a : Address) : ℕ :=
  assignedLength (o.lines.lookup a) + o.pushes.count a

def Outline.add (o : Outline) : Statement → Outline
  | .table path =>
    let a := path.map Step.key
    { o with place := a, opened := a :: o.opened }
  | .arrayOfTables path =>
    let a := path.map Step.key
    let element := a ++ [.index (o.size a)]
    { o with place := element, opened := element :: o.opened, pushes := a :: o.pushes }
  | .assign key value => { o with lines := (o.place ++ [.key key], value) :: o.lines }

def outline (ss : List Statement) : Outline := ss.foldl Outline.add ⟨[], [], [], []⟩

/-- `u` is the value `w` as it was written, or that array with tables behind its items. -/
def WrittenAs (w : Value) (tables : List Value) (u : Value) : Prop :=
  match w with
  | .array items => u = .array (items ++ tables)
  | _ => tables = [] ∧ u = w

/-- The value holds every line of the outline, nothing is written twice, and nothing but the
lines and the headers has put anything there. -/
structure Faithful (o : Outline) (v : Value) : Prop where
  found : ∀ line ∈ o.lines, ∃ u tables, v.find line.1 = some u ∧ WrittenAs line.2 tables u ∧
    (∀ x ∈ tables, ∃ t, x = .table t) ∧ tables.length = o.pushes.count line.1
  distinct : (o.lines.map Prod.fst).Nodup
  scalars : ∀ b x, v.find b = some x → x.shape = .scalar x →
    ∃ line ∈ o.lines, ∃ c, b = line.1 ++ c ∧ line.2.find c = some x
  tables : ∀ b t, v.find b = some (.table t) → b = [] ∨ ∃ a ∈ o.opened, b <+: a

/-- A value without tables. -/
inductive Plain : Value → Prop
  | string (s : String) : Plain (.string s)
  | integer (i : Int64) : Plain (.integer i)
  | float (bits : UInt64) : Plain (.float bits)
  | boolean (b : Bool) : Plain (.boolean b)
  | array {items : List Value} : (∀ item ∈ items, Plain item) → Plain (.array items)

mutual

theorem ValueWord.plain {v : Value} {u : List Token} : ValueWord v u → Plain v
  | .string s => .string s
  | .integer i => .integer i
  | .float bits => .float bits
  | .boolean b => .boolean b
  | .array h => .array (ItemsWord.plain h)

theorem ItemsWord.plain {items : List Value} {w : List Token} :
    ItemsWord items w → ∀ item ∈ items, Plain item
  | .close => by simp
  | .newline h => ItemsWord.plain h
  | .item h ht => List.forall_mem_cons.mpr ⟨ValueWord.plain h, TailWord.plain ht⟩

theorem TailWord.plain {items : List Value} {w : List Token} :
    TailWord items w → ∀ item ∈ items, Plain item
  | .close => by simp
  | .newline h => TailWord.plain h
  | .comma h => ItemsWord.plain h

end

def Statement.Plain : Statement → Prop
  | .assign _ value => Core.Plain value
  | _ => True

theorem DocumentWord.plain {ss : List Statement} {w : List Token} (h : DocumentWord ss w) :
    ∀ s ∈ ss, s.Plain := by
  induction h with
  | nil => simp
  | newline _ ih => exact ih
  | cons hs _ _ ih =>
    refine List.forall_mem_cons.mpr ⟨?_, ih⟩
    cases hs with
    | table _ => trivial
    | arrayOfTables _ => trivial
    | assign hv => exact hv.plain

namespace Value
variable {v w x : Value} {a c : Address} {s : Shape}

theorem shape_eq_scalar (h : v.shape = .scalar x) : v = x := by
  cases v <;> first | exact Shape.scalar.inj h | cases h

theorem shapeAt_eq_some (h : v.shapeAt a = some s) : ∃ u, v.find a = some u ∧ u.shape = s :=
  Option.map_eq_some_iff.mp h

theorem shapeAt_of_find (h : v.find a = some w) : v.shapeAt a = some w.shape := by
  rw [shapeAt, h, Option.map_some]

end Value

/-- There are no tables inside a plain value, and so no keys lead into it. -/
theorem Plain.shapeAt_ne_table {w : Value} (h : Plain w) (c : Address) :
    w.shapeAt c ≠ some .table := by
  induction h generalizing c with
  | array hitems ih =>
    cases c with
    | nil => simp [Value.shape]
    | cons s c =>
      cases s with
      | key k => simp
      | index i =>
        rw [Value.shapeAt_array_index]
        intro htable
        obtain ⟨item, hitem, htable⟩ := Option.bind_eq_some_iff.mp htable
        exact ih item (List.mem_of_getElem? hitem) c htable
  | _ =>
    cases c with
    | nil => simp [Value.shape]
    | cons s c => cases s <;> simp [Value.shapeAt, Value.find]

theorem Plain.shapeAt_key {w : Value} (h : Plain w) (k : String) (c : Address) :
    w.shapeAt (.key k :: c) = none := by
  cases h <;> rfl

/-- A plain value is known by its shapes. -/
theorem Plain.eq_of_shapeAt {w u : Value} (h : Plain w)
    (hshape : ∀ c s, w.shapeAt c = some s → u.shapeAt c = some s) : u = w := by
  induction h generalizing u with
  | array hitems ih =>
    rename_i items
    have hu : u.shape = .array items.length := by simpa [Value.shape] using hshape [] _ (Value.shapeAt_nil _)
    obtain ⟨us, rfl, hlength⟩ := Value.shape_eq_array hu
    congr 1
    refine List.ext_getElem hlength fun i hi hi' => ih _ (List.getElem_mem hi') fun c s hs => ?_
    have hat := hshape (.index i :: c) s
    rw [Value.shapeAt_array_index, Value.shapeAt_array_index, List.getElem?_eq_getElem hi,
      List.getElem?_eq_getElem hi'] at hat
    exact hat hs
  | _ =>
    have hu := hshape [] _ (Value.shapeAt_nil _)
    rw [Value.shapeAt_nil, Option.some.injEq] at hu
    exact Value.shape_eq_scalar hu

section Effects
variable {root root' sub : Table} {current current' : List PathSeg} {span : Spanned}
  {path : List String} {last : String}

/-- A header makes the tables on its path that are not there. -/
theorem run_table_ok (hok : (Statement.table path).run root current span = .ok (root', current')) :
    current' = path.map .table ∧ ∀ b, (Value.table root').shapeAt b =
      ((Value.table root).shapeAt b).or (if b <+: path.map .key then some .table else none) := by
  obtain ⟨root₁, hnav, hok⟩ := bind_eq_ok.mp hok
  cases hok
  obtain ⟨sub, sub', hchange, hrep⟩ := navigate_table_ok hnav
  cases hchange
  refine ⟨rfl, fun b => ?_⟩
  by_cases hb : path.map .key <+: b
  · obtain ⟨c, rfl⟩ := hb
    exact hrep.same rfl
  · exact hrep.elsewhere b hb

theorem pushTable_ok {sub' : Table} (hok : pushTable last span sub = .ok sub') :
    ∃ arr, sub' = SortedMap.insertEntry last (.array (arr ++ [Value.table []])) sub ∧
      (sub.lookup last = some (.array arr) ∨ sub.lookup last = none ∧ arr = []) := by
  unfold pushTable at hok
  split at hok
  · next arr harr =>
    cases hok
    refine ⟨arr, rfl, ?_⟩
    cases hl : sub.lookup last with
    | none =>
      rw [hl] at harr
      cases harr
      exact .inr ⟨rfl, rfl⟩
    | some w =>
      rw [hl] at harr
      cases harr
      exact .inl rfl
  · cases hok

theorem shapeAt_pushed {arr : List Value} {c : Address}
    (harr : sub.lookup last = some (.array arr) ∨ sub.lookup last = none ∧ arr = [])
    (hc : c ≠ [.key last]) (hc' : c ≠ [.key last, .index arr.length]) :
    (Value.table (SortedMap.insertEntry last (.array (arr ++ [.table []])) sub)).shapeAt c =
      (Value.table sub).shapeAt c := by
  cases c with
  | nil => rfl
  | cons s c =>
    cases s with
    | index i => rfl
    | key j =>
      rw [Value.shapeAt_table_key, Value.shapeAt_table_key, SortedMap.lookup_insertEntry]
      by_cases hj : j = last
      · subst hj
        rw [if_pos rfl, Option.bind_some]
        have hold : ((sub.lookup j).bind fun v => v.shapeAt c) = (Value.array arr).shapeAt c := by
          rcases harr with harr | ⟨harr, rfl⟩
          · rw [harr, Option.bind_some]
          · rw [harr]
            cases c with
            | nil => exact absurd rfl hc
            | cons s c => cases s <;> simp
        rw [hold]
        cases c with
        | nil => exact absurd rfl hc
        | cons s c =>
          cases s with
          | key k => rfl
          | index i =>
            rw [Value.shapeAt_array_index, Value.shapeAt_array_index]
            rcases lt_trichotomy i arr.length with hi | rfl | hi
            · rw [List.getElem?_append_left hi]
            · rw [List.getElem?_concat_length, List.getElem?_eq_none le_rfl]
              cases c with
              | nil => exact absurd rfl hc'
              | cons s c => cases s <;> rfl
            · rw [List.getElem?_eq_none (by simpa using hi), List.getElem?_eq_none hi.le]
      · rw [if_neg hj]

/-- A header in double brackets adds an empty table to the array at its path. -/
theorem run_arrayOfTables_ok
    (hok : (Statement.arrayOfTables path).run root current span = .ok (root', current')) :
    ∃ ks last n, path = ks ++ [last] ∧
      current' = ks.map PathSeg.table ++ [PathSeg.arrayTail last] ∧
      ((Value.table root).shapeAt (path.map Step.key) = some (.array n) ∨
        (Value.table root).shapeAt (path.map Step.key) = none ∧ n = 0) ∧
      (Value.table root').shapeAt (path.map Step.key) = some (.array (n + 1)) ∧
      (Value.table root').shapeAt (path.map Step.key ++ [Step.index n]) = some .table ∧
      ∀ b, b ≠ path.map Step.key → b ≠ path.map Step.key ++ [Step.index n] →
        (Value.table root').shapeAt b = ((Value.table root).shapeAt b).or
          (if b <+: ks.map Step.key then some .table else none) := by
  change initArrayOfTables root path span = _ at hok
  unfold initArrayOfTables at hok
  cases hlast : path.getLast? with
  | none =>
    rw [hlast] at hok
    cases hok
  | some last =>
    rw [hlast] at hok
    obtain ⟨root₁, hnav, hok⟩ := bind_eq_ok.mp hok
    cases hok
    obtain ⟨ks, rfl⟩ : ∃ ks, path = ks ++ [last] := List.getLast?_eq_some_iff.mp hlast
    rw [List.dropLast_concat] at hnav ⊢
    obtain ⟨sub, sub', hpush, hrep⟩ := navigate_table_ok hnav
    obtain ⟨arr, rfl, harr⟩ := pushTable_ok hpush
    have hold : ∀ c, c ≠ [] → (Value.table root).shapeAt (ks.map .key ++ c) =
        (Value.table sub).shapeAt c := by
      intro c hc
      rw [hrep.before, if_neg hc, Option.or_none]
    refine ⟨ks, last, arr.length, rfl, rfl, ?_, ?_, ?_, ?_⟩
    · rw [List.map_append, List.map_singleton, hold _ (List.cons_ne_nil _ _),
        Value.shapeAt_table_key]
      rcases harr with harr | ⟨harr, rfl⟩
      · rw [harr]
        exact .inl rfl
      · rw [harr]
        exact .inr ⟨rfl, rfl⟩
    · rw [List.map_append, List.map_singleton, hrep.after, Value.shapeAt_table_key,
        SortedMap.lookup_insertEntry, if_pos rfl]
      simp [Value.shape]
    · rw [List.map_append, List.map_singleton, List.append_assoc, hrep.after]
      simp [SortedMap.lookup_insertEntry, Value.shape]
    · intro b hb hb'
      by_cases hpre : ks.map .key <+: b
      · obtain ⟨c, rfl⟩ := hpre
        have hc : c ≠ [.key last] := by
          rintro rfl
          simp at hb
        have hc' : c ≠ [.key last, .index arr.length] := by
          rintro rfl
          simp at hb'
        exact hrep.same (shapeAt_pushed harr hc hc')
      · exact hrep.elsewhere b hpre

/-- Where the assignments of a section go. -/
inductive Leads (v : Value) : List PathSeg → Address → Prop
  | table (ks : List String) : Leads v (ks.map .table) (ks.map .key)
  | element (ks : List String) (last : String) {n : ℕ} :
    v.shapeAt (ks.map .key ++ [.key last]) = some (.array (n + 1)) →
      Leads v (ks.map .table ++ [.arrayTail last]) (ks.map .key ++ [.key last, .index n])

/-- A line puts its value where nothing was. -/
theorem run_assign_ok {key : String} {value : Value} {place : Address}
    (hok : (Statement.assign key value).run root current span = .ok (root', current'))
    (hplace : Leads (.table root) current place) :
    current' = current ∧ (Value.table root).shapeAt (place ++ [.key key]) = none ∧
      (∀ c, (Value.table root').shapeAt (place ++ [.key key] ++ c) = value.shapeAt c) ∧
      ∀ b, ¬ place ++ [.key key] <+: b → (Value.table root').shapeAt b =
        ((Value.table root).shapeAt b).or (if b <+: place then some .table else none) := by
  obtain ⟨root₁, hins, hok⟩ := bind_eq_ok.mp hok
  cases hok
  obtain ⟨sub, sub', hchange, hrep⟩ : ∃ sub sub',
      insertKey key value span.line span.col sub = .ok sub' ∧
        Replaced (.table root) (.table root') place (.table sub) (.table sub') := by
    cases hplace with
    | table ks => exact navigate_table_ok hins
    | element ks last hlast => exact navigate_arrayTail_ok hins hlast
  obtain ⟨hfresh, hsub⟩ := ite_error_eq_ok.mp hchange
  cases hsub
  have hnone : sub.lookup key = none := Option.not_isSome_iff_eq_none.mp hfresh
  refine ⟨rfl, ?_, fun c => ?_, fun b hb => ?_⟩
  · have hbefore := hrep.before [.key key]
    rw [Value.shapeAt_table_key, hnone] at hbefore
    simpa using hbefore.symm
  · rw [List.append_assoc, hrep.after, List.singleton_append, Value.shapeAt_table_key,
      SortedMap.lookup_insertEntry, if_pos rfl, Option.bind_some]
  · by_cases hpre : place <+: b
    · obtain ⟨c, rfl⟩ := hpre
      have hsame : (Value.table (SortedMap.insertEntry key value sub)).shapeAt c =
          (Value.table sub).shapeAt c := by
        cases c with
        | nil => rfl
        | cons s c =>
          cases s with
          | index i => rfl
          | key j =>
            have hj : j ≠ key := by
              rintro rfl
              exact hb ⟨c, by simp⟩
            rw [Value.shapeAt_table_key, Value.shapeAt_table_key, SortedMap.lookup_insertEntry,
              if_neg hj]
      exact hrep.same hsame
    · exact hrep.elsewhere b hpre

end Effects

end Desmos.Core

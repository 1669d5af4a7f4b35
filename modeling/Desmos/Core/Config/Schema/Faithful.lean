import Desmos.Core.Config.Schema.Document

/-! # Parsing is faithful

Statement by statement the tables hold what the outline of the document says. The invariant is
about shapes only, so that each statement changes it where the statement changes a shape.
-/
namespace Desmos.Core
open Library

def Shape.grow : Shape → ℕ → Shape
  | .array n, m => .array (n + m)
  | s, _ => s

/-- The tables as the outline has them. -/
structure Describes (o : Outline) (v : Value) : Prop where
  plain : ∀ line ∈ o.lines, Plain line.2
  distinct : (o.lines.map Prod.fst).Nodup
  line : ∀ line ∈ o.lines, v.shapeAt line.1 = some (line.2.shape.grow (o.pushes.count line.1))
  inner : ∀ line ∈ o.lines, ∀ c s, c ≠ [] → line.2.shapeAt c = some s →
    v.shapeAt (line.1 ++ c) = some s
  pushed : ∀ a ∈ o.pushes, ∃ n, v.shapeAt a = some (.array n)
  sized : ∀ (ks : List String) n, v.shapeAt (ks.map .key) = some (.array n) → n = o.size (ks.map .key)
  appended : ∀ a ∈ o.pushes, ∀ i, assignedLength (o.lines.lookup a) ≤ i → i < o.size a →
    v.shapeAt (a ++ [.index i]) = some .table
  scalars : ∀ b x, v.shapeAt b = some (.scalar x) →
    ∃ line ∈ o.lines, ∃ c, b = line.1 ++ c ∧ line.2.shapeAt c = some (.scalar x)
  tables : ∀ b, v.shapeAt b = some .table → b = [] ∨ ∃ a ∈ o.opened, b <+: a
  place : o.place = [] ∨ o.place ∈ o.opened

theorem Describes.init : Describes ⟨[], [], [], []⟩ (.table []) where
  plain := by simp
  distinct := .nil
  line := by simp
  inner := by simp
  pushed := by simp
  sized ks n h := by
    cases ks with
    | nil => cases h
    | cons k ks => cases h
  appended := by simp
  scalars b x h := by
    cases b with
    | nil => cases h
    | cons s b => cases s <;> cases h
  tables b h := by
    cases b with
    | nil => exact .inl rfl
    | cons s b => cases s <;> cases h
  place := .inl rfl

variable {s : Shape} {x : Option Shape} {p : Prop} {n : ℕ} {v v' : Value} {a place c : Address}
  {o : Outline} {root root' : Table} {current' : List PathSeg}

/-- A shape that is there after a table may have been made was there, or is that table. -/
theorem or_table_cases [Decidable p]
    (h : x.or (if p then some .table else none) = some s) : x = some s ∨ s = .table ∧ p := by
  cases x with
  | some s' => exact .inl h
  | none =>
    split at h
    · next hp => exact .inr ⟨(Option.some.inj h).symm, hp⟩
    · cases h

theorem eq_some_of_or_table [Decidable p]
    (h : x.or (if p then some .table else none) = some s) (hs : s ≠ .table) : x = some s :=
  (or_table_cases h).resolve_right fun htable => hs htable.1

theorem append_index_ne_keys (a c : Address) (i : ℕ) (ks : List String) :
    a ++ .index i :: c ≠ ks.map .key := by
  intro heq
  have hmem : Step.index i ∈ ks.map Step.key := by simp [← heq]
  simp at hmem

/-- What has grown to an array grows on by one element. -/
theorem Shape.grow_succ {k : ℕ} (h : s.grow k = .array n) : s.grow (k + 1) = .array (n + 1) := by
  cases s with
  | array m =>
    rw [← Shape.array.inj h]
    rfl
  | _ => cases h

theorem kept_of_fresh (hfresh : v.shapeAt a = none) (hshape : ∀ b, ¬ a <+: b →
      v'.shapeAt b = (v.shapeAt b).or (if b <+: place then some .table else none))
    {b : Address} (hs : v.shapeAt b = some s) : v'.shapeAt b = some s := by
  have hb : ¬ a <+: b := by
    rintro ⟨c, rfl⟩
    rw [Value.shapeAt_append_none hfresh] at hs
    cases hs
  rw [hshape b hb, hs, Option.some_or]

variable {current : List PathSeg}

theorem Leads.of_kept (h : Leads v current place)
    (hkept : ∀ {b s}, v.shapeAt b = some s → v'.shapeAt b = some s) :
    Leads v' current place := by
  cases h with
  | table ks => exact .table ks
  | element ks last hlast => exact .element ks last (hkept hlast)

theorem shapeAt_index_of_length_le {i : ℕ}
    (h : v.shapeAt a = some (.array n) ∨ v.shapeAt a = none ∧ n = 0) (hi : n ≤ i) :
    v.shapeAt (a ++ .index i :: c) = none := by
  rcases h with h | ⟨h, -⟩
  · obtain ⟨u, hu, hshape⟩ := Value.shapeAt_eq_some h
    obtain ⟨items, rfl, rfl⟩ := Value.shape_eq_array hshape
    rw [Value.shapeAt, Value.find_append, hu, Option.bind_some]
    change (Value.array items).shapeAt (.index i :: c) = none
    rw [Value.shapeAt_array_index, List.getElem?_eq_none hi, Option.bind_none]
  · exact Value.shapeAt_append_none h

theorem Plain.append_ne_keys {w : Value} (h : Plain w) (hc : c ≠ [])
    (hs : w.shapeAt c = some s) (a : Address) (ks : List String) : a ++ c ≠ ks.map .key := by
  cases c with
  | nil => exact absurd rfl hc
  | cons step c =>
    cases step with
    | key k =>
      rw [h.shapeAt_key] at hs
      cases hs
    | index i => exact append_index_ne_keys a c i ks

namespace Describes
variable {o : Outline} {v v' : Value} {a : Address}

theorem size_of_none (h : Describes o v) (ha : v.shapeAt a = none) : o.size a = 0 := by
  have hpushes : o.pushes.count a = 0 := by
    rw [List.count_eq_zero]
    intro hmem
    obtain ⟨n, hn⟩ := h.pushed a hmem
    rw [ha] at hn
    cases hn
  have hlines : o.lines.lookup a = none := by
    rw [List.lookup_eq_none_iff]
    intro line hmem
    rw [bne_iff_ne]
    rintro rfl
    rw [h.line line hmem] at ha
    cases ha
  rw [Outline.size, hpushes, hlines]
  rfl

theorem add_table (h : Describes o v) {path : List String}
    (hshape : ∀ b, v'.shapeAt b =
      (v.shapeAt b).or (if b <+: path.map .key then some .table else none)) :
    Describes (o.add (.table path)) v' := by
  have hkept : ∀ {b s}, v.shapeAt b = some s → v'.shapeAt b = some s := by
    intro b s hs
    rw [hshape, hs, Option.some_or]
  exact {
    plain := h.plain
    distinct := h.distinct
    line := fun line hmem => hkept (h.line line hmem)
    inner := fun line hmem c s hc hs => hkept (h.inner line hmem c s hc hs)
    pushed := fun a hmem => (h.pushed a hmem).imp fun n hn => hkept hn
    sized := fun ks n hn => by
      rw [hshape] at hn
      exact h.sized ks n (eq_some_of_or_table hn nofun)
    appended := fun a hmem i hi hi' => hkept (h.appended a hmem i hi hi')
    scalars := fun b x hx => by
      rw [hshape] at hx
      exact h.scalars b x (eq_some_of_or_table hx nofun)
    tables := fun b hb => by
      rw [hshape] at hb
      rcases or_table_cases hb with hb | ⟨-, hb⟩
      · exact (h.tables b hb).imp_right fun ⟨a, hmem, ha⟩ => ⟨a, List.mem_cons_of_mem _ hmem, ha⟩
      · exact .inr ⟨_, List.mem_cons_self, hb⟩
    place := .inr List.mem_cons_self }

theorem add_arrayOfTables (h : Describes o v) {ks : List String} {last : String} {n : ℕ}
    (hbefore : v.shapeAt ((ks ++ [last]).map .key) = some (.array n) ∨
      v.shapeAt ((ks ++ [last]).map .key) = none ∧ n = 0)
    (hafter : v'.shapeAt ((ks ++ [last]).map .key) = some (.array (n + 1)))
    (helement : v'.shapeAt ((ks ++ [last]).map .key ++ [.index n]) = some .table)
    (hshape : ∀ b, b ≠ (ks ++ [last]).map .key → b ≠ (ks ++ [last]).map .key ++ [.index n] →
      v'.shapeAt b = (v.shapeAt b).or (if b <+: ks.map .key then some .table else none)) :
    o.size ((ks ++ [last]).map .key) = n ∧
      Describes (o.add (.arrayOfTables (ks ++ [last]))) v' := by
  have hsize : o.size ((ks ++ [last]).map .key) = n := by
    rcases hbefore with hn | ⟨hnone, rfl⟩
    · exact (h.sized _ n hn).symm
    · exact h.size_of_none hnone
  have hkeys : (ks ++ [last]).map Step.key = ks.map .key ++ [.key last] := by simp
  generalize ha : (ks ++ [last]).map Step.key = a at hbefore hafter helement hshape hsize hkeys
  have hnew : v.shapeAt (a ++ [.index n]) = none := shapeAt_index_of_length_le hbefore le_rfl
  have hkept : ∀ {b s}, b ≠ a → v.shapeAt b = some s → v'.shapeAt b = some s := by
    intro b s hb hs
    have hb' : b ≠ a ++ [.index n] := ne_of_apply_ne v.shapeAt (by simp [hs, hnew])
    rw [hshape b hb hb', hs, Option.some_or]
  have hcount : ∀ {b}, b ≠ a → (a :: o.pushes).count b = o.pushes.count b :=
    fun hb => List.count_cons_of_ne (Ne.symm hb)
  refine ⟨hsize, ?_⟩
  have hadd : o.add (.arrayOfTables (ks ++ [last])) =
      { o with
        place := a ++ [.index n]
        opened := (a ++ [.index n]) :: o.opened
        pushes := a :: o.pushes } := by
    simp only [Outline.add, ha, hsize]
  rw [hadd]
  exact {
    plain := h.plain
    distinct := h.distinct
    line := fun line hmem => by
      have hline := h.line line hmem
      by_cases hb : line.1 = a
      · rw [hb] at hline ⊢
        have hgrow : line.2.shape.grow (o.pushes.count a) = .array n := by
          rcases hbefore with hn | ⟨hnone, -⟩
          · exact Option.some.inj (hline.symm.trans hn)
          · rw [hnone] at hline
            cases hline
        rw [hafter, List.count_cons_self, Shape.grow_succ hgrow]
      · rw [hcount hb]
        exact hkept hb hline
    inner := fun line hmem c s hc hs => by
      have hne : line.1 ++ c ≠ a := by
        rw [← ha]
        exact (h.plain line hmem).append_ne_keys hc hs _ _
      exact hkept hne (h.inner line hmem c s hc hs)
    pushed := fun b hmem => by
      by_cases hb : b = a
      · rw [hb]
        exact ⟨n + 1, hafter⟩
      · obtain ⟨m, hm⟩ := h.pushed b ((List.mem_cons.mp hmem).resolve_left hb)
        exact ⟨m, hkept hb hm⟩
    sized := fun js m hm => by
      by_cases hb : js.map Step.key = a
      · rw [hb, hafter] at hm
        cases hm
        rw [hb, ← hsize, Outline.size, Outline.size, List.count_cons_self, Nat.add_assoc]
      · rw [hshape _ hb (append_index_ne_keys a [] n js).symm] at hm
        rw [h.sized js m (eq_some_of_or_table hm nofun), Outline.size, Outline.size, hcount hb]
    appended := fun b hmem i hi hi' => by
      have hne : b ++ [.index i] ≠ a := by
        rw [← ha]
        exact append_index_ne_keys b [] i (ks ++ [last])
      rw [Outline.size] at hi'
      dsimp only at hi hi'
      by_cases hb : b = a
      · subst hb
        rw [List.count_cons_self] at hi'
        rw [Outline.size] at hsize
        by_cases hin : i = n
        · rw [hin]
          exact helement
        · have hpos : 0 < o.pushes.count b := by omega
          refine hkept hne (h.appended b (List.count_pos_iff.mp hpos) i hi ?_)
          rw [Outline.size]
          omega
      · rw [hcount hb] at hi'
        exact hkept hne (h.appended b ((List.mem_cons.mp hmem).resolve_left hb) i hi hi')
    scalars := fun b x hx => by
      have hb : b ≠ a := ne_of_apply_ne v'.shapeAt (by simp [hx, hafter])
      have hb' : b ≠ a ++ [.index n] := ne_of_apply_ne v'.shapeAt (by simp [hx, helement])
      rw [hshape b hb hb'] at hx
      exact h.scalars b x (eq_some_of_or_table hx nofun)
    tables := fun b hb => by
      by_cases hb₁ : b = a
      · rw [hb₁, hafter] at hb
        cases hb
      by_cases hb₂ : b = a ++ [.index n]
      · exact .inr ⟨b, by simp [hb₂], List.prefix_refl b⟩
      rw [hshape b hb₁ hb₂] at hb
      rcases or_table_cases hb with hb | ⟨-, hb⟩
      · exact (h.tables b hb).imp_right fun ⟨c, hmem, hc⟩ => ⟨c, List.mem_cons_of_mem _ hmem, hc⟩
      · refine .inr ⟨a ++ [.index n], List.mem_cons_self, hb.trans ?_⟩
        rw [hkeys, List.append_assoc]
        exact List.prefix_append _ _
    place := .inr List.mem_cons_self }

theorem add_assign (h : Describes o v) {key : String} {value : Value} (hvalue : Plain value)
    (hfresh : v.shapeAt (o.place ++ [.key key]) = none)
    (hnew : ∀ c, v'.shapeAt (o.place ++ [.key key] ++ c) = value.shapeAt c)
    (hshape : ∀ b, ¬ o.place ++ [.key key] <+: b →
      v'.shapeAt b = (v.shapeAt b).or (if b <+: o.place then some .table else none)) :
    Describes (o.add (.assign key value)) v' := by
  have hsize := h.size_of_none hfresh
  generalize ha : o.place ++ [.key key] = a at hfresh hnew hshape hsize
  have hkept : ∀ {b s}, v.shapeAt b = some s → v'.shapeAt b = some s :=
    kept_of_fresh hfresh hshape
  have hpushes : o.pushes.count a = 0 := (Nat.add_eq_zero_iff.mp hsize).2
  have hlookup : ∀ {b}, b ≠ a → ((a, value) :: o.lines).lookup b = o.lines.lookup b := by
    intro b hb
    rw [List.lookup_cons, beq_false_of_ne hb]
  have hadd : o.add (.assign key value) = { o with lines := (a, value) :: o.lines } := by
    simp only [Outline.add, ha]
  rw [hadd]
  exact {
    plain := List.forall_mem_cons.mpr ⟨hvalue, h.plain⟩
    distinct := by
      rw [List.map_cons, List.nodup_cons]
      refine ⟨fun hmem => ?_, h.distinct⟩
      obtain ⟨line, hline, hfst⟩ := List.mem_map.mp hmem
      have hsome := h.line line hline
      rw [hfst, hfresh] at hsome
      cases hsome
    line := fun line hmem => by
      rcases List.mem_cons.mp hmem with rfl | hmem
      · have hself := hnew []
        rw [List.append_nil, Value.shapeAt_nil] at hself
        rw [hself, hpushes]
        cases value.shape <;> rfl
      · exact hkept (h.line line hmem)
    inner := fun line hmem c s hc hs => by
      rcases List.mem_cons.mp hmem with rfl | hmem
      · rw [hnew, hs]
      · exact hkept (h.inner line hmem c s hc hs)
    pushed := fun b hmem => (h.pushed b hmem).imp fun n hn => hkept hn
    sized := fun ks n hn => by
      by_cases hpre : a <+: ks.map .key
      · obtain ⟨c, hc⟩ := hpre
        rw [← hc, hnew] at hn
        by_cases hnil : c = []
        · subst hnil
          rw [Value.shapeAt_nil, Option.some.injEq] at hn
          obtain ⟨items, rfl, rfl⟩ := Value.shape_eq_array hn
          rw [List.append_nil] at hc
          rw [← hc, Outline.size, List.lookup_cons_self, hpushes]
          rfl
        · exact absurd hc (hvalue.append_ne_keys hnil hn a ks)
      · rw [hshape _ hpre] at hn
        have hne : ks.map .key ≠ a := fun heq => hpre (heq ▸ List.prefix_refl _)
        rw [h.sized ks n (eq_some_of_or_table hn nofun), Outline.size, Outline.size, hlookup hne]
    appended := fun b hmem i hi hi' => by
      have hne : b ≠ a := fun heq => List.count_eq_zero.mp hpushes (heq ▸ hmem)
      rw [hlookup hne] at hi
      rw [Outline.size, hlookup hne] at hi'
      exact hkept (h.appended b hmem i hi hi')
    scalars := fun b x hx => by
      by_cases hpre : a <+: b
      · obtain ⟨c, rfl⟩ := hpre
        rw [hnew] at hx
        exact ⟨_, List.mem_cons_self, c, rfl, hx⟩
      · rw [hshape b hpre] at hx
        obtain ⟨line, hmem, hline⟩ := h.scalars b x (eq_some_of_or_table hx nofun)
        exact ⟨line, List.mem_cons_of_mem _ hmem, hline⟩
    tables := fun b hb => by
      by_cases hpre : a <+: b
      · obtain ⟨c, rfl⟩ := hpre
        rw [hnew] at hb
        exact absurd hb (hvalue.shapeAt_ne_table c)
      · rw [hshape b hpre] at hb
        rcases or_table_cases hb with hb | ⟨-, hb⟩
        · exact h.tables b hb
        · rcases h.place with hplace | hplace
          · rw [hplace] at hb
            exact .inl (List.prefix_nil.mp hb)
          · exact .inr ⟨_, hplace, hb⟩
    place := h.place }

theorem found (h : Describes o v) {line : Address × Value} (hmem : line ∈ o.lines) :
    ∃ u tables, v.find line.1 = some u ∧ WrittenAs line.2 tables u ∧
      (∀ x ∈ tables, ∃ t, x = .table t) ∧ tables.length = o.pushes.count line.1 := by
  obtain ⟨u, hfind, hu⟩ := Value.shapeAt_eq_some (h.line line hmem)
  have hplain := h.plain line hmem
  have hinner : ∀ c s, c ≠ [] → line.2.shapeAt c = some s → u.shapeAt c = some s := by
    intro c s hc hs
    have hat := h.inner line hmem c s hc hs
    rwa [Value.shapeAt, Value.find_append, hfind] at hat
  cases hw : line.2 with
  | array items =>
    rw [hw] at hu hinner hplain
    obtain ⟨us, rfl, hlength⟩ := Value.shape_eq_array hu
    have hle : items.length ≤ us.length := by rw [hlength]; exact Nat.le_add_right _ _
    have htake : us.take items.length = items := by
      cases hplain with
      | array hitems =>
        refine List.ext_getElem (by simpa using hle) fun i hi hi' => ?_
        refine (hitems _ (List.getElem_mem hi')).eq_of_shapeAt fun c s hs => ?_
        have hat := hinner (.index i :: c) s (List.cons_ne_nil _ _)
        rw [Value.shapeAt_array_index, Value.shapeAt_array_index,
          List.getElem?_eq_getElem hi', List.getElem?_eq_getElem (hi'.trans_le hle)] at hat
        rw [List.getElem_take]
        exact hat hs
    have hlookup : o.lines.lookup line.1 = some (.array items) := by
      rw [← hw]
      exact lookup_eq_some_of_nodup h.distinct hmem
    refine ⟨_, us.drop items.length, hfind, ?_, fun x hx => ?_, ?_⟩
    · change Value.array us = .array (items ++ us.drop items.length)
      conv_lhs => rw [← List.take_append_drop items.length us, htake]
    · obtain ⟨i, hi, rfl⟩ := List.mem_iff_getElem.mp hx
      rw [List.length_drop, hlength, Nat.add_sub_cancel_left] at hi
      have hpos : 0 < o.pushes.count line.1 := by omega
      have htable := h.appended line.1 (List.count_pos_iff.mp hpos) (items.length + i)
        (by rw [hlookup]; exact Nat.le_add_right _ _)
        (by rw [Outline.size, hlookup]; exact Nat.add_lt_add_left hi _)
      rw [Value.shapeAt, Value.find_append, hfind] at htable
      change (Value.array us).shapeAt [.index (items.length + i)] = some .table at htable
      rw [Value.shapeAt_array_index, List.getElem?_eq_getElem (by omega), Option.bind_some,
        Value.shapeAt_nil, Option.some.injEq] at htable
      rw [List.getElem_drop]
      exact Value.shape_eq_table htable
    · rw [List.length_drop, hlength, Nat.add_sub_cancel_left]
  | table t =>
    rw [hw] at hplain
    cases hplain
  | _ =>
    rw [hw] at hu
    have hnone : o.pushes.count line.1 = 0 := by
      rw [List.count_eq_zero]
      intro hpush
      obtain ⟨n, hn⟩ := h.pushed _ hpush
      rw [h.line line hmem, hw] at hn
      cases hn
    exact ⟨u, [], hfind, ⟨rfl, Value.shape_eq_scalar hu⟩, by simp, hnone.symm⟩

theorem faithful (h : Describes o v) : Faithful o v where
  found _ hmem := h.found hmem
  distinct := h.distinct
  scalars b x hfind hx := by
    have hshape : v.shapeAt b = some (.scalar x) := by rw [Value.shapeAt_of_find hfind, hx]
    obtain ⟨line, hmem, c, hb, hline⟩ := h.scalars b x hshape
    obtain ⟨u, hu, hscalar⟩ := Value.shapeAt_eq_some hline
    rw [Value.shape_eq_scalar hscalar] at hu
    exact ⟨line, hmem, c, hb, hu⟩
  tables b t hfind := h.tables b (Value.shapeAt_of_find hfind)

end Describes

theorem Describes.step {s : Statement} {span : Spanned} (h : Describes o (.table root))
    (hplace : Leads (.table root) current o.place) (hplain : s.Plain)
    (hok : s.run root current span = .ok (root', current')) :
    Describes (o.add s) (.table root') ∧ Leads (.table root') current' (o.add s).place := by
  cases s with
  | table path =>
    obtain ⟨rfl, hshape⟩ := run_table_ok hok
    exact ⟨h.add_table hshape, .table path⟩
  | arrayOfTables path =>
    obtain ⟨ks, last, n, rfl, rfl, hbefore, hafter, helement, hshape⟩ := run_arrayOfTables_ok hok
    obtain ⟨hsize, hdescribes⟩ := h.add_arrayOfTables hbefore hafter helement hshape
    refine ⟨hdescribes, ?_⟩
    have hkeys : (ks ++ [last]).map Step.key = ks.map .key ++ [.key last] := by simp
    simp only [Outline.add, hsize]
    rw [hkeys] at hafter ⊢
    rw [List.append_assoc]
    exact .element ks last hafter
  | assign key value =>
    obtain ⟨rfl, hfresh, hnew, hshape⟩ := run_assign_ok hok hplace
    refine ⟨h.add_assign hplain hfresh hnew hshape, ?_⟩
    exact hplace.of_kept (kept_of_fresh hfresh hshape)

theorem Describes.run {ss : List Statement} (hruns : Runs ss root current root' current')
    (h : Describes o (.table root)) (hplace : Leads (.table root) current o.place)
    (hplain : ∀ s ∈ ss, s.Plain) : Describes (ss.foldl Outline.add o) (.table root') := by
  induction hruns generalizing o with
  | nil => exact h
  | cons span hok _ ih =>
    obtain ⟨hs, hss⟩ := List.forall_mem_cons.mp hplain
    obtain ⟨h', hplace'⟩ := h.step hplace hs hok
    exact ih h' hplace' hss

theorem faithful_of_parse {parseF64 : ParseF64} {input : Text}
    (hok : parse parseF64 input = .ok v) :
    ∃ ss, ReadsAs parseF64 input ss ∧ Faithful (outline ss) v := by
  obtain ⟨ss, root, current, hreads, hruns, rfl⟩ := parse_ok hok
  obtain ⟨_, _, hdoc⟩ := id hreads
  exact ⟨ss, hreads, (Describes.init.run hruns (.table []) hdoc.plain).faithful⟩

/-- Whatever document is accepted, its lines, read in the one way there is, are all found where
they belong, and nothing else is. A document that writes a key of a table twice is refused. -/
theorem parse_loses_nothing (parseF64 : ParseF64) (input : Text) :
    (∀ v, parse parseF64 input = .ok v → ∃ ss, ReadsAs parseF64 input ss ∧
      (∀ ss', ReadsAs parseF64 input ss' → ss' = ss) ∧ Faithful (outline ss) v) ∧
    ∀ ss, ReadsAs parseF64 input ss → ¬ ((outline ss).lines.map Prod.fst).Nodup →
      ∃ e, parse parseF64 input = .error e := by
  constructor
  · intro v hok
    obtain ⟨ss, hreads, hfaithful⟩ := faithful_of_parse hok
    exact ⟨ss, hreads, fun ss' hreads' => hreads'.unique hreads, hfaithful⟩
  · intro ss hreads htwice
    cases hparse : parse parseF64 input with
    | error e => exact ⟨e, rfl⟩
    | ok v =>
      obtain ⟨ss', hreads', hfaithful⟩ := faithful_of_parse hparse
      obtain rfl := hreads.unique hreads'
      exact absurd hfaithful.distinct htwice

/-- An array that is assigned and then added to. -/
def portsDocument : Text := "ports = [1, 2]\n[[ports]]\nopen = true\n".toList

theorem ports_found :
    ∃ v, parse (fun _ => none) portsDocument = .ok v ∧
      v.find [.key "ports", .index 0] = some (.integer 1) ∧
      v.find [.key "ports", .index 1] = some (.integer 2) ∧
      v.find [.key "ports", .index 2, .key "open"] = some (.boolean true) ∧
      ∃ ss, ReadsAs (fun _ => none) portsDocument ss ∧
        (∀ ss', ReadsAs (fun _ => none) portsDocument ss' → ss' = ss) ∧ Faithful (outline ss) v := by
  have hv : parse (fun _ => none) portsDocument = .ok (.table [("ports",
      .array [.integer 1, .integer 2, .table [("open", .boolean true)]])]) := by rfl
  exact ⟨_, hv, rfl, rfl, rfl, (parse_loses_nothing _ _).1 _ hv⟩

end Desmos.Core

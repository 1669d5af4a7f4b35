import Mathlib.Tactic

/-! # Maps in key order

A finite map as the list of its entries, in strictly increasing order of the keys. The
operations are described by the entries of their result.
-/
namespace Desmos.Library

/-- A list splits where a property that later elements pass on to earlier ones ends. -/
theorem exists_split_of_pairwise {α : Type*} {p : α → Prop} [DecidablePred p] {l : List α}
    (h : l.Pairwise fun a b => p b → p a) :
    ∃ front back, l = front ++ back ∧ (∀ a ∈ front, p a) ∧ ∀ a ∈ back, ¬ p a := by
  induction l with
  | nil => exact ⟨[], [], rfl, by simp, by simp⟩
  | cons a l ih =>
    by_cases ha : p a
    · obtain ⟨front, back, rfl, hfront, hback⟩ := ih h.of_cons
      exact ⟨a :: front, back, rfl, List.forall_mem_cons.mpr ⟨ha, hfront⟩, hback⟩
    · have hrest : ∀ b ∈ l, ¬ p b := fun b hb hpb => ha (List.rel_of_pairwise_cons h hb hpb)
      exact ⟨[], a :: l, rfl, by simp, List.forall_mem_cons.mpr ⟨ha, hrest⟩⟩

/-- In an association list without repetition every entry is looked up. -/
theorem lookup_eq_some_of_nodup {κ α : Type*} [BEq κ] [LawfulBEq κ] {es : List (κ × α)}
    {e : κ × α} (h : (es.map Prod.fst).Nodup) (he : e ∈ es) : es.lookup e.1 = some e.2 := by
  obtain ⟨front, back, rfl⟩ := List.append_of_mem he
  refine List.lookup_eq_some_iff.mpr ⟨front, back, rfl, fun d hd => ?_⟩
  rw [List.map_append, List.map_cons, List.nodup_append] at h
  rw [bne_iff_ne]
  exact (h.2.2 d.1 (List.mem_map_of_mem hd) e.1 List.mem_cons_self).symm

structure SortedMap (κ α : Type*) [LinearOrder κ] where
  entries : List (κ × α)
  sorted : entries.Pairwise fun a b => a.1 < b.1

namespace SortedMap
variable {κ α : Type*} [LinearOrder κ] {m : SortedMap κ α} {k : κ} {v : α} {e : κ × α}

def empty : SortedMap κ α := ⟨[], .nil⟩

def isEmpty (m : SortedMap κ α) : Bool := m.entries.isEmpty

section
variable (m : SortedMap κ α)

def values : List α := m.entries.map Prod.snd

def get? (k : κ) : Option α := (m.entries.find? fun e => e.1 = k).map Prod.snd

def contains (k : κ) : Bool := m.entries.any fun e => e.1 = k

def firstKey? : Option κ := m.entries.head?.map Prod.fst

def retain (p : κ → Bool) : SortedMap κ α :=
  ⟨m.entries.filter fun e => p e.1, m.sorted.filter _⟩

def erase (k : κ) : SortedMap κ α := m.retain fun j => j ≠ k

end

/-- Put an entry in its place, over the entry with the same key if there is one. -/
def insertEntry (k : κ) (v : α) : List (κ × α) → List (κ × α)
  | [] => [(k, v)]
  | e :: es =>
    if k < e.1 then (k, v) :: e :: es
    else if e.1 < k then e :: insertEntry k v es
    else (k, v) :: es

theorem lookup_insertEntry [BEq κ] [LawfulBEq κ] (k : κ) (v : α) (es : List (κ × α)) (j : κ) :
    (insertEntry k v es).lookup j = if j = k then some v else es.lookup j := by
  have hput : ∀ es : List (κ × α), ((k, v) :: es).lookup j =
      if j = k then some v else es.lookup j := by
    intro es
    by_cases hj : j = k
    · rw [if_pos hj, hj, List.lookup_cons_self]
    · rw [if_neg hj, List.lookup_cons, beq_false_of_ne hj]
  induction es with
  | nil => exact hput []
  | cons e es ih =>
    rw [insertEntry]
    by_cases hlt : k < e.1
    · rw [if_pos hlt, hput]
    rw [if_neg hlt]
    by_cases hgt : e.1 < k
    · rw [if_pos hgt, List.lookup_cons, List.lookup_cons, ih]
      by_cases he : j = e.1
      · have hne : j ≠ k := fun h => hgt.ne (he.symm.trans h)
        rw [beq_iff_eq.mpr he]
        exact (if_neg hne).symm
      · rw [beq_false_of_ne he]
    · obtain rfl : e.1 = k := le_antisymm (not_lt.mp hlt) (not_lt.mp hgt)
      rw [if_neg hgt, hput, List.lookup_cons]
      by_cases he : j = e.1
      · rw [if_pos he, if_pos he]
      · rw [if_neg he, if_neg he, beq_false_of_ne he]

variable {es : List (κ × α)}

/-- A key above all others goes to the end. -/
theorem insertEntry_of_lt {k : κ} {v : α} (h : ∀ e ∈ es, e.1 < k) :
    insertEntry k v es = es ++ [(k, v)] := by
  induction es with
  | nil => rfl
  | cons e es ih =>
    have he := h e List.mem_cons_self
    rw [insertEntry, if_neg he.le.not_gt, if_pos he,
      ih fun d hd => h d (List.mem_cons_of_mem _ hd)]
    rfl

/-- Entries in order are put one behind the other. -/
theorem foldl_insertEntry_of_sorted (front : List (κ × α))
    (h : (front ++ es).Pairwise fun a b => a.1 < b.1) :
    es.foldl (fun m e => insertEntry e.1 e.2 m) front = front ++ es := by
  induction es generalizing front with
  | nil => simp
  | cons e es ih =>
    have hlast : ∀ d ∈ front, d.1 < e.1 := fun d hd =>
      (List.pairwise_append.mp h).2.2 d hd e List.mem_cons_self
    rw [List.foldl_cons, insertEntry_of_lt hlast, ih _ (by simpa using h)]
    simp

theorem insertEntry_perm {k : κ} {v : α} (h : ∀ e ∈ es, e.1 ≠ k) :
    (insertEntry k v es).Perm ((k, v) :: es) := by
  induction es with
  | nil => exact .refl _
  | cons e es ih =>
    rw [insertEntry]
    split
    · exact .refl _
    split
    · exact ((ih fun d hd => h d (List.mem_cons_of_mem _ hd)).cons e).trans (.swap _ _ _)
    · next hle hge => exact absurd (le_antisymm (not_lt.mp hle) (not_lt.mp hge)) (h e List.mem_cons_self)

/-- Entries with different keys are all kept. -/
theorem foldl_insertEntry_perm {front : List (κ × α)}
    (h : ((front ++ es).map Prod.fst).Nodup) :
    (es.foldl (fun m e => insertEntry e.1 e.2 m) front).Perm (front ++ es) := by
  have hfold : ∀ {m : List (κ × α)}, m.Perm front →
      (es.foldl (fun m e => insertEntry e.1 e.2 m) m).Perm (front ++ es) := by
    induction es generalizing front with
    | nil =>
      intro m hm
      simpa using hm
    | cons e es ih =>
      intro m hm
      have hkeys : ((front ++ [e] ++ es).map Prod.fst).Nodup := by simpa using h
      have hnew : ∀ d ∈ m, d.1 ≠ e.1 := by
        intro d hd
        rw [List.map_append, List.map_append, List.nodup_append, List.nodup_append] at hkeys
        exact hkeys.1.2.2 d.1 (List.mem_map_of_mem (hm.mem_iff.mp hd)) e.1 (by simp)
      have hput : (insertEntry e.1 e.2 m).Perm (front ++ [e]) :=
        (insertEntry_perm hnew).trans
          ((hm.cons e).trans (List.perm_append_singleton e front).symm)
      have hrest := ih hkeys hput
      simpa using hrest
  exact hfold (.refl _)

theorem mem_insertEntry (hs : es.Pairwise fun a b => a.1 < b.1) :
    e ∈ insertEntry k v es ↔ e = (k, v) ∨ e ∈ es ∧ e.1 ≠ k := by
  induction es with
  | nil => simp [insertEntry]
  | cons d es ih =>
    obtain ⟨hd, hes⟩ := List.pairwise_cons.mp hs
    rw [insertEntry]
    split
    · next hlt =>
      have hne : ∀ x ∈ d :: es, x.1 ≠ k := by
        intro x hx
        rcases List.mem_cons.mp hx with rfl | hx
        · exact hlt.ne'
        · exact (hlt.trans (hd x hx)).ne'
      rw [List.mem_cons]
      exact or_congr_right ⟨fun h => ⟨h, hne e h⟩, And.left⟩
    · next hge =>
      split
      · next hlt =>
        rw [List.mem_cons, List.mem_cons, ih hes]
        constructor
        · rintro (rfl | rfl | ⟨h, hk⟩)
          · exact Or.inr ⟨Or.inl rfl, hlt.ne⟩
          · exact Or.inl rfl
          · exact Or.inr ⟨Or.inr h, hk⟩
        · rintro (rfl | ⟨rfl | h, hk⟩)
          · exact Or.inr (Or.inl rfl)
          · exact Or.inl rfl
          · exact Or.inr (Or.inr ⟨h, hk⟩)
      · next hle =>
        obtain rfl : d.1 = k := le_antisymm (not_lt.mp hge) (not_lt.mp hle)
        rw [List.mem_cons, List.mem_cons]
        constructor
        · rintro (rfl | h)
          · exact Or.inl rfl
          · exact Or.inr ⟨Or.inr h, (hd e h).ne'⟩
        · rintro (rfl | ⟨rfl | h, hk⟩)
          · exact Or.inl rfl
          · exact absurd rfl hk
          · exact Or.inr h

theorem insertEntry_sorted (hs : es.Pairwise fun a b => a.1 < b.1) :
    (insertEntry k v es).Pairwise fun a b => a.1 < b.1 := by
  induction es with
  | nil => simp [insertEntry]
  | cons d es ih =>
    obtain ⟨hd, hes⟩ := List.pairwise_cons.mp hs
    rw [insertEntry]
    split
    · next hlt =>
      refine List.pairwise_cons.mpr ⟨fun x hx => ?_, hs⟩
      rcases List.mem_cons.mp hx with rfl | hx
      · exact hlt
      · exact hlt.trans (hd x hx)
    · next hge =>
      split
      · next hlt =>
        refine List.pairwise_cons.mpr ⟨fun x hx => ?_, ih hes⟩
        rcases (mem_insertEntry hes).mp hx with rfl | ⟨hx, -⟩
        · exact hlt
        · exact hd x hx
      · next hle =>
        obtain rfl : d.1 = k := le_antisymm (not_lt.mp hge) (not_lt.mp hle)
        exact List.pairwise_cons.mpr ⟨hd, hes⟩

def insert (m : SortedMap κ α) (k : κ) (v : α) : SortedMap κ α :=
  ⟨insertEntry k v m.entries, insertEntry_sorted m.sorted⟩

@[simp] theorem mem_insert : e ∈ (m.insert k v).entries ↔ e = (k, v) ∨ e ∈ m.entries ∧ e.1 ≠ k :=
  mem_insertEntry m.sorted

@[simp] theorem mem_retain {p : κ → Bool} :
    e ∈ (m.retain p).entries ↔ e ∈ m.entries ∧ p e.1 = true := by
  simp [retain]

@[simp] theorem mem_erase : e ∈ (m.erase k).entries ↔ e ∈ m.entries ∧ e.1 ≠ k := by
  simp [erase]

/-- Removing keys one after the other leaves the entries of the others. -/
theorem entries_foldl_erase (ks : List κ) (m : SortedMap κ α) :
    (ks.foldl erase m).entries = m.entries.filter fun e => e.1 ∉ ks := by
  induction ks generalizing m with
  | nil => simp
  | cons k ks ih =>
    rw [List.foldl_cons, ih, erase, retain, List.filter_filter]
    apply List.filter_congr
    intro e _
    simp [Bool.and_comm]

theorem mem_of_get? (h : m.get? k = some v) : (k, v) ∈ m.entries := by
  obtain ⟨⟨j, w⟩, hfind, rfl⟩ := Option.map_eq_some_iff.mp h
  obtain rfl : j = k := by simpa using List.find?_some hfind
  exact List.mem_of_find?_eq_some hfind

theorem not_mem_of_get? (h : m.get? k = none) : (k, v) ∉ m.entries := by
  intro hmem
  have hfind := List.find?_eq_none.mp (Option.map_eq_none_iff.mp h) _ hmem
  simp at hfind

/-- The first key is the key of an entry, and the least one. -/
theorem firstKey?_spec (h : m.firstKey? = some k) :
    (∃ v, (k, v) ∈ m.entries) ∧ ∀ e ∈ m.entries, k ≤ e.1 := by
  obtain ⟨⟨j, w⟩, hhead, rfl⟩ := Option.map_eq_some_iff.mp h
  cases hes : m.entries with
  | nil => simp [hes] at hhead
  | cons d es =>
    obtain rfl : d = (j, w) := by simpa [hes] using hhead
    have hs := m.sorted
    rw [hes, List.pairwise_cons] at hs
    refine ⟨⟨w, List.mem_cons_self⟩, fun e he => ?_⟩
    rcases List.mem_cons.mp he with rfl | he
    · exact le_rfl
    · exact (hs.1 e he).le

theorem keys_nodup (m : SortedMap κ α) : (m.entries.map Prod.fst).Nodup := by
  rw [List.nodup_iff_pairwise_ne, List.pairwise_map]
  exact m.sorted.imp fun hlt => hlt.ne

theorem eq_of_key_eq {d : κ × α} (hd : d ∈ m.entries) (he : e ∈ m.entries) (h : d.1 = e.1) :
    d = e :=
  List.inj_on_of_nodup_map m.keys_nodup hd he h

/-- Under the least key is the first entry. -/
theorem entries_of_get?_least (h : m.get? k = some v) (hleast : ∀ e ∈ m.entries, k ≤ e.1) :
    m.entries = (k, v) :: (m.erase k).entries := by
  have hmem := mem_of_get? h
  have hsorted := m.sorted
  have herase : (m.erase k).entries = m.entries.filter fun e => e.1 ≠ k := rfl
  cases hes : m.entries with
  | nil => simp [hes] at hmem
  | cons d es =>
    rw [hes] at hmem hsorted hleast herase
    obtain ⟨hd, -⟩ := List.pairwise_cons.mp hsorted
    obtain rfl : (k, v) = d := by
      rcases List.mem_cons.mp hmem with heq | htail
      · exact heq
      · exact absurd (hd _ htail) (not_lt.mpr (hleast d List.mem_cons_self))
    have hrest : es.filter (fun e => e.1 ≠ k) = es := by
      rw [List.filter_eq_self]
      exact fun e he => by simpa using (hd e he).ne'
    rw [herase, List.filter_cons_of_neg (by simp), hrest]

theorem length_erase_lt (h : (k, v) ∈ m.entries) :
    (m.erase k).entries.length < m.entries.length :=
  List.length_filter_lt_length_iff_exists.mpr ⟨(k, v), h, by simp⟩

end SortedMap
end Desmos.Library

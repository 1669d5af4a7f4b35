import Mathlib.Tactic

/-! # Readers

A reader takes a value off the front of its input or fails. What it can take is given by a language,
which relates a value to the words that spell it.
-/
namespace Desmos.Library

universe u

theorem bind_eq_ok {ε : Type*} {α γ : Type u} {x : Except ε α} {f : α → Except ε γ} {c : γ} :
    (x >>= f) = .ok c ↔ ∃ a, x = .ok a ∧ f a = .ok c := by
  cases x with
  | error e => simp [bind, Except.bind]
  | ok a => simp [bind, Except.bind]

theorem map_eq_ok {ε α γ : Type*} {x : Except ε α} {f : α → γ} {c : γ} :
    x.map f = .ok c ↔ ∃ a, x = .ok a ∧ f a = c := by
  cases x with
  | error e => simp [Except.map]
  | ok a => simp [Except.map]

theorem ite_error_eq_ok {ε α : Type*} {c : Prop} [Decidable c] {e : ε} {x : Except ε α} {a : α} :
    (if c then .error e else x) = .ok a ↔ ¬ c ∧ x = .ok a := by
  by_cases h : c
  · simp [h]
  · simp [h]

/-- A buffer and how much of it has been read. -/
structure Cursor (β : Type*) where
  buf : List β
  pos : ℕ
  deriving DecidableEq

namespace Cursor
variable {β : Type*}

def start (buf : List β) : Cursor β := { buf, pos := 0 }

section
variable (c : Cursor β)

def unread : List β := c.buf.drop c.pos

def advance (n : ℕ) : Cursor β := { c with pos := c.pos + n }

/-- No more has been read than the buffer holds. -/
def Valid : Prop := c.pos ≤ c.buf.length

@[simp] theorem unread_start (buf : List β) : (start buf).unread = buf := rfl

theorem valid_start (buf : List β) : (start buf).Valid := Nat.zero_le _

theorem valid_of_left {c : Cursor β} (h : c.buf.length - c.pos ≠ 0) : c.Valid := by
  unfold Valid
  omega

@[simp] theorem advance_advance (m n : ℕ) : (c.advance m).advance n = c.advance (m + n) := by
  simp [advance, Nat.add_assoc]

theorem length_unread : c.unread.length = c.buf.length - c.pos := List.length_drop

end

section Words
variable {c : Cursor β} {word rest : List β}

/-- Reading a word leaves what stood behind it. -/
theorem unread_advance (h : c.unread = word ++ rest) : (c.advance word.length).unread = rest := by
  have hdrop : (c.advance word.length).unread = c.unread.drop word.length := by
    simp [advance, unread]
  rw [hdrop, h, List.drop_left]

theorem Valid.advance (hc : c.Valid) (h : c.unread = word ++ rest) :
    (c.advance word.length).Valid := by
  have hlen := congrArg List.length h
  rw [length_unread, List.length_append] at hlen
  unfold Valid at hc ⊢
  change c.pos + word.length ≤ c.buf.length
  omega

end Words

end Cursor

section Languages
variable {α β ε : Type*}

/-- The reader takes a value exactly when a word for it is in front of the input, and moves
behind that word. -/
def Reads (read : Cursor β → Except ε α × Cursor β) (L : α → List β → Prop) : Prop :=
  ∀ c : Cursor β, c.Valid → ∀ a c', read c = (.ok a, c') ↔
    ∃ word rest, L a word ∧ c.unread = word ++ rest ∧ c' = c.advance word.length

variable {read : Cursor β → Except ε α × Cursor β} {L : α → List β → Prop}

namespace Reads

variable {a : α} {first : Cursor β → Except ε α × Cursor β}

theorem ok (h : Reads read L) {c : Cursor β} {word rest : List β} (hv : c.Valid)
    (hw : L a word) (hc : c.unread = word ++ rest) : read c = (.ok a, c.advance word.length) :=
  (h c hv a _).mpr ⟨word, rest, hw, hc, rfl⟩

theorem word (h : Reads read L) {c c' : Cursor β} (hv : c.Valid) (hr : read c = (.ok a, c')) :
    ∃ word, L a word ∧ c.unread = word ++ c'.unread ∧ c' = c.advance word.length ∧ c'.Valid := by
  obtain ⟨word, rest, hw, hc, rfl⟩ := (h c hv a c').mp hr
  refine ⟨word, hw, ?_, rfl, hv.advance hc⟩
  rw [Cursor.unread_advance hc, hc]

/-- What a reader answers from the start of a buffer. -/
theorem fst_eq_ok_iff (h : Reads read L) {buf : List β} :
    (read (.start buf)).1 = .ok a ↔ ∃ word rest, L a word ∧ buf = word ++ rest := by
  have hread := h (.start buf) (Cursor.valid_start buf) a
  constructor
  · intro ha
    obtain ⟨word, rest, hw, hbuf, _⟩ := (hread _).mp (Prod.ext ha rfl)
    exact ⟨word, rest, hw, hbuf⟩
  · rintro ⟨word, rest, hw, hbuf⟩
    rw [(hread _).mpr ⟨word, rest, hw, hbuf, rfl⟩]

/-- No input has two words of the language in front. -/
theorem unique (h : Reads read L) {b : α} {v w r s : List β} (hv : L a v) (hw : L b w)
    (he : v ++ r = w ++ s) : a = b ∧ r = s := by
  have ha := h.ok (Cursor.valid_start (v ++ r)) hv rfl
  rw [h.ok (Cursor.valid_start (v ++ r)) hw he] at ha
  have hlen : w.length = v.length := by simpa [Cursor.advance] using congrArg (·.2.pos) ha
  exact ⟨(Except.ok.inj (congrArg Prod.fst ha)).symm, (List.append_inj he hlen.symm).2⟩

theorem congr {M : α → List β → Prop} (h : Reads read L) (hLM : ∀ a word, L a word ↔ M a word) :
    Reads read M := by
  intro c hv a c'
  simp only [h c hv a c', hLM]

/-- A reader that goes on with `next` where `first` stopped reads a word of the first language
and behind it one of the second. -/
theorem seq {α' : Type*}
    {next : α → Cursor β → Except ε α' × Cursor β} {read : Cursor β → Except ε α' × Cursor β}
    {M : α → α' → List β → Prop} (hfirst : Reads first L) (hnext : ∀ a, Reads (next a) (M a))
    (hok : ∀ c a c', first c = (.ok a, c') →
      ∀ b c'', read c = (.ok b, c'') ↔ next a c' = (.ok b, c''))
    (herror : ∀ c e c', first c = (.error e, c') → ∀ b c'', read c ≠ (.ok b, c'')) :
    Reads read fun b word => ∃ a v w, L a v ∧ M a b w ∧ word = v ++ w := by
  intro c hc b c''
  constructor
  · intro h
    rcases hf : first c with ⟨e | a, c'⟩
    · exact absurd h (herror c e c' hf b c'')
    · have hn := (hok c a c' hf b c'').mp h
      obtain ⟨v, hv, hcv, rfl, hc'⟩ := hfirst.word hc hf
      obtain ⟨w, hw, hcw, rfl, _⟩ := (hnext a).word hc' hn
      refine ⟨v ++ w, ((c.advance v.length).advance w.length).unread, ⟨a, v, w, hv, hw, rfl⟩, ?_, ?_⟩
      · rw [List.append_assoc, ← hcw, ← hcv]
      · rw [Cursor.advance_advance, List.length_append]
  · rintro ⟨_, rest, ⟨a, v, w, hv, hw, rfl⟩, hrest, rfl⟩
    rw [List.append_assoc] at hrest
    have hf := hfirst.ok hc hv hrest
    rw [hok c a _ hf, (hnext a).ok (hc.advance hrest) hw (Cursor.unread_advance hrest),
      Cursor.advance_advance, List.length_append]

/-- A reader that checks what another took, and consumes nothing more. -/
theorem check {α' : Type*}
    {f : α → Except ε α'} {read : Cursor β → Except ε α' × Cursor β} (hfirst : Reads first L)
    (hok : ∀ c a c', first c = (.ok a, c') →
      ∀ b c'', read c = (.ok b, c'') ↔ f a = .ok b ∧ c'' = c')
    (herror : ∀ c e c', first c = (.error e, c') → ∀ b c'', read c ≠ (.ok b, c'')) :
    Reads read fun b word => ∃ a, L a word ∧ f a = .ok b := by
  intro c hc b c''
  constructor
  · intro h
    rcases hf : first c with ⟨e | a, c'⟩
    · exact absurd h (herror c e c' hf b c'')
    · obtain ⟨hfa, rfl⟩ := (hok c a c' hf b c'').mp h
      obtain ⟨word, rest, hw, hrest, hc'⟩ := (hfirst c hc a c'').mp hf
      exact ⟨word, rest, ⟨a, hw, hfa⟩, hrest, hc'⟩
  · rintro ⟨word, rest, ⟨a, hw, hfa⟩, hrest, rfl⟩
    exact (hok c a _ (hfirst.ok hc hw hrest) b _).mpr ⟨hfa, rfl⟩

end Reads

/-- The words of a language one behind the other. -/
inductive Concat (L : α → List β → Prop) : List α → List β → Prop
  | nil : Concat L [] []
  | cons {a : α} {as : List α} {word words : List β} (head : L a word) (tail : Concat L as words) :
      Concat L (a :: as) (word ++ words)

namespace Concat
variable {as bs : List α} {v w : List β}

theorem append (ha : Concat L as v) (hb : Concat L bs w) : Concat L (as ++ bs) (v ++ w) := by
  induction ha with
  | nil => exact hb
  | cons head _ ih =>
    rw [List.append_assoc]
    exact .cons head ih

theorem singleton {a : α} (h : L a w) : Concat L [a] w := by
  simpa using Concat.cons h .nil

/-- Words of one language that are words of another. -/
theorem of_imp {α' : Type*} {M : α' → List β → Prop} (h : ∀ a word, L a word → ∃ b, M b word)
    (ha : Concat L as v) : ∃ bs, Concat M bs v := by
  induction ha with
  | nil => exact ⟨[], .nil⟩
  | cons head _ ih =>
    obtain ⟨b, hb⟩ := h _ _ head
    obtain ⟨bs, hbs⟩ := ih
    exact ⟨b :: bs, .cons hb hbs⟩

/-- Where one of the values is spelled. -/
theorem split {a : α} (ha : Concat L as v) (hmem : a ∈ as) :
    ∃ before front word back, v = front ++ (word ++ back) ∧ Concat L before front ∧ L a word := by
  induction ha with
  | nil => cases hmem
  | @cons first as word words head tail ih =>
    cases hmem with
    | head => exact ⟨[], [], word, words, rfl, .nil, head⟩
    | tail _ hmem =>
      obtain ⟨before, front, w, back, rfl, hfront, hw⟩ := ih hmem
      exact ⟨first :: before, word ++ front, w, back, (List.append_assoc _ _ _).symm,
        .cons head hfront, hw⟩

end Concat

end Languages

section Loops
variable {σ γ : Type*}

/-- A loop that runs while something is left to read, for at most `fuel` rounds. -/
def whileLeftWithin (left : σ → ℕ) (body : σ → Except γ σ) : ℕ → σ → Except γ Unit
  | 0, _ => .ok ()
  | fuel + 1, s =>
    if left s = 0 then .ok ()
    else
      match body s with
      | .error out => .error out
      | .ok s' => whileLeftWithin left body fuel s'

/-- A loop that runs while something is left to read. A round leaves the loop with a value, or
goes on from where it stopped reading. -/
def whileLeft (left : σ → ℕ) (body : σ → Except γ σ) (s : σ) : Except γ Unit :=
  whileLeftWithin left body (left s) s

/-- Every round that goes on has read something. -/
def Shrinks (left : σ → ℕ) (body : σ → Except γ σ) : Prop :=
  ∀ s s', left s ≠ 0 → body s = .ok s' → left s' < left s

variable {left : σ → ℕ} {body : σ → Except γ σ} {s : σ}

theorem whileLeftWithin_eq (h : Shrinks left body) {fuel : ℕ} (hf : left s ≤ fuel) :
    whileLeftWithin left body fuel s = whileLeft left body s := by
  -- by strong induction on what is left: both loops do one round and agree on the rest
  induction hn : left s using Nat.strong_induction_on generalizing fuel s with
  | _ n ih =>
    unfold whileLeft
    cases fuel with
    | zero => rw [Nat.le_zero.mp hf]
    | succ fuel =>
      by_cases h0 : left s = 0
      · rw [h0, whileLeftWithin, whileLeftWithin, if_pos h0]
      · obtain ⟨m, hm⟩ := Nat.exists_eq_succ_of_ne_zero h0
        rw [hm, whileLeftWithin, whileLeftWithin, if_neg h0, if_neg h0]
        cases hb : body s with
        | error out => rfl
        | ok s' =>
          have hlt := h s s' h0 hb
          have hfuel : left s' ≤ fuel := by omega
          have hm' : left s' ≤ m := by omega
          exact (ih (left s') (hn ▸ hlt) hfuel rfl).trans (ih (left s') (hn ▸ hlt) hm' rfl).symm

theorem whileLeft_of_end (h0 : left s = 0) : whileLeft left body s = .ok () := by
  rw [whileLeft, h0, whileLeftWithin]

theorem whileLeft_of_error {out : γ} (h0 : left s ≠ 0) (hb : body s = .error out) :
    whileLeft left body s = .error out := by
  obtain ⟨m, hm⟩ := Nat.exists_eq_succ_of_ne_zero h0
  rw [whileLeft, hm, whileLeftWithin, if_neg h0, hb]

theorem whileLeft_of_ok (h : Shrinks left body) {s' : σ} (h0 : left s ≠ 0)
    (hb : body s = .ok s') : whileLeft left body s = whileLeft left body s' := by
  have hlt := h s s' h0 hb
  obtain ⟨m, hm⟩ := Nat.exists_eq_succ_of_ne_zero h0
  rw [whileLeft, hm, whileLeftWithin, if_neg h0, hb]
  exact whileLeftWithin_eq h (by omega)

/-- An induction over the rounds of a loop. -/
theorem whileLeft_induction (h : Shrinks left body) {motive : σ → Prop}
    (done : ∀ s, left s = 0 → motive s)
    (leave : ∀ s out, left s ≠ 0 → body s = .error out → motive s)
    (goOn : ∀ s s', left s ≠ 0 → body s = .ok s' → motive s' → motive s) (s : σ) : motive s := by
  induction hn : left s using Nat.strong_induction_on generalizing s with
  | _ n ih =>
    by_cases h0 : left s = 0
    · exact done s h0
    · cases hb : body s with
      | error out => exact leave s out h0 hb
      | ok s' => exact goOn s s' h0 hb (ih (left s') (hn ▸ h s s' h0 hb) s' rfl)

end Loops

section ReadingLoops
variable {α β γ ε : Type*} {read : Cursor β → Except ε α × Cursor β} {L : α → List β → Prop}
  {body : Cursor β → Except γ (Cursor β)}

/-- What a cursor has left to read. -/
def Cursor.left (c : Cursor β) : ℕ := c.buf.length - c.pos

namespace Reads

theorem shrinks (h : Reads read L) (hne : ∀ a word, L a word → word ≠ [])
    (hbody : ∀ c c', body c = .ok c' → ∃ a, read c = (.ok a, c')) : Shrinks Cursor.left body := by
  intro c c' hleft hb
  obtain ⟨a, hr⟩ := hbody c c' hb
  obtain ⟨word, hw, hc, _, _⟩ := h.word (Cursor.valid_of_left hleft) hr
  have hpos := List.length_pos_iff.mpr (hne a word hw)
  have hlen := congrArg List.length hc
  rw [List.length_append, Cursor.length_unread, Cursor.length_unread] at hlen
  unfold Cursor.left
  omega

end Reads

end ReadingLoops

end Desmos.Library

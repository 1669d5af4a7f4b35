import Desmos.Core.Config.Lexer.Words
import Desmos.Core.Config.Schema

/-! # The grammar of configuration files

What the parser takes for a statement is said here of the tokens alone. The parser reads exactly
this language, so that the tokens of an accepted document spell one sequence of statements.
-/
namespace Desmos.Core
open Library

/-- The parts of a dotted key with dots between them. -/
def dotted : List String → List Token
  | [] => []
  | part :: parts => .ident part :: parts.flatMap fun p => [.dot, .ident p]

mutual

inductive ValueWord : Value → List Token → Prop
  | string (s : String) : ValueWord (.string s) [.string s]
  | integer (i : Int64) : ValueWord (.integer i) [.integer i]
  | float (bits : UInt64) : ValueWord (.float bits) [.float bits]
  | boolean (b : Bool) : ValueWord (.boolean b) [.bool b]
  | array {items : List Value} {w : List Token} :
    ItemsWord items w → ValueWord (.array items) (.lBracket :: w)

/-- How the items of an array are written, up to the closing bracket: on any number of lines. -/
inductive ItemsWord : List Value → List Token → Prop
  | close : ItemsWord [] [.rBracket]
  | newline {items : List Value} {w : List Token} :
    ItemsWord items w → ItemsWord items (.newline :: w)
  | item {item : Value} {items : List Value} {u w : List Token} :
    ValueWord item u → TailWord items w → ItemsWord (item :: items) (u ++ w)

/-- What follows an item: a comma before the next one. There may be one behind the last item. -/
inductive TailWord : List Value → List Token → Prop
  | close : TailWord [] [.rBracket]
  | newline {items : List Value} {w : List Token} :
    TailWord items w → TailWord items (.newline :: w)
  | comma {items : List Value} {w : List Token} :
    ItemsWord items w → TailWord items (.comma :: w)

end

inductive StatementWord : Statement → List Token → Prop
  | table {path : List String} : path ≠ [] →
    StatementWord (.table path) (.lBracket :: (dotted path ++ [.rBracket]))
  | arrayOfTables {path : List String} : path ≠ [] →
    StatementWord (.arrayOfTables path)
      (.lBracket :: .lBracket :: (dotted path ++ [.rBracket, .rBracket]))
  | assign {key : String} {value : Value} {w : List Token} : ValueWord value w →
    StatementWord (.assign key value) (.ident key :: .eq :: w)

/-- A document: statements that end with their line. -/
inductive DocumentWord : List Statement → List Token → Prop
  | nil : DocumentWord [] []
  | newline {ss : List Statement} {w : List Token} :
    DocumentWord ss w → DocumentWord ss (.newline :: w)
  | cons {s : Statement} {ss : List Statement} {u w : List Token} :
    StatementWord s u → DocumentWord ss w → (w = [] ∨ w.head? = some .newline) →
      DocumentWord (s :: ss) (u ++ w)

namespace Tokens

/-- The tokens up to the end of input are `w`. -/
structure Spells (ts : Tokens) (w : List Token) : Prop where
  toks : (ts.cur :: ts.rest).map Spanned.tok = w ++ [.eof]
  noEof : .eof ∉ w

variable {ts ts' : Tokens} {t : Token} {w : List Token}

theorem Spells.tok_cons (h : ts.Spells (t :: w)) : ts.tok = t := (List.cons.inj h.toks).1

theorem Spells.tok_nil (h : ts.Spells []) : ts.tok = .eof := (List.cons.inj h.toks).1

theorem Spells.advance (h : ts.Spells (t :: w)) : ts.advance.Spells w := by
  have hrest : ts.rest.map Spanned.tok = w ++ [.eof] := (List.cons.inj h.toks).2
  have hno : .eof ∉ w := fun hw => h.noEof (List.mem_cons_of_mem _ hw)
  unfold Tokens.advance
  cases hts : ts.rest with
  | nil =>
    rw [hts] at hrest
    simp at hrest
  | cons next rest =>
    rw [hts] at hrest
    exact ⟨hrest, hno⟩

/-- A token that is not the end of input is the first one of what is spelled. -/
theorem Spells.cons_of_tok (h : ts.Spells w) (ht : ts.tok = t) (hne : t ≠ .eof) :
    ∃ w', w = t :: w' ∧ ts.advance.Spells w' := by
  cases w with
  | nil => exact absurd (ht.symm.trans h.tok_nil) hne
  | cons t' w =>
    obtain rfl : t' = t := h.tok_cons.symm.trans ht
    exact ⟨w, rfl, h.advance⟩

theorem Spells.length (h : ts.Spells w) : w.length = ts.rest.length := by
  have hlen := congrArg List.length h.toks
  simpa using hlen.symm

theorem expectToken_ok {want : Token} {expected : String} (hok : ts.expectToken want expected = .ok ts')
    (hne : want ≠ .eof) (h : ts.Spells w) : ∃ w', w = want :: w' ∧ ts'.Spells w' := by
  unfold expectToken at hok
  split at hok
  · next ht =>
    cases hok
    exact h.cons_of_tok ht hne
  · cases hok

theorem expectNewlineOrEof_ok (hok : ts.expectNewlineOrEof = .ok ts') (h : ts.Spells w) :
    ∃ w', ts'.Spells w' ∧ (w = [] ∧ w' = [] ∨ w = .newline :: w') := by
  unfold expectNewlineOrEof at hok
  split at hok
  · next ht =>
    cases hok
    obtain ⟨w', hw, hadv⟩ := h.cons_of_tok ht (by decide)
    exact ⟨w', hadv, .inr hw⟩
  · next ht =>
    cases hok
    cases w with
    | nil => exact ⟨[], h, .inl ⟨rfl, rfl⟩⟩
    | cons t w =>
      have : t = .eof := h.tok_cons.symm.trans ht
      exact absurd (List.mem_cons.mpr (.inl this.symm)) h.noEof
  · cases hok

theorem parseIdent_ok {name : String} (hok : ts.parseIdent = .ok (name, ts')) (h : ts.Spells w) :
    ∃ w', w = .ident name :: w' ∧ ts'.Spells w' := by
  unfold parseIdent at hok
  split at hok
  · next ht =>
    cases hok
    exact h.cons_of_tok ht (by simp)
  · cases hok

theorem parseDottedRest_ok {fuel : ℕ} {parts : List String}
    (hok : parseDottedRest fuel ts = .ok (parts, ts')) (h : ts.Spells w) :
    ∃ w', w = (parts.flatMap fun p => [.dot, .ident p]) ++ w' ∧ ts'.Spells w' := by
  induction fuel generalizing ts ts' w parts with
  | zero =>
    cases hok
    exact ⟨w, rfl, h⟩
  | succ fuel ih =>
    unfold parseDottedRest at hok
    split at hok
    · next ht =>
      obtain ⟨w₁, rfl, h₁⟩ := h.cons_of_tok ht (by decide)
      obtain ⟨⟨part, ts₂⟩, hident, hok⟩ := bind_eq_ok.mp hok
      obtain ⟨w₂, rfl, h₂⟩ := parseIdent_ok hident h₁
      obtain ⟨⟨tail, ts₃⟩, hrest, hok⟩ := bind_eq_ok.mp hok
      obtain ⟨w₃, rfl, h₃⟩ := ih hrest h₂
      cases hok
      exact ⟨w₃, rfl, h₃⟩
    · cases hok
      exact ⟨w, rfl, h⟩

theorem parseDottedKey_ok {path : List String} (hok : ts.parseDottedKey = .ok (path, ts'))
    (h : ts.Spells w) : path ≠ [] ∧ ∃ w', w = dotted path ++ w' ∧ ts'.Spells w' := by
  obtain ⟨⟨part, ts₁⟩, hident, hok⟩ := bind_eq_ok.mp hok
  obtain ⟨w₁, rfl, h₁⟩ := parseIdent_ok hident h
  obtain ⟨⟨parts, ts₂⟩, hrest, hok⟩ := bind_eq_ok.mp hok
  obtain ⟨w₂, rfl, h₂⟩ := parseDottedRest_ok hrest h₁
  cases hok
  exact ⟨List.cons_ne_nil _ _, w₂, rfl, h₂⟩

theorem skipFrom_spells {cur : Spanned} {rest : List Spanned} (h : Spells ⟨cur, rest⟩ w) :
    ∃ n w', w = List.replicate n .newline ++ w' ∧ (skipFrom cur rest).Spells w' := by
  induction rest generalizing cur w with
  | nil => exact ⟨0, w, rfl, h⟩
  | cons next rest ih =>
    unfold skipFrom
    by_cases ht : cur.tok = .newline
    · rw [if_pos ht]
      obtain ⟨w₁, rfl, h₁⟩ := h.cons_of_tok ht (by decide)
      obtain ⟨n, w₂, rfl, h₂⟩ := ih h₁
      exact ⟨n + 1, w₂, rfl, h₂⟩
    · rw [if_neg ht]
      exact ⟨0, w, rfl, h⟩

theorem skipNewlines_spells (h : ts.Spells w) :
    ∃ n w', w = List.replicate n .newline ++ w' ∧ ts.skipNewlines.Spells w' := skipFrom_spells h

end Tokens

variable {items : List Value} {w : List Token} {ss : List Statement} {v : Value}
  {u r r' : List Token} {path : List String} {s : Statement} {ss' : List Statement}
  {parseF64 : ParseF64} {input : Text}

theorem ItemsWord.newlines (h : ItemsWord items w) (n : ℕ) :
    ItemsWord items (List.replicate n .newline ++ w) := by
  induction n with
  | zero => exact h
  | succ n ih => exact .newline ih

theorem TailWord.newlines (h : TailWord items w) (n : ℕ) :
    TailWord items (List.replicate n .newline ++ w) := by
  induction n with
  | zero => exact h
  | succ n ih => exact .newline ih

theorem DocumentWord.newlines (h : DocumentWord ss w) (n : ℕ) :
    DocumentWord ss (List.replicate n .newline ++ w) := by
  induction n with
  | zero => exact h
  | succ n ih => exact .newline ih

namespace Tokens
variable {ts ts' : Tokens} {w : List Token}

/-- What a parser of values makes of its tokens is how the value is written. -/
def ReadsValues (read : Tokens → Except ParseError (Value × Tokens)) : Prop :=
  ∀ {ts ts' : Tokens} {v : Value} {w : List Token}, read ts = .ok (v, ts') → ts.Spells w →
    ∃ u w', w = u ++ w' ∧ ValueWord v u ∧ ts'.Spells w'

theorem parseItems_ok {read : Tokens → Except ParseError (Value × Tokens)} (hread : ReadsValues read)
    {fuel : ℕ} {items : List Value} (hok : parseItems read fuel ts = .ok (items, ts'))
    (h : ts.Spells w) : ∃ u w', w = u ++ w' ∧ ItemsWord items u ∧ ts'.Spells w' := by
  induction fuel generalizing ts ts' w items with
  | zero => cases hok
  | succ fuel ih =>
    unfold parseItems at hok
    obtain ⟨n, w₁, rfl, h₁⟩ := skipNewlines_spells h
    by_cases hclose : ts.skipNewlines.tok = .rBracket
    · rw [if_pos hclose] at hok
      cases hok
      obtain ⟨w₂, rfl, h₂⟩ := h₁.cons_of_tok hclose (by decide)
      exact ⟨List.replicate n .newline ++ [.rBracket], w₂, by simp, ItemsWord.close.newlines n, h₂⟩
    rw [if_neg hclose] at hok
    obtain ⟨⟨item, ts₂⟩, hitem, hok⟩ := bind_eq_ok.mp hok
    obtain ⟨u, w₂, rfl, hu, h₂⟩ := hread hitem h₁
    obtain ⟨m, w₃, rfl, h₃⟩ := skipNewlines_spells h₂
    dsimp only at hok
    by_cases hcomma : ts₂.skipNewlines.tok = .comma
    · rw [if_pos hcomma] at hok
      obtain ⟨w₄, rfl, h₄⟩ := h₃.cons_of_tok hcomma (by decide)
      obtain ⟨⟨tail, ts₅⟩, htail, hok⟩ := bind_eq_ok.mp hok
      obtain ⟨v, w₅, rfl, hv, h₅⟩ := ih htail h₄
      cases hok
      have htail := (TailWord.comma hv).newlines m
      exact ⟨_, w₅, by simp, (ItemsWord.item hu htail).newlines n, h₅⟩
    · rw [if_neg hcomma] at hok
      obtain ⟨l, w₄, rfl, h₄⟩ := skipNewlines_spells h₃
      obtain ⟨ts₅, hclose', hok⟩ := bind_eq_ok.mp hok
      obtain ⟨w₅, rfl, h₅⟩ := expectToken_ok hclose' (by decide) h₄
      cases hok
      have htail := (TailWord.close.newlines l).newlines m
      exact ⟨_, w₅, by simp, (ItemsWord.item hu htail).newlines n, h₅⟩

theorem Spells.single {v : Value} (h : ts.Spells w) (ht : ts.tok = t) (hne : t ≠ .eof)
    (hv : ValueWord v [t]) : ∃ u w', w = u ++ w' ∧ ValueWord v u ∧ ts.advance.Spells w' := by
  obtain ⟨w', rfl, hnext⟩ := h.cons_of_tok ht hne
  exact ⟨[t], w', rfl, hv, hnext⟩

theorem readsValues_parseValue (fuel : ℕ) : ReadsValues (parseValue fuel) := by
  induction fuel with
  | zero =>
    intro ts ts' v w hok _
    cases hok
  | succ fuel ih =>
    intro ts ts' v w hok h
    rw [parseValue_succ] at hok
    cases ht : ts.tok with
    | string s =>
      rw [ht] at hok
      cases hok
      exact h.single ht (by simp) (.string s)
    | integer i =>
      rw [ht] at hok
      cases hok
      exact h.single ht (by simp) (.integer i)
    | float bits =>
      rw [ht] at hok
      cases hok
      exact h.single ht (by simp) (.float bits)
    | bool b =>
      rw [ht] at hok
      cases hok
      exact h.single ht (by simp) (.boolean b)
    | lBracket =>
      rw [ht] at hok
      obtain ⟨w₁, rfl, h₁⟩ := h.cons_of_tok ht (by decide)
      obtain ⟨⟨items, ts₂⟩, hitems, hok⟩ := bind_eq_ok.mp hok
      obtain ⟨u, w₂, rfl, hu, h₂⟩ := parseItems_ok ih hitems h₁
      cases hok
      exact ⟨_, w₂, rfl, .array hu, h₂⟩
    | _ =>
      rw [ht] at hok
      cases hok

theorem parseStatement_ok {s : Statement} (hok : ts.parseStatement = .ok (s, ts'))
    (h : ts.Spells w) : ∃ u w₁ w', w = u ++ w₁ ∧ StatementWord s u ∧ ts'.Spells w' ∧
      (w₁ = [] ∧ w' = [] ∨ w₁ = .newline :: w') := by
  unfold parseStatement at hok
  split at hok
  · next ht =>
    obtain ⟨w₁, rfl, h₁⟩ := h.cons_of_tok ht (by decide)
    dsimp only at hok
    split at hok
    · next ht₁ =>
      obtain ⟨w₂, rfl, h₂⟩ := h₁.cons_of_tok ht₁ (by decide)
      obtain ⟨⟨path, ts₃⟩, hpath, hok⟩ := bind_eq_ok.mp hok
      obtain ⟨hne, w₃, rfl, h₃⟩ := parseDottedKey_ok hpath h₂
      obtain ⟨ts₄, hclose, hok⟩ := bind_eq_ok.mp hok
      obtain ⟨w₄, rfl, h₄⟩ := expectToken_ok hclose (by decide) h₃
      obtain ⟨ts₅, hclose', hok⟩ := bind_eq_ok.mp hok
      obtain ⟨w₅, rfl, h₅⟩ := expectToken_ok hclose' (by decide) h₄
      obtain ⟨ts₆, hend, hok⟩ := bind_eq_ok.mp hok
      obtain ⟨w₆, h₆, hline⟩ := expectNewlineOrEof_ok hend h₅
      cases hok
      exact ⟨_, w₅, w₆, by simp, .arrayOfTables hne, h₆, hline⟩
    · obtain ⟨⟨path, ts₂⟩, hpath, hok⟩ := bind_eq_ok.mp hok
      obtain ⟨hne, w₂, rfl, h₂⟩ := parseDottedKey_ok hpath h₁
      obtain ⟨ts₃, hclose, hok⟩ := bind_eq_ok.mp hok
      obtain ⟨w₃, rfl, h₃⟩ := expectToken_ok hclose (by decide) h₂
      obtain ⟨ts₄, hend, hok⟩ := bind_eq_ok.mp hok
      obtain ⟨w₄, h₄, hline⟩ := expectNewlineOrEof_ok hend h₃
      cases hok
      exact ⟨_, w₃, w₄, by simp, .table hne, h₄, hline⟩
  · next key ht =>
    obtain ⟨w₁, rfl, h₁⟩ := h.cons_of_tok ht (by simp)
    obtain ⟨ts₂, heq, hok⟩ := bind_eq_ok.mp hok
    obtain ⟨w₂, rfl, h₂⟩ := expectToken_ok heq (by decide) h₁
    obtain ⟨⟨value, ts₃⟩, hvalue, hok⟩ := bind_eq_ok.mp hok
    obtain ⟨u, w₃, rfl, hu, h₃⟩ := readsValues_parseValue _ hvalue h₂
    obtain ⟨ts₄, hend, hok⟩ := bind_eq_ok.mp hok
    obtain ⟨w₄, h₄, hline⟩ := expectNewlineOrEof_ok hend h₃
    cases hok
    exact ⟨_, w₃, w₄, rfl, .assign hu, h₄, hline⟩
  · cases hok

end Tokens

theorem ValueWord.head (h : ValueWord v u) :
    ∃ t u', u = t :: u' ∧ t ≠ .rBracket ∧ t ≠ .newline := by
  cases h with
  | string s => exact ⟨_, _, rfl, by simp, by simp⟩
  | integer i => exact ⟨_, _, rfl, by simp, by simp⟩
  | float bits => exact ⟨_, _, rfl, by simp, by simp⟩
  | boolean b => exact ⟨_, _, rfl, by simp, by simp⟩
  | array h => exact ⟨_, _, rfl, by simp, by simp⟩

mutual

theorem ValueWord.unique {v v' : Value} {u u' r r' : List Token} (h : ValueWord v u)
    (h' : ValueWord v' u') (heq : u ++ r = u' ++ r') : v = v' ∧ r = r' := by
  cases h with
  | array h =>
    cases h' with
    | array h' =>
      obtain ⟨rfl, hr⟩ := ItemsWord.unique h h' (List.cons.inj heq).2
      exact ⟨rfl, hr⟩
    | _ => simp at heq
  | _ => cases h' <;> simp_all

theorem ItemsWord.unique {items items' : List Value} {w w' r r' : List Token}
    (h : ItemsWord items w) (h' : ItemsWord items' w') (heq : w ++ r = w' ++ r') :
    items = items' ∧ r = r' := by
  cases h with
  | close =>
    cases h' with
    | close => simpa using heq
    | newline h' => simp at heq
    | item h' ht' =>
      obtain ⟨t, u, rfl, hne, -⟩ := h'.head
      exact absurd (List.cons.inj heq).1.symm hne
  | newline h =>
    cases h' with
    | close => simp at heq
    | newline h' => exact ItemsWord.unique h h' (List.cons.inj heq).2
    | item h' ht' =>
      obtain ⟨t, u, rfl, -, hne⟩ := h'.head
      exact absurd (List.cons.inj heq).1.symm hne
  | item h ht =>
    cases h' with
    | close =>
      obtain ⟨t, u, rfl, hne, -⟩ := h.head
      exact absurd (List.cons.inj heq).1 hne
    | newline h' =>
      obtain ⟨t, u, rfl, -, hne⟩ := h.head
      exact absurd (List.cons.inj heq).1 hne
    | item h' ht' =>
      simp only [List.append_assoc] at heq
      obtain ⟨rfl, heq⟩ := ValueWord.unique h h' heq
      obtain ⟨rfl, hr⟩ := TailWord.unique ht ht' heq
      exact ⟨rfl, hr⟩

theorem TailWord.unique {items items' : List Value} {w w' r r' : List Token}
    (h : TailWord items w) (h' : TailWord items' w') (heq : w ++ r = w' ++ r') :
    items = items' ∧ r = r' := by
  cases h with
  | close => cases h' <;> simp_all
  | newline h =>
    cases h' with
    | newline h' => exact TailWord.unique h h' (List.cons.inj heq).2
    | _ => simp at heq
  | comma h =>
    cases h' with
    | comma h' => exact ItemsWord.unique h h' (List.cons.inj heq).2
    | _ => simp at heq

end

theorem flatMap_dot_unique {ps qs : List String}
    (h : (ps.flatMap fun p => [.dot, .ident p]) ++ .rBracket :: r =
      (qs.flatMap fun p => [.dot, .ident p]) ++ .rBracket :: r') : ps = qs ∧ r = r' := by
  induction ps generalizing qs with
  | nil =>
    cases qs with
    | nil => exact ⟨rfl, (List.cons.inj h).2⟩
    | cons q qs => simp at h
  | cons p ps ih =>
    cases qs with
    | nil => simp at h
    | cons q qs =>
      simp only [List.flatMap_cons, List.cons_append, List.nil_append, List.cons.injEq, true_and,
        Token.ident.injEq] at h
      obtain ⟨rfl, hr⟩ := ih h.2
      exact ⟨by rw [h.1], hr⟩

theorem dotted_unique {path' : List String} (hne : path ≠ []) (hne' : path' ≠ [])
    (h : dotted path ++ .rBracket :: r = dotted path' ++ .rBracket :: r') :
    path = path' ∧ r = r' := by
  cases path with
  | nil => exact absurd rfl hne
  | cons p ps =>
    cases path' with
    | nil => exact absurd rfl hne'
    | cons q qs =>
      obtain ⟨hp, hrest⟩ := List.cons.inj h
      obtain ⟨rfl, hr⟩ := flatMap_dot_unique hrest
      cases hp
      exact ⟨rfl, hr⟩

theorem dotted_head (hne : path ≠ []) (r : List Token) :
    ∃ name w, dotted path ++ r = .ident name :: w := by
  cases path with
  | nil => exact absurd rfl hne
  | cons p ps => exact ⟨p, _, rfl⟩

theorem StatementWord.unique {s' : Statement} {u' : List Token} (h : StatementWord s u)
    (h' : StatementWord s' u') (heq : u ++ r = u' ++ r') : s = s' ∧ r = r' := by
  cases h with
  | table hne =>
    cases h' with
    | table hne' =>
      simp only [List.cons_append, List.append_assoc, List.cons.injEq, true_and,
        List.nil_append] at heq
      obtain ⟨rfl, hr⟩ := dotted_unique hne hne' heq
      exact ⟨rfl, hr⟩
    | arrayOfTables hne' =>
      simp only [List.cons_append, List.append_assoc, List.cons.injEq, true_and,
        List.nil_append] at heq
      obtain ⟨name, w, hw⟩ := dotted_head hne (.rBracket :: r)
      rw [hw] at heq
      simp at heq
    | assign h' => simp at heq
  | arrayOfTables hne =>
    cases h' with
    | table hne' =>
      simp only [List.cons_append, List.append_assoc, List.cons.injEq, true_and,
        List.nil_append] at heq
      obtain ⟨name, w, hw⟩ := dotted_head hne' (.rBracket :: r')
      rw [hw] at heq
      simp at heq
    | arrayOfTables hne' =>
      simp only [List.cons_append, List.append_assoc, List.cons.injEq, true_and,
        List.nil_append] at heq
      obtain ⟨rfl, hr⟩ := dotted_unique hne hne' heq
      exact ⟨rfl, (List.cons.inj hr).2⟩
    | assign h' => simp at heq
  | assign h =>
    cases h' with
    | assign h' =>
      simp only [List.cons_append, List.cons.injEq, Token.ident.injEq, true_and] at heq
      obtain ⟨rfl, hr⟩ := h.unique h' heq.2
      exact ⟨by rw [heq.1], hr⟩
    | _ => simp at heq

theorem StatementWord.head (h : StatementWord s u) : ∃ t u', u = t :: u' ∧ t ≠ .newline := by
  cases h with
  | table hne => exact ⟨_, _, rfl, by simp⟩
  | arrayOfTables hne => exact ⟨_, _, rfl, by simp⟩
  | assign h => exact ⟨_, _, rfl, by simp⟩

/-- A document has one reading. -/
theorem DocumentWord.unique (h : DocumentWord ss w) (h' : DocumentWord ss' w) : ss = ss' := by
  induction h generalizing ss' with
  | nil =>
    generalize hw : [] = w at h'
    cases h' with
    | nil => rfl
    | newline h' => cases hw
    | cons h' =>
      obtain ⟨t, u, rfl, -⟩ := h'.head
      cases hw
  | newline h ih =>
    rename_i w
    generalize hw : Token.newline :: w = w' at h'
    cases h' with
    | nil => cases hw
    | newline h' =>
      cases hw
      exact ih h'
    | cons h' =>
      obtain ⟨t, u, rfl, hne⟩ := h'.head
      exact absurd (List.cons.inj hw).1.symm hne
  | cons h hss _ ih =>
    rename_i s ss u w _
    generalize hw : u ++ w = w' at h'
    cases h' with
    | nil =>
      obtain ⟨t, u, rfl, -⟩ := h.head
      cases hw
    | newline h' =>
      obtain ⟨t, u, rfl, hne⟩ := h.head
      exact absurd (List.cons.inj hw).1 hne
    | cons h' hss' =>
      obtain ⟨rfl, rfl⟩ := h.unique h' hw
      rw [ih hss']

/-- Statements carried out one after another. -/
inductive Runs : List Statement → Table → List PathSeg → Table → List PathSeg → Prop
  | nil {root : Table} {current : List PathSeg} : Runs [] root current root current
  | cons {s : Statement} {ss : List Statement} {root root₁ root₂ : Table}
      {current current₁ current₂ : List PathSeg} (span : Spanned) :
    s.run root current span = .ok (root₁, current₁) → Runs ss root₁ current₁ root₂ current₂ →
      Runs (s :: ss) root current root₂ current₂

/-- The lines of a document are these statements. -/
def ReadsAs (parseF64 : ParseF64) (input : Text) (ss : List Statement) : Prop :=
  ∃ w, Lexes parseF64 input w ∧ DocumentWord ss w

theorem ReadsAs.unique
    (h : ReadsAs parseF64 input ss) (h' : ReadsAs parseF64 input ss') : ss = ss' := by
  obtain ⟨w, hlexes, hdoc⟩ := h
  obtain ⟨w', hlexes', hdoc'⟩ := h'
  obtain rfl := hlexes.unique hlexes'
  exact hdoc.unique hdoc'

theorem parseStatements_ok {fuel : ℕ} {root root' : Table} {current : List PathSeg} {ts : Tokens}
    (hok : parseStatements fuel root current ts = .ok root') (h : ts.Spells w)
    (hfuel : w.length < fuel) :
    ∃ ss current', DocumentWord ss w ∧ Runs ss root current root' current' := by
  induction fuel generalizing root current ts w with
  | zero => exact absurd hfuel (Nat.not_lt_zero _)
  | succ fuel ih =>
    unfold parseStatements at hok
    obtain ⟨n, w₁, rfl, h₁⟩ := Tokens.skipNewlines_spells h
    by_cases heof : ts.skipNewlines.tok = .eof
    · rw [if_pos heof] at hok
      cases hok
      cases w₁ with
      | nil => exact ⟨[], current, DocumentWord.nil.newlines n, .nil⟩
      | cons t w₁ =>
        have ht : t = .eof := h₁.tok_cons.symm.trans heof
        exact absurd (List.mem_cons.mpr (.inl ht.symm)) h₁.noEof
    · rw [if_neg heof] at hok
      obtain ⟨⟨s, after⟩, hs, hok⟩ := bind_eq_ok.mp hok
      obtain ⟨⟨root₁, current₁⟩, hrun, hok⟩ := bind_eq_ok.mp hok
      obtain ⟨u, w₂, w₃, rfl, hu, h₃, hline⟩ := Tokens.parseStatement_ok hs h₁
      have hlength : w₃.length < fuel := by
        obtain ⟨t, u', rfl, -⟩ := hu.head
        rcases hline with ⟨rfl, rfl⟩ | rfl
        · simp at hfuel ⊢
          omega
        · simp at hfuel ⊢
          omega
      obtain ⟨ss, current', hdoc, hruns⟩ := ih hok h₃ hlength
      have hrest : DocumentWord ss w₂ ∧ (w₂ = [] ∨ w₂.head? = some .newline) := by
        rcases hline with ⟨rfl, rfl⟩ | rfl
        · exact ⟨hdoc, .inl rfl⟩
        · exact ⟨.newline hdoc, .inr rfl⟩
      exact ⟨s :: ss, current', (DocumentWord.cons hu hrest.1 hrest.2).newlines n,
        .cons _ hrun hruns⟩

/-- An accepted document is its statements, carried out from the empty table. -/
theorem parse_ok (hok : parse parseF64 input = .ok v) :
    ∃ ss root current, ReadsAs parseF64 input ss ∧ Runs ss [] [] root current ∧
      v = .table root := by
  obtain ⟨spans, hspans, hok⟩ := bind_eq_ok.mp hok
  obtain ⟨w, hlexes, hw⟩ := Lexer.tokenizeWithin_ok hspans le_rfl
  cases spans with
  | nil => cases hok
  | cons cur rest =>
    obtain ⟨root, hroot, hok⟩ := bind_eq_ok.mp hok
    have hspells : Tokens.Spells ⟨cur, rest⟩ w := ⟨hw, hlexes.eof_notMem⟩
    obtain ⟨ss, current, hdoc, hruns⟩ :=
      parseStatements_ok hroot hspells (Nat.lt_succ_of_le hspells.length.le)
    cases hok
    exact ⟨ss, root, current, ⟨w, hlexes, hdoc⟩, hruns, rfl⟩

end Desmos.Core

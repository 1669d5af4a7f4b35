import Desmos.Core.Config.Lexer
import Desmos.Library.Reader

/-! # The words of a configuration file

What a document spells, said of its characters: blanks, comments and the texts of tokens follow one
another, and a number or a word ends where it cannot be longer. `tokenize` reads exactly this.
-/
namespace Desmos.Core
open Library

/-- What the escapes of a string literal stand for. -/
def escapes : List (Char × Char) :=
  [('n', '\n'), ('t', '\t'), ('r', '\r'), ('\x22', '\x22'), ('\x5c', '\x5c')]

/-- The characters of a string, as they are written between the quotes. -/
inductive Quoted : Text → Text → Prop
  | nil : Quoted [] []
  | char {c : Char} {s u : Text} :
    c ∉ ['\n', '\x22', '\x5c'] → Quoted s u → Quoted (c :: s) (c :: u)
  | escape {esc c : Char} {s u : Text} :
    (esc, c) ∈ escapes → Quoted s u → Quoted (c :: s) ('\x5c' :: esc :: u)

def IsDigits (u : Text) : Prop := u ≠ [] ∧ ∀ c ∈ u, c.isDigit = true

inductive Numeral : Bool → Text → Prop
  | whole {sign digits : Text} :
    sign ∈ [[], ['-'], ['+']] → IsDigits digits → Numeral false (sign ++ digits)
  | fraction {sign digits decimals : Text} :
    sign ∈ [[], ['-'], ['+']] → IsDigits digits → IsDigits decimals →
      Numeral true (sign ++ digits ++ '.' :: decimals)

/-- The words that are no names. -/
def wordToken (word : Text) : Token :=
  if word = "true".toList then .bool true
  else if word = "false".toList then .bool false
  else .ident (String.ofList word)

inductive TokenText (parseF64 : ParseF64) : Token → Text → Prop
  | newline : TokenText parseF64 .newline ['\n']
  | punctuation {c : Char} {tok : Token} :
    (c, tok) ∈ Lexer.punctuation → TokenText parseF64 tok [c]
  | string {s u : Text} :
    Quoted s u → TokenText parseF64 (.string (String.ofList s)) ('\x22' :: u ++ ['\x22'])
  | integer {u : Text} {i : Int64} :
    Numeral false u → Text.parseI64 u = some i → TokenText parseF64 (.integer i) u
  | float {u : Text} {bits : UInt64} :
    Numeral true u → parseF64 u = some bits → TokenText parseF64 (.float bits) u
  | word {c : Char} {u : Text} :
    c.isAlpha = true ∨ c = '_' → (∀ d ∈ u, Lexer.isIdentChar d = true) →
      TokenText parseF64 (wordToken (c :: u)) (c :: u)

def Numeral.EndsBefore (isFloat : Bool) (rest : Text) : Prop :=
  (∀ c ∈ rest.head?, c.isDigit = false) ∧
    (isFloat = false → ∀ d tail, rest = '.' :: d :: tail → d.isDigit = false)

/-- The text behind a token does not make it longer. -/
def Token.EndsBefore (rest : Text) : Token → Prop
  | .integer _ => Numeral.EndsBefore false rest
  | .float _ => Numeral.EndsBefore true rest
  | .bool _ | .ident _ => ∀ c ∈ rest.head?, Lexer.isIdentChar c = false
  | _ => True

/-- A piece of a document in front of the rest: a blank, a comment or a token. -/
inductive Piece (parseF64 : ParseF64) : Option Token → Text → Text → Prop
  | blank {c : Char} {rest : Text} : c ∈ [' ', '\t', '\r'] → Piece parseF64 none [c] rest
  | comment {body rest : Text} :
    '\n' ∉ body → (∀ c ∈ rest.head?, c = '\n') → Piece parseF64 none ('#' :: body) rest
  | token {tok : Token} {u rest : Text} :
    TokenText parseF64 tok u → tok.EndsBefore rest → Piece parseF64 (some tok) u rest

/-- The tokens that a document spells. -/
inductive Lexes (parseF64 : ParseF64) : Text → List Token → Prop
  | nil : Lexes parseF64 [] []
  | cons {tok : Option Token} {u rest : Text} {w : List Token} :
    Piece parseF64 tok u rest → Lexes parseF64 rest w → Lexes parseF64 (u ++ rest) (tok.toList ++ w)

variable {parseF64 : ParseF64} {chars rest s u sign : Text} {c : Char} {w : List Token}

section Span
variable {α : Type*} {p : α → Bool} {l front back : List α}

theorem span_append (hfront : ∀ x ∈ front, p x = true) (hback : ∀ x ∈ back.head?, p x = false) :
    (front ++ back).takeWhile p = front ∧ (front ++ back).dropWhile p = back := by
  have hend : back.takeWhile p = [] ∧ back.dropWhile p = back := by
    cases back with
    | nil => exact ⟨rfl, rfl⟩
    | cons x back => simp [hback x rfl]
  rw [List.takeWhile_append_of_pos hfront, List.dropWhile_append_of_pos hfront, hend.1, hend.2,
    List.append_nil]
  exact ⟨rfl, rfl⟩

theorem head?_dropWhile : ∀ x ∈ (l.dropWhile p).head?, p x = false := by
  intro x hx
  have h := List.head?_dropWhile_not p l
  rw [Option.mem_def.mp hx] at h
  exact h

end Span

namespace Lexer

theorem unescape_eq_some_iff {esc : Char} : unescape esc = some c ↔ (esc, c) ∈ escapes := by
  simp only [unescape, escapes, List.mem_cons, Prod.mk.injEq, List.not_mem_nil, or_false]
  grind

theorem readString_ok (h : readString chars = .ok (s, rest)) :
    ∃ u, Quoted s u ∧ chars = u ++ '\x22' :: rest := by
  fun_induction readString chars generalizing s with
  | case1 => cases h
  | case2 => cases h
  | case3 =>
    cases h
    exact ⟨[], .nil, rfl⟩
  | case4 => cases h
  | case5 => cases h
  | case6 esc tail decoded hesc _ _ ih =>
    obtain ⟨⟨s, rest'⟩, hread, heq⟩ := map_eq_ok.mp h
    cases heq
    obtain ⟨u, hu, rfl⟩ := ih hread
    exact ⟨'\x5c' :: esc :: u, .escape (unescape_eq_some_iff.mp hesc) hu, rfl⟩
  | case7 c tail hnewline hquote hescape ih =>
    obtain ⟨⟨s, rest'⟩, hread, heq⟩ := map_eq_ok.mp h
    cases heq
    obtain ⟨u, hu, rfl⟩ := ih hread
    exact ⟨c :: u, .char (by simp [hnewline, hquote, hescape]) hu, rfl⟩

theorem readString_quoted (h : Quoted s u) (rest : Text) :
    readString (u ++ '\x22' :: rest) = .ok (s, rest) := by
  induction h with
  | nil =>
    unfold readString
    simp
  | char hc _ ih =>
    simp only [List.mem_cons, List.not_mem_nil, or_false, not_or] at hc
    unfold readString
    simp [hc, ih, Except.map]
  | escape hesc _ ih =>
    unfold readString
    simp [unescape_eq_some_iff.mpr hesc, ih, Except.map]

variable {d : Char} {isFloat : Bool} {line col : ℕ} {w : List Token}

theorem not_sign_of_isDigit (h : d.isDigit = true) : ¬ (d = '-' ∨ d = '+') := by
  rintro (rfl | rfl) <;> cases h

theorem numberLexeme_sign (hsign : sign ∈ [[], ['-'], ['+']]) (hd : d.isDigit = true)
    (chars : Text) :
    isNumberStart (sign ++ d :: chars) = true ∧ numberLexeme (sign ++ d :: chars) =
      (sign ++ (numberLexeme (d :: chars)).1, (numberLexeme (d :: chars)).2) := by
  simp only [List.mem_cons, List.not_mem_nil, or_false] at hsign
  rcases hsign with rfl | rfl | rfl
  · simp [isNumberStart, hd]
  all_goals
    refine ⟨by simp [isNumberStart, hd], ?_⟩
    simp only [numberLexeme, List.cons_append, List.nil_append, true_or, or_true, if_true,
      if_neg (not_sign_of_isDigit hd)]
    split
    · split_ifs <;> simp
    · simp

theorem numberLexeme_numeral (hu : Numeral isFloat u) (hrest : Numeral.EndsBefore isFloat rest) :
    isNumberStart (u ++ rest) = true ∧ numberLexeme (u ++ rest) = (u, isFloat, rest) := by
  cases hu with
  | whole hsign hdigits =>
    obtain ⟨htake, hdrop⟩ := span_append hdigits.2 hrest.1
    obtain ⟨d, ds, rfl⟩ := List.exists_cons_of_ne_nil hdigits.1
    have hd := hdigits.2 d List.mem_cons_self
    have hwhole : numberLexeme (d :: (ds ++ rest)) = (d :: ds, false, rest) := by
      simp only [numberLexeme, if_neg (not_sign_of_isDigit hd)]
      rw [List.cons_append] at htake hdrop
      simp only [htake, hdrop]
      split
      · next e tail => simp [hrest.2 rfl e tail rfl]
      · rfl
    obtain ⟨hstart, hlexeme⟩ := numberLexeme_sign hsign hd (ds ++ rest)
    rw [List.append_assoc, List.cons_append]
    exact ⟨hstart, by rw [hlexeme, hwhole]⟩
  | fraction hsign hdigits hdecimals =>
    rename_i sign digits decimals
    have hdot : ∀ c ∈ ('.' :: (decimals ++ rest)).head?, c.isDigit = false := by simp
    obtain ⟨htake, hdrop⟩ := span_append hdigits.2 hdot
    obtain ⟨htake', hdrop'⟩ := span_append hdecimals.2 hrest.1
    obtain ⟨d, ds, rfl⟩ := List.exists_cons_of_ne_nil hdigits.1
    obtain ⟨e, es, rfl⟩ := List.exists_cons_of_ne_nil hdecimals.1
    have hd := hdigits.2 d List.mem_cons_self
    have he := hdecimals.2 e List.mem_cons_self
    have hfraction : numberLexeme (d :: (ds ++ '.' :: (e :: es ++ rest))) =
        (d :: ds ++ '.' :: e :: es, true, rest) := by
      simp only [List.cons_append] at htake hdrop htake' hdrop' ⊢
      simp [numberLexeme, if_neg (not_sign_of_isDigit hd), htake, hdrop, if_pos he, htake', hdrop']
    obtain ⟨hstart, hlexeme⟩ := numberLexeme_sign hsign hd (ds ++ '.' :: (e :: es ++ rest))
    have hsplit : sign ++ d :: ds ++ '.' :: e :: es ++ rest =
        sign ++ d :: (ds ++ '.' :: (e :: es ++ rest)) := by simp
    rw [hsplit]
    exact ⟨hstart, by rw [hlexeme, hfraction]; simp⟩

theorem isDigits_takeWhile (hd : d.isDigit = true) (tail : Text) :
    IsDigits ((d :: tail).takeWhile Char.isDigit) :=
  ⟨by simp [hd], fun _ hc => List.mem_takeWhile_imp hc⟩

/-- Where a number starts, one stands. -/
theorem exists_numeral (h : isNumberStart chars = true) :
    ∃ isFloat u rest, chars = u ++ rest ∧ Numeral isFloat u ∧ Numeral.EndsBefore isFloat rest := by
  obtain ⟨sign, d, tail, rfl, hsign, hd⟩ : ∃ sign d tail, chars = sign ++ d :: tail ∧
      sign ∈ [[], ['-'], ['+']] ∧ d.isDigit = true := by
    match chars with
    | [] => cases h
    | [c] => exact ⟨[], c, [], rfl, by simp, by simpa [isNumberStart] using h⟩
    | c :: d :: tail =>
      simp only [isNumberStart, Bool.or_eq_true, Bool.and_eq_true, beq_iff_eq] at h
      rcases h with hc | ⟨rfl | rfl, hd⟩
      · exact ⟨[], c, d :: tail, rfl, by simp, hc⟩
      · exact ⟨['-'], d, tail, rfl, by simp, hd⟩
      · exact ⟨['+'], d, tail, rfl, by simp, hd⟩
  have hdigits := isDigits_takeWhile hd tail
  have hsplit := List.takeWhile_append_dropWhile (p := Char.isDigit) (l := d :: tail)
  rw [← hsplit, ← List.append_assoc]
  by_cases hfraction : ∃ e es, (d :: tail).dropWhile Char.isDigit = '.' :: e :: es ∧ e.isDigit = true
  · obtain ⟨e, es, hdot, he⟩ := hfraction
    refine ⟨true, _, (e :: es).dropWhile Char.isDigit, ?_,
      .fraction hsign hdigits (isDigits_takeWhile he es), head?_dropWhile, nofun⟩
    rw [hdot, List.append_assoc _ ('.' :: _), List.cons_append, List.takeWhile_append_dropWhile]
  · refine ⟨false, _, _, rfl, .whole hsign hdigits, head?_dropWhile, fun _ e es hdot => ?_⟩
    by_contra he
    exact hfraction ⟨e, es, hdot, by simpa using he⟩

theorem wordToken_endsBefore {word : Text} : (wordToken word).EndsBefore rest ↔
    ∀ c ∈ rest.head?, isIdentChar c = false := by
  unfold wordToken
  split_ifs <;> rfl

theorem readIdent_eq (chars : Text) :
    readIdent chars = (wordToken (chars.takeWhile isIdentChar), chars.dropWhile isIdentChar) := by
  have hword (word : Text) (s : String) : String.ofList word = s ↔ word = s.toList := by
    rw [← String.toList_inj, String.toList_ofList]
  simp only [readIdent, wordToken, hword]

theorem isIdentChar_of_first (h : c.isAlpha = true ∨ c = '_') : isIdentChar c = true := by
  rcases h with h | rfl
  · simp [isIdentChar, Char.isAlphanum, h]
  · rfl

/-- The characters that are no part of a number or a word. -/
def marks : List Char := [' ', '\t', '\r', '\n', '#', '\x22', '[', ']', '=', ',', '.']

theorem not_mem_marks
    (h : (∃ rest, isNumberStart (c :: rest) = true) ∨ c.isAlpha = true ∨ c = '_') : c ∉ marks := by
  intro hmem
  fin_cases hmem <;> simp [isNumberStart] at h

theorem round_unmarked (hc : c ∉ marks) (rest : Text) (line col : ℕ) :
    round parseF64 c rest line col =
      if isNumberStart (c :: rest) then (readNumber parseF64 (c :: rest)).map fun n =>
        (some n.1, n.2, line, col + (rest.length + 1 - n.2.length))
      else if c.isAlpha ∨ c = '_' then .ok (some (readIdent (c :: rest)).1,
        (readIdent (c :: rest)).2, line,
        col + (rest.length + 1 - (readIdent (c :: rest)).2.length))
      else .error (.unexpectedChar c) := by
  simp only [marks, List.mem_cons, List.not_mem_nil, or_false, not_or] at hc
  have hlookup : punctuation.lookup c = none := by simp [List.lookup_eq_none_iff, punctuation, hc]
  simp [round, hlookup, hc]

theorem isNumberStart_ne_true (h : c.isAlpha = true ∨ c = '_') (rest : Text) :
    isNumberStart (c :: rest) ≠ true := by
  rcases h with h | rfl
  · have hsign : c ≠ '-' ∧ c ≠ '+' := by constructor <;> rintro rfl <;> cases h
    simp [isNumberStart, hsign]
    unfold Char.isAlpha Char.isUpper Char.isLower at h
    simp [Char.isDigit] at h ⊢
    grind
  · simp [isNumberStart]

/-- A round takes a piece off the front of the text. -/
theorem round_ok {out : Option Token × Text × ℕ × ℕ}
    (h : round parseF64 c rest line col = .ok out) :
    ∃ u, c :: rest = u ++ out.2.1 ∧ Piece parseF64 out.1 u out.2.1 := by
  by_cases hnumber : isNumberStart (c :: rest) = true
  · rw [round_unmarked (not_mem_marks (.inl ⟨_, hnumber⟩)), if_pos hnumber] at h
    obtain ⟨n, hread, rfl⟩ := map_eq_ok.mp h
    obtain ⟨isFloat, u, rest', hsplit, hu, hends⟩ := exists_numeral hnumber
    rw [hsplit, readNumber, (numberLexeme_numeral hu hends).2] at hread
    refine ⟨u, ?_⟩
    rw [hsplit]
    cases isFloat with
    | true =>
      simp only [if_true] at hread
      split at hread <;> cases hread
      next bits hparse => exact ⟨rfl, .token (.float hu hparse) hends⟩
    | false =>
      simp only [Bool.false_eq_true, if_false] at hread
      split at hread <;> cases hread
      next i hparse => exact ⟨rfl, .token (.integer hu hparse) hends⟩
  by_cases hword : c.isAlpha = true ∨ c = '_'
  · rw [round_unmarked (not_mem_marks (.inr hword)), if_neg hnumber, if_pos hword] at h
    cases h
    rw [readIdent_eq, List.takeWhile_cons_of_pos (isIdentChar_of_first hword),
      List.dropWhile_cons_of_pos (isIdentChar_of_first hword)]
    refine ⟨c :: rest.takeWhile isIdentChar, by simp, .token (.word hword ?_) ?_⟩
    · exact fun _ hd => List.mem_takeWhile_imp hd
    · exact wordToken_endsBefore.mpr head?_dropWhile
  unfold round at h
  split at h
  · next hblank =>
    cases h
    exact ⟨[c], rfl, .blank (by rcases hblank with rfl | rfl <;> simp)⟩
  split at h
  · next hblank =>
    cases h
    exact ⟨[c], rfl, .blank (by simp [hblank])⟩
  split at h
  · next hnewline =>
    cases h
    exact ⟨[c], rfl, hnewline ▸ .token .newline trivial⟩
  split at h
  · next hcomment =>
    cases h
    refine ⟨c :: rest.takeWhile (· ≠ '\n'), by simp, hcomment ▸ .comment ?_ ?_⟩
    · intro hmem
      simpa using List.mem_takeWhile_imp hmem
    · intro d hd
      simpa using head?_dropWhile d hd
  split at h
  · next tok hlookup =>
    cases h
    obtain ⟨front, back, hsplit, -⟩ := List.lookup_eq_some_iff.mp hlookup
    have hmem : (c, tok) ∈ punctuation := by rw [hsplit]; simp
    refine ⟨[c], rfl, .token (.punctuation hmem) ?_⟩
    simp only [punctuation, List.mem_cons, Prod.mk.injEq, List.not_mem_nil, or_false] at hmem
    rcases hmem with ⟨-, rfl⟩ | ⟨-, rfl⟩ | ⟨-, rfl⟩ | ⟨-, rfl⟩ | ⟨-, rfl⟩ <;> trivial
  split at h
  · next hquote =>
    obtain ⟨s, hread, rfl⟩ := map_eq_ok.mp h
    obtain ⟨u, hu, rfl⟩ := readString_ok hread
    subst hquote
    exact ⟨'\x22' :: u ++ ['\x22'], by simp, .token (.string hu) trivial⟩
  · cases h

theorem round_numeral {tok : Token} (hu : Numeral isFloat u)
    (hends : Numeral.EndsBefore isFloat rest) (line col : ℕ)
    (hread : readNumber parseF64 (u ++ rest) = .ok (tok, rest)) :
    ∃ c u' line' col', u = c :: u' ∧
      round parseF64 c (u' ++ rest) line col = .ok (some tok, rest, line', col') := by
  have hne : u ≠ [] := by
    cases hu with
    | whole _ hdigits => simp [hdigits.1]
    | fraction => simp
  obtain ⟨c, u', rfl⟩ := List.exists_cons_of_ne_nil hne
  have hstart : isNumberStart (c :: (u' ++ rest)) = true := (numberLexeme_numeral hu hends).1
  have hround := @round_unmarked parseF64 c (not_mem_marks (.inl ⟨_, hstart⟩)) (u' ++ rest) line col
  rw [if_pos hstart, ← List.cons_append, hread] at hround
  exact ⟨c, u', _, _, rfl, hround⟩

/-- Every piece is taken by a round. -/
theorem round_piece {tok : Option Token} (h : Piece parseF64 tok u rest) (line col : ℕ) :
    ∃ c u' line' col', u = c :: u' ∧
      round parseF64 c (u' ++ rest) line col = .ok (tok, rest, line', col') := by
  cases h with
  | blank hc =>
    simp only [List.mem_cons, List.not_mem_nil, or_false] at hc
    rcases hc with rfl | rfl | rfl <;> exact ⟨_, [], _, _, rfl, rfl⟩
  | comment hbody hrest =>
    rename_i body
    have hdrop : (body ++ rest).dropWhile (· ≠ '\n') = rest := by
      refine (span_append (fun c hc => ?_) fun c hc => ?_).2
      · simpa using ne_of_mem_of_not_mem hc hbody
      · simpa using hrest c hc
    have hround : round parseF64 '#' (body ++ rest) line col =
        .ok (none, (body ++ rest).dropWhile (· ≠ '\n'), line, col) := rfl
    rw [hdrop] at hround
    exact ⟨'#', body, _, _, rfl, hround⟩
  | token htok hends =>
    cases htok with
    | newline => exact ⟨'\n', [], _, _, rfl, rfl⟩
    | punctuation hmem =>
      simp only [punctuation, List.mem_cons, Prod.mk.injEq, List.not_mem_nil, or_false] at hmem
      rcases hmem with ⟨rfl, rfl⟩ | ⟨rfl, rfl⟩ | ⟨rfl, rfl⟩ | ⟨rfl, rfl⟩ | ⟨rfl, rfl⟩ <;>
        exact ⟨_, [], _, _, rfl, rfl⟩
    | string hu =>
      rename_i s u
      have hround : round parseF64 '\x22' (u ++ '\x22' :: rest) line col =
          (readString (u ++ '\x22' :: rest)).map _ := rfl
      rw [readString_quoted hu rest] at hround
      refine ⟨'\x22', u ++ ['\x22'], line, col + ((u ++ '\x22' :: rest).length + 1 - rest.length),
        rfl, ?_⟩
      rw [List.append_assoc]
      exact hround
    | integer hu hparse =>
      refine round_numeral hu hends line col ?_
      rw [readNumber, (numberLexeme_numeral hu hends).2]
      simp [hparse]
    | float hu hparse =>
      refine round_numeral hu hends line col ?_
      rw [readNumber, (numberLexeme_numeral hu hends).2]
      simp [hparse]
    | word hfirst hword =>
      rename_i c u
      have hchars : ∀ d ∈ c :: u, isIdentChar d = true :=
        List.forall_mem_cons.mpr ⟨isIdentChar_of_first hfirst, hword⟩
      obtain ⟨htake, hdrop⟩ := span_append hchars (wordToken_endsBefore.mp hends)
      have hround := @round_unmarked parseF64 c (not_mem_marks (.inr hfirst)) (u ++ rest) line col
      rw [if_neg (isNumberStart_ne_true hfirst _), if_pos hfirst, readIdent_eq, ← List.cons_append,
        htake, hdrop] at hround
      exact ⟨c, u, _, _, rfl, hround⟩

theorem tokenizeWithin_ok {fuel : ℕ} {out : List Spanned}
    (h : tokenizeWithin parseF64 fuel chars line col = .ok out) (hfuel : chars.length ≤ fuel) :
    ∃ w, Lexes parseF64 chars w ∧ out.map Spanned.tok = w ++ [.eof] := by
  -- a piece is not empty, so that the bound on the rounds is never met
  have hless {fuel : ℕ} {tok : Option Token} {u rest : Text} (hpiece : Piece parseF64 tok u rest)
      (hfuel : (u ++ rest).length ≤ fuel + 1) : rest.length ≤ fuel := by
    obtain ⟨c, u', -, -, rfl, -⟩ := round_piece hpiece 0 0
    simp only [List.cons_append, List.length_cons, List.length_append] at hfuel
    omega
  fun_induction tokenizeWithin parseF64 fuel chars line col generalizing out with
  | case1 =>
    cases h
    obtain rfl := List.length_eq_zero_iff.mp (Nat.le_zero.mp hfuel)
    exact ⟨[], .nil, rfl⟩
  | case2 =>
    cases h
    exact ⟨[], .nil, rfl⟩
  | case3 => cases h
  | case4 => cases h
  | case5 _ _ _ _ _ _ _ _ _ hrec hround ih =>
    cases h
    obtain ⟨u, hsplit, hpiece⟩ := round_ok hround
    rw [hsplit] at hfuel ⊢
    obtain ⟨w, hlexes, hw⟩ := ih hrec (hless hpiece hfuel)
    exact ⟨w, .cons hpiece hlexes, hw⟩
  | case6 _ _ _ _ _ _ _ _ _ hrec tok hround ih =>
    cases h
    obtain ⟨u, hsplit, hpiece⟩ := round_ok hround
    rw [hsplit] at hfuel ⊢
    obtain ⟨w, hlexes, hw⟩ := ih hrec (hless hpiece hfuel)
    exact ⟨tok :: w, .cons hpiece hlexes, congrArg (tok :: ·) hw⟩

theorem tokenizeWithin_lexes (h : Lexes parseF64 chars w) (fuel line col : ℕ)
    (hfuel : chars.length ≤ fuel) :
    ∃ out, tokenizeWithin parseF64 fuel chars line col = .ok out ∧
      out.map Spanned.tok = w ++ [.eof] := by
  induction h generalizing fuel line col with
  | nil => exact ⟨[⟨.eof, line, col⟩], by cases fuel <;> rfl, rfl⟩
  | cons hpiece _ ih =>
    rename_i tok u rest w _
    obtain ⟨c, u', line', col', rfl, hround⟩ := round_piece hpiece line col
    cases fuel with
    | zero => simp at hfuel
    | succ fuel =>
      simp only [List.cons_append, List.length_cons, List.length_append] at hfuel
      obtain ⟨out, hout, hw⟩ := ih fuel line' col' (by omega)
      rw [List.cons_append, tokenizeWithin, hround]
      simp only [hout]
      cases tok with
      | none => exact ⟨out, rfl, hw⟩
      | some tok => exact ⟨_, rfl, congrArg (tok :: ·) hw⟩

/-- A document is accepted with the tokens that it spells. -/
theorem tokenize_iff {input : Text} :
    (∃ spans, tokenize parseF64 input = .ok spans ∧ spans.map Spanned.tok = w ++ [.eof]) ↔
      Lexes parseF64 input w := by
  constructor
  · rintro ⟨spans, hspans, hw⟩
    obtain ⟨w', hlexes, hw'⟩ := tokenizeWithin_ok hspans le_rfl
    rwa [List.append_cancel_right (hw.symm.trans hw')]
  · exact fun h => tokenizeWithin_lexes h _ 1 1 le_rfl

end Lexer

theorem TokenText.ne_eof {tok : Token} (h : TokenText parseF64 tok u) : tok ≠ .eof := by
  cases h with
  | punctuation hmem =>
    rintro rfl
    simp [Lexer.punctuation] at hmem
  | word =>
    unfold wordToken
    split_ifs <;> nofun
  | _ => nofun

theorem Lexes.eof_notMem (h : Lexes parseF64 chars w) : .eof ∉ w := by
  induction h with
  | nil => exact List.not_mem_nil
  | cons hpiece _ ih =>
    cases hpiece with
    | blank | comment => exact ih
    | token htok => exact List.not_mem_cons_of_ne_of_not_mem htok.ne_eof.symm ih

theorem Lexes.unique {w' : List Token} (h : Lexes parseF64 chars w) (h' : Lexes parseF64 chars w') :
    w = w' := by
  obtain ⟨spans, hspans, hw⟩ := Lexer.tokenize_iff.mpr h
  obtain ⟨spans', hspans', hw'⟩ := Lexer.tokenize_iff.mpr h'
  obtain rfl : spans = spans' := Except.ok.inj (hspans.symm.trans hspans')
  exact List.append_cancel_right (hw.symm.trans hw')

end Desmos.Core

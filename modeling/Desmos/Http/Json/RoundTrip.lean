import Desmos.Http.Json.Scalars

/-! # Reading back what was written

The decoder takes every byte of a string for a character of its own. So a value comes back just when
its strings are ASCII.
-/
namespace Desmos.Http.Json
open Library Desmos.Http.Json.Parser

variable {F : Type} {D : Doubles F} {ofInt : ℤ → F}

/-- A value nested at most so many levels deep, with integers for its numbers. -/
inductive Encodable (ofInt : ℤ → F) : ℕ → Value F → Prop
  | null (n : ℕ) : Encodable ofInt n .null
  | bool (n : ℕ) (b : Bool) : Encodable ofInt n (.bool b)
  | number (n : ℕ) {i : ℤ} : |i| < 2 ^ 53 → Encodable ofInt n (.number (ofInt i))
  | string (n : ℕ) (s : Text) : Encodable ofInt n (.string s)
  | emptyArray (n : ℕ) : Encodable ofInt n (.array [])
  | array {n : ℕ} {items : List (Value F)} :
    (∀ v ∈ items, Encodable ofInt n v) → Encodable ofInt (n + 1) (.array items)
  | emptyObject (n : ℕ) : Encodable ofInt n (.object [])
  | object {n : ℕ} {entries : List (Text × Value F)} : entries.Pairwise (fun d e => d.1 < e.1) →
    (∀ e ∈ entries, Encodable ofInt n e.2) → Encodable ofInt (n + 1) (.object entries)

mutual

def Value.texts : Value F → List Text
  | .string s => [s]
  | .array items => textsOfItems items
  | .object entries => textsOfEntries entries
  | _ => []

def textsOfItems : List (Value F) → List Text
  | [] => []
  | v :: vs => v.texts ++ textsOfItems vs

def textsOfEntries : List (Text × Value F) → List Text
  | [] => []
  | (k, v) :: es => k :: (v.texts ++ textsOfEntries es)

end

mutual

/-- The value that the decoder makes of an encoded one. -/
def readBack : Value F → Value F
  | .null => .null
  | .bool b => .bool b
  | .number n => .number n
  | .string s => .string (bytesAsChars s)
  | .array items => .array (readBackItems items)
  | .object entries =>
    .object ((readBackEntries entries).foldl (fun m e => SortedMap.insertEntry e.1 e.2 m) [])

def readBackItems : List (Value F) → List (Value F)
  | [] => []
  | v :: vs => readBack v :: readBackItems vs

def readBackEntries : List (Text × Value F) → List (Text × Value F)
  | [] => []
  | (k, v) :: es => (bytesAsChars k, readBack v) :: readBackEntries es

end

variable {p : Parser} {rest : Bytes}

theorem parseSeparator_comma (close : UInt8)
    (h : p.unread = ascii ',' :: rest) :
    parseSeparator close (skipWhitespace p) = .ok (true, p.advance 1) := by
  have hspace : skipWhitespace p = p := skipWhitespace_eq_self fun b hb => by
    rw [h] at hb
    cases hb
    decide
  rw [hspace, parseSeparator, peek_cons h]
  exact if_pos rfl

theorem parseSeparator_close {close : UInt8}
    (h : p.unread = close :: rest) (hspace : isSpace close = false) (hne : close ≠ ascii ',') :
    parseSeparator close (skipWhitespace p) = .ok (false, p.advance 1) := by
  have hskip : skipWhitespace p = p := skipWhitespace_eq_self fun b hb => by
    rw [h] at hb
    cases hb
    exact hspace
  rw [hskip, parseSeparator, peek_cons h]
  exact (if_neg hne).trans (if_pos rfl)

theorem Delimited.comma (rest : Bytes) : Delimited (ascii ',' :: rest) := by
  intro b hb
  exact .inl (Option.some.inj hb).symm

theorem Delimited.bracket (rest : Bytes) : Delimited (ascii ']' :: rest) := by
  intro b hb
  exact .inr (.inl (Option.some.inj hb).symm)

theorem Delimited.brace (rest : Bytes) : Delimited (ascii '\x7d' :: rest) := by
  intro b hb
  exact .inr (.inr (Option.some.inj hb).symm)

variable {parse : Parser → Except JsonError (Value F × Parser)} {items : List (Value F)}
  {fuel n levels : ℕ} {entries : List (Text × Value F)} {b : UInt8}

theorem parseItems_ok (hne : items ≠ [])
    (hitems : ∀ v ∈ items, Takes parse (readBack v) (Text.asBytes (encodeValue D v)) Delimited)
    (hfuel : items.length ≤ fuel)
    (h : p.unread = Text.asBytes (encodeItems D items) ++ ascii ']' :: rest) :
    parseItems parse fuel p =
      .ok (readBackItems items, p.advance ((Text.asBytes (encodeItems D items)).length + 1)) := by
  induction items generalizing fuel p with
  | nil => exact absurd rfl hne
  | cons v vs ih =>
    obtain ⟨hv, hvs⟩ := List.forall_mem_cons.mp hitems
    obtain ⟨fuel, rfl⟩ : ∃ n, fuel = n + 1 := ⟨fuel - 1, by simp at hfuel; omega⟩
    cases vs with
    | nil =>
      rw [encodeItems] at h ⊢
      have hvalue := hv p _ h (.bracket rest)
      have hclose := parseSeparator_close (Cursor.unread_advance h) (by decide) (by decide)
      simp only [parseItems, hvalue, hclose, bind, Except.bind, Bool.false_eq_true,
        if_false, readBackItems, Cursor.advance_advance]
    | cons w ws =>
      have hword : Text.asBytes (encodeItems D (v :: w :: ws)) = Text.asBytes (encodeValue D v) ++
          ascii ',' :: Text.asBytes (encodeItems D (w :: ws)) := by
        rw [encodeItems, Text.asBytes_append]
        rfl
      rw [hword, List.append_assoc, List.cons_append] at h
      have hvalue := hv p _ h (.comma _)
      have hp := Cursor.unread_advance h
      have hcomma := parseSeparator_comma (ascii ']') hp
      have hrest := ih (List.cons_ne_nil w ws) hvs (Nat.le_of_succ_le_succ hfuel)
        (unread_advance_one hp)
      simp only [Cursor.advance_advance] at hrest
      simp only [parseItems, hvalue, hcomma, hrest, bind, Except.bind, if_true, readBackItems,
        Cursor.advance_advance, hword, List.length_append, List.length_cons]
      exact congrArg (fun n => Except.ok (_, p.advance n)) (by omega)

theorem length_le_encodeItems (items : List (Value F)) :
    items.length ≤ (Text.asBytes (encodeItems D items)).length + 1 := by
  induction items with
  | nil => exact Nat.zero_le _
  | cons v vs ih =>
    cases vs with
    | nil => exact Nat.le_add_left _ _
    | cons w ws =>
      have hcomma : (Text.asBytes [',']).length = 1 := rfl
      rw [encodeItems, Text.asBytes_append, List.length_append, List.length_cons]
      change _ ≤ _ + (Text.asBytes ([','] ++ encodeItems D (w :: ws))).length + 1
      rw [Text.asBytes_append, List.length_append, hcomma]
      omega

variable {v : Value F}

theorem parseEntries_step {obj : List (Text × Value F)} {k : Text} {word : Bytes}
    (hv : Takes parse (readBack v) word Delimited) (hrest : Delimited rest)
    (h : p.unread = Text.asBytes (encodeString k) ++ ascii ':' :: (word ++ rest)) :
    parseEntries parse (fuel + 1) obj p =
      (do
        let obj := SortedMap.insertEntry (bytesAsChars k) (readBack v) obj
        let (more, q) ← parseSeparator (ascii '\x7d')
          (skipWhitespace (p.advance ((Text.asBytes (encodeString k)).length + 1 + word.length)))
        if more then parseEntries parse fuel obj q else .ok (obj, q)) := by
  have hspace : skipWhitespace p = p := skipWhitespace_eq_self fun b hb => by
    rw [h] at hb
    cases hb
    decide
  have hkey := takes_string k p _ h trivial
  have hcolon := Cursor.unread_advance h
  have hskip : skipWhitespace (p.advance (Text.asBytes (encodeString k)).length) =
      p.advance (Text.asBytes (encodeString k)).length := skipWhitespace_eq_self fun b hb => by
    rw [hcolon] at hb
    cases hb
    decide
  have hvalue := hv _ _ (unread_advance_one hcolon) hrest
  rw [Cursor.advance_advance, Cursor.advance_advance] at hvalue
  have hexpect := expect_ok hcolon
  rw [Cursor.advance_advance] at hexpect
  simp only [parseEntries, hspace, hkey, hskip, hexpect, hvalue, bind, Except.bind]

theorem parseEntries_ok (hne : entries ≠ []) (hentries : ∀ e ∈ entries,
      Takes parse (readBack e.2) (Text.asBytes (encodeValue D e.2)) Delimited)
    (hfuel : entries.length ≤ fuel) (obj : List (Text × Value F))
    (h : p.unread = Text.asBytes (encodeEntries D entries) ++ ascii '\x7d' :: rest) :
    parseEntries parse fuel obj p =
      .ok ((readBackEntries entries).foldl (fun m e => SortedMap.insertEntry e.1 e.2 m) obj,
        p.advance ((Text.asBytes (encodeEntries D entries)).length + 1)) := by
  induction entries generalizing fuel obj p with
  | nil => exact absurd rfl hne
  | cons e es ih =>
    obtain ⟨he, hes⟩ := List.forall_mem_cons.mp hentries
    obtain ⟨k, v⟩ := e
    obtain ⟨fuel, rfl⟩ : ∃ n, fuel = n + 1 := ⟨fuel - 1, by simp at hfuel; omega⟩
    cases es with
    | nil =>
      have hword : Text.asBytes (encodeEntries D [(k, v)]) = Text.asBytes (encodeString k) ++
          ascii ':' :: Text.asBytes (encodeValue D v) := by
        rw [encodeEntries, Text.asBytes_append]
        rfl
      rw [hword, List.append_assoc, List.cons_append] at h
      have hclose := unread_advance_one (Cursor.unread_advance h)
      have hp := Cursor.unread_advance hclose
      simp only [Cursor.advance_advance] at hp
      rw [parseEntries_step he (.brace rest) h, parseSeparator_close hp (by decide) (by decide)]
      simp only [bind, Except.bind, Bool.false_eq_true, if_false, readBackEntries, List.foldl_cons,
        List.foldl_nil, Cursor.advance_advance, hword, List.length_append, List.length_cons]
      exact congrArg (fun n => Except.ok (_, p.advance n)) (by omega)
    | cons d ds =>
      have hword : Text.asBytes (encodeEntries D ((k, v) :: d :: ds)) =
          Text.asBytes (encodeString k) ++ ascii ':' :: (Text.asBytes (encodeValue D v) ++
            ascii ',' :: Text.asBytes (encodeEntries D (d :: ds))) := by
        rw [encodeEntries, Text.asBytes_append, Text.asBytes_cons, Text.asBytes_append]
        rfl
      rw [hword, List.append_assoc, List.cons_append, List.append_assoc, List.cons_append] at h
      have hvalue := unread_advance_one (Cursor.unread_advance h)
      have hp := Cursor.unread_advance hvalue
      have hrest := ih (List.cons_ne_nil d ds) hes (Nat.le_of_succ_le_succ hfuel)
        (SortedMap.insertEntry (bytesAsChars k) (readBack v) obj) (unread_advance_one hp)
      simp only [Cursor.advance_advance] at hp hrest
      rw [parseEntries_step he (.comma _) h, parseSeparator_comma _ hp]
      simp only [bind, Except.bind, if_true, hrest, readBackEntries, List.foldl_cons,
        Cursor.advance_advance, hword, List.length_append, List.length_cons]
      exact congrArg (fun n => Except.ok (_, p.advance n)) (by omega)

theorem length_le_encodeEntries (entries : List (Text × Value F)) :
    entries.length ≤ (Text.asBytes (encodeEntries D entries)).length + 1 := by
  induction entries with
  | nil => exact Nat.zero_le _
  | cons e es ih =>
    obtain ⟨k, v⟩ := e
    cases es with
    | nil => exact Nat.le_add_left _ _
    | cons d ds =>
      have hcolon : (String.utf8EncodeChar ':').length = 1 := rfl
      have hcomma : (String.utf8EncodeChar ',').length = 1 := rfl
      rw [encodeEntries, List.length_cons]
      simp only [Text.asBytes_append, Text.asBytes_cons, List.length_append, hcolon, hcomma]
      omega

theorem skipWhitespace_cons (h : p.unread = b :: rest)
    (hb : isSpace b = false) : skipWhitespace p = p :=
  skipWhitespace_eq_self fun c hc => by
    rw [h] at hc
    cases hc
    exact hb

theorem exists_head_number (i : ℤ) : ∃ b bs, Text.asBytes (displayInt i) = b :: bs ∧
    (b = ascii '-' ∨ Text.isAsciiDigit b = true) := by
  obtain ⟨b, ds, hbytes, hdigits, -⟩ := exists_digit_bytes i.natAbs
  unfold displayInt
  by_cases hneg : i < 0
  · rw [if_pos hneg]
    exact ⟨_, _, rfl, .inl rfl⟩
  · rw [if_neg hneg, List.nil_append]
    exact ⟨b, ds, hbytes, .inr (hdigits b List.mem_cons_self)⟩

theorem ne_of_number_head {d : UInt8} (hb : b = ascii '-' ∨ Text.isAsciiDigit b = true)
    (hminus : d ≠ ascii '-') (hdigit : Text.isAsciiDigit d = false) : b ≠ d := by
  rintro rfl
  rcases hb with hb | hb
  · exact hminus hb
  · rw [hdigit] at hb
    cases hb

theorem Encodable.exists_head (hD : D.Exact ofInt)
    (h : Encodable ofInt n v) : ∃ b bs, Text.asBytes (encodeValue D v) = b :: bs ∧
      isSpace b = false ∧ b ≠ ascii ']' := by
  cases h with
  | null => exact ⟨_, _, rfl, by decide, by decide⟩
  | bool _ b => cases b <;> exact ⟨_, _, rfl, by decide, by decide⟩
  | number _ hi =>
    obtain ⟨b, bs, hbytes, hb⟩ := exists_head_number ‹ℤ›
    refine ⟨b, bs, by rw [encodeValue, hD.asInteger _ hi, hbytes], ?_,
      ne_of_number_head hb (by decide) (by decide)⟩
    apply Bool.eq_false_of_not_eq_true
    intro hspace
    simp only [isSpace, Bool.or_eq_true, beq_iff_eq] at hspace
    rcases hspace with ((h | h) | h) | h
    all_goals exact ne_of_number_head hb (by decide) (by decide) h
  | string _ s => exact ⟨_, _, rfl, by decide, by decide⟩
  | emptyArray => exact ⟨_, _, rfl, by decide, by decide⟩
  | array _ => exact ⟨_, _, rfl, by decide, by decide⟩
  | emptyObject => exact ⟨_, _, rfl, by decide, by decide⟩
  | object _ _ => exact ⟨_, _, rfl, by decide, by decide⟩

theorem parseValue_number
    (h : p.unread = b :: rest) (hb : b = ascii '-' ∨ Text.isAsciiDigit b = true)
    (hspace : isSpace b = false) : parseValue D (levels + 1) p = parseNumber D p := by
  rw [parseValue, skipWhitespace_cons h hspace, peek_cons h]
  dsimp only
  rw [if_neg (ne_of_number_head hb (by decide) (by decide)),
    if_neg (ne_of_number_head hb (by decide) (by decide)),
    if_neg (ne_of_number_head hb (by decide) (by decide)),
    if_neg (ne_of_number_head hb (by decide) (by decide)),
    if_neg (ne_of_number_head hb (by decide) (by decide)),
    if_neg (ne_of_number_head hb (by decide) (by decide)), if_pos hb]

theorem takes_array (hD : D.Exact ofInt) (hencodable : ∀ v ∈ items, Encodable ofInt n v)
    (hitems : ∀ v ∈ items, Takes parse (readBack v) (Text.asBytes (encodeValue D v)) Delimited) :
    Takes (parseArray parse) (readBack (.array items))
      (Text.asBytes (encodeValue D (.array items))) Delimited := by
  intro p rest h _
  have hword : Text.asBytes (encodeValue D (.array items)) =
      ascii '[' :: (Text.asBytes (encodeItems D items) ++ [ascii ']']) := by
    rw [encodeValue, Text.asBytes_cons, Text.asBytes_append]
    rfl
  rw [hword, List.cons_append, List.append_assoc, List.singleton_append] at h
  have hp := unread_advance_one h
  rw [hword, List.length_cons, List.length_append, List.length_singleton, Nat.add_comm _ 1]
  cases items with
  | nil =>
    have hclose : (p.advance 1).unread = ascii ']' :: rest := hp
    simp only [parseArray, expect_ok h, bind, Except.bind,
      skipWhitespace_cons hclose (by decide : isSpace (ascii ']') = false), peek_cons hclose, if_true,
      Cursor.advance_advance]
    rfl
  | cons v vs =>
    obtain ⟨b, bs, hbytes, hspace, hb⟩ := (hencodable v List.mem_cons_self).exists_head hD
    obtain ⟨bs', hhead⟩ : ∃ bs', Text.asBytes (encodeItems D (v :: vs)) = b :: bs' := by
      cases vs with
      | nil => exact ⟨bs, by rw [encodeItems, hbytes]⟩
      | cons w ws => exact ⟨_, by rw [encodeItems, Text.asBytes_append, hbytes]; rfl⟩
    have hfirst : (p.advance 1).unread = b :: (bs' ++ ascii ']' :: rest) := by
      rw [hp, hhead]
      rfl
    have hpeek : peek (p.advance 1) ≠ some (ascii ']') := by
      rw [peek_cons hfirst]
      exact fun heq => hb (Option.some.inj heq)
    have hfuel : (v :: vs).length ≤ (p.advance 1).unread.length + 1 := by
      have hle := length_le_encodeItems (D := D) (v :: vs)
      rw [hp, List.length_append]
      omega
    have hrest := parseItems_ok (List.cons_ne_nil v vs) hitems hfuel hp
    rw [Cursor.advance_advance] at hrest
    simp only [parseArray, expect_ok h, bind, Except.bind, skipWhitespace_cons hfirst hspace,
      if_neg hpeek, hrest, readBack]

theorem takes_object (hentries : ∀ e ∈ entries,
      Takes parse (readBack e.2) (Text.asBytes (encodeValue D e.2)) Delimited) :
    Takes (parseObject parse) (readBack (.object entries))
      (Text.asBytes (encodeValue D (.object entries))) Delimited := by
  intro p rest h _
  have hword : Text.asBytes (encodeValue D (.object entries)) =
      ascii '\x7b' :: (Text.asBytes (encodeEntries D entries) ++ [ascii '\x7d']) := by
    rw [encodeValue, Text.asBytes_cons, Text.asBytes_append]
    rfl
  rw [hword, List.cons_append, List.append_assoc, List.singleton_append] at h
  have hp := unread_advance_one h
  rw [hword, List.length_cons, List.length_append, List.length_singleton, Nat.add_comm _ 1]
  cases entries with
  | nil =>
    have hclose : (p.advance 1).unread = ascii '\x7d' :: rest := hp
    simp only [parseObject, expect_ok h, bind, Except.bind,
      skipWhitespace_cons hclose (by decide : isSpace (ascii '\x7d') = false), peek_cons hclose,
      if_true, Cursor.advance_advance]
    rfl
  | cons e es =>
    obtain ⟨k, v⟩ := e
    obtain ⟨bs, hhead⟩ : ∃ bs, Text.asBytes (encodeEntries D ((k, v) :: es)) =
        ascii '\x22' :: bs := by
      cases es with
      | nil => exact ⟨_, by rw [encodeEntries, Text.asBytes_append]; rfl⟩
      | cons d ds => exact ⟨_, by rw [encodeEntries, Text.asBytes_append]; rfl⟩
    have hfirst : (p.advance 1).unread = ascii '\x22' :: (bs ++ ascii '\x7d' :: rest) := by
      rw [hp, hhead]
      rfl
    have hpeek : peek (p.advance 1) ≠ some (ascii '\x7d') := by
      rw [peek_cons hfirst]
      decide
    have hfuel : ((k, v) :: es).length ≤ (p.advance 1).unread.length + 1 := by
      have hle := length_le_encodeEntries (D := D) ((k, v) :: es)
      rw [hp, List.length_append]
      omega
    have hrest := parseEntries_ok (List.cons_ne_nil (k, v) es) hentries hfuel [] hp
    rw [Cursor.advance_advance] at hrest
    simp only [parseObject, expect_ok h, bind, Except.bind,
      skipWhitespace_cons hfirst (by decide : isSpace (ascii '\x22') = false), if_neg hpeek, hrest,
      readBack]

theorem takes_value (hD : D.Exact ofInt) (hv : Encodable ofInt n v) (hlevels : n < levels) :
    Takes (parseValue D levels) (readBack v) (Text.asBytes (encodeValue D v)) Delimited := by
  obtain ⟨levels, rfl⟩ : ∃ m, levels = m + 1 := ⟨levels - 1, by omega⟩
  induction hv generalizing levels with
  | null n =>
    intro p rest h _
    rw [parseValue, skipWhitespace_cons h (by decide), peek_cons h]
    exact parseLiteral_ok h
  | bool n b =>
    intro p rest h _
    cases b with
    | false =>
      rw [parseValue, skipWhitespace_cons h (by decide), peek_cons h]
      exact parseLiteral_ok h
    | true =>
      rw [parseValue, skipWhitespace_cons h (by decide), peek_cons h]
      exact parseLiteral_ok h
  | number n hi =>
    intro p rest h hrest
    obtain ⟨b, bs, hbytes, hspace, -⟩ := (Encodable.number n hi).exists_head hD
    rw [encodeValue, hD.asInteger _ hi] at h hbytes ⊢
    obtain ⟨b', bs', hbytes', hb⟩ := exists_head_number ‹ℤ›
    obtain ⟨rfl, rfl⟩ := List.cons.inj (hbytes.symm.trans hbytes')
    have hp := h
    rw [hbytes, List.cons_append] at hp
    rw [parseValue_number hp hb hspace]
    exact takes_number hD hi p rest h hrest
  | string n s =>
    intro p rest h _
    have hstring := takes_string s p rest h trivial
    rw [parseValue, skipWhitespace_cons h (by decide), peek_cons h]
    rw [hstring]
    rfl
  | emptyArray n =>
    intro p rest h hrest
    rw [parseValue, skipWhitespace_cons h (by decide), peek_cons h]
    exact takes_array hD (n := n) (by simp) (by simp) p rest h hrest
  | array hitems ih =>
    intro p rest h hrest
    obtain ⟨levels, rfl⟩ : ∃ m, levels = m + 1 := ⟨levels - 1, by omega⟩
    rw [parseValue, skipWhitespace_cons h (by decide), peek_cons h]
    have hinner := fun v hv => ih v hv levels (Nat.lt_of_succ_lt_succ hlevels)
    exact takes_array hD hitems hinner p rest h hrest
  | emptyObject n =>
    intro p rest h hrest
    rw [parseValue, skipWhitespace_cons h (by decide), peek_cons h]
    exact takes_object (by simp) p rest h hrest
  | object _ hentries ih =>
    intro p rest h hrest
    obtain ⟨levels, rfl⟩ : ∃ m, levels = m + 1 := ⟨levels - 1, by omega⟩
    rw [parseValue, skipWhitespace_cons h (by decide), peek_cons h]
    have hinner := fun e he => ih e he levels (Nat.lt_of_succ_lt_succ hlevels)
    exact takes_object hinner p rest h hrest

theorem decode_encode (hD : D.Exact ofInt) (hv : Encodable ofInt maxDepth v) :
    decode D (encode D v) = .ok (readBack v) := by
  have hstart : (Cursor.start (Text.asBytes (encode D v))).unread =
      Text.asBytes (encodeValue D v) ++ [] := by
    rw [Cursor.unread_start, List.append_nil, encode]
  have hvalue := takes_value hD hv (Nat.lt_succ_self _) _ [] hstart .nil
  have hend := Cursor.unread_advance hstart
  have hskip := skipWhitespace_eq_self
    (p := (Cursor.start (Text.asBytes (encode D v))).advance (Text.asBytes (encodeValue D v)).length)
    (fun b hb => by rw [hend] at hb; cases hb)
  simp only [decode, hvalue, bind, Except.bind, hskip, hend, List.isEmpty_nil, if_true]

theorem readBackItems_eq_map (items : List (Value F)) : readBackItems items = items.map readBack := by
  induction items with
  | nil => rfl
  | cons v vs ih => rw [readBackItems, ih, List.map_cons]

theorem readBackEntries_eq_map (entries : List (Text × Value F)) : readBackEntries entries =
    entries.map fun e => (bytesAsChars e.1, readBack e.2) := by
  induction entries with
  | nil => rfl
  | cons e es ih => rw [readBackEntries, ih, List.map_cons]

theorem textsOfItems_eq_flatMap (items : List (Value F)) :
    textsOfItems items = items.flatMap Value.texts := by
  induction items with
  | nil => rfl
  | cons v vs ih => rw [textsOfItems, ih, List.flatMap_cons]

theorem textsOfEntries_eq_flatMap (entries : List (Text × Value F)) : textsOfEntries entries =
    entries.flatMap fun e => e.1 :: e.2.texts := by
  induction entries with
  | nil => rfl
  | cons e es ih =>
    rw [textsOfEntries, ih, List.flatMap_cons]
    rfl

/-- ASCII strings and keys come back, and with them the value. -/
theorem readBack_of_ascii (hv : Encodable ofInt n v)
    (h : ∀ s ∈ v.texts, ∀ c ∈ s, c.toNat < 128) : readBack v = v := by
  induction hv with
  | null => rfl
  | bool => rfl
  | number => rfl
  | string _ s =>
    rw [readBack, bytesAsChars_of_ascii]
    exact h s (List.mem_singleton_self s)
  | emptyArray => rfl
  | array _ ih =>
    rename_i items _
    rw [Value.texts, textsOfItems_eq_flatMap] at h
    have hitems : items.map readBack = items := by
      conv_rhs => rw [← List.map_id items]
      exact List.map_congr_left fun v hv =>
        ih v hv fun s hs => h s (List.mem_flatMap.mpr ⟨v, hv, hs⟩)
    rw [readBack, readBackItems_eq_map, hitems]
  | emptyObject => rfl
  | object hsorted _ ih =>
    rename_i entries _
    rw [Value.texts, textsOfEntries_eq_flatMap] at h
    have hentries : (entries.map fun e => (bytesAsChars e.1, readBack e.2)) = entries := by
      conv_rhs => rw [← List.map_id entries]
      refine List.map_congr_left fun e he => ?_
      have hkey := h e.1 (List.mem_flatMap.mpr ⟨e, he, List.mem_cons_self⟩)
      have hvalue := ih e he fun s hs =>
        h s (List.mem_flatMap.mpr ⟨e, he, List.mem_cons_of_mem _ hs⟩)
      rw [bytesAsChars_of_ascii hkey, hvalue]
      rfl
    rw [readBack, readBackEntries_eq_map, hentries]
    exact congrArg _ (SortedMap.foldl_insertEntry_of_sorted [] hsorted)

theorem bytesAsChars_injective : Function.Injective bytesAsChars := by
  intro s t h
  apply Text.asBytes_injective
  exact List.map_injective_iff.mpr Text.ofUInt8_injective h

theorem sum_flatMap_congr {α : Type*} {l : List α} {f g : α → List ℕ}
    (h : ∀ a ∈ l, (f a).sum = (g a).sum) : (l.flatMap f).sum = (l.flatMap g).sum := by
  induction l with
  | nil => rfl
  | cons a l ih =>
    obtain ⟨ha, hl⟩ := List.forall_mem_cons.mp h
    rw [List.flatMap_cons, List.flatMap_cons, List.sum_append, List.sum_append, ha, ih hl]

theorem sum_length_readBack (hv : Encodable ofInt n v) :
    ((readBack v).texts.map List.length).sum = (v.texts.map Text.utf8Len).sum := by
  induction hv with
  | null => rfl
  | bool => rfl
  | number => rfl
  | string _ s => simp [readBack, Value.texts, bytesAsChars, Text.ofAscii, Text.utf8Len]
  | emptyArray => rfl
  | array _ ih =>
    simp only [readBack, Value.texts, textsOfItems_eq_flatMap, readBackItems_eq_map,
      List.flatMap_map, List.map_flatMap]
    exact sum_flatMap_congr ih
  | emptyObject => rfl
  | object hsorted _ ih =>
    rename_i entries _
    have hnodup : (([] ++ readBackEntries entries).map Prod.fst).Nodup := by
      have hkeys : (entries.map Prod.fst).Nodup := by
        rw [List.Nodup, List.pairwise_map]
        exact hsorted.imp fun hlt => hlt.ne
      rw [List.nil_append, readBackEntries_eq_map, List.map_map]
      change (entries.map (bytesAsChars ∘ Prod.fst)).Nodup
      rw [← List.map_map]
      exact hkeys.map bytesAsChars_injective
    have hperm := SortedMap.foldl_insertEntry_perm hnodup
    simp only [readBack, Value.texts, textsOfEntries_eq_flatMap]
    rw [((hperm.flatMap_right _).map _).sum_eq, List.nil_append, readBackEntries_eq_map]
    simp only [List.flatMap_map, List.map_flatMap]
    refine sum_flatMap_congr fun e he => ?_
    rw [List.map_cons, List.map_cons, List.sum_cons, List.sum_cons, ih e he]
    simp [bytesAsChars, Text.ofAscii, Text.utf8Len]

theorem ascii_of_sum_eq {texts : List Text}
    (h : (texts.map List.length).sum = (texts.map Text.utf8Len).sum) :
    ∀ s ∈ texts, ∀ c ∈ s, c.toNat < 128 := by
  have hle : ∀ l : List Text, (l.map List.length).sum ≤ (l.map Text.utf8Len).sum := fun l =>
    List.sum_le_sum fun s _ => Text.utf8Len_eq_length_iff.1
  induction texts with
  | nil => simp
  | cons s texts ih =>
    obtain ⟨hs, hascii⟩ := Text.utf8Len_eq_length_iff (s := s)
    have hrest := hle texts
    simp only [List.map_cons, List.sum_cons] at h
    exact List.forall_mem_cons.mpr ⟨hascii.mp (by omega), ih (by omega)⟩

/-- A value comes back from its encoding exactly if all its strings and keys are ASCII. -/
theorem decode_encode_eq_iff (D : Doubles F) (ofInt : ℤ → F) (hD : D.Exact ofInt) (v : Value F)
    (hv : Encodable ofInt 32 v) : decode D (encode D v) = .ok v ↔
      ∀ s ∈ v.texts, ∀ c ∈ s, c.toNat < 128 := by
  rw [decode_encode hD hv, Except.ok.injEq]
  constructor
  · intro h
    have hsum := sum_length_readBack hv
    rw [h] at hsum
    exact ascii_of_sum_eq hsum
  · exact readBack_of_ascii hv

def parseInt : Text → Option ℤ
  | '-' :: digits => some (-Nat.ofDigitChars 10 digits 0)
  | digits => some (Nat.ofDigitChars 10 digits 0)

/-- The integers, as far as they are used of the doubles. -/
def integers : Doubles ℤ where
  asInteger i := if |i| < 2 ^ 53 then some i else none
  display := displayInt
  parse := parseInt
  isFinite _ := true

theorem parseInt_displayInt (i : ℤ) : parseInt (displayInt i) = some i := by
  have hdigits : Nat.ofDigitChars 10 (Nat.toDigits 10 i.natAbs) 0 = i.natAbs :=
    Nat.ofDigitChars_toDigits (by decide) (by decide)
  unfold displayInt
  by_cases hneg : i < 0
  · rw [if_pos hneg]
    change some (-((Nat.ofDigitChars 10 (Nat.toDigits 10 i.natAbs) 0 : ℕ) : ℤ)) = some i
    exact congrArg some (by omega)
  · rw [if_neg hneg, List.nil_append]
    have hminus : (Nat.toDigits 10 i.natAbs).head? ≠ some '-' := by
      intro hhead
      have hdigit := Nat.isDigit_of_mem_toDigits (b := 10) (by decide) (by decide)
        (List.mem_of_head? hhead)
      exact absurd hdigit (by decide)
    rw [parseInt.eq_def]
    split
    · next digits heq => exact absurd (by rw [heq]; rfl) hminus
    · exact congrArg some (by omega)

theorem integers_exact : integers.Exact id where
  asInteger _ hi := if_pos hi
  parse i _ := parseInt_displayInt i
  finite _ _ := rfl

def asciiValue : Value ℤ := .object [(['a'], .array [.number (-7), .string ['\n', 'x']])]

theorem asciiValue_encodable : Encodable id 32 asciiValue := by
  refine .object (by simp) fun e he => ?_
  rw [List.mem_singleton.mp he]
  refine .array fun v hv => ?_
  rcases List.mem_pair.mp hv with rfl | rfl
  · exact .number (i := -7) 30 (by decide)
  · exact .string 30 _

theorem asciiValue_comes_back : decode integers (encode integers asciiValue) = .ok asciiValue := by
  have hascii : asciiValue.texts.all (fun s => s.all fun c => decide (c.toNat < 128)) = true := by
    decide
  refine (decode_encode_eq_iff integers id integers_exact asciiValue asciiValue_encodable).mpr ?_
  simpa using hascii

/-- One letter beyond ASCII comes back as two. -/
theorem accent_comes_back_as_two : Encodable id 32 (.string ['\u00e9'] : Value ℤ) ∧
    decode integers (encode integers (.string ['\u00e9'])) = .ok (.string ['\u00c3', '\u00a9']) ∧
    decode integers (encode integers (.string ['\u00e9'])) ≠ .ok (.string ['\u00e9']) := by
  have hread : decode integers (encode integers (.string ['\u00e9'])) =
      .ok (.string ['\u00c3', '\u00a9']) := decode_encode integers_exact (.string _ _)
  refine ⟨.string _ _, hread, ?_⟩
  intro h
  have hs := Value.string.inj (Except.ok.inj h)
  exact absurd hs (by decide)

end Desmos.Http.Json

import Desmos.Http.Server
import Mathlib.Data.Bool.AllAny

/-! # Lines and the empty line behind them

The server looks for the end of the head among the bytes, the parser among the characters. On
lines that are not empty both find it where the head ends, and not before.
-/
namespace Desmos.Http
open Library

def joinLines : List Text → Text
  | [] => []
  | [line] => line
  | line :: next :: lines => line ++ (crlf ++ joinLines (next :: lines))

/-- A line that is not empty and has no return in it. -/
def IsLine (line : Text) : Prop := line ≠ [] ∧ '\r' ∉ line

section Lines
variable {lines : List Text}

theorem flatMap_crlf (h : lines ≠ []) :
    lines.flatMap (· ++ crlf) = joinLines lines ++ crlf := by
  induction lines with
  | nil => exact absurd rfl h
  | cons line lines ih =>
    cases lines with
    | nil => simp [joinLines]
    | cons next lines =>
      rw [List.flatMap_cons, ih (List.cons_ne_nil _ _), joinLines]
      simp

theorem joinLines_cons (line : Text) (lines : List Text) :
    ∃ rest, joinLines (line :: lines) = line ++ rest := by
  cases lines with
  | nil => exact ⟨[], (List.append_nil line).symm⟩
  | cons next lines => exact ⟨_, rfl⟩

theorem passes_line {sep line : Text} (hline : '\r' ∉ line) :
    ∀ c ∈ line, ('\r' :: sep).head? ≠ some c := by
  rintro c hc h
  cases h
  exact hline hc

theorem splitOnceStr_crlf {line : Text} (hline : '\r' ∉ line) (back : Text) :
    Text.splitOnceStr crlf (line ++ (crlf ++ back)) = some (line, back) :=
  Text.splitOnceStr_of_not_mem (passes_line hline) (List.cons_ne_nil _ _) back

/-- The empty line is found behind the lines. -/
theorem splitOnceStr_emptyLine (hne : lines ≠ []) (h : ∀ line ∈ lines, IsLine line) (back : Text) :
    Text.splitOnceStr (crlf ++ crlf) (joinLines lines ++ (crlf ++ crlf ++ back)) =
      some (joinLines lines, back) := by
  induction lines with
  | nil => exact absurd rfl hne
  | cons line lines ih =>
    have hsep : crlf ++ crlf ≠ [] := List.cons_ne_nil _ _
    have hpass : ∀ c ∈ line, (crlf ++ crlf).head? ≠ some c :=
      passes_line (h line List.mem_cons_self).2
    cases lines with
    | nil => exact Text.splitOnceStr_of_not_mem hpass hsep back
    | cons next lines =>
      have hrest := ih (List.cons_ne_nil _ _) fun l hl => h l (List.mem_cons_of_mem _ hl)
      -- the return behind the line is not the empty line, since another line starts there
      obtain ⟨hnext, hreturn⟩ := h next (List.mem_cons_of_mem _ List.mem_cons_self)
      obtain ⟨c, next', rfl⟩ := List.exists_cons_of_ne_nil hnext
      obtain ⟨more, hmore⟩ := joinLines_cons (c :: next') lines
      have hc : c ≠ '\r' := fun hc => hreturn (hc ▸ List.mem_cons_self)
      have hend : ∀ s, ¬ (crlf ++ crlf).isPrefixOf ('\r' :: '\n' :: c :: s) = true := by
        intro s
        simp [crlf, List.isPrefixOf, Ne.symm hc]
      rw [joinLines, List.append_assoc, List.append_assoc, Text.splitOnceStr_skip hpass hsep]
      rw [hmore] at hrest ⊢
      change (Text.splitOnceStr (crlf ++ crlf) ('\r' :: '\n' :: c :: _)).map _ = _
      rw [Text.splitOnceStr, if_neg (hend _), Text.splitOnceStr_cons (by decide) hsep]
      change (((Text.splitOnceStr (crlf ++ crlf) (c :: next' ++ more ++ (crlf ++ crlf ++ back))).map
        _).map _).map _ = _
      rw [hrest]
      rfl

theorem splitWithin_joinLines {fuel : ℕ} (hfuel : lines.length ≤ fuel + 1) (hne : lines ≠ [])
    (h : ∀ line ∈ lines, IsLine line) : Text.splitWithin crlf fuel (joinLines lines) = lines := by
  have hlast : ∀ line : Text, IsLine line → Text.splitOnceStr crlf line = none := by
    intro line hline
    have hskip := Text.splitOnceStr_skip (passes_line hline.2) (List.cons_ne_nil '\r' ['\n']) []
    rw [List.append_nil] at hskip
    exact hskip
  induction lines generalizing fuel with
  | nil => exact absurd rfl hne
  | cons line lines ih =>
    have hline := h line List.mem_cons_self
    cases lines with
    | nil =>
      cases fuel with
      | zero => rfl
      | succ fuel => simp only [Text.splitWithin, joinLines, hlast line hline]
    | cons next lines =>
      cases fuel with
      | zero => simp at hfuel
      | succ fuel =>
        rw [joinLines, Text.splitWithin, splitOnceStr_crlf hline.2]
        dsimp only
        rw [ih (by simpa using hfuel) (List.cons_ne_nil _ _)
          fun l hl => h l (List.mem_cons_of_mem _ hl)]

theorem length_le_joinLines (h : ∀ line ∈ lines, IsLine line) :
    lines.length ≤ (joinLines lines).length := by
  induction lines with
  | nil => simp
  | cons line lines ih =>
    have hpos := List.length_pos_iff.mpr (h line List.mem_cons_self).1
    have hrest := ih fun l hl => h l (List.mem_cons_of_mem _ hl)
    cases lines with
    | nil => exact hpos
    | cons next lines =>
      simp only [joinLines, List.length_append, List.length_cons] at hrest ⊢
      omega

theorem splitStr_joinLines (hne : lines ≠ []) (h : ∀ line ∈ lines, IsLine line) :
    Text.splitStr crlf (joinLines lines) = lines :=
  splitWithin_joinLines ((length_le_joinLines h).trans (Nat.le_succ _)) hne h

end Lines

section HeadEnd

theorem mem_of_mem_asBytes {s : Text} {c : Char} (hc : c.toNat < 128)
    (h : UInt8.ofNat c.toNat ∈ Text.asBytes s) : c ∈ s := by
  have hbyte : ∀ n, n < 256 → (UInt8.ofNat n).toNat = n := fun n hn => by
    rw [UInt8.toNat_ofNat', Nat.mod_eq_of_lt hn]
  obtain ⟨d, hd, hmem⟩ := List.mem_flatMap.mp h
  rcases Nat.lt_or_ge d.toNat 128 with hlt | hge
  · rw [Text.utf8EncodeChar_ascii hlt, List.mem_singleton] at hmem
    have hnat := congrArg UInt8.toNat hmem
    rw [hbyte _ (by omega), hbyte _ (by omega)] at hnat
    rwa [Char.toNat_inj.mp hnat]
  · have hhigh := Text.high_of_mem_utf8EncodeChar hge hmem
    rw [hbyte _ (by omega)] at hhigh
    omega

/-- Bytes are searched as the characters of the same numbers. -/
theorem hasHeadEnd_eq (bytes : Bytes) :
    hasHeadEnd bytes = Text.contains (crlf ++ crlf) (Text.ofAscii bytes) := by
  have hend : crlf ++ crlf = [0x0d, 0x0a, 0x0d, 0x0a].map Char.ofUInt8 := by decide
  induction bytes with
  | nil => rfl
  | cons b bytes ih =>
    have hhere : [0x0d, 0x0a, 0x0d, 0x0a].isPrefixOf (b :: bytes) =
        (crlf ++ crlf).isPrefixOf (Text.ofAscii (b :: bytes)) := by
      rw [Bool.eq_iff_iff, List.isPrefixOf_iff_prefix, List.isPrefixOf_iff_prefix, hend, Text.ofAscii,
        List.prefix_map_iff_of_injective Text.ofUInt8_injective]
    rw [hasHeadEnd, List.tails_cons, List.any_cons, hhere]
    rw [hasHeadEnd] at ih
    rw [ih, Text.contains, Text.contains, Text.ofAscii, List.map_cons, Text.splitOnceStr]
    split
    · next hstarts => simp [hstarts]
    · next hstarts => simp [hstarts, Text.ofAscii]

variable {lines : List Text}

theorem ofAscii_joinLines (lines : List Text) :
    Text.ofAscii (Text.asBytes (joinLines lines)) =
      joinLines (lines.map fun line => Text.ofAscii (Text.asBytes line)) := by
  have happend : ∀ s t : Text, Text.ofAscii (Text.asBytes (s ++ t)) =
      Text.ofAscii (Text.asBytes s) ++ Text.ofAscii (Text.asBytes t) := by
    intro s t
    simp [Text.ofAscii]
  induction lines with
  | nil => rfl
  | cons line lines ih =>
    cases lines with
    | nil => rfl
    | cons next lines =>
      have hcrlf : Text.ofAscii (Text.asBytes crlf) = crlf :=
        Text.ofAscii_asBytes (List.all_iff_forall_prop.mp (by decide))
      rw [joinLines, happend, happend, ih, hcrlf]
      rfl

theorem IsLine.ofAscii {line : Text} (h : IsLine line) : IsLine (Text.ofAscii (Text.asBytes line)) := by
  constructor
  · intro hnil
    have hbytes : Text.asBytes line = Text.asBytes [] := by simpa [Text.ofAscii] using hnil
    exact h.1 (Text.asBytes_injective hbytes)
  · intro hmem
    obtain ⟨b, hb, hchar⟩ := List.mem_map.mp hmem
    have hreturn : b = UInt8.ofNat '\r'.toNat := Text.ofUInt8_injective (hchar.trans (by decide))
    exact h.2 (mem_of_mem_asBytes (by decide) (hreturn ▸ hb))

/-- The end of the head is in the bytes as soon as the whole head is, and not before. -/
theorem hasHeadEnd_iff {bytes front : Bytes} (hne : lines ≠ []) (h : ∀ line ∈ lines, IsLine line)
    (hfront : front <+: Text.asBytes (joinLines lines ++ (crlf ++ crlf)) ++ bytes) :
    hasHeadEnd front = true ↔
      (Text.asBytes (joinLines lines ++ (crlf ++ crlf))).length ≤ front.length := by
  set head := Text.asBytes (joinLines lines ++ (crlf ++ crlf)) with hhead
  have hsep : crlf ++ crlf ≠ [] := List.cons_ne_nil _ _
  have hfound : ∀ back, Text.splitOnceStr (crlf ++ crlf) (Text.ofAscii head ++ back) =
      some (joinLines (lines.map fun line => Text.ofAscii (Text.asBytes line)), back) := by
    intro back
    have hascii : Text.ofAscii (Text.asBytes (crlf ++ crlf)) = crlf ++ crlf :=
      Text.ofAscii_asBytes (List.all_iff_forall_prop.mp (by decide))
    have hsplit : Text.ofAscii head = joinLines (lines.map fun line =>
        Text.ofAscii (Text.asBytes line)) ++ (crlf ++ crlf) := by
      rw [hhead, Text.asBytes_append, ← ofAscii_joinLines]
      rw [Text.ofAscii, List.map_append]
      exact congrArg _ hascii
    rw [hsplit, List.append_assoc]
    refine splitOnceStr_emptyLine (by simpa using hne) ?_ back
    intro line hline
    obtain ⟨line', hline', rfl⟩ := List.mem_map.mp hline
    exact (h line' hline').ofAscii
  rw [hasHeadEnd_eq, Text.contains]
  constructor
  · intro hsome
    by_contra hshort
    obtain ⟨⟨before, after⟩, hcut⟩ := Option.isSome_iff_exists.mp hsome
    obtain ⟨rest, hrest⟩ : front <+: head :=
      List.prefix_of_prefix_length_le hfront (List.prefix_append head bytes) (by omega)
    -- an end found in a part of the head is the one at its end
    have hall := Text.splitOnceStr_append hcut hsep (Text.ofAscii rest)
    have hwhole : Text.ofAscii front ++ Text.ofAscii rest = Text.ofAscii head ++ [] := by
      rw [← hrest, List.append_nil, Text.ofAscii, Text.ofAscii, Text.ofAscii, List.map_append]
    rw [hwhole, hfound, Option.some.injEq, Prod.mk.injEq] at hall
    have hnil : rest = [] := by
      have := (List.append_eq_nil_iff.mp hall.2.symm).2
      simpa [Text.ofAscii] using this
    rw [← hrest, hnil, List.append_nil] at hshort
    omega
  · intro hlong
    obtain ⟨rest, rfl⟩ : head <+: front :=
      List.prefix_of_prefix_length_le (List.prefix_append head bytes) hfront hlong
    have hmap : Text.ofAscii (head ++ rest) = Text.ofAscii head ++ Text.ofAscii rest := by
      simp [Text.ofAscii]
    rw [hmap, hfound]
    rfl

end HeadEnd

end Desmos.Http

import Desmos.Http.Request

/-! # Chunked bodies

The decoder reads a sign in front of a size, skips any two bytes behind the data of a chunk, and
does not look behind the line of the last one. Apart from that it accepts exactly the documented
encodings.
-/
namespace Desmos.Http
open Library

def isBlank (c : Char) : Bool := c = ' ' || c = '\t'

/-- A size in hexadecimal digits, with blanks around it or without. -/
def SizeLine (n : ℕ) (line : Text) : Prop :=
  ∃ before digits after, line = before ++ digits ++ after ∧ (∀ c ∈ before, isBlank c = true) ∧
    (∀ c ∈ after, isBlank c = true) ∧ digits ≠ [] ∧ Text.readDigits 16 0 digits = some n

/-- Chunks that are not empty, each behind a line with its size in bytes, and a last size of zero. -/
inductive ChunkEncoding : (chunks : List Text) → (data : Text) → Prop
  | last {line : Text} (hline : SizeLine 0 line) : ChunkEncoding [] (line ++ (crlf ++ crlf))
  | chunk {line payload data : Text} {chunks : List Text}
      (hline : SizeLine (Text.utf8Len payload) line) (hne : payload ≠ [])
      (htail : ChunkEncoding chunks data) :
      ChunkEncoding (payload :: chunks) (line ++ (crlf ++ (payload ++ (crlf ++ data))))

/-- The text starts with an encoding of the body. -/
def StartsWithEncoding (data : Text) (body : Bytes) : Prop :=
  ∃ chunks enc trailing, ChunkEncoding chunks enc ∧ data = enc ++ trailing ∧
    body = Text.asBytes chunks.flatten

section Lines
variable {n : ℕ} {line : Text}

theorem SizeLine.mem (h : SizeLine n line) {c : Char} (hc : c ∈ line) :
    isBlank c = true ∨ ∃ d, Text.digitValue c = some d := by
  obtain ⟨before, digits, after, rfl, hbefore, hafter, _, hdigits⟩ := h
  rcases List.mem_append.mp hc with hc | hc
  · rcases List.mem_append.mp hc with hc | hc
    · exact Or.inl (hbefore c hc)
    · exact Or.inr (Text.digitValue_of_mem hdigits hc)
  · exact Or.inl (hafter c hc)

theorem SizeLine.ne_nil (h : SizeLine n line) : line ≠ [] := by
  obtain ⟨before, digits, after, rfl, _, _, hne, _⟩ := h
  simp [hne]

theorem isWhitespace_of_isBlank {c : Char} (h : isBlank c = true) : Text.isWhitespace c = true := by
  rcases Bool.or_eq_true_iff.mp h with h | h
  · rw [of_decide_eq_true h]
    rfl
  · rw [of_decide_eq_true h]
    rfl

theorem SizeLine.splitOnceStr (h : SizeLine n line) (rest : Text) :
    Text.splitOnceStr crlf (line ++ (crlf ++ rest)) = some (line, rest) := by
  apply Text.splitOnceStr_of_not_mem _ (by decide)
  intro c hc heq
  cases heq
  rcases h.mem hc with hblank | ⟨d, hd⟩
  · cases hblank
  · cases hd

theorem SizeLine.parseUsize (h : SizeLine n line) :
    Text.parseUsize 16 (Text.trim line) = if n < 2 ^ 64 then some n else none := by
  obtain ⟨before, digits, after, rfl, hbefore, hafter, hne, hdigits⟩ := h
  have htrim : Text.trim (before ++ digits ++ after) = digits := by
    apply Text.trim_append
    · exact fun c hc => isWhitespace_of_isBlank (hbefore c hc)
    · intro c hc
      obtain ⟨d, hd⟩ := Text.digitValue_of_mem hdigits hc
      exact Text.isWhitespace_digit hd
    · exact fun c hc => isWhitespace_of_isBlank (hafter c hc)
  rw [htrim, Text.parseUsize_digits hne hdigits]

theorem SizeLine.of_parseUsize {m : ℕ} (h : SizeLine m line)
    (hparse : Text.parseUsize 16 (Text.trim line) = some n) : SizeLine n line := by
  rw [h.parseUsize] at hparse
  split at hparse
  · cases hparse
    exact h
  · cases hparse

end Lines

/-- A chunk as the decoder takes it: its size line, its data, and what is skipped behind them. -/
@[ext] structure ChunkFrame where
  line : Text
  payload : Text
  skipped : Text

/-- The decoder takes the frames one behind the other, and then the line of the last chunk with
some text behind it. -/
inductive Walks : List ChunkFrame → (lastLine rest data : Text) → Prop
  | last {line rest data : Text} (hsplit : Text.splitOnceStr crlf data = some (line, rest))
      (hsize : Text.parseUsize 16 (Text.trim line) = some 0) : Walks [] line rest data
  | chunk {f : ChunkFrame} {frames : List ChunkFrame} {lastLine rest next data : Text}
      (hsplit : Text.splitOnceStr crlf data = some (f.line, f.payload ++ f.skipped ++ next))
      (hsize : Text.parseUsize 16 (Text.trim f.line) = some (Text.utf8Len f.payload))
      (hne : Text.utf8Len f.payload ≠ 0) (htwo : Text.utf8Len f.skipped = 2)
      (htail : Walks frames lastLine rest next) : Walks (f :: frames) lastLine rest data

def walkedText (frames : List ChunkFrame) : Text := (frames.map ChunkFrame.payload).flatten

variable {frames : List ChunkFrame}

theorem Walks.unique {frames' : List ChunkFrame} {lastLine lastLine' rest rest' data : Text}
    (h : Walks frames lastLine rest data) (h' : Walks frames' lastLine' rest' data) :
    frames = frames' ∧ lastLine = lastLine' ∧ rest = rest' := by
  induction h generalizing frames' with
  | last hsplit hsize =>
    cases h' with
    | last hsplit' hsize' =>
      rw [hsplit] at hsplit'
      cases hsplit'
      exact ⟨rfl, rfl, rfl⟩
    | chunk hsplit' hsize' hne' =>
      rw [hsplit] at hsplit'
      cases hsplit'
      rw [hsize] at hsize'
      exact absurd (Option.some.inj hsize').symm hne'
  | @chunk f frames lastLine rest next data hsplit hsize hne htwo htail ih =>
    cases h' with
    | last hsplit' hsize' =>
      rw [hsplit] at hsplit'
      cases hsplit'
      rw [hsize] at hsize'
      exact absurd (Option.some.inj hsize') hne
    | @chunk f' frames' _ _ next' _ hsplit' hsize' hne' htwo' htail' =>
      rw [hsplit] at hsplit'
      obtain ⟨hline, hrest⟩ := Prod.ext_iff.mp (Option.some.inj hsplit')
      dsimp only at hline hrest
      rw [← hline, hsize] at hsize'
      obtain ⟨hfront, rfl⟩ := Text.append_inj_of_utf8Len hrest (by
        rw [Text.utf8Len_append, Text.utf8Len_append, Option.some.inj hsize', htwo, htwo'])
      obtain ⟨hpayload, hskipped⟩ := Text.append_inj_of_utf8Len hfront (Option.some.inj hsize')
      obtain ⟨rfl, rfl, rfl⟩ := ih htail'
      rw [ChunkFrame.ext hline hpayload hskipped]
      exact ⟨rfl, rfl, rfl⟩

section Decoder
variable {trap : Bool} {body out : Bytes} {n : ℕ} {rest next data : Text}

/-- What a chunk that was read consists of. A sum that wraps is one with a size beyond the end of
the text, where the data cannot be cut off. -/
theorem readChunk_eq_ok (hshort : Text.utf8Len rest < 2 ^ 63) (hbody : body.length ≤ maxBodySize)
    (h : readChunk trap body n rest = some (.ok (out, next))) :
    ∃ payload skipped, rest = payload ++ skipped ++ next ∧ Text.utf8Len payload = n ∧
      Text.utf8Len skipped = 2 ∧ body.length + n ≤ maxBodySize ∧
      out = body ++ Text.asBytes payload := by
  simp only [readChunk, Option.bind_eq_bind, Option.bind_eq_some_iff] at h
  obtain ⟨total, hadd, h⟩ := h
  split at h
  · cases h
  next hmax =>
  simp only [Option.pure_def, Option.bind_eq_some_iff] at h
  obtain ⟨stop, hstop, h⟩ := h
  split at h
  · cases h
  simp only [Option.bind_eq_some_iff] at h
  obtain ⟨⟨payload, back⟩, hdata, ⟨front, after⟩, hnext, heq⟩ := h
  cases heq
  obtain ⟨hrest, hpayload⟩ := Text.splitAtByte_eq_some_iff.mp hdata
  have hlen := congrArg Text.utf8Len hrest
  rw [Text.utf8Len_append] at hlen
  have hsmall : maxBodySize < 2 ^ 62 := by decide
  rw [addLengths_of_lt (by omega)] at hadd hstop
  cases hadd
  cases hstop
  obtain ⟨hrest', hfront⟩ := Text.splitAtByte_eq_some_iff.mp hnext
  -- the second cut is two bytes behind the first
  rw [hrest] at hrest'
  rcases List.append_eq_append_iff.mp hrest' with ⟨skipped, rfl, hback⟩ | ⟨more, rfl, -⟩
  · rw [Text.utf8Len_append] at hfront
    refine ⟨payload, skipped, ?_, hpayload, by omega, not_lt.mp hmax, rfl⟩
    rw [hrest, hback, List.append_assoc]
  · rw [Text.utf8Len_append] at hpayload
    omega

theorem walks_of_readChunks {fuel : ℕ} (hshort : Text.utf8Len data < 2 ^ 63)
    (hbody : body.length ≤ maxBodySize) (h : readChunks trap fuel body data = some (.ok out)) :
    out.length ≤ maxBodySize ∧ ∃ frames lastLine rest, Walks frames lastLine rest data ∧
      out = body ++ Text.asBytes (walkedText frames) := by
  induction fuel generalizing body data with
  | zero => cases h
  | succ fuel ih =>
    unfold readChunks at h
    split at h
    · cases h
    next line rest hsplit =>
    split at h
    · cases h
    next n hsize =>
    split at h
    · next hn =>
      cases h
      subst hn
      exact ⟨hbody, [], line, rest, .last hsplit hsize, by simp [walkedText]⟩
    next hn =>
    split at h
    · cases h
    · cases h
    next body' next hchunk =>
    have hlen := congrArg Text.utf8Len (Text.splitOnceStr_eq_some hsplit)
    rw [Text.utf8Len_append, Text.utf8Len_append] at hlen
    obtain ⟨payload, skipped, rfl, rfl, htwo, hmax, rfl⟩ :=
      readChunk_eq_ok (by omega) hbody hchunk
    rw [Text.utf8Len_append, Text.utf8Len_append] at hlen
    obtain ⟨hout, frames, lastLine, rest, hwalk, rfl⟩ := ih (by omega)
      (by rwa [length_asBytes_of_utf8Len body rfl]) h
    refine ⟨hout, ⟨line, payload, skipped⟩ :: frames, lastLine, rest,
      .chunk hsplit hsize hn htwo hwalk, ?_⟩
    simp [walkedText]

theorem readChunks_of_walks {lastLine : Text} {fuel : ℕ}
    (h : Walks frames lastLine rest data) (hfuel : data.length < fuel)
    (hmax : (body ++ Text.asBytes (walkedText frames)).length ≤ maxBodySize) :
    readChunks trap fuel body data = some (.ok (body ++ Text.asBytes (walkedText frames))) := by
  induction h generalizing body fuel with
  | last hsplit hsize =>
    obtain ⟨fuel, rfl⟩ := Nat.exists_eq_succ_of_ne_zero (Nat.ne_zero_of_lt hfuel)
    simp [readChunks, hsplit, hsize, walkedText]
  | @chunk f frames lastLine rest next data hsplit hsize hne htwo _ ih =>
    obtain ⟨fuel, rfl⟩ := Nat.exists_eq_succ_of_ne_zero (Nat.ne_zero_of_lt hfuel)
    have hahead : SizeAhead data _ _ := ⟨f.line, hsplit, hsize, hne⟩
    have hshorter := hahead.length_lt
    simp only [List.length_append] at hshorter
    have htext : body ++ Text.asBytes (walkedText (f :: frames)) =
        body ++ Text.asBytes f.payload ++ Text.asBytes (walkedText frames) := by
      simp [walkedText]
    rw [htext] at hmax ⊢
    have hfirst : body.length + Text.utf8Len f.payload ≤ maxBodySize := by
      rw [List.length_append, length_asBytes_of_utf8Len body rfl] at hmax
      omega
    rw [readChunks_of_sizeAhead hahead, readChunk_ok rfl htwo hfirst]
    exact ih (by omega) hmax

end Decoder

/-- The frames of a walk are spelled as documented. -/
structure StrictFrames (frames : List ChunkFrame) (lastLine rest : Text) : Prop where
  lines : ∀ f ∈ frames, ∃ n, SizeLine n f.line
  ends : ∀ f ∈ frames, f.skipped = crlf
  lastLine : ∃ n, SizeLine n lastLine
  lastEnd : crlf <+: rest

/-- What the decoder walks through is spelled as documented: sizes in hexadecimal digits and
blanks, a line end behind each chunk, and one behind the line of the last. -/
def StrictlyFramed (data : Text) : Prop :=
  ∃ frames lastLine rest, Walks frames lastLine rest data ∧ StrictFrames frames lastLine rest

theorem utf8Len_ne_zero_iff {s : Text} : Text.utf8Len s ≠ 0 ↔ s ≠ [] := by
  cases s with
  | nil => simp
  | cons c s =>
    have hpos := c.utf8Size_pos
    rw [Text.utf8Len_cons]
    exact iff_of_true (by omega) (List.cons_ne_nil c s)

theorem walks_of_encoding {chunks : List Text} {enc : Text} (h : ChunkEncoding chunks enc)
    (hsmall : Text.utf8Len chunks.flatten < 2 ^ 64) (trailing : Text) :
    ∃ frames lastLine rest, Walks frames lastLine rest (enc ++ trailing) ∧
      StrictFrames frames lastLine rest ∧ walkedText frames = chunks.flatten := by
  induction h with
  | @last line hline =>
    refine ⟨[], line, crlf ++ trailing, .last ?_ ?_, ⟨nofun, nofun, ⟨0, hline⟩, ⟨trailing, rfl⟩⟩, rfl⟩
    · rw [List.append_assoc, List.append_assoc]
      exact hline.splitOnceStr _
    · rw [hline.parseUsize, if_pos (by decide)]
  | @chunk line payload data chunks hline hne _ ih =>
    rw [List.flatten_cons, Text.utf8Len_append] at hsmall
    obtain ⟨frames, lastLine, rest, hwalk, hstrict, htext⟩ := ih (by omega)
    refine ⟨⟨line, payload, crlf⟩ :: frames, lastLine, rest, ?_, ?_, ?_⟩
    · apply Walks.chunk _ _ (utf8Len_ne_zero_iff.mpr hne) rfl hwalk
      · rw [List.append_assoc, List.append_assoc, hline.splitOnceStr]
        simp
      · rw [hline.parseUsize, if_pos (by omega)]
    · exact ⟨List.forall_mem_cons.mpr ⟨⟨_, hline⟩, hstrict.lines⟩,
        List.forall_mem_cons.mpr ⟨rfl, hstrict.ends⟩, hstrict.lastLine, hstrict.lastEnd⟩
    · rw [walkedText, List.map_cons, List.flatten_cons, List.flatten_cons, ← htext]
      rfl

theorem encoding_of_walks {lastLine rest data : Text}
    (h : Walks frames lastLine rest data) (hstrict : StrictFrames frames lastLine rest) :
    ∃ enc trailing, ChunkEncoding (frames.map ChunkFrame.payload) enc ∧ data = enc ++ trailing := by
  induction h with
  | @last line rest data hsplit hsize =>
    obtain ⟨n, hline⟩ := hstrict.lastLine
    obtain ⟨trailing, rfl⟩ := hstrict.lastEnd
    refine ⟨line ++ (crlf ++ crlf), trailing, .last (hline.of_parseUsize hsize), ?_⟩
    rw [Text.splitOnceStr_eq_some hsplit]
    simp
  | @chunk f frames lastLine rest next data hsplit hsize hne _ _ ih =>
    obtain ⟨hlines, hends, hlast, hlastEnd⟩ := hstrict
    obtain ⟨⟨n, hline⟩, hlines⟩ := List.forall_mem_cons.mp hlines
    obtain ⟨hend, hends⟩ := List.forall_mem_cons.mp hends
    obtain ⟨enc, trailing, henc, rfl⟩ := ih ⟨hlines, hends, hlast, hlastEnd⟩
    refine ⟨f.line ++ (crlf ++ (f.payload ++ (crlf ++ enc))), trailing,
      .chunk (hline.of_parseUsize hsize) (utf8Len_ne_zero_iff.mp hne) henc, ?_⟩
    rw [Text.splitOnceStr_eq_some hsplit, hend]
    simp

/-- An encoding is decoded to its body, and what is accepted for a body starts with an encoding of
it exactly if the decoder walks through nothing but what the documented encoding has. -/
theorem chunked_bodies_exact_iff (trap : Bool) (data : Text.StrSlice) (body : Bytes) :
    (body.length ≤ maxBodySize → StartsWithEncoding data.text body →
      decodeChunkedBody trap data.text = some (.ok body)) ∧
    (decodeChunkedBody trap data.text = some (.ok body) →
      (StartsWithEncoding data.text body ↔ StrictlyFramed data.text)) := by
  have hsmall : maxBodySize < 2 ^ 62 := by decide
  have hwalks : body.length ≤ maxBodySize → StartsWithEncoding data.text body →
      ∃ frames lastLine rest, Walks frames lastLine rest data.text ∧
        StrictFrames frames lastLine rest ∧ body = Text.asBytes (walkedText frames) := by
    rintro hmax ⟨chunks, enc, trailing, henc, hdata, rfl⟩
    obtain ⟨frames, lastLine, rest, hwalk, hstrict, htext⟩ :=
      walks_of_encoding henc (show Text.utf8Len chunks.flatten < 2 ^ 64 from by
        unfold Text.utf8Len
        omega) trailing
    exact ⟨frames, lastLine, rest, hdata ▸ hwalk, hstrict, by rw [htext]⟩
  constructor
  · intro hmax henc
    obtain ⟨frames, lastLine, rest, hwalk, _, rfl⟩ := hwalks hmax henc
    exact readChunks_of_walks hwalk (Nat.lt_succ_self _) hmax
  · intro hdecode
    obtain ⟨hmax, frames, lastLine, rest, hwalk, hbody⟩ :=
      walks_of_readChunks data.short (Nat.zero_le _) hdecode
    constructor
    · intro henc
      obtain ⟨frames, lastLine, rest, hwalk, hstrict, _⟩ := hwalks hmax henc
      exact ⟨frames, lastLine, rest, hwalk, hstrict⟩
    · rintro ⟨frames', lastLine', rest', hwalk', hstrict⟩
      obtain ⟨rfl, rfl, rfl⟩ := hwalk.unique hwalk'
      obtain ⟨enc, trailing, henc, hdata⟩ := encoding_of_walks hwalk hstrict
      exact ⟨_, enc, trailing, henc, hdata, hbody⟩

namespace Sample

def signedSize : Text.StrSlice := ⟨"+1\r\naXX0\r\n".toList, by decide⟩

def twoChunks : Text.StrSlice := ⟨"3\r\nabc\r\n 2\r\nde\r\n0\r\n\r\n".toList, by decide⟩

end Sample

theorem two_chunks_decoded : decodeChunkedBody true Sample.twoChunks.text =
    some (.ok (Text.asBytes ["abc".toList, "de".toList].flatten)) := by
  have hthree : SizeLine (Text.utf8Len "abc".toList) "3".toList :=
    ⟨[], ['3'], [], rfl, nofun, nofun, nofun, rfl⟩
  have htwo : SizeLine (Text.utf8Len "de".toList) " 2".toList :=
    ⟨[' '], ['2'], [], rfl, by simp [isBlank], nofun, nofun, rfl⟩
  have hzero : SizeLine 0 "0".toList := ⟨[], ['0'], [], rfl, nofun, nofun, nofun, rfl⟩
  have henc := ChunkEncoding.chunk hthree (by decide) (.chunk htwo (by decide) (.last hzero))
  exact (chunked_bodies_exact_iff true Sample.twoChunks _).1 (by decide)
    ⟨_, _, [], henc, rfl, rfl⟩

/-- A plus sign in front of a size, two letters for the line end behind a chunk, and nothing behind
the line of the last chunk are accepted. -/
theorem signed_size_accepted :
    decodeChunkedBody true Sample.signedSize.text = some (.ok [0x61]) ∧
      ¬ StartsWithEncoding Sample.signedSize.text [0x61] := by
  refine ⟨by decide +kernel, ?_⟩
  rintro ⟨chunks, enc, trailing, henc, hdata, -⟩
  obtain ⟨n, line, more, hline, rfl⟩ : ∃ n line more, SizeLine n line ∧ enc = line ++ more := by
    cases henc with
    | last hline => exact ⟨_, _, _, hline, rfl⟩
    | chunk hline => exact ⟨_, _, _, hline, rfl⟩
  obtain ⟨c, line, rfl⟩ := List.exists_cons_of_ne_nil hline.ne_nil
  obtain rfl : '+' = c := (List.cons.inj hdata).1
  rcases hline.mem List.mem_cons_self with hblank | ⟨d, hd⟩
  · cases hblank
  · cases hd

end Desmos.Http

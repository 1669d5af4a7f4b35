import Desmos.Http.Server.Lines

/-! # Well-formed requests on the wire

A request is written as lines, an empty line and a body. The parser finds it again, whatever
follows its head, if it is text, keeps to the limits and has no extensions in its chunks.
-/
namespace Desmos.Http
open Library

/-- A header as it is written, with blanks around the value. -/
structure HeaderLine where
  name : Text
  lead : Text
  value : Text
  trail : Text
  name_ne_nil : name ≠ []
  name_clean : ∀ c ∈ name, c ≠ ':' ∧ Text.isWhitespace c = false
  lead_blank : ∀ c ∈ lead, c = ' ' ∨ c = '\t'
  trail_blank : ∀ c ∈ trail, c = ' ' ∨ c = '\t'
  value_clean : ∀ c ∈ value, c ≠ '\r' ∧ c ≠ '\n'
  value_trimmed : Text.trim value = value

namespace HeaderLine

variable (h : HeaderLine)

def line : Text := h.name ++ ':' :: (h.lead ++ h.value ++ h.trail)

def header : Header := ⟨h.name, h.value⟩

theorem not_mem_blank {blank : Text} (h : ∀ c ∈ blank, c = ' ' ∨ c = '\t') : '\r' ∉ blank := by
  intro hmem
  rcases h _ hmem with hc | hc <;> cases hc

theorem not_mem_content : '\r' ∉ h.lead ++ h.value ++ h.trail := by
  simp only [List.mem_append, not_or]
  exact ⟨⟨not_mem_blank h.lead_blank, fun hmem => (h.value_clean _ hmem).1 rfl⟩,
    not_mem_blank h.trail_blank⟩

theorem isLine : IsLine h.line := by
  refine ⟨by simp [line], ?_⟩
  intro hmem
  rcases List.mem_append.mp hmem with hmem | hmem
  · exact absurd (h.name_clean _ hmem).2 (by decide)
  · rcases List.mem_cons.mp hmem with hc | hmem
    · cases hc
    · exact h.not_mem_content hmem

theorem splitOnce_line : Text.splitOnce ':' h.line = some (h.name, h.lead ++ h.value ++ h.trail) :=
  Text.splitOnce_of_not_mem (fun hmem => (h.name_clean _ hmem).1 rfl) _

theorem trim_name : Text.trim h.name = h.name :=
  Text.trim_eq_self fun c hc => (h.name_clean c hc).2

theorem trim_content : Text.trim (h.lead ++ h.value ++ h.trail) = h.value := by
  have hblank : ∀ c : Char, c = ' ' ∨ c = '\t' → Text.isWhitespace c = true := by
    rintro c (rfl | rfl) <;> decide
  rw [Text.trim_spaces (fun c hc => hblank c (h.lead_blank c hc))
    (fun c hc => hblank c (h.trail_blank c hc)), h.value_trimmed]

end HeaderLine

structure WireChunk where
  size : Text
  extension : Text
  data : Bytes
  size_digits : ∀ c ∈ size, (Text.digitValue c).isSome
  size_value : Text.parseUsize 16 size = some data.length
  extension_clean : ∀ c ∈ extension, c ≠ '\r' ∧ c ≠ '\n'
  extension_mark : extension ≠ [] → extension.head? = some ';'
  data_ne_nil : data ≠ []

inductive WireBody where
  | none
  | sized (data : Bytes)
  | chunked (chunks : List WireChunk) (last : Text) (trailers : List HeaderLine)

namespace WireBody

def content : WireBody → Bytes
  | .none => []
  | .sized data => data
  | .chunked chunks _ _ => chunks.flatMap WireChunk.data

def bytes : WireBody → Bytes
  | .none => []
  | .sized data => data
  | .chunked chunks last trailers =>
    chunks.flatMap (fun c =>
      Text.asBytes (c.size ++ c.extension ++ crlf) ++ c.data ++ Text.asBytes crlf) ++
    Text.asBytes (last ++ crlf ++ trailers.flatMap (fun h => h.line ++ crlf) ++ crlf)

def IsChunked : WireBody → Prop
  | .chunked _ _ _ => True
  | _ => False

def AnnouncedBy (headers : Headers) : WireBody → Prop
  | .none => headers.get "content-length" = Option.none ∧ headers.get "transfer-encoding" = Option.none
  | .sized data =>
    (∃ value, headers.get "content-length" = some value ∧ (∀ c ∈ value, c.isDigit) ∧
      Text.parseUsize 10 value = some data.length) ∧
    headers.get "transfer-encoding" = Option.none
  | .chunked _ last _ => headers.isChunked = true ∧ headers.get "content-length" = Option.none ∧
    (∀ c ∈ last, (Text.digitValue c).isSome) ∧ Text.parseUsize 16 last = some 0

/-- The body is text, chunk by chunk, and no chunk has an extension. -/
def Plain : WireBody → Prop
  | .none => True
  | .sized data => ∃ t, data = Text.asBytes t
  | .chunked chunks _ _ => ∀ c ∈ chunks, c.extension = [] ∧ ∃ t, c.data = Text.asBytes t

end WireBody

/-- A request that asks to keep the connection, as it is written. -/
structure WireRequest where
  method : Method
  uri : Text
  version : Text
  headers : List HeaderLine
  body : WireBody
  uri_clean : ∀ c ∈ uri, c ≠ ' ' ∧ c ≠ '\r' ∧ c ≠ '\n'
  version_http : "HTTP/".toList <+: version
  version_clean : ∀ c ∈ version, c ≠ ' ' ∧ c ≠ '\r' ∧ c ≠ '\n'
  announced : body.AnnouncedBy ⟨headers.map HeaderLine.header⟩
  keepAlive : Headers.isKeepAlive ⟨headers.map HeaderLine.header⟩ = true

namespace WireRequest

variable (r : WireRequest)

def requestLine : Text :=
  r.method.asStr.toList ++ ' ' :: (r.uri ++ ' ' :: r.version)

def lines : List Text := r.requestLine :: r.headers.map HeaderLine.line

def head : Text := r.lines.flatMap (· ++ crlf) ++ crlf

def bytes (r : WireRequest) : Bytes := Text.asBytes r.head ++ r.body.bytes

def request : Request :=
  { method := r.method, uri := r.uri, headers := ⟨r.headers.map HeaderLine.header⟩
    body := r.body.content }

structure WithinLimits (r : WireRequest) : Prop where
  requestLine : Text.utf8Len r.requestLine ≤ maxRequestLine
  headerLines : ∀ h ∈ r.headers, Text.utf8Len h.line ≤ maxHeaderLine
  headers : r.headers.length ≤ maxHeaders
  head : Text.utf8Len r.head ≤ maxHeaderBuf
  body : r.body.content.length ≤ maxBodySize

theorem headers_ne_nil : r.headers ≠ [] := by
  intro hnil
  have hkeep := r.keepAlive
  rw [hnil] at hkeep
  cases hkeep

theorem method_clean (m : Method) : ' ' ∉ m.asStr.toList ∧ '\r' ∉ m.asStr.toList := by
  cases m <;> decide

theorem method_parse (m : Method) : Method.parse m.asStr.toList = some m := by
  cases m <;> rfl

theorem requestLine_isLine : IsLine r.requestLine := by
  refine ⟨by simp [requestLine], ?_⟩
  simp only [requestLine, List.mem_append, List.mem_cons, not_or]
  exact ⟨(method_clean r.method).2, by decide, fun hmem => (r.uri_clean _ hmem).2.1 rfl, by decide,
    fun hmem => (r.version_clean _ hmem).2.1 rfl⟩

theorem lines_isLine : ∀ line ∈ r.lines, IsLine line := by
  refine List.forall_mem_cons.mpr ⟨r.requestLine_isLine, ?_⟩
  intro line hline
  obtain ⟨h, -, rfl⟩ := List.mem_map.mp hline
  exact h.isLine

theorem lines_ne_nil : r.lines ≠ [] := List.cons_ne_nil _ _

theorem head_eq : r.head = joinLines r.lines ++ (crlf ++ crlf) := by
  rw [head, flatMap_crlf r.lines_ne_nil, List.append_assoc]

theorem parseRequestLine_requestLine :
    parseRequestLine r.requestLine = .ok (r.method, r.uri, r.version) := by
  have hmethod := Text.splitOnce_of_not_mem (method_clean r.method).1 (r.uri ++ ' ' :: r.version)
  have hfree : ' ' ∉ r.uri := fun hmem => (r.uri_clean _ hmem).1 rfl
  have huri := Text.splitOnce_of_not_mem hfree r.version
  have hversion : "HTTP/".toList.isPrefixOf r.version = true :=
    List.isPrefixOf_iff_prefix.mpr r.version_http
  simp only [parseRequestLine, requestLine, hmethod, huri, method_parse, hversion, not_true, if_false]

end WireRequest

variable {headers : List HeaderLine} {c : Char} {s : Text} {lines : List Text}

theorem readHeaders_lines {entries : List Header}
    (hlines : ∀ h ∈ headers, Text.utf8Len h.line ≤ maxHeaderLine)
    (hcount : entries.length + headers.length ≤ maxHeaders) :
    readHeaders (headers.map HeaderLine.line) entries =
      .ok (entries ++ headers.map HeaderLine.header) := by
  induction headers generalizing entries with
  | nil => simp [readHeaders]
  | cons h headers ih =>
    rw [List.forall_mem_cons] at hlines
    rw [List.length_cons] at hcount
    have hempty : h.line.isEmpty = false := by simpa using h.isLine.1
    have hroom : ¬ maxHeaders ≤ entries.length := by omega
    rw [List.map_cons, readHeaders, hempty, if_neg Bool.false_ne_true,
      if_neg (not_lt.mpr hlines.1), if_neg hroom, h.splitOnce_line]
    dsimp only
    rw [h.trim_name, h.trim_content, ih hlines.2 (by simp; omega)]
    simp [HeaderLine.header]

theorem parseHeaders_joinLines (hne : headers ≠ [])
    (hlines : ∀ h ∈ headers, Text.utf8Len h.line ≤ maxHeaderLine)
    (hcount : headers.length ≤ maxHeaders) :
    parseHeaders (joinLines (headers.map HeaderLine.line)) = .ok ⟨headers.map HeaderLine.header⟩ := by
  have hmap : headers.map HeaderLine.line ≠ [] := by simpa using hne
  have hisLine : ∀ line ∈ headers.map HeaderLine.line, IsLine line := by
    intro line hline
    obtain ⟨h, -, rfl⟩ := List.mem_map.mp hline
    exact h.isLine
  have hempty : (joinLines (headers.map HeaderLine.line)).isEmpty = false := by
    have hlen := length_le_joinLines hisLine
    have hpos := List.length_pos_iff.mpr hmap
    rw [List.isEmpty_eq_false_iff, ← List.length_pos_iff]
    omega
  rw [parseHeaders, hempty, if_neg Bool.false_ne_true, splitStr_joinLines hmap hisLine,
    readHeaders_lines hlines (by simpa using hcount)]
  rfl

namespace WireRequest

theorem splitOnceStr_head (r : WireRequest) (rest : Text) :
    Text.splitOnceStr (crlf ++ crlf) (r.head ++ rest) = some (joinLines r.lines, rest) := by
  rw [head_eq, List.append_assoc]
  exact splitOnceStr_emptyLine r.lines_ne_nil r.lines_isLine rest

/-- The parser finds the head again. -/
theorem parseHead_head {r : WireRequest} (hlimits : r.WithinLimits) (rest : Text) :
    parseHead (r.head ++ rest) = .ok
      { method := r.method, uri := r.uri, headers := ⟨r.headers.map HeaderLine.header⟩
        consumed := Text.utf8Len (joinLines r.lines) + 4, remaining := rest } := by
  have hfirst : Text.splitOnceStr crlf (joinLines r.lines) =
      some (r.requestLine, joinLines (r.headers.map HeaderLine.line)) := by
    obtain ⟨h, hs, hheaders⟩ := List.exists_cons_of_ne_nil r.headers_ne_nil
    rw [lines, hheaders, List.map_cons, joinLines]
    exact splitOnceStr_crlf r.requestLine_isLine.2 _
  simp only [parseHead, splitOnceStr_head, hfirst, if_neg (not_lt.mpr hlimits.requestLine),
    parseRequestLine_requestLine, bind, Except.bind,
    parseHeaders_joinLines r.headers_ne_nil hlimits.headerLines hlimits.headers]
  rfl

end WireRequest

theorem range_of_digit (h : (Text.digitValue c).isSome) : 48 ≤ c.toNat ∧ c.toNat ≤ 122 := by
  obtain ⟨d, hd⟩ := Option.isSome_iff_exists.mp h
  have hrange := Text.digitValue_range hd
  omega

theorem not_isWhitespace_of_digit (h : (Text.digitValue c).isSome) :
    Text.isWhitespace c = false := by
  obtain ⟨hlow, hhigh⟩ := range_of_digit h
  simp only [Text.isWhitespace, Bool.or_eq_false_iff, Bool.and_eq_false_iff, decide_eq_false_iff_not,
    beq_eq_false_iff_ne]
  omega

theorem trim_digits (h : ∀ c ∈ s, (Text.digitValue c).isSome) : Text.trim s = s :=
  Text.trim_eq_self fun c hc => not_isWhitespace_of_digit (h c hc)

theorem not_mem_digits (h : ∀ c ∈ s, (Text.digitValue c).isSome) : '\r' ∉ s := by
  intro hmem
  exact absurd (h _ hmem) (by decide)

theorem readChunks_chunks {chunks : List WireChunk} {last : Text}
    (hchunks : ∀ c ∈ chunks, c.extension = [] ∧ ∃ t, c.data = Text.asBytes t)
    (hdigits : ∀ c ∈ last, (Text.digitValue c).isSome) (hlast : Text.parseUsize 16 last = some 0)
    (rest : Text) :
    ∃ t, Text.asBytes t = chunks.flatMap (fun c =>
        Text.asBytes (c.size ++ c.extension ++ crlf) ++ c.data ++ Text.asBytes crlf) ∧
      chunks.length ≤ t.length ∧
      ∀ trap fuel body, chunks.length < fuel →
        body.length + (chunks.flatMap WireChunk.data).length ≤ maxBodySize →
        readChunks trap fuel body (t ++ (last ++ (crlf ++ rest))) =
          some (.ok (body ++ chunks.flatMap WireChunk.data)) := by
  induction chunks with
  | nil =>
    refine ⟨[], rfl, le_rfl, ?_⟩
    intro trap fuel body hfuel _
    cases fuel with
    | zero => cases hfuel
    | succ fuel =>
      simp [readChunks, splitOnceStr_crlf (not_mem_digits hdigits), trim_digits hdigits, hlast]
  | cons c chunks ih =>
    rw [List.forall_mem_cons] at hchunks
    obtain ⟨⟨hext, data, hdata⟩, hchunks⟩ := hchunks
    obtain ⟨t, hbytes, hshort, hread⟩ := ih hchunks
    refine ⟨c.size ++ (crlf ++ (data ++ crlf ++ t)), ?_, ?_, ?_⟩
    · simp [hbytes, hext, hdata]
    · simp only [List.length_append, List.length_cons, crlf]
      omega
    · intro trap fuel body hfuel hmax
      cases fuel with
      | zero => cases hfuel
      | succ fuel =>
        rw [List.flatMap_cons, List.length_append] at hmax
        have hlen : Text.utf8Len data = c.data.length := by rw [hdata, Text.utf8Len]
        have hbody := length_asBytes_of_utf8Len body hlen
        have happend : c.size ++ (crlf ++ (data ++ crlf ++ t)) ++ (last ++ (crlf ++ rest)) =
            c.size ++ (crlf ++ (data ++ crlf ++ (t ++ (last ++ (crlf ++ rest))))) := by
          simp
        have hsize : SizeAhead (c.size ++ (crlf ++ (data ++ crlf ++ t)) ++ (last ++ (crlf ++ rest)))
            c.data.length (data ++ crlf ++ (t ++ (last ++ (crlf ++ rest)))) := by
          refine ⟨c.size, ?_, ?_, ?_⟩
          · rw [happend, splitOnceStr_crlf (not_mem_digits c.size_digits)]
          · rw [trim_digits c.size_digits, c.size_value]
          · exact fun hzero => c.data_ne_nil (List.length_eq_zero_iff.mp hzero)
        rw [readChunks_of_sizeAhead hsize, readChunk_ok hlen rfl (by omega)]
        dsimp only
        rw [hread trap fuel _ (by simpa using hfuel) (by omega), List.flatMap_cons, hdata,
          List.append_assoc]

namespace WireRequest

/-- The body is a text in which the parser finds the content again. -/
theorem readBody_body {r : WireRequest} (hplain : r.body.Plain) (hlimits : r.WithinLimits) :
    ∃ t, Text.asBytes t = r.body.bytes ∧ ∀ trap,
      readBody trap ⟨r.headers.map HeaderLine.header⟩ t = some (.ok r.body.content) := by
  have hannounced := r.announced
  have hmax := hlimits.body
  cases hbody : r.body with
  | none =>
    rw [hbody] at hannounced
    refine ⟨[], rfl, fun trap => ?_⟩
    simp [readBody, Headers.isChunked, Headers.contentLength, hannounced.1, hannounced.2,
      WireBody.content]
  | sized data =>
    rw [hbody] at hannounced hplain hmax
    obtain ⟨⟨value, hvalue, hdigits, hlen⟩, hencoding⟩ := hannounced
    obtain ⟨t, rfl⟩ := hplain
    have hmax : ¬ maxBodySize < (Text.asBytes t).length := not_lt.mpr hmax
    have htrim : Text.trim value = value := trim_digits fun c hc => by
      simp [Text.digitValue, hdigits c hc]
    have hcut : Text.splitAtByte (Text.asBytes t).length t = some (t, []) :=
      Text.splitAtByte_eq_some_iff.mpr ⟨(List.append_nil t).symm, rfl⟩
    refine ⟨t, rfl, fun trap => ?_⟩
    simp only [readBody, Headers.isChunked, Headers.contentLength, hencoding, hvalue,
      Option.bind_some, htrim, hlen, Option.map_none, Option.getD_none, Bool.false_eq_true, if_false,
      if_neg hmax, Text.utf8Len, lt_self_iff_false, hcut, Option.map_some]
    rfl
  | chunked chunks last trailers =>
    rw [hbody] at hannounced hplain hmax
    obtain ⟨hchunked, -, hdigits, hlast⟩ := hannounced
    obtain ⟨t, hbytes, hshort, hread⟩ := readChunks_chunks hplain hdigits hlast
      (trailers.flatMap (fun h => h.line ++ crlf) ++ crlf)
    refine ⟨t ++ (last ++ (crlf ++ (trailers.flatMap (fun h => h.line ++ crlf) ++ crlf))), ?_, ?_⟩
    · rw [Text.asBytes_append, hbytes, WireBody.bytes]
      simp
    · intro trap
      simp only [readBody, hchunked, if_true, decodeChunkedBody]
      refine hread trap _ [] ?_ ((Nat.zero_add _).trans_le hmax)
      simp only [List.length_append]
      omega

end WireRequest

def contentLengthMark : Text := "content-length:".toList

/-- The mark of a length is nowhere in the text, in letters of either case. -/
def Silent (s : Text) : Prop := Text.contains contentLengthMark (Text.toAsciiLowercase s) = false

theorem toAsciiLowercase_append (s t : Text) : Text.toAsciiLowercase (s ++ t) =
    Text.toAsciiLowercase s ++ Text.toAsciiLowercase t := List.map_append

theorem splitOnceStr_silent (h : ∀ line ∈ lines, Silent line) (rest : Text) :
    Text.splitOnceStr contentLengthMark
        (Text.toAsciiLowercase (lines.flatMap (· ++ crlf) ++ rest)) =
      (Text.splitOnceStr contentLengthMark (Text.toAsciiLowercase rest)).map fun cut =>
        (Text.toAsciiLowercase (lines.flatMap (· ++ crlf)) ++ cut.1, cut.2) := by
  have hne : contentLengthMark ≠ [] := by decide
  induction lines with
  | nil => simp [Text.toAsciiLowercase]
  | cons line lines ih =>
    rw [List.forall_mem_cons] at h
    have hcut : Text.toAsciiLowercase ((line :: lines).flatMap (· ++ crlf) ++ rest) =
        Text.toAsciiLowercase line ++ '\r' :: '\n' ::
          Text.toAsciiLowercase (lines.flatMap (· ++ crlf) ++ rest) := by
      rw [List.flatMap_cons, List.append_assoc, List.append_assoc, toAsciiLowercase_append]
      rfl
    have hline : Text.toAsciiLowercase ((line :: lines).flatMap (· ++ crlf)) =
        Text.toAsciiLowercase line ++ '\r' :: '\n' ::
          Text.toAsciiLowercase (lines.flatMap (· ++ crlf)) := by
      rw [List.flatMap_cons, List.append_assoc, toAsciiLowercase_append]
      rfl
    rw [hcut, hline, Text.splitOnceStr_line h.1 hne (by decide),
      Text.splitOnceStr_cons (by decide) hne, ih h.2, Option.map_map, Option.map_map]
    congr 1
    funext cut
    simp

theorem peekContentLength_silent {rest : Text} (h : ∀ line ∈ lines, Silent line)
    (hrest : Silent rest) :
    peekContentLength (lines.flatMap (· ++ crlf) ++ crlf ++ rest) = none := by
  have hnone : Text.splitOnceStr contentLengthMark (Text.toAsciiLowercase rest) = none := by
    simpa [Silent, Text.contains] using hrest
  have hend : Text.splitOnceStr contentLengthMark (Text.toAsciiLowercase (crlf ++ rest)) = none := by
    have hne : contentLengthMark ≠ [] := by decide
    change Text.splitOnceStr contentLengthMark ('\r' :: '\n' :: Text.toAsciiLowercase rest) = none
    rw [Text.splitOnceStr_cons (by decide) hne, Text.splitOnceStr_cons (by decide) hne, hnone]
    rfl
  have hmark : Text.splitOnceStr "content-length:".toList (Text.toAsciiLowercase
      (lines.flatMap (· ++ crlf) ++ crlf ++ rest)) = none := by
    rw [List.append_assoc]
    exact (splitOnceStr_silent h (crlf ++ rest)).trans (by rw [hend]; rfl)
  rw [peekContentLength, hmark]

/-- Behind lines without the mark, the length is read off its header. -/
theorem peekContentLength_header {h : HeaderLine} (hlines : ∀ line ∈ lines, Silent line)
    (hname : Text.eqIgnoreAsciiCase h.name "content-length".toList = true) (rest : Text) :
    peekContentLength (lines.flatMap (· ++ crlf) ++ (h.line ++ (crlf ++ rest))) =
      Text.parseUsize 10 h.value := by
  have hlower : Text.toAsciiLowercase h.name = "content-length".toList := by
    simpa [Text.eqIgnoreAsciiCase, Text.toAsciiLowercase] using hname
  have hlen : h.name.length = 14 := by
    have := congrArg List.length hlower
    simpa [Text.toAsciiLowercase] using this
  have hline : h.line ++ (crlf ++ rest) =
      h.name ++ [':'] ++ ((h.lead ++ h.value ++ h.trail) ++ (crlf ++ rest)) := by
    simp [HeaderLine.line]
  have hfound : Text.splitOnceStr contentLengthMark
      (Text.toAsciiLowercase (h.line ++ (crlf ++ rest))) = some ([], Text.toAsciiLowercase
        ((h.lead ++ h.value ++ h.trail) ++ (crlf ++ rest))) := by
    rw [hline, toAsciiLowercase_append, toAsciiLowercase_append, hlower]
    exact Text.splitOnceStr_self (by decide : contentLengthMark ≠ []) _
  have hmark : Text.splitOnceStr "content-length:".toList (Text.toAsciiLowercase
      (lines.flatMap (· ++ crlf) ++ (h.line ++ (crlf ++ rest)))) =
        some (Text.toAsciiLowercase (lines.flatMap (· ++ crlf)), Text.toAsciiLowercase
          ((h.lead ++ h.value ++ h.trail) ++ (crlf ++ rest))) := by
    refine (splitOnceStr_silent hlines _).trans ?_
    rw [hfound, Option.map_some, List.append_nil]
  have hdrop : (lines.flatMap (· ++ crlf) ++ (h.line ++ (crlf ++ rest))).drop
      ((Text.toAsciiLowercase (lines.flatMap (· ++ crlf))).length + 15) =
        (h.lead ++ h.value ++ h.trail) ++ (crlf ++ rest) := by
    rw [hline, ← List.append_assoc]
    apply List.drop_left'
    simp [Text.toAsciiLowercase, hlen]
  rw [peekContentLength, hmark]
  dsimp only
  rw [hdrop, splitOnceStr_crlf h.not_mem_content]
  dsimp only
  rw [h.trim_content]

end Desmos.Http

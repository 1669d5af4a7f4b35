import Desmos.Core.Io
import Desmos.Library.TextSearch

/-! # Requests

The position at which the parser cuts the body out of the string comes from the sender, and a cut
inside a character stops the program; so does a sum of lengths beyond the range, in a build that
checks it.
-/
namespace Desmos.Http
open Library

inductive Method where
  | get
  | post
  | put
  | delete
  | patch
  | head
  | options
  deriving DecidableEq

def Method.parse (s : Text) : Option Method :=
  match String.ofList s with
  | "GET" => some .get
  | "POST" => some .post
  | "PUT" => some .put
  | "DELETE" => some .delete
  | "PATCH" => some .patch
  | "HEAD" => some .head
  | "OPTIONS" => some .options
  | _ => none

def Method.asStr : Method → String
  | .get => "GET"
  | .post => "POST"
  | .put => "PUT"
  | .delete => "DELETE"
  | .patch => "PATCH"
  | .head => "HEAD"
  | .options => "OPTIONS"

inductive HttpError where
  | io (e : Core.IoError)
  | badRequest (msg : String)
  | payloadTooLarge
  | unsupportedEncoding
  | timeout
  | connectionClosed
  | uriTooLong
  | tooManyHeaders
  | headerTooLong
  deriving DecidableEq

structure Header where
  name : Text
  value : Text
  deriving DecidableEq

structure Headers where
  entries : List Header
  deriving DecidableEq

namespace Headers

variable (h : Headers)

/-- The first header of a name, in letters of either case. -/
def get (name : String) : Option Text :=
  (h.entries.find? fun e => Text.eqIgnoreAsciiCase e.name name.toList).map Header.value

def contentLength : Option ℕ :=
  (h.get "content-length").bind fun v => Text.parseUsize 10 (Text.trim v)

def isChunked : Bool :=
  ((h.get "transfer-encoding").map fun v =>
    Text.contains "chunked".toList (Text.toAsciiLowercase v)).getD false

def connection (h : Headers) : Option Text := h.get "connection"

def isKeepAlive : Bool :=
  (h.connection.map fun v => Text.eqIgnoreAsciiCase v "keep-alive".toList).getD false

def isClose : Bool :=
  (h.connection.map fun v => Text.eqIgnoreAsciiCase v "close".toList).getD false

end Headers

structure Request where
  method : Method
  uri : Text
  headers : Headers
  body : Bytes
  deriving DecidableEq

def maxBodySize : ℕ := 1024 * 1024

def maxRequestLine : ℕ := 8192

def maxHeaders : ℕ := 64

def maxHeaderLine : ℕ := 8192

def crlf : Text := ['\r', '\n']

def parseRequestLine (line : Text) : Except HttpError (Method × Text × Text) :=
  match Text.splitOnce ' ' line with
  | none => .error (.badRequest "missing URI")
  | some (methodStr, rest) =>
    match Text.splitOnce ' ' rest with
    | none => .error (.badRequest "missing HTTP version")
    | some (uri, version) =>
      match Method.parse methodStr with
      | none => .error (.badRequest "unknown method")
      | some method =>
        if ¬ "HTTP/".toList.isPrefixOf version then .error (.badRequest "bad HTTP version")
        else .ok (method, uri, version)

/-- The loop of `parse_headers` over the lines. -/
def readHeaders : (lines : List Text) → (entries : List Header) → Except HttpError (List Header)
  | [], entries => .ok entries
  | line :: lines, entries =>
    if line.isEmpty then readHeaders lines entries
    else if maxHeaderLine < Text.utf8Len line then .error .headerTooLong
    else if maxHeaders ≤ entries.length then .error .tooManyHeaders
    else
      match Text.splitOnce ':' line with
      | none => .error (.badRequest "malformed header")
      | some (name, value) => readHeaders lines (entries ++ [⟨Text.trim name, Text.trim value⟩])

def parseHeaders (lines : Text) : Except HttpError Headers :=
  if lines.isEmpty then .ok ⟨[]⟩
  else (readHeaders (Text.splitStr crlf lines) []).map Headers.mk

/-- `a + b` on lengths. -/
def addLengths (trap : Bool) (a b : ℕ) : Option ℕ :=
  if trap = true ∧ 2 ^ 64 ≤ a + b then none else some ((a + b) % 2 ^ 64)

/-- The data of a chunk, appended to the body, and what follows it. -/
def readChunk (trap : Bool) (body : Bytes) (chunkSize : ℕ) (rest : Text) :
    Option (Except HttpError (Bytes × Text)) := do
  let total ← addLengths trap body.length chunkSize
  if maxBodySize < total then return .error .payloadTooLarge
  let stop ← addLengths trap chunkSize 2
  if Text.utf8Len rest < stop then return .error (.badRequest "truncated chunk data")
  let data ← Text.splitAtByte chunkSize rest
  let next ← Text.splitAtByte stop rest
  return .ok (body ++ Text.asBytes data.1, next.2)

/-- The loop of `decode_chunked_body`. Every round consumes a line end. -/
def readChunks (trap : Bool) :
    (fuel : ℕ) → (body : Bytes) → (remaining : Text) → Option (Except HttpError Bytes)
  | 0, _, _ => none
  | fuel + 1, body, remaining =>
    match Text.splitOnceStr crlf remaining with
    | none => some (.error (.badRequest "truncated chunk size"))
    | some (sizeLine, rest) =>
      match Text.parseUsize 16 (Text.trim sizeLine) with
      | none => some (.error (.badRequest "invalid chunk size"))
      | some chunkSize =>
        if chunkSize = 0 then some (.ok body)
        else
          match readChunk trap body chunkSize rest with
          | none => none
          | some (.error e) => some (.error e)
          | some (.ok (body, remaining)) => readChunks trap fuel body remaining

def decodeChunkedBody (trap : Bool) (data : Text) : Option (Except HttpError Bytes) :=
  readChunks trap (data.length + 1) [] data

/-- The request line and the headers, with the position and the text behind them. -/
structure Head where
  method : Method
  uri : Text
  headers : Headers
  consumed : ℕ
  remaining : Text

/-- `parse_request` up to the body. -/
def parseHead (buf : Text) : Except HttpError Head :=
  match Text.splitOnceStr (crlf ++ crlf) buf with
  | none => .error (.badRequest "incomplete headers")
  | some (headerSection, remaining) =>
    match Text.splitOnceStr crlf headerSection with
    | none => .error (.badRequest "no request line")
    | some (requestLine, headerLines) =>
      if maxRequestLine < Text.utf8Len requestLine then .error .uriTooLong
      else do
        let (method, uri, _) ← parseRequestLine requestLine
        let headers ← parseHeaders headerLines
        return { method, uri, headers, consumed := Text.utf8Len headerSection + 4, remaining }

/-- The body that the headers announce. -/
def readBody (trap : Bool) (headers : Headers) (remaining : Text) :
    Option (Except HttpError Bytes) :=
  if headers.isChunked then decodeChunkedBody trap remaining
  else
    match headers.contentLength with
    | none => some (.ok [])
    | some len =>
      if maxBodySize < len then some (.error .payloadTooLarge)
      else if Text.utf8Len remaining < len then some (.error (.badRequest "incomplete body"))
      else (Text.splitAtByte len remaining).map fun cut => .ok (Text.asBytes cut.1)

def parseRequest (trap : Bool) (buf : Text) : Option (Except HttpError (Request × ℕ)) :=
  match parseHead buf with
  | .error e => some (.error e)
  | .ok head => (readBody trap head.headers head.remaining).map fun body =>
      body.map fun body =>
        ({ method := head.method, uri := head.uri, headers := head.headers, body }, head.consumed)

section Chunks

/-- A size of a chunk that is not the last, and what stands behind its line. -/
def SizeAhead (remaining : Text) (n : ℕ) (rest : Text) : Prop :=
  ∃ sizeLine, Text.splitOnceStr crlf remaining = some (sizeLine, rest) ∧
    Text.parseUsize 16 (Text.trim sizeLine) = some n ∧ n ≠ 0

/-- Whole chunks in front of a text, with the sum of their sizes. Two bytes are skipped behind
each, whatever they are. -/
inductive ChunksAhead : (total : ℕ) → (data : Text) → (total' : ℕ) → (remaining : Text) → Prop
  | none (total : ℕ) (data : Text) : ChunksAhead total data total data
  | chunk {total n total' : ℕ} {data payload skipped rest remaining : Text} :
    SizeAhead data n (payload ++ skipped ++ rest) → Text.utf8Len payload = n →
      Text.utf8Len skipped = 2 → total + n ≤ maxBodySize →
      ChunksAhead (total + n) rest total' remaining → ChunksAhead total data total' remaining

/-- The sum with the next size is in range, and the cuts around the next chunk, if it is there,
fall between characters. -/
def ChunkFits (total n : ℕ) (rest : Text) : Prop :=
  total + n < 2 ^ 64 ∧ (total + n ≤ maxBodySize → n + 2 ≤ Text.utf8Len rest →
    Text.IsCharBoundary n rest ∧ Text.IsCharBoundary (n + 2) rest)

/-- Every chunk fits behind those in front of it. -/
def ChunksFit (total : ℕ) (data : Text) : Prop :=
  ∀ total' remaining n rest, ChunksAhead total data total' remaining → SizeAhead remaining n rest →
    ChunkFits total' n rest

theorem addLengths_of_lt {trap : Bool} {a b : ℕ} (h : a + b < 2 ^ 64) :
    addLengths trap a b = some (a + b) := by
  rw [addLengths, if_neg (fun hwrap => by omega), Nat.mod_eq_of_lt h]

theorem lt_of_addLengths {a b c : ℕ} (h : addLengths true a b = some c) :
    a + b < 2 ^ 64 ∧ c = a + b := by
  unfold addLengths at h
  split at h
  · cases h
  · next hfit =>
    have hlt : a + b < 2 ^ 64 := by simpa using hfit
    cases h
    exact ⟨hlt, Nat.mod_eq_of_lt hlt⟩

variable {trap : Bool} {body : Bytes} {n total : ℕ} {rest data : Text}

/-- A chunk that is there is read. -/
theorem readChunk_ok {payload skipped rest : Text} (hn : Text.utf8Len payload = n)
    (htwo : Text.utf8Len skipped = 2) (hmax : body.length + n ≤ maxBodySize) :
    readChunk trap body n (payload ++ skipped ++ rest) =
      some (.ok (body ++ Text.asBytes payload, rest)) := by
  have hsmall : maxBodySize < 2 ^ 63 := by decide
  have hdata : Text.splitAtByte n (payload ++ skipped ++ rest) = some (payload, skipped ++ rest) :=
    Text.splitAtByte_eq_some_iff.mpr ⟨List.append_assoc _ _ _, hn⟩
  have hnext : Text.splitAtByte (n + 2) (payload ++ skipped ++ rest) =
      some (payload ++ skipped, rest) := by
    rw [Text.splitAtByte_eq_some_iff, Text.utf8Len_append, hn, htwo]
    exact ⟨rfl, rfl⟩
  have hlong : ¬ Text.utf8Len (payload ++ skipped ++ rest) < n + 2 := by
    rw [Text.utf8Len_append, Text.utf8Len_append]
    omega
  simp only [readChunk, addLengths_of_lt (show body.length + n < 2 ^ 64 by omega),
    addLengths_of_lt (show n + 2 < 2 ^ 64 by omega), Option.bind_eq_bind, Option.bind_some,
    if_neg (not_lt.mpr hmax), if_neg hlong, hdata, hnext]
  rfl

theorem readChunk_of_fits (trap : Bool) (h : ChunkFits body.length n rest) :
    (∃ e, readChunk trap body n rest = some (.error e)) ∨
      ∃ payload skipped rest', rest = payload ++ skipped ++ rest' ∧ Text.utf8Len payload = n ∧
        Text.utf8Len skipped = 2 ∧ body.length + n ≤ maxBodySize := by
  have hsmall : maxBodySize < 2 ^ 63 := by decide
  by_cases hmax : maxBodySize < body.length + n
  · left
    refine ⟨.payloadTooLarge, ?_⟩
    simp only [readChunk, addLengths_of_lt h.1, Option.bind_eq_bind, Option.bind_some, if_pos hmax]
    rfl
  by_cases hlong : Text.utf8Len rest < n + 2
  · left
    refine ⟨.badRequest "truncated chunk data", ?_⟩
    simp only [readChunk, addLengths_of_lt h.1, Option.bind_eq_bind, Option.bind_some, if_neg hmax,
      addLengths_of_lt (show n + 2 < 2 ^ 64 by omega), if_pos hlong]
    rfl
  · right
    obtain ⟨⟨payload, back, hfront, hn⟩, both, rest', hboth, htwo⟩ :=
      h.2 (not_lt.mp hmax) (not_lt.mp hlong)
    -- both cuts are of one text, so the shorter front is in front of the longer
    rw [hfront] at hboth
    rcases List.append_eq_append_iff.mp hboth with ⟨skipped, rfl, hback⟩ | ⟨more, rfl, -⟩
    · refine ⟨payload, skipped, rest', ?_, hn, ?_, not_lt.mp hmax⟩
      · rw [hfront, hback, List.append_assoc]
      · rw [Text.utf8Len_append] at htwo
        omega
    · rw [Text.utf8Len_append] at hn
      omega

theorem fits_of_readChunk (h : (readChunk true body n rest).isSome) :
    ChunkFits body.length n rest := by
  obtain ⟨result, h⟩ := Option.isSome_iff_exists.mp h
  simp only [readChunk, Option.bind_eq_bind, Option.bind_eq_some_iff] at h
  obtain ⟨total, hadd, h⟩ := h
  obtain ⟨hfit, rfl⟩ := lt_of_addLengths hadd
  refine ⟨hfit, ?_⟩
  intro hmax hlong
  rw [if_neg (not_lt.mpr hmax)] at h
  simp only [Option.pure_def, Option.bind_eq_some_iff] at h
  obtain ⟨stop, hstop, h⟩ := h
  obtain ⟨-, rfl⟩ := lt_of_addLengths hstop
  rw [if_neg (not_lt.mpr hlong)] at h
  simp only [Option.bind_eq_some_iff] at h
  obtain ⟨data, hdata, next, hnext, -⟩ := h
  exact ⟨Text.splitAtByte_isSome_iff.mp (Option.isSome_of_mem hdata),
    Text.splitAtByte_isSome_iff.mp (Option.isSome_of_mem hnext)⟩

theorem chunksFit_iff : ChunksFit total data ↔ ∀ n rest, SizeAhead data n rest →
    ChunkFits total n rest ∧ ∀ payload skipped rest', rest = payload ++ skipped ++ rest' →
      Text.utf8Len payload = n → Text.utf8Len skipped = 2 → total + n ≤ maxBodySize →
        ChunksFit (total + n) rest' := by
  constructor
  · intro h n rest hsize
    refine ⟨h _ _ _ _ (.none total data) hsize, ?_⟩
    rintro payload skipped rest' rfl hn htwo hmax total' remaining m rest hchunks
    exact h _ _ _ _ (.chunk hsize hn htwo hmax hchunks)
  · intro h total' remaining m rest hchunks hsize
    cases hchunks with
    | none => exact (h m rest hsize).1
    | chunk hfirst hn htwo hmax hchunks =>
      exact (h _ _ hfirst).2 _ _ _ rfl hn htwo hmax _ _ _ _ hchunks hsize

theorem readChunks_of_sizeAhead {fuel : ℕ} (h : SizeAhead data n rest) :
    readChunks trap (fuel + 1) body data =
      match readChunk trap body n rest with
      | none => none
      | some (.error e) => some (.error e)
      | some (.ok (body, remaining)) => readChunks trap fuel body remaining := by
  obtain ⟨sizeLine, hline, hsize, hn⟩ := h
  simp only [readChunks, hline, hsize, if_neg hn]

theorem readChunks_of_not_sizeAhead {fuel : ℕ} (h : ∀ n rest, ¬ SizeAhead data n rest) :
    (readChunks trap (fuel + 1) body data).isSome := by
  cases hline : Text.splitOnceStr crlf data with
  | none => simp only [readChunks, hline, Option.isSome_some]
  | some cut =>
    obtain ⟨sizeLine, rest⟩ := cut
    cases hsize : Text.parseUsize 16 (Text.trim sizeLine) with
    | none => simp only [readChunks, hline, hsize, Option.isSome_some]
    | some n =>
      by_cases hn : n = 0
      · simp [readChunks, hline, hsize, if_pos hn]
      · exact absurd ⟨sizeLine, hline, hsize, hn⟩ (h n rest)

theorem SizeAhead.length_lt (h : SizeAhead data n rest) : rest.length < data.length := by
  obtain ⟨sizeLine, hline, -, -⟩ := h
  rw [Text.splitOnceStr_eq_some hline]
  simp only [List.length_append, crlf, List.length_cons, List.length_nil]
  omega

theorem length_asBytes_of_utf8Len (body : Bytes) {payload : Text} (h : Text.utf8Len payload = n) :
    (body ++ Text.asBytes payload).length = body.length + n := by
  rw [List.length_append, ← h, Text.utf8Len]

/-- Chunks that fit are read to an end. The measure is the text that is left. -/
theorem readChunks_isSome {fuel : ℕ} (hfuel : data.length < fuel)
    (h : ChunksFit body.length data) : (readChunks trap fuel body data).isSome := by
  induction fuel generalizing body data with
  | zero => cases hfuel
  | succ fuel ih =>
    by_cases hahead : ∃ n rest, SizeAhead data n rest
    · obtain ⟨n, rest, hsize⟩ := hahead
      obtain ⟨hfits, hnext⟩ := chunksFit_iff.mp h n rest hsize
      rw [readChunks_of_sizeAhead hsize]
      rcases readChunk_of_fits trap hfits with
        ⟨e, herror⟩ | ⟨payload, skipped, rest', rfl, hn, htwo, hmax⟩
      · simp [herror]
      · simp only [readChunk_ok hn htwo hmax]
        apply ih
        · have hshort := hsize.length_lt
          simp only [List.length_append] at hshort
          omega
        · rw [length_asBytes_of_utf8Len _ hn]
          exact hnext _ _ _ rfl hn htwo hmax
    · exact readChunks_of_not_sizeAhead (by simpa using hahead)

theorem fits_of_readChunks {fuel : ℕ} (h : (readChunks true fuel body data).isSome) :
    ChunksFit body.length data := by
  induction fuel generalizing body data with
  | zero => cases h
  | succ fuel ih =>
    rw [chunksFit_iff]
    intro n rest hsize
    rw [readChunks_of_sizeAhead hsize] at h
    have hchunk : (readChunk true body n rest).isSome := by
      cases hresult : readChunk true body n rest with
      | none => simp [hresult] at h
      | some result => rfl
    refine ⟨fits_of_readChunk hchunk, ?_⟩
    rintro payload skipped rest' rfl hn htwo hmax
    simp only [readChunk_ok hn htwo hmax] at h
    rw [← length_asBytes_of_utf8Len _ hn]
    exact ih h

end Chunks

/-- The body that is announced can be cut out: its chunks fit, or its length, if so much is
there, falls between two characters. -/
def BodyFits (headers : Headers) (remaining : Text) : Prop :=
  if headers.isChunked then ChunksFit 0 remaining
  else ∀ len, headers.contentLength = some len → len ≤ maxBodySize →
    len ≤ Text.utf8Len remaining → Text.IsCharBoundary len remaining

theorem readBody_isSome_iff (headers : Headers) (remaining : Text) :
    (∀ trap, (readBody trap headers remaining).isSome) ↔ BodyFits headers remaining := by
  unfold readBody BodyFits
  by_cases hchunked : headers.isChunked
  · simp only [hchunked, if_true, decodeChunkedBody]
    constructor
    · intro h
      exact fits_of_readChunks (h true)
    · intro h trap
      exact readChunks_isSome (Nat.lt_succ_self _) h
  · simp only [hchunked, Bool.false_eq_true, if_false, forall_const]
    cases hlen : headers.contentLength with
    | none => simp
    | some len =>
      by_cases hmax : maxBodySize < len
      · simp [hmax]
      · by_cases hlong : Text.utf8Len remaining < len
        · simp [hmax, hlong]
        · simp [hmax, hlong, Text.splitAtByte_isSome_iff, not_lt.mp hmax, not_lt.mp hlong]

/-- The parser returns, in every build, just if the body that the head of the buffer announces
can be cut out of what stands behind the head. -/
theorem parseRequest_returns_iff (buf : Text) :
    (∀ trap, (parseRequest trap buf).isSome) ↔
      ∀ head, parseHead buf = .ok head → BodyFits head.headers head.remaining := by
  cases hhead : parseHead buf with
  | error e => simp [parseRequest, hhead]
  | ok head =>
    simp only [parseRequest, hhead, Option.isSome_map, readBody_isSome_iff, Except.ok.injEq,
      forall_eq']

/-- One byte of a letter that has two. -/
def halfLetter : Text := "POST / HTTP/1.1\r\nContent-Length: 1\r\n\r\né".toList

/-- A second chunk whose size brings the sum to `2 ^ 64`. -/
def wrappingSizes : Text :=
  "POST / HTTP/1.1\r\nTransfer-Encoding: chunked\r\n\r\n1\r\na\r\nffffffffffffffff\r\n".toList

theorem body_cut_inside_letter : parseRequest true halfLetter = none ∧
    parseRequest false halfLetter = none ∧ parseRequest true wrappingSizes = none := by
  decide +kernel

end Desmos.Http

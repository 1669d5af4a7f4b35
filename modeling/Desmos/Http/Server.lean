import Desmos.Http.Request
import Desmos.Http.Response
import Desmos.Library.ByteStream

/-! # The connection loop

A request is read into a buffer of its own: first until the head has ended, then up to the
length that the head is found to announce. What was read beyond the request is dropped with
the buffer.
-/
namespace Desmos.Http
open Library Desmos.Core

abbrev TcpStream := ByteStream IoError

def maxHeaderBuf : ℕ := 64 * 1024

/-- The end of a head is somewhere in the bytes. -/
def hasHeadEnd (bytes : Bytes) : Bool :=
  bytes.tails.any fun window => [0x0d, 0x0a, 0x0d, 0x0a].isPrefixOf window

/-- Read until the head has ended. The buffer is doubled when it is full. Every round reads
something, so that there are no more rounds than bytes. -/
def readHeader : (fuel : ℕ) → (size : ℕ) → (filled : Bytes) → TcpStream →
    Except HttpError (Bytes × TcpStream)
  | 0, _, _, _ => .error .headerTooLong
  | fuel + 1, size, filled, stream =>
    if maxHeaderBuf ≤ filled.length then .error .headerTooLong
    else
      match stream.read (size - filled.length) with
      | .error e => if e.kind = .wouldBlock ∨ e.kind = .timedOut then .error .timeout else .error (.io e)
      | .ok ([], _) => .error .connectionClosed
      | .ok (data, stream) =>
        let filled := filled ++ data
        if hasHeadEnd filled then .ok (filled, stream)
        else readHeader fuel (if filled.length = size then size * 2 else size) filled stream

/-- The length behind the first `content-length:` in what has been read. Small letters take the
place of capital ones, so that positions are the same. -/
def peekContentLength (headerStr : Text) : Option ℕ :=
  match Text.splitOnceStr "content-length:".toList (Text.toAsciiLowercase headerStr) with
  | none => none
  | some (front, _) =>
    match Text.splitOnceStr crlf (headerStr.drop (front.length + 15)) with
    | none => none
    | some (value, _) => Text.parseUsize 10 (Text.trim value)

/-- Read up to a total. -/
def readUpTo (total : ℕ) : (fuel : ℕ) → (filled : Bytes) → TcpStream →
    Except HttpError (Bytes × TcpStream)
  | 0, filled, stream => .ok (filled, stream)
  | fuel + 1, filled, stream =>
    if total ≤ filled.length then .ok (filled, stream)
    else
      match stream.read (total - filled.length) with
      | .error e => if e.kind = .timedOut then .error .timeout else .error (.io e)
      | .ok ([], _) => .error .connectionClosed
      | .ok (data, stream) => readUpTo total fuel (filled ++ data) stream

/-- Read the body of the peeked length; nothing if the end of the head is not found. -/
def awaitBody (headerStr : Text) (filled : Bytes) (stream : TcpStream) :
    Option (Except HttpError (Bytes × TcpStream)) :=
  match peekContentLength headerStr with
  | none => some (.ok (filled, stream))
  | some contentLen =>
    if maxBodySize < contentLen then some (.error .payloadTooLarge)
    else
      match Text.splitOnceStr (crlf ++ crlf) headerStr with
      | none => none
      | some (headerSection, _) =>
        let totalNeeded := Text.utf8Len headerSection + 4 + contentLen
        some (readUpTo totalNeeded totalNeeded filled stream)

/-- `read_and_respond` up to the call of the handler. -/
def readRequest (trap : Bool) (stream : TcpStream) :
    Option (Except HttpError (Request × TcpStream)) :=
  match readHeader (maxHeaderBuf + 1) 4096 [] stream with
  | .error e => some (.error e)
  | .ok (filled, stream) =>
    match Text.fromUtf8 filled with
    | none => some (.error (.badRequest "non-UTF-8 in headers"))
    | some headerStr =>
      match awaitBody headerStr filled stream with
      | none => none
      | some (.error e) => some (.error e)
      | some (.ok (filled, stream)) =>
        match Text.fromUtf8 filled with
        | none => some (.error (.badRequest "non-UTF-8 in request"))
        | some fullStr =>
          (parseRequest trap fullStr).map fun result => result.map fun parsed => (parsed.1, stream)

/-- The answer to a handler's requests, given those before. -/
abbrev Handler := (calls : List Request) → Request → Response

def errorToResponse : HttpError → Response
  | .badRequest msg => .badRequest msg
  | .payloadTooLarge => (Response.new 413).bodyText "Payload Too Large"
  | .uriTooLong => (Response.new 414).bodyText "URI Too Long"
  | .tooManyHeaders => .badRequest "header limits exceeded"
  | .headerTooLong => .badRequest "header limits exceeded"
  | _ => .internalError

/-- The calls of the handler and the answers on the wire. -/
structure Dialogue where
  calls : List Request
  sent : List Response

/-- The loop of `handle_connection`. A dialogue that a panic ends is what it was before. -/
def converse (trap : Bool) (handler : Handler) : (fuel : ℕ) → Dialogue → TcpStream → Dialogue
  | 0, d, _ => d
  | fuel + 1, d, stream =>
    match readRequest trap stream with
    | none => d
    | some (.error .timeout) => d
    | some (.error .connectionClosed) => d
    | some (.error e) => { d with sent := d.sent ++ [errorToResponse e] }
    | some (.ok (req, stream)) =>
      let response := handler d.calls req
      let d := { calls := d.calls ++ [req], sent := d.sent ++ [response] }
      let keepAlive := req.headers.isKeepAlive && !req.headers.isClose
      if response.status = 101 ∨ ¬ keepAlive then d else converse trap handler fuel d stream

/-- A connection from its start. Every round takes a byte. -/
def handleConnection (trap : Bool) (handler : Handler) (stream : TcpStream) : Dialogue :=
  converse trap handler (stream.segments.flatten.length + 1) ⟨[], []⟩ stream

end Desmos.Http

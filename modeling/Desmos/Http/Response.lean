import Desmos.Library.TextSearch

/-! # Responses -/
namespace Desmos.Http
open Library

/-- An answer with its status code. -/
structure Response where
  status : ℕ
  headers : List (Text × Text)
  body : Bytes
  deriving DecidableEq

namespace Response

def new (status : ℕ) : Response := { status, headers := [], body := [] }

variable (r : Response)

def setContentTypeIfMissing (contentType : String) : Response :=
  if r.headers.any fun h => Text.eqIgnoreAsciiCase h.1 "content-type".toList then r
  else { r with headers := r.headers ++ [("Content-Type".toList, contentType.toList)] }

def bodyText (text : String) : Response :=
  { r with body := Text.asBytes text.toList }.setContentTypeIfMissing "text/plain; charset=utf-8"

def bodyJson (json : Text) : Response :=
  { r with body := Text.asBytes json }.setContentTypeIfMissing "application/json"

def ok : Response := new 200

def badRequest (msg : String) : Response := (new 400).bodyText msg

def internalError : Response := (new 500).bodyText "Internal Server Error"

@[simp] theorem status_setContentTypeIfMissing (contentType : String) :
    (r.setContentTypeIfMissing contentType).status = r.status := by
  unfold setContentTypeIfMissing
  split <;> rfl

@[simp] theorem status_bodyJson (json : Text) : (r.bodyJson json).status = r.status :=
  status_setContentTypeIfMissing _ _

@[simp] theorem status_badRequest (msg : String) : (badRequest msg).status = 400 :=
  status_setContentTypeIfMissing _ _

end Response

end Desmos.Http

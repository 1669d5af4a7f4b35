import Desmos.Core.Config.Schema
import Desmos.Http.Json.RoundTrip
import Desmos.Http.Response

/-! # Envelopes of the API

Every answer of the API is a JSON object with the data or the error and a stamp. The stamp
comes from a counter and the clock; what the standard library does with numbers and
characters is a parameter.
-/
namespace Desmos.Webui
open Library Http Http.Json

/-- What the handlers use of the standard library. -/
structure Api (F : Type) where
  doubles : Doubles F
  /-- `u64 as f64`. -/
  asF64 : ℕ → F
  parseF64 : Core.ParseF64
  debugChar : Char → String

/-- The API with integers in place of the doubles. -/
def integerApi : Api ℤ :=
  { doubles := integers, asF64 := fun n => n, parseF64 := fun _ => none
    debugChar := fun c => c.toString }

/-- What the request counter and the clock have at the moment of the answer. -/
structure Stamp where
  requestId : ℕ
  nowUs : ℕ

variable {F : Type}

def objectOf (entries : List (String × Value F)) : Value F :=
  .object (entries.foldl (fun m e => SortedMap.insertEntry e.1.toList e.2 m) [])

def text (s : String) : Value F := .string s.toList

def nextRequestId (stamp : Stamp) : Text :=
  let digits := Nat.toDigits 16 stamp.requestId
  '0' :: 'x' :: (List.replicate (8 - digits.length) '0' ++ digits)

variable (api : Api F)

def metaObject (stamp : Stamp) : Value F :=
  objectOf [("request_id", .string (nextRequestId stamp)),
    ("generated_at_us", .number (api.asF64 stamp.nowUs))]

def successEnvelope (stamp : Stamp) (data : Value F) : Text :=
  encode api.doubles (objectOf [("data", data), ("meta", metaObject api stamp)])

def errorEnvelopeWithDetails (stamp : Stamp) (code message : String)
    (details : Option (Value F)) : Text :=
  let err := [("code", text code), ("message", text message)] ++
    (details.map fun d => ("details", d)).toList
  encode api.doubles (objectOf [("error", objectOf err), ("meta", metaObject api stamp)])

def errorEnvelope (stamp : Stamp) (code message : String) : Text :=
  errorEnvelopeWithDetails api stamp code message none

def refuse (stamp : Stamp) (code message short : String) : Response :=
  (Response.badRequest short).bodyJson (errorEnvelope api stamp code message)

@[simp] theorem status_refuse (stamp : Stamp) (code message short : String) :
    (refuse api stamp code message short).status = 400 := by
  rw [refuse, Response.status_bodyJson, Response.status_badRequest]

end Desmos.Webui

import Desmos.Http.Request
import Desmos.Http.Response

/-! # The router

A table of routes, each with a method, a pattern, middleware and a handler. `dispatch` answers with
the handler that it calls last and the values of the path it calls it with.
-/
namespace Desmos.Http
open Library

namespace Response

def notFound : Response := (new 404).bodyText "Not Found"

def methodNotAllowed : Response := (new 405).bodyText "Method Not Allowed"

end Response

/-- The path of the URI, in front of the query. -/
def Request.path (req : Request) : Text := req.uri.takeWhile (· ≠ '?')

inductive Segment where
  | literal (s : Text)
  | param (name : Text)

abbrev Params := List (Text × Text)

/-- A middleware that answers ends the request. The outer `none` is a stop of the program. -/
abbrev Middleware := Request → Option (Option Response)

structure Route (H : Type) where
  method : Method
  pattern : List Segment
  middleware : List Middleware
  handler : H

def splitPath (path : Text) : List Text := (path.splitOn '/').filter (· ≠ [])

def parsePattern (path : Text) : List Segment :=
  (splitPath path).map fun
    | ':' :: name => .param name
    | s => .literal s

/-- Pattern and path have one length, or the recursion meets the end of one of them. -/
def matchPattern : List Segment → List Text → Option Params
  | [], [] => some []
  | .literal lit :: pattern, value :: segments =>
    if lit ≠ value then none else matchPattern pattern segments
  | .param name :: pattern, value :: segments =>
    if value = [] then none else (matchPattern pattern segments).map ((name, value) :: ·)
  | _, _ => none

def runChain : List Middleware → Middleware
  | [], _ => some none
  | mw :: chain, req =>
    match mw req with
    | some none => runChain chain req
    | answer => answer

theorem runChain_singleton (mw : Middleware) (req : Request) : runChain [mw] req = mw req := by
  rw [runChain]
  split
  · next h => exact h.symm
  · rfl

section Dispatch
variable {H : Type} {req : Request} {params : Params}

/-- The loop of `dispatch`; the flag says that a path has matched. -/
def dispatchLoop (req : Request) (pathMatched : Bool) :
    List (Route H) → Option (Except Response (H × Params))
  | [] => some (.error (if pathMatched then .methodNotAllowed else .notFound))
  | route :: routes =>
    match matchPattern route.pattern (splitPath req.path) with
    | none => dispatchLoop req pathMatched routes
    | some params =>
      if route.method ≠ req.method then dispatchLoop req true routes
      else (runChain route.middleware req).map fun
        | some resp => .error resp
        | none => .ok (route.handler, params)

def dispatch (routes : List (Route H)) (req : Request) : Option (Except Response (H × Params)) :=
  dispatchLoop req false routes

/-- The pattern of the route is for the path of the request. -/
def Route.Fits (route : Route H) (req : Request) : Prop :=
  (matchPattern route.pattern (splitPath req.path)).isSome

/-- A handler is called behind middleware that lets the request pass. -/
theorem exists_route_of_dispatchLoop {routes : List (Route H)} {pathMatched : Bool} {handler : H}
    (h : dispatchLoop req pathMatched routes = some (.ok (handler, params))) :
    ∃ route ∈ routes, route.handler = handler ∧ route.Fits req ∧
      runChain route.middleware req = some none := by
  fun_induction dispatchLoop req pathMatched routes with
  | case1 => cases h
  | case2 _ route routes hm ih =>
    obtain ⟨r, hr, hrest⟩ := ih h
    exact ⟨r, List.mem_cons_of_mem route hr, hrest⟩
  | case3 _ route routes params' hm hmethod ih =>
    obtain ⟨r, hr, hrest⟩ := ih h
    exact ⟨r, List.mem_cons_of_mem route hr, hrest⟩
  | case4 _ route routes params' hm hmethod =>
    obtain ⟨answer, hchain, hanswer⟩ := Option.map_eq_some_iff.mp h
    cases answer with
    | some resp => cases hanswer
    | none =>
      cases hanswer
      exact ⟨route, List.mem_cons_self, rfl, by simp [Route.Fits, hm], hchain⟩

end Dispatch

end Desmos.Http

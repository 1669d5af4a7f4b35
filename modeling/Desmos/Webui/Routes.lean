import Desmos.Http.BasicAuth.Codec
import Desmos.Http.Router

/-! # The routes of the web interface

All routes but those of health, version and the page itself ask for credentials. What they are
compared with stands in a cell that the first router of the process fills.
-/
namespace Desmos.Http

def Response.unauthorized : Response :=
  { new 401 with headers := [("WWW-Authenticate".toList, "Basic realm=\"desmos\"".toList)] }.bodyText
    "Unauthorized"

def checkBasicAuth (pbkdf2 : Pbkdf2) (config : AuthConfig) : Middleware := fun req =>
  match req.headers.get "authorization" with
  | none => some (some .unauthorized)
  | some header =>
    match decodeBasicAuth (String.ofList header) with
    | none => some (some .unauthorized)
    | some (user, pass) =>
      (verifyCredentials pbkdf2 config user pass).map fun passed =>
        if passed then none else some .unauthorized

end Desmos.Http

namespace Desmos.Webui
open Library Http

inductive Endpoint where
  | health | version | status | interfaces | bonding | stats | clients | config | logs
  | updateInterface | setStrategy | putConfig | kick | wsStats | wsLogs | spaRoot | spaStatic
  deriving DecidableEq

def Endpoint.isPublic (e : Endpoint) : Bool := e ∈ [health, version, spaRoot, spaStatic]

def publicPaths : List Text := ["/api/v1/health".toList, "/api/v1/version".toList]

/-- The routes that are registered with the middleware, in their order. -/
def guardedRoutes : List (Method × String × Endpoint) :=
  [(.get, "/api/v1/status", .status), (.get, "/api/v1/interfaces", .interfaces),
    (.get, "/api/v1/bonding", .bonding), (.get, "/api/v1/stats", .stats),
    (.get, "/api/v1/clients", .clients), (.get, "/api/v1/config", .config),
    (.get, "/api/v1/logs", .logs), (.put, "/api/v1/interfaces/:name", .updateInterface),
    (.put, "/api/v1/bonding/strategy", .setStrategy), (.put, "/api/v1/config", .putConfig),
    (.delete, "/api/v1/clients/:session_id", .kick), (.get, "/api/v1/ws/stats", .wsStats),
    (.get, "/api/v1/ws/logs", .wsLogs)]

section Routes
variable (pbkdf2 : Pbkdf2)

def authGate (config : AuthConfig) : Middleware := fun req =>
  if req.path ∈ publicPaths then some none else checkBasicAuth pbkdf2 config req

/-- The cell is read when the request is there. -/
def authMiddleware (cell : Option AuthConfig) : Middleware := fun req =>
  match cell with
  | none => some (some .internalError)
  | some config => authGate pbkdf2 config req

def buildRouter (cell : Option AuthConfig) : List (Route Endpoint) :=
  let get (path : String) (handler : Endpoint) : Route Endpoint :=
    ⟨.get, parsePattern path.toList, [], handler⟩
  [get "/api/v1/health" .health, get "/api/v1/version" .version] ++
    (guardedRoutes.map fun r =>
      ⟨r.1, parsePattern r.2.1.toList, [authMiddleware pbkdf2 cell], r.2.2⟩) ++
    [get "/" .spaRoot, get "/assets/:file" .spaStatic]

/-- The cell after routers have been built: a cell that is full is not written again. -/
def cellAfter (builds : List AuthConfig) : Option AuthConfig :=
  builds.foldl (fun cell config => some (cell.getD config)) none

theorem cellAfter_eq_head? (builds : List AuthConfig) : cellAfter builds = builds.head? := by
  have hfold : ∀ cell : Option AuthConfig,
      builds.foldl (fun cell config => some (cell.getD config)) cell = cell.or builds.head? := by
    induction builds with
    | nil => simp
    | cons config builds ih =>
      intro cell
      rw [List.foldl_cons, ih]
      cases cell <;> rfl
  rw [cellAfter, hfold, Option.none_or]

theorem guarded_not_public : ∀ r ∈ guardedRoutes, ∀ path ∈ publicPaths,
    matchPattern (parsePattern r.2.1.toList) (splitPath path) = none := by
  decide +kernel

/-- The request names a user and a password that pass the check. -/
def HasCredentials (config : AuthConfig) (req : Request) : Prop :=
  ∃ header user pass, req.headers.get "authorization" = some header ∧
    decodeBasicAuth (String.ofList header) = some (user, pass) ∧
    verifyCredentials pbkdf2 config user pass = some true

theorem hasCredentials_of_authMiddleware {cell : Option AuthConfig} {req : Request}
    (h : authMiddleware pbkdf2 cell req = some none) (hpath : req.path ∉ publicPaths) :
    ∃ config, cell = some config ∧ HasCredentials pbkdf2 config req := by
  unfold authMiddleware at h
  split at h
  · cases h
  · next config =>
    rw [authGate, if_neg hpath, checkBasicAuth] at h
    split at h
    · cases h
    · next header hheader =>
      split at h
      · cases h
      · next user pass hdecode =>
        obtain ⟨passed, hpassed, hanswer⟩ := Option.map_eq_some_iff.mp h
        cases passed with
        | false => cases hanswer
        | true => exact ⟨config, rfl, header, user, pass, hheader, hdecode, hpassed⟩

/-- No handler of a guarded route is called without credentials that pass the check against the
configuration of the first router of the process. -/
theorem guarded_needs_credentials (builds : List AuthConfig) (req : Request) (endpoint : Endpoint)
    (params : Params) (hguarded : endpoint.isPublic = false)
    (h : dispatch (buildRouter pbkdf2 (cellAfter builds)) req = some (.ok (endpoint, params))) :
    ∃ config, builds.head? = some config ∧ HasCredentials pbkdf2 config req := by
  obtain ⟨route, hroute, rfl, hfits, hchain⟩ := exists_route_of_dispatchLoop h
  rw [buildRouter, List.mem_append, List.mem_append] at hroute
  rcases hroute with (hroute | hroute) | hroute
  · simp only [List.mem_cons, List.not_mem_nil, or_false] at hroute
    rcases hroute with rfl | rfl <;> cases hguarded
  · obtain ⟨r, hr, rfl⟩ := List.mem_map.mp hroute
    rw [← cellAfter_eq_head?]
    apply hasCredentials_of_authMiddleware
    · rwa [runChain_singleton] at hchain
    · intro hpath
      rw [Route.Fits, guarded_not_public r hr _ hpath] at hfits
      cases hfits
  · simp only [List.mem_cons, List.not_mem_nil, or_false] at hroute
    rcases hroute with rfl | rfl <;> cases hguarded

end Routes

namespace Sample

def zeroHash : Pbkdf2 := fun _ _ _ n => .replicate n 0

def login : AuthConfig := ⟨"a", "$pbkdf2-sha256$i=1$$AA=="⟩

def statusRequest : Request where
  method := .get
  uri := "/api/v1//status?now".toList
  headers := ⟨[⟨"AUTHORIZATION".toList, "Basic YTpi".toList⟩]⟩
  body := []

end Sample

open Sample in
theorem status_behind_login :
    ∃ config, [login].head? = some config ∧ HasCredentials zeroHash config statusRequest := by
  apply guarded_needs_credentials zeroHash [login] statusRequest .status []
  · rfl
  · decide +kernel

end Desmos.Webui

import Desmos.Core.Daemon.Runner
import Desmos.Webui.Handlers.Config
import Mathlib.Data.Bool.AllAny

/-! # The strategy of a running client

Two requests speak about the bonding strategy: one writes the configuration, the other changes the
engine. Neither does the work of the other.
-/
namespace Desmos.Webui
open Library Http Desmos.Core

variable {F : Type}

def validStrategies : List String := ["round-robin", "weighted", "latency-adaptive", "redundant"]

/-- A new strategy of a name. There is no arm for other names. -/
def strategyNamed : String → Option BondingStrategy
  | "round-robin" => some (newStrategy (some .roundRobin))
  | "weighted" => some (newStrategy (some .weighted))
  | "latency-adaptive" => some (newStrategy (some .latencyAdaptive))
  | "redundant" => some (newStrategy (some .redundant))
  | _ => none

section
variable (api : Api F)

def switched (stamp : Stamp) (strategy : String) : Response :=
  Response.ok.bodyJson (successEnvelope api stamp
    (objectOf [("strategy", text strategy), ("applied", .bool true)]))

@[simp] theorem status_switched (stamp : Stamp) (strategy : String) :
    (switched api stamp strategy).status = 200 := by
  rfl

/-- `PUT /api/v1/bonding/strategy`; nothing if the arm that is marked unreachable is reached. -/
def setStrategy (stamp : Stamp) (body : Bytes) (context : Option Engine) :
    Option (Response × Option Engine) :=
  match Text.fromUtf8 body with
  | none => some (refuse api stamp "invalid_body" "Request body is not valid UTF-8" "invalid body",
      context)
  | some bodyStr =>
    match Json.decode api.doubles bodyStr with
    | .error e => some (refuse api stamp "invalid_json" ("Invalid JSON: " ++ e.display)
        "invalid json", context)
    | .ok bodyValue =>
      match (bodyValue.get "strategy".toList).bind Json.Value.asStr with
      | none => some (refuse api stamp "missing_strategy" "Field 'strategy' is required"
          "missing strategy", context)
      | some strategy =>
        let strategy := String.ofList strategy
        if ¬ validStrategies.contains strategy then
          some (refuse api stamp "invalid_strategy" ("Unknown strategy '" ++ strategy ++
            "'. Valid: " ++ ", ".intercalate validStrategies) "invalid strategy", context)
        else
          match context with
          | none => some (switched api stamp strategy, none)
          | some engine => (strategyNamed strategy).map fun newStrategy =>
              (switched api stamp strategy, some (engine.swapStrategy newStrategy))

/-- The configuration and the engine of a context. -/
structure RunningClient where
  config : Config
  engine : Engine

inductive ClientRequest where
  | putConfig (i : PutInput)
  | setStrategy (i : PutInput)

def clientApi : Machine RunningClient ClientRequest (Option Response) :=
  fun s request =>
    match request with
    | .putConfig i =>
      let (r, context) := put api i.stamp i.body (some s.config)
      (some r, { s with config := context.getD s.config })
    | .setStrategy i =>
      match setStrategy api i.stamp i.body (some s.engine) with
      | none => (none, s)
      | some (r, context) => (some r, { s with engine := context.getD s.engine })

def Successful (e : ClientRequest × Option Response) : Prop := ∃ r, e.2 = some r ∧ r.status = 200

theorem Successful.of_answer {request : ClientRequest} {answer : Option Response} {r : Response}
    (h : answer = some r) (hr : r.status = 200) : Successful (request, answer) := ⟨r, h, hr⟩

/-- The strategy is the configured one, and every link has the weight of its interface. -/
def Agrees (config : Config) (strategy : String) (links : List Link) : Prop :=
  ∃ client, config.client = some client ∧
    strategy = (newStrategy (some client.bondingStrategy)).name ∧
    ∀ link ∈ links, ∀ iface ∈ client.interfaces, iface.name = link.name → link.weight = iface.weight

def RunningClient.Follows (s : RunningClient) : Prop :=
  Agrees s.config s.engine.strategy.name s.engine.links.links

def carriedConfig (body : Bytes) : Option Config := do
  let bodyStr ← Text.fromUtf8 body
  let value ← (parse api.parseF64 bodyStr).toOption
  (Config.fromValue value).toOption

def namedStrategy (body : Bytes) : Option String := do
  let bodyStr ← Text.fromUtf8 body
  let value ← (Json.decode api.doubles bodyStr).toOption
  let strategy ← value.get "strategy".toList
  String.ofList <$> strategy.asStr

/-- The last configuration and the last strategy that were asked for. -/
structure Asked where
  config : Config
  strategy : String

def Asked.next (a : Asked) : ClientRequest → Asked
  | .putConfig i => { a with config := (carriedConfig api i.body).getD a.config }
  | .setStrategy i => { a with strategy := (namedStrategy api i.body).getD a.strategy }

end

def RunningClient.asked (s : RunningClient) : Asked := ⟨s.config, s.engine.strategy.name⟩

variable {name : String}

section Requests
variable {api : Api F} {stamp : Stamp} {body : Bytes}

theorem readConfig_ok {newConfig : Config} (h : readConfig api stamp body = .ok newConfig) :
    carriedConfig api body = some newConfig := by
  unfold readConfig at h
  split at h
  · cases h
  · next bodyStr hutf8 =>
    split at h
    · cases h
    · split at h
      · cases h
      · next value hparse =>
        split at h
        · cases h
        · next newConfig' hvalue =>
          cases h
          simp [carriedConfig, hutf8, hparse, hvalue, Except.toOption]

theorem put_ok {running : Config} (h : (put api stamp body (some running)).1.status = 200) :
    (put api stamp body (some running)).2 = carriedConfig api body := by
  unfold put at h ⊢
  cases hread : readConfig api stamp body with
  | error r =>
    rw [hread] at h
    exact absurd h (readConfig_refuses hread)
  | ok newConfig =>
    rw [hread] at h
    dsimp only at h ⊢
    cases hcompare : compareConfig api stamp (some running) newConfig with
    | error r =>
      rw [hcompare] at h
      exact absurd h (compareConfig_refuses hcompare)
    | ok d => rw [readConfig_ok hread]; rfl

theorem strategyNamed_name {s : BondingStrategy} (h : strategyNamed name = some s) :
    s.name = name := by
  unfold strategyNamed at h
  split at h <;> cases h <;> rfl

/-- The arm that is marked unreachable is. -/
theorem strategyNamed_isSome (h : name ∈ validStrategies) :
    (strategyNamed name).isSome := by
  simp only [validStrategies, List.mem_cons, List.not_mem_nil, or_false] at h
  rcases h with rfl | rfl | rfl | rfl <;> rfl

theorem setStrategy_ok {engine : Engine} {r : Response} {context : Option Engine}
    (h : setStrategy api stamp body (some engine) = some (r, context)) (hr : r.status = 200) :
    ∃ s, namedStrategy api body = some s.name ∧ context = some (engine.swapStrategy s) := by
  unfold setStrategy at h
  split at h
  · cases h
    simp at hr
  · next bodyStr hutf8 =>
    split at h
    · cases h
      simp at hr
    · next value hdecode =>
      split at h
      · cases h
        simp at hr
      · next strategy hstrategy =>
        dsimp only at h
        split at h
        · cases h
          simp at hr
        · rw [Option.map_eq_some_iff] at h
          obtain ⟨s, hs, hpair⟩ := h
          simp only [Prod.mk.injEq] at hpair
          refine ⟨s, ?_, hpair.2.symm⟩
          obtain ⟨field, hfield, hstr⟩ := Option.bind_eq_some_iff.mp hstrategy
          simp only [namedStrategy, hutf8, hdecode, Except.toOption, Option.bind_eq_bind,
            Option.bind_some, hfield, hstr, Option.map_eq_map, Option.map_some,
            strategyNamed_name hs]

theorem setStrategy_of_named (stamp : Stamp) (engine : Engine)
    (hnamed : namedStrategy api body = some name) (hvalid : name ∈ validStrategies) :
    ∃ s, s.name = name ∧ setStrategy api stamp body (some engine) =
      some (switched api stamp name, some (engine.swapStrategy s)) := by
  obtain ⟨s, hs⟩ := Option.isSome_iff_exists.mp (strategyNamed_isSome hvalid)
  refine ⟨s, strategyNamed_name hs, ?_⟩
  simp only [namedStrategy, Option.bind_eq_bind, Option.bind_eq_some_iff, Option.map_eq_map,
    Option.map_eq_some_iff] at hnamed
  obtain ⟨bodyStr, hutf8, value, hdecode, field, hfield, strategy, hstr, rfl⟩ := hnamed
  have hdecode : Json.decode api.doubles bodyStr = .ok value := by
    cases hresult : Json.decode api.doubles bodyStr with
    | error e => simp [hresult, Except.toOption] at hdecode
    | ok v => simpa [hresult, Except.toOption] using hdecode
  have hcontains : validStrategies.contains (String.ofList strategy) = true :=
    List.contains_iff_mem.mpr hvalid
  simp only [setStrategy, hutf8, hdecode, hfield, Option.bind_some, hstr, hcontains, not_true,
    if_false, hs, Option.map_some]

theorem clientApi_ok {s : RunningClient} {request : ClientRequest}
    (h : Successful (request, (clientApi api s request).1)) :
    (clientApi api s request).2.asked = s.asked.next api request ∧
      (clientApi api s request).2.engine.links = s.engine.links := by
  obtain ⟨r, hanswer, hr⟩ := h
  cases request with
  | putConfig i =>
    cases hanswer
    exact ⟨by simp only [clientApi, RunningClient.asked, Asked.next, put_ok hr], rfl⟩
  | setStrategy i =>
    cases hset : setStrategy api i.stamp i.body (some s.engine) with
    | none =>
      simp only [clientApi, hset] at hanswer
      cases hanswer
    | some pair =>
      obtain ⟨r', context⟩ := pair
      simp only [clientApi, hset, Option.some.injEq] at hanswer
      subst hanswer
      obtain ⟨strategy, hnamed, rfl⟩ := setStrategy_ok hset hr
      constructor
      · simp only [clientApi, hset, RunningClient.asked, Asked.next, hnamed, Option.getD_some]
        rfl
      · simp only [clientApi, hset, Option.getD_some]
        rfl

theorem clientApi_final {s : RunningClient} {requests : List ClientRequest}
    (h : ∀ e ∈ (clientApi api).trace s requests, Successful e) :
    ((clientApi api).final s requests).asked = requests.foldl (Asked.next api) s.asked ∧
      ((clientApi api).final s requests).engine.links = s.engine.links := by
  induction requests generalizing s with
  | nil => exact ⟨rfl, rfl⟩
  | cons request requests ih =>
    rw [Machine.trace_cons, List.forall_mem_cons] at h
    obtain ⟨hasked, hlinks⟩ := clientApi_ok h.1
    have hrest := ih h.2
    rw [hasked, hlinks] at hrest
    exact hrest

end Requests

/-- The engine follows the configuration behind each request of a run just if behind each the
last strategy and the last configuration that were asked for agree, and the weights of this
configuration are those that the links had before the first request. -/
theorem engine_follows_iff (api : Api F) (start : RunningClient) (requests : List ClientRequest)
    (hok : ∀ e ∈ (clientApi api).trace start requests, Successful e) :
    (∀ past request later, requests = past ++ request :: later →
        ((clientApi api).final start (past ++ [request])).Follows) ↔
      ∀ past request later, requests = past ++ request :: later →
        let asked := (past ++ [request]).foldl (Asked.next api) start.asked
        Agrees asked.config asked.strategy start.engine.links.links := by
  have hview : ∀ past request later, requests = past ++ request :: later →
      (((clientApi api).final start (past ++ [request])).Follows ↔
        let asked := (past ++ [request]).foldl (Asked.next api) start.asked
        Agrees asked.config asked.strategy start.engine.links.links) := by
    rintro past request later rfl
    have hpast : ∀ e ∈ (clientApi api).trace start (past ++ [request]), Successful e := by
      intro e he
      apply hok e
      rw [← List.singleton_append, ← List.append_assoc, Machine.trace_append]
      exact List.mem_append_left _ he
    obtain ⟨hasked, hlinks⟩ := clientApi_final hpast
    rw [← hasked, ← hlinks]
    rfl
  constructor
  · intro h past request later hcut
    exact (hview past request later hcut).mp (h past request later hcut)
  · intro h past request later hcut
    exact (hview past request later hcut).mpr (h past request later hcut)

namespace Sample

def clientConfig : Config :=
  { general := ⟨.client, .info, 1400⟩, server := none, webui := none, p2p := none
    client := some
      { server := "203.0.113.1:51820", serverPublicKey := "", privateKeyFile := "/etc/desmos/client.key"
        bondingStrategy := .latencyAdaptive, reorderWindowMs := 50, dnsLeakProtection := false
        dnsServers := [], interfaces := [⟨"eth0", 100, true⟩] } }

def client : RunningClient :=
  { config := clientConfig
    engine := .new (newStrategy (some .latencyAdaptive))
      ⟨buildLinks Core.Sample.listenAddr [⟨"eth0", 100, true⟩]
        [⟨1, ⟨Core.Sample.listenAddr, some "eth0"⟩⟩]⟩ }

def strategyBody (name : String) : Bytes :=
  Text.asBytes (Json.encode Json.integers (objectOf [("strategy", text name)]))

theorem decode_strategyBody (hascii : ∀ c ∈ name.toList, c.toNat < 128) :
    Json.decode Json.integers (Json.encode Json.integers (objectOf [("strategy", text name)])) =
      .ok (.object [("strategy".toList, .string name.toList)]) := by
  have hvalue : (objectOf [("strategy", text name)] : Json.Value ℤ) =
      .object [("strategy".toList, .string name.toList)] := rfl
  have hencodable : Json.Encodable id Json.maxDepth
      (.object [("strategy".toList, .string name.toList)] : Json.Value ℤ) := by
    refine .object (by simp) fun e he => ?_
    rw [List.mem_singleton.mp he]
    exact .string 31 _
  have htexts : ∀ s ∈ (Json.Value.object [("strategy".toList, .string name.toList)] :
      Json.Value ℤ).texts, ∀ c ∈ s, c.toNat < 128 := by
    intro s hs
    rcases List.mem_pair.mp (show s ∈ ["strategy".toList, name.toList] from hs) with rfl | rfl
    · exact List.all_iff_forall_prop.mp (by decide)
    · exact hascii
  rw [hvalue, Json.decode_encode Json.integers_exact hencodable,
    Json.readBack_of_ascii hencodable htexts]

theorem namedStrategy_strategyBody (hascii : ∀ c ∈ name.toList, c.toNat < 128) :
    namedStrategy integerApi (strategyBody name) = some name := by
  have hutf8 : Text.fromUtf8 (strategyBody name) = some _ := Text.fromUtf8_eq_some_iff.mpr rfl
  simp only [namedStrategy, hutf8, Option.bind_eq_bind, Option.bind_some, integerApi,
    decode_strategyBody hascii, Except.toOption]
  have hget : (Json.Value.object [("strategy".toList, .string name.toList)] : Json.Value ℤ).get
      "strategy".toList = some (.string name.toList) := rfl
  exact congrArg some (String.ofList_toList)

theorem setStrategy_successful (hascii : ∀ c ∈ name.toList, c.toNat < 128)
    (hvalid : name ∈ validStrategies) (s : RunningClient) :
    Successful (.setStrategy ⟨strategyBody name, ⟨1, 0⟩⟩,
      (clientApi integerApi s (.setStrategy ⟨strategyBody name, ⟨1, 0⟩⟩)).1) := by
  obtain ⟨strategy, -, hset⟩ := setStrategy_of_named ⟨1, 0⟩ s.engine
    (namedStrategy_strategyBody hascii) hvalid
  have hanswer : (clientApi integerApi s (.setStrategy ⟨strategyBody name, ⟨1, 0⟩⟩)).1 =
      some (switched integerApi ⟨1, 0⟩ name) := by simp only [clientApi, hset]
  exact .of_answer hanswer (status_switched _ _ _)

theorem clientConfig_agrees {strategy : String} :
    Agrees clientConfig strategy client.engine.links.links ↔ strategy = "latency-adaptive" := by
  constructor
  · rintro ⟨config, hconfig, rfl, -⟩
    cases hconfig
    rfl
  · rintro rfl
    refine ⟨_, rfl, rfl, ?_⟩
    intro link hlink iface hiface _
    rw [List.mem_singleton.mp hlink, List.mem_singleton.mp hiface]
    rfl

end Sample

open Sample in
/-- To set the strategy that is configured leaves the two in accord. -/
theorem configured_strategy_followed :
    ((clientApi integerApi).final client
      [.setStrategy ⟨strategyBody "latency-adaptive", ⟨1, 0⟩⟩]).Follows := by
  have hascii : ∀ c ∈ "latency-adaptive".toList, c.toNat < 128 :=
    List.all_iff_forall_prop.mp (by decide)
  refine (engine_follows_iff integerApi client [.setStrategy ⟨strategyBody "latency-adaptive", ⟨1, 0⟩⟩]
    ?_).mpr ?_ [] _ [] rfl
  · intro e he
    rw [List.mem_singleton.mp he]
    exact setStrategy_successful hascii (by decide) client
  · intro past request later hcut
    obtain ⟨rfl, hcut⟩ := List.singleton_eq_append_iff.mp hcut |>.resolve_right (by simp)
    obtain ⟨rfl, rfl⟩ := List.cons.inj hcut
    exact clientConfig_agrees.mpr rfl

open Sample in
/-- A strategy other than the configured one is set with success, and the configuration still
names the old one. -/
theorem switched_strategy_not_configured :
    let request := ClientRequest.setStrategy ⟨strategyBody "redundant", ⟨1, 0⟩⟩
    client.Follows ∧ Successful (request, (clientApi integerApi client request).1) ∧
      ¬ (clientApi integerApi client request).2.Follows := by
  have hascii : ∀ c ∈ "redundant".toList, c.toNat < 128 :=
    List.all_iff_forall_prop.mp (by decide)
  have hok := setStrategy_successful hascii (by decide) client
  refine ⟨clientConfig_agrees.mpr rfl, hok, ?_⟩
  intro hfollows
  obtain ⟨hasked, hlinks⟩ := clientApi_ok hok
  have hconfig := congrArg Asked.config hasked
  have hstrategy := congrArg Asked.strategy hasked
  simp only [RunningClient.asked, Asked.next, namedStrategy_strategyBody hascii,
    Option.getD_some] at hconfig hstrategy
  unfold RunningClient.Follows at hfollows
  exact absurd (clientConfig_agrees.mp hfollows) (by decide)

end Desmos.Webui

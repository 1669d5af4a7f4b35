import Desmos.Core.Io
import Desmos.Proto.Wire
import Mathlib.Data.UInt

/-! # Links, bonding strategies and the engine

A strategy is an object behind a trait: its own state and a scheduling function over the current
link table. The four strategies of the source are instances.
-/
namespace Desmos.Core
open Library Proto

abbrev LinkId := UInt32

structure Link where
  id : LinkId
  name : String
  peer : SocketAddr
  weight : UInt32
  healthy : Bool
  deriving DecidableEq

namespace Link

def new (id : LinkId) (name : String) (peer : SocketAddr) (weight : UInt32) : Link :=
  { id := id, name := name, peer := peer, weight := weight, healthy := true }

def markHealthy (l : Link) : Link := { l with healthy := true }

def markDead (l : Link) : Link := { l with healthy := false }

/-- The body of the loop of `updateLink`. -/
def update (l : Link) (name : String) (weight : Option UInt32) (enabled : Option Bool) : Link :=
  if l.name = name then
    let l := { l with weight := weight.getD l.weight }
    match enabled with
    | some true => l.markHealthy
    | some false => l.markDead
    | none => l
  else l

end Link

structure LinkTable where
  links : List Link
  deriving DecidableEq

namespace LinkTable

def healthy (t : LinkTable) : List Link := t.links.filter Link.healthy

def get (t : LinkTable) (id : LinkId) : Option Link := t.links.find? fun l => l.id == id

end LinkTable

inductive LinkSelection where
  | one (link : Link)
  | many (links : List Link)
  | none
  deriving DecidableEq

def LinkSelection.links : LinkSelection → List Link
  | .one link => [link]
  | .many links => links
  | .none => []

structure PacketMeta where
  interfaceId : InterfaceId
  receivedAtUs : TimestampUs
  isInbound : Bool
  deriving DecidableEq

def PacketMeta.outbound (interfaceId : InterfaceId) (scheduledAtUs : TimestampUs) : PacketMeta :=
  { interfaceId := interfaceId, receivedAtUs := scheduledAtUs, isInbound := false }

/-- A strategy with its interior state. -/
structure BondingStrategy where
  σ : Type
  name : String
  state : σ
  schedule : σ → PacketMeta → LinkTable → LinkSelection × σ

/-- Strict rotation over the healthy links. -/
def roundRobin (next : UInt64) : BondingStrategy where
  σ := UInt64
  name := "round-robin"
  state := next
  schedule next _ links :=
    let healthy := links.healthy
    if healthy.isEmpty then (.none, next)
    else
      match healthy[next.toNat % healthy.length]? with
      | some link => (.one link, next + 1)
      | none => (.none, next + 1)

/-- One step of the shared generator; state zero is replaced by its seed. -/
def nextXorshift64 (state : UInt64) : UInt64 :=
  let y := if state = 0 then 0x9E3779B97F4A7C15 else state
  let y := y ^^^ (y <<< 13)
  let y := y ^^^ (y >>> 7)
  y ^^^ (y <<< 17)

/-- The cumulative walk of the weighted sampler; the last link takes what is
left over. -/
def weightedWalk (pick cumulative : UInt64) : List Link → LinkSelection
  | [] => .none
  | [link] => .one link
  | link :: links =>
    let cumulative := cumulative + link.weight.toUInt64
    if pick < cumulative then .one link else weightedWalk pick cumulative links

def uniformPick (draw : UInt64) (healthy : List Link) : LinkSelection :=
  match healthy[draw.toNat % healthy.length]? with
  | some link => .one link
  | none => .none

/-- Sampling in proportion to the static weights. -/
def weighted (rngState : UInt64) : BondingStrategy where
  σ := UInt64
  name := "weighted"
  state := rngState
  schedule rng _ links :=
    let healthy := links.healthy
    if healthy.isEmpty then (.none, rng)
    else
      let totalWeight := (healthy.map fun l => l.weight.toUInt64).sum
      let draw := nextXorshift64 rng
      if totalWeight = 0 then (uniformPick draw healthy, draw)
      else (weightedWalk (draw % totalWeight) 0 healthy, draw)

/-- Every healthy link carries every packet. -/
def redundant : BondingStrategy where
  σ := Unit
  name := "redundant"
  state := ()
  schedule _ _ links :=
    let healthy := links.healthy
    if healthy.isEmpty then (.none, ()) else (.many healthy, ())

structure LinkScore where
  composite : Float32

structure AdaptiveState where
  scores : LinkId → Option LinkScore
  rngState : UInt64
  defaultWeight : Float32

def adaptiveWalk (pick cumulative : Float32) : List (Link × Float32) → LinkSelection
  | [] => .none
  | [(link, _)] => .one link
  | (link, w) :: rest =>
    let cumulative := cumulative + w
    if pick < cumulative then .one link else adaptiveWalk pick cumulative rest

/-- Sampling in proportion to the published scores. -/
def latencyAdaptive (init : AdaptiveState) : BondingStrategy where
  σ := AdaptiveState
  name := "latency-adaptive"
  state := init
  schedule st _ links :=
    let healthy := links.healthy
    if healthy.isEmpty then (.none, st)
    else
      let weightOf (l : Link) : Float32 :=
        let w := ((st.scores l.id).map LinkScore.composite).getD st.defaultWeight
        if 0 < w then w else 0
      let weights := healthy.map weightOf
      let total := weights.foldl (· + ·) 0
      let draw := nextXorshift64 st.rngState
      let st := { st with rngState := draw }
      if total ≤ 0 then (uniformPick draw healthy, st)
      else
        let rand := draw.toFloat / (UInt64.toFloat 0xFFFFFFFFFFFFFFFF)
        let pick := (rand * total.toFloat).toFloat32
        (adaptiveWalk pick 0 (healthy.zip weights), st)

structure Engine where
  strategy : BondingStrategy
  links : LinkTable

namespace Engine

def new (strategy : BondingStrategy) (links : LinkTable) : Engine :=
  { strategy := strategy, links := links }

def newWithRoundRobin (links : LinkTable) : Engine := new (roundRobin 0) links

def schedule (e : Engine) (packet : PacketMeta) : LinkSelection × Engine :=
  let (selection, state) := e.strategy.schedule e.strategy.state packet e.links
  (selection, { e with strategy := { e.strategy with state := state } })

def swapStrategy (e : Engine) (newStrategy : BondingStrategy) : Engine :=
  { e with strategy := newStrategy }

def swapLinks (e : Engine) (newLinks : LinkTable) : Engine := { e with links := newLinks }

def linksSnapshot (e : Engine) : LinkTable := e.links

/-- Change the weight or the health flag of the links with a name; the answer says whether
there are any. -/
def updateLink (e : Engine) (name : String) (weight : Option UInt32) (enabled : Option Bool) :
    Bool × Engine :=
  let snap := e.linksSnapshot
  let found := snap.links.any fun link => link.name == name
  if found then (true, e.swapLinks ⟨snap.links.map fun link => link.update name weight enabled⟩)
  else (false, e)

end Engine

end Desmos.Core

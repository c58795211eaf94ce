import AsioGameServer.Component.State
import AsioGameServer.World.Tick

open Function Transition

namespace AsioGameServer.world

/-- What a `Channel` is as a component: its state, the time for which it has been empty,
and whether it was released, so that the weak pointers to it and to its manager have
expired. -/
structure Component (τ : Type) where
  state : ComponentState
  time : τ
  released : Bool
deriving DecidableEq, Repr

/-- The world together with the components that its channels are. -/
structure Game (τ : Type) where
  now : World
  components : Nat → Component τ

/-- The steps of the world, and the tick of a map after some time. -/
inductive GameEvent (τ : Type) where
  | step (e : World.Event)
  | tickMap (mapKey : Int) (delta : τ)
deriving DecidableEq, Repr

namespace World

/-- The test of `MapInfo::PrevTick`: no manager, or one that has no character. -/
def isEmpty (w : World) (channel : Nat) : Bool := (w.manager channel).all (·.characters.isEmpty)

/-- The weak pointers to a channel's manager expire. -/
def expire (w : World) (channel : Nat) : World :=
  { w with
    characters := fun code =>
      if (w.characters code).cm = some channel then { w.characters code with cm := none }
      else w.characters code }

end World

namespace Game

variable {τ : Type} [Add τ] [LE τ] [DecidableLE τ] [OfNat τ 0] [OfNat τ 60]

/-- The loop of `MapInfo::PrevTick` over the channels of a map: the entries it leaves
and the components after it. A channel that has been empty for too long is told to
destroy itself and its manager. -/
def PrevTick (w : World) (delta : τ) :
    List (Int × Nat) → (Nat → Component τ) → List (Int × Nat) × (Nat → Component τ)
  | [], components => ([], components)
  | entry :: rest, components =>
    let channel := components entry.2
    if channel.released then PrevTick w delta rest components
    else if w.isEmpty entry.2 then
      let time := channel.time + delta
      if 60 ≤ time then
        PrevTick w delta rest (update components entry.2 ⟨.Destroy, time, channel.released⟩)
      else
        let (channels, components) :=
          PrevTick w delta rest (update components entry.2 { channel with time := time })
        (entry :: channels, components)
    else
      let (channels, components) :=
        PrevTick w delta rest (update components entry.2 { channel with time := 0 })
      (entry :: channels, components)

/-- `MapInfo::Tick`. -/
def tickMap (mapKey : Int) (delta : τ) (g : Game τ) : Game τ :=
  match g.now.maps mapKey with
  | none => g
  | some mapinfo =>
    let (channels, components) := PrevTick g.now delta mapinfo.channels g.components
    { now := { g.now with maps := update g.now.maps mapKey (some { mapinfo with channels }) }
      components }

/-- `Component::Remove` of a channel that is destroyed, and of its manager after it.
Nothing else holds them, so they are released. -/
def Remove (id : Nat) (g : Game τ) : Game τ :=
  { now := (g.now.onChannel id fun ch => { ch.clear with cm := none }).expire id
    components := update g.components id { g.components id with released := true } }

/-- `Component::Update` of a channel. -/
def updateChannel (id : Nat) (g : Game τ) : Except Fault (Game τ) :=
  match g.now.channels[id]? with
  | none => .ok g
  | some channel =>
    match (g.components id).state with
    | .Create =>
      .ok { now := g.now.onChannel id Channel.BeginPlay
            components := update g.components id { g.components id with state := .Alive } }
    | .Alive => do
      let w ← g.now.PrevTick id channel
      .ok { g with now := w }
    | .Destroy => if (g.components id).released then .ok g else .ok (g.Remove id)

/-- A manager ticks as long as neither it nor its channel is destroyed. The other steps
are the world's: none of them meets an expired channel, since no map has an entry of one. -/
def step (g : Game τ) : GameEvent τ → Except Fault (Game τ)
  | .step (.updateChannel id) => g.updateChannel id
  | .step (.tickManager id) =>
    if (g.components id).state = .Alive then do
      let w ← g.now.tickManager id
      .ok { g with now := w }
    else .ok g
  | .step e => do
    let w ← g.now.step e
    .ok { g with now := w }
  | .tickMap mapKey delta => .ok (g.tickMap mapKey delta)

/-- The steps that follow no null or expired pointer. -/
def next (g : Game τ) (e : GameEvent τ) : Option (Game τ) := (g.step e).toOption

/-- The maps are stored under their codes and have no channel yet. -/
structure Start (g : Game τ) : Prop where
  start : g.now.Start
  coded : ∀ mapKey mapinfo, g.now.maps mapKey = some mapinfo → mapinfo.mapCode = mapKey
  fresh : ∀ id, g.components id = ⟨.Create, 0, false⟩

end Game

end AsioGameServer.world

import AsioGameServer.World.Location
import AsioGameServer.World.Tick

namespace AsioGameServer.world

/-- The channel a request is sent to: the map and the number it was looked up by, and
the channel that was found. -/
structure Address where
  mapKey : Int
  number : Int
  channel : Nat
deriving DecidableEq, Repr

/-- A call of `Channel::Async_InsertCharacter` or `Channel::Async_EraseCharacter`. -/
structure ChannelRequest where
  code : Int
  insert : Bool
  address : Address
deriving DecidableEq, Repr

/-- A world and the requests that the events of `mapKey` and `channel` have sent to
channels, in order. -/
structure Recorded where
  now : World
  requests : List ChannelRequest

namespace Recorded

def onCharacter (s : Recorded) (code : Int) (f : Character → Character) : Recorded :=
  { s with now := s.now.onCharacter code f }

/-- Sends a request to a channel. -/
def send (s : Recorded) (request : ChannelRequest) (f : Channel → Channel) : Recorded :=
  ⟨s.now.onChannel request.address.channel f, s.requests ++ [request]⟩

/-- The previous event of a character's `channel`. -/
def channel_prev (code : Int) (channel : Int) (s : Recorded) : Except Fault Recorded :=
  if channel ≠ 0 then
    let mapKey := (s.now.characters code).mapKey
    match s.now.maps mapKey with
    | none => .error .nullMapInfo
    | some mapinfo =>
      match mapinfo.GetChannel channel with
      | some ch => .ok (s.send ⟨code, false, mapKey, channel, ch⟩ (·.Async_EraseCharacter code))
      | none => .ok s
  else .ok s

/-- The post event of a character's `channel`. -/
def channel_post (code : Int) (key : Int) (s : Recorded) : Except Fault Recorded :=
  if key ≠ 0 then
    let mapKey := (s.now.characters code).mapKey
    match s.now.maps mapKey with
    | none => .error .nullMapInfo
    | some mapinfo =>
      match mapinfo.GetChannel key with
      | some channel => .ok (s.send ⟨code, true, mapKey, key, channel⟩ (·.Async_InsertCharacter code))
      | none => .error .nullChannel
  else .ok s

def SetChannel (code : Int) (number : Int) (s : Recorded) : Except Fault Recorded :=
  React.Set (fun s => (s.now.characters code).channel)
    (fun number s => s.onCharacter code ({ · with channel := number }))
    [channel_prev code] [channel_post code] number s

def InsertIntoMap (mapKey : Int) (mapinfo : MapInfo) (code : Int) (s : Recorded) : Except Fault Recorded := do
  match ← s.now.findRoom ((mapinfo.maxUserCount * 4).tdiv 5) mapinfo.channels with
  | some number => SetChannel code number s
  | none =>
    let channelNumber := mapinfo.unusedNumber
    SetChannel code channelNumber { s with now := s.now.openChannel mapKey mapinfo channelNumber }

def mapKey_post (code : Int) (mapKey : Int) (s : Recorded) : Except Fault Recorded :=
  if mapKey ≠ 0 then
    match s.now.maps mapKey with
    | none => .error .nullMapInfo
    | some mapinfo => s.InsertIntoMap mapKey mapinfo code
  else .ok s

def SetMapKey (code : Int) (mapkey : Int) (s : Recorded) : Except Fault Recorded :=
  React.Set (fun s => (s.now.characters code).mapKey)
    (fun mapkey s => s.onCharacter code ({ · with mapKey := mapkey }))
    [fun _ => SetChannel code 0] [mapKey_post code] mapkey s

def destroyUser (code : Int) (s : Recorded) : Except Fault Recorded := do
  let s ← s.SetMapKey code 0
  let s ← s.SetChannel code 0
  .ok (s.onCharacter code ({ · with user := false }))

/-- What can happen to the characters: one of them is moved, the user of one is
destroyed, or the game thread updates a channel or its manager. -/
inductive Move where
  | SetMapKey (code mapkey : Int)
  | SetChannel (code number : Int)
  | destroyUser (code : Int)
  | updateChannel (id : Nat)
  | tickManager (id : Nat)
deriving DecidableEq, Repr

/-- A character is moved while its user is there: the events are cleared with it. -/
def step (s : Recorded) : Move → Except Fault Recorded
  | .SetMapKey code mapkey => if (s.now.characters code).user then s.SetMapKey code mapkey else .ok s
  | .SetChannel code number => if (s.now.characters code).user then s.SetChannel code number else .ok s
  | .destroyUser code => if (s.now.characters code).user then s.destroyUser code else .ok s
  | .updateChannel id => do
    let now ← s.now.updateChannel id
    .ok { s with now }
  | .tickManager id => do
    let now ← s.now.tickManager id
    .ok { s with now }

def next (s : Recorded) (m : Move) : Option Recorded := (s.step m).toOption

section Forget

variable (s : Recorded) (code : Int)

/-- Without the record, the events are those of the world. -/
theorem now_channel_prev (channel : Int) :
    (s.channel_prev code channel).map now = s.now.channel_prev code channel := by
  unfold channel_prev World.channel_prev
  by_cases hchannel : channel ≠ 0
  · simp only [if_pos hchannel]
    cases s.now.maps (s.now.characters code).mapKey with
    | none => rfl
    | some mapinfo =>
      dsimp only
      cases mapinfo.GetChannel channel <;> rfl
  · simp only [if_neg hchannel]
    rfl

theorem now_channel_post (key : Int) :
    (s.channel_post code key).map now = s.now.channel_post code key := by
  unfold channel_post World.channel_post
  by_cases hkey : key ≠ 0
  · simp only [if_pos hkey]
    cases s.now.maps (s.now.characters code).mapKey with
    | none => rfl
    | some mapinfo =>
      dsimp only
      cases mapinfo.GetChannel key <;> rfl
  · simp only [if_neg hkey]
    rfl

/-- `React.Set` of one event before and one after the assignment is followed by the
`React.Set` of a state that is part of the larger one. -/
theorem now_Set (get : World → Int) (assign : Int → World → World) {assign' : Int → Recorded → Recorded}
    {prev post : Int → World → Except Fault World} {prev' post' : Int → Recorded → Except Fault Recorded}
    (hassign : ∀ d s, (assign' d s).now = assign d s.now)
    (hprev : ∀ d s, (prev' d s).map now = prev d s.now)
    (hpost : ∀ d s, (post' d s).map now = post d s.now) (data : Int) :
    (React.Set (fun s => get s.now) assign' [prev'] [post'] data s).map now =
      React.Set get assign [prev] [post] data s.now := by
  simp only [React.Set, List.foldlM_cons, List.foldlM_nil, bind_pure]
  rw [← hprev]
  cases prev' (get s.now) s with
  | error fault => rfl
  | ok t =>
    refine (hpost _ _).trans ?_
    rw [hassign]
    rfl

theorem now_SetChannel (number : Int) : (s.SetChannel code number).map now = s.now.SetChannel code number :=
  now_Set s (fun w => (w.characters code).channel)
    (fun number w => w.onCharacter code ({ · with channel := number }))
    (fun _ _ => rfl) (fun d s => now_channel_prev s code d) (fun d s => now_channel_post s code d) number

theorem now_InsertIntoMap (mapKey : Int) (mapinfo : MapInfo) :
    (s.InsertIntoMap mapKey mapinfo code).map now = s.now.InsertIntoMap mapKey mapinfo code := by
  unfold InsertIntoMap World.InsertIntoMap
  cases s.now.findRoom ((mapinfo.maxUserCount * 4).tdiv 5) mapinfo.channels with
  | error fault => rfl
  | ok room =>
    cases room with
    | some number => exact now_SetChannel s code number
    | none => exact now_SetChannel { s with now := s.now.openChannel mapKey mapinfo mapinfo.unusedNumber } code _

theorem now_mapKey_post (mapKey : Int) : (s.mapKey_post code mapKey).map now = s.now.mapKey_post code mapKey := by
  unfold mapKey_post World.mapKey_post
  by_cases hkey : mapKey ≠ 0
  · simp only [if_pos hkey]
    cases s.now.maps mapKey with
    | none => rfl
    | some mapinfo => exact now_InsertIntoMap s code mapKey mapinfo
  · simp only [if_neg hkey]
    rfl

theorem now_SetMapKey (mapkey : Int) : (s.SetMapKey code mapkey).map now = s.now.SetMapKey code mapkey :=
  now_Set s (fun w => (w.characters code).mapKey)
    (fun mapkey w => w.onCharacter code ({ · with mapKey := mapkey }))
    (fun _ _ => rfl) (fun _ s => now_SetChannel s code 0) (fun d s => now_mapKey_post s code d) mapkey

theorem now_destroyUser : (s.destroyUser code).map now = s.now.destroyUser code := by
  unfold destroyUser World.destroyUser
  rw [← now_SetMapKey]
  cases s.SetMapKey code 0 with
  | error fault => rfl
  | ok t =>
    change Except.map now (t.SetChannel code 0 >>= _) = t.now.SetChannel code 0 >>= _
    rw [← now_SetChannel]
    cases t.SetChannel code 0 <;> rfl

end Forget

end Recorded

end AsioGameServer.world

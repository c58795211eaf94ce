import AsioGameServer.World.State

open Function

namespace AsioGameServer.world

/-- `React<int>::Set` on a value inside a larger state. Each event is called with the
value of the moment, those of `prevEvents` before the assignment. -/
def React.Set {σ ε : Type} (get : σ → Int) (assign : Int → σ → σ)
    (prevEvents postEvents : List (Int → σ → Except ε σ)) (data : Int) (s : σ) : Except ε σ := do
  let s ← prevEvents.foldlM (fun s event => event (get s) s) s
  postEvents.foldlM (fun s event => event (get s) s) (assign data s)

namespace World

/-- The previous event of a character's `channel`, which `Character::Init` inserts:
the channel that is left is asked to erase the character. -/
def channel_prev (code : Int) (channel : Int) (w : World) : Except Fault World :=
  if channel ≠ 0 then
    match w.maps (w.characters code).mapKey with
    | none => .error .nullMapInfo
    | some mapinfo =>
      match mapinfo.GetChannel channel with
      | some ch => .ok (w.onChannel ch (·.Async_EraseCharacter code))
      | none => .ok w
  else .ok w

/-- The post event of a character's `channel`: the channel that is entered is asked to
insert the character. -/
def channel_post (code : Int) (key : Int) (w : World) : Except Fault World :=
  if key ≠ 0 then
    match w.maps (w.characters code).mapKey with
    | none => .error .nullMapInfo
    | some mapinfo =>
      match mapinfo.GetChannel key with
      | some channel => .ok (w.onChannel channel (·.Async_InsertCharacter code))
      | none => .error .nullChannel
  else .ok w

/-- `Character::SetChannel`. -/
def SetChannel (code : Int) (number : Int) (w : World) : Except Fault World :=
  React.Set (fun w => (w.characters code).channel)
    (fun number w => w.onCharacter code ({ · with channel := number }))
    [channel_prev code] [channel_post code] number w

/-- The loop of `MapInfo::InsertCharacter` over the channels of a map: the number of the
first one with fewer than `temp` characters. -/
def findRoom (temp : Int) (w : World) : List (Int × Nat) → Except Fault (Option Int)
  | [] => .ok none
  | (_, id) :: rest =>
    match w.channels[id]? with
    | none => .error .nullChannel
    | some channel =>
      match channel.cm with
      | none => .error .nullManager
      | some cm => if cm.characters.length < temp then .ok (some channel.number) else findRoom temp w rest

/-- Creates a channel of a map, attaches it and stores it under its number. -/
def openChannel (mapKey : Int) (mapinfo : MapInfo) (channelNumber : Int) (w : World) : World :=
  { w with
    channels := w.channels ++ [Channel.new mapinfo.mapCode channelNumber]
    maps := update w.maps mapKey (some { mapinfo with
      channels := MapInfo.insertChannel channelNumber w.channels.length mapinfo.channels }) }

/-- `MapInfo::InsertCharacter`. The conversion of `maxUserCount * 0.8` to an integer
truncates. -/
def InsertIntoMap (mapKey : Int) (mapinfo : MapInfo) (code : Int) (w : World) : Except Fault World := do
  match ← w.findRoom ((mapinfo.maxUserCount * 4).tdiv 5) mapinfo.channels with
  | some number => SetChannel code number w
  | none =>
    let channelNumber := mapinfo.unusedNumber
    SetChannel code channelNumber (w.openChannel mapKey mapinfo channelNumber)

/-- The post event of a character's `mapKey`: the map looks for a channel. -/
def mapKey_post (code : Int) (mapKey : Int) (w : World) : Except Fault World :=
  if mapKey ≠ 0 then
    match w.maps mapKey with
    | none => .error .nullMapInfo
    | some mapinfo => w.InsertIntoMap mapKey mapinfo code
  else .ok w

/-- `Character::SetMapKey`. The previous event of `mapKey` leaves the channel. -/
def SetMapKey (code : Int) (mapkey : Int) (w : World) : Except Fault World :=
  React.Set (fun w => (w.characters code).mapKey)
    (fun mapkey w => w.onCharacter code ({ · with mapKey := mapkey }))
    [fun _ => SetChannel code 0] [mapKey_post code] mapkey w

/-- `User::~User`. The character is released and its events are cleared, so nothing
moves it any more. -/
def destroyUser (code : Int) (w : World) : Except Fault World := do
  let w ← w.SetMapKey code 0
  let w ← w.SetChannel code 0
  .ok (w.onCharacter code ({ · with user := false }))

/-- The cases `REQ_ENTER_MAP`, `REQ_ENTER_CHANNEL`, `REQ_PORTAL` and `REQ_ESCAPE` of
`InGameState::On_Read`. -/
inductive Request where
  | REQ_ENTER_MAP (mapcode : Int)
  | REQ_ENTER_CHANNEL (channel : Int)
  | REQ_PORTAL (gateNumber currentMapCode : Int)
  | REQ_ESCAPE
deriving DecidableEq, Repr

/-- A request of a character's user. A session that has ended reads none, and one whose
user is gone does nothing. -/
def On_Read (code : Int) (request : Request) (w : World) : Except Fault World :=
  if (w.characters code).session ∧ (w.characters code).user then
    match request with
    | .REQ_ENTER_MAP mapcode => w.SetMapKey code mapcode
    | .REQ_ENTER_CHANNEL channel => w.SetChannel code channel
    | .REQ_PORTAL gateNumber currentMapCode =>
      match (w.maps (w.characters code).mapKey).bind (·.GetPortal gateNumber) with
      | none => .ok w
      | some destCode => if destCode ≠ currentMapCode then w.SetMapKey code destCode else .ok w
    | .REQ_ESCAPE =>
      match (w.characters code).cm with
      | none => .ok w
      | some channel => .ok (w.onChannel channel (·.Async_Func code))
  else .ok w

end World

end AsioGameServer.world

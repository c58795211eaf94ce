import AsioGameServer.Lib.Transition
import AsioGameServer.World.Location

namespace AsioGameServer.world

namespace World

/-- `Channel::EraseCharacter`. The character's back pointer is reset if it is alive. -/
def EraseCharacter (held : List Int) (channel : Nat) (w : World) (key : Int) : Except Fault World :=
  match w.manager channel with
  | none => .error .nullManager
  | some cm =>
    if key ∈ cm.characters then
      let w := if w.live held key then w.onCharacter key ({ · with cm := none }) else w
      .ok (w.onManager channel fun cm => { cm with characters := cm.characters.filter (· ≠ key) })
    else .ok w

/-- `Channel::InsertCharacter`. A character that was inserted has at least itself to be
told about, so its session is used. -/
def InsertCharacter (channel : Nat) (w : World) (code : Int) : Except Fault World :=
  match w.manager channel with
  | none => .error .nullManager
  | some cm =>
    if code ∈ cm.characters then .ok w
    else
      let w := w.onCharacter code ({ · with cm := some channel })
      let w := w.onManager channel fun cm => { cm with characters := cm.characters ++ [code] }
      if (w.characters code).user = false then .error .deadUser
      else if (w.characters code).session = false then .error .deadSession
      else .ok w

/-- `Channel::Escape`. -/
def Escape (w : World) (code : Int) : Except Fault World :=
  match (w.characters code).cm with
  | none => .error .noCharacterManager
  | some channel =>
    .ok (w.onManager channel fun cm => { cm with req_send_all := cm.req_send_all ++ [.CON_ESCAPE] })

/-- `Channel::PrevTick` of a channel: all erasures, then all insertions, then the
functions. The copies of the request lists hold their characters until it returns. -/
def PrevTick (id : Nat) (channel : Channel) (w : World) : Except Fault World := do
  let held := channel.req_Insert_list ++ channel.req_func_list
  let w := w.onChannel id Channel.clear
  let w ← channel.req_erase_list.foldlM (EraseCharacter held id) w
  let w ← channel.req_Insert_list.foldlM (InsertCharacter id) w
  channel.req_func_list.foldlM Escape w

/-- `Component::Update` of a channel: its first one is `BeginPlay`. -/
def updateChannel (id : Nat) (w : World) : Except Fault World :=
  match w.channels[id]? with
  | none => .ok w
  | some channel =>
    match channel.cm with
    | none => .ok (w.onChannel id Channel.BeginPlay)
    | some _ => w.PrevTick id channel

/-- `CharacterManager::Tick`. Its `PrevTick` sends the queued packets to the sessions
that are there; after it, every character is locked and moved. -/
def tickManager (id : Nat) (w : World) : Except Fault World :=
  match w.manager id with
  | none => .ok w
  | some cm =>
    let w := w.onManager id fun cm => { cm with req_send_all := [] }
    if cm.bMovable ∧ ¬ cm.characters.all (w.live []) then .error .deadCharacter else .ok w

/-- The steps of the IO threads and of the game thread: a request of a user, the end of
a session, the destruction of a user, and the updates of a channel and of its manager. -/
inductive Event where
  | request (code : Int) (request : Request)
  | closeSession (code : Int)
  | disconnect (code : Int)
  | updateChannel (id : Nat)
  | tickManager (id : Nat)
deriving DecidableEq, Repr

def step (w : World) : Event → Except Fault World
  | .request code request => w.On_Read code request
  | .closeSession code => .ok (w.onCharacter code ({ · with session := false }))
  | .disconnect code => if (w.characters code).user then w.destroyUser code else .ok w
  | .updateChannel id => w.updateChannel id
  | .tickManager id => w.tickManager id

/-- The steps that follow no null or expired pointer. -/
def next (w : World) (e : Event) : Option World := (w.step e).toOption

/-- The characters have been initialised and no channel has been opened. -/
structure Start (w : World) : Prop where
  no_channels : w.channels = []
  no_entries : ∀ mapKey mapinfo, w.maps mapKey = some mapinfo → mapinfo.channels = []
  outside : ∀ code, (w.characters code).channel = 0 ∧ (w.characters code).cm = none
  connected : ∀ code, (w.characters code).user = true

/-- All request lists are empty. -/
def Drained (w : World) : Prop :=
  ∀ channel ∈ w.channels, channel.req_Insert_list = [] ∧ channel.req_erase_list = [] ∧
    channel.req_func_list = [] ∧ ∀ cm ∈ channel.cm, cm.req_send_all = []

end World

end AsioGameServer.world

import AsioGameServer.Character.Motion
import AsioGameServer.World.Tick

open Function Number

namespace AsioGameServer.world

variable {F : Type} [Number F]

/-- The function that a `MOVING` packet puts in a `CharacterManager`. `number` counts them. -/
structure MovingFunction (F : Type) where
  character : Int
  position : Vector3 F
  forward : Vector3 F
  speed : F
  /-- The state is `MoveState_MOVING`. -/
  moving : Bool
  number : Nat
deriving DecidableEq, Repr

/-- A world where characters have a position, with the functions that move them in the
managers, by their channels. The position of a portal is that where its gate leads to. -/
structure Scene (F : Type) where
  now : World
  motions : Int → Motion F
  functions : Nat → List (MovingFunction F)
  sent : Nat
  portalPosition : (mapKey gateNumber : Int) → Vector3 F
  escapeCoordinates : (mapCode : Int) → Vector3 F

def MovingFunction.call (func : MovingFunction F) (m : Motion F) : Motion F :=
  { ({ m with
      position := { m.position with z := func.position.z }
      dest := func.position }.SetForward func.forward) with
    currentSpeed := func.speed
    bMove := func.moving }

namespace Scene

def onMotion (s : Scene F) (code : Int) (f : Motion F → Motion F) : Scene F :=
  { s with motions := update s.motions code (f (s.motions code)) }

/-- A portal that is there and leads elsewhere sets the position first. -/
def warp (code : Int) (s : Scene F) : World.Request → Scene F
  | .REQ_PORTAL gateNumber currentMapCode =>
    let mapKey := (s.now.characters code).mapKey
    match (s.now.maps mapKey).bind (·.GetPortal gateNumber) with
    | none => s
    | some destCode =>
      if destCode ≠ currentMapCode then
        let position := s.portalPosition mapKey gateNumber
        s.onMotion code ({ · with warpLocateDestination := position, position })
      else s
  | _ => s

/-- A request of a character's user. -/
def On_Read (code : Int) (request : World.Request) (s : Scene F) : Except Fault (Scene F) := do
  let s := if (s.now.characters code).session ∧ (s.now.characters code).user then s.warp code request else s
  let now ← s.now.On_Read code request
  return { s with now }

/-- The case `MOVING` of `InGameState::On_Read`. -/
def MOVING (code : Int) (position forward : Vector3 F) (speed : F) (moving : Bool) (s : Scene F) :
    Except Fault (Scene F) :=
  if (s.now.characters code).session ∧ (s.now.characters code).user then
    match s.now.maps (s.now.characters code).mapKey with
    | none => .error .nullMapInfo
    | some mapinfo =>
      match mapinfo.GetChannel (s.now.characters code).channel with
      | none => .ok s
      | some channel =>
        if (s.now.manager channel).isSome then
          .ok { s with
            functions := update s.functions channel
              (s.functions channel ++ [⟨code, position, forward, speed, moving, s.sent⟩])
            sent := s.sent + 1 }
        else .ok s
  else .ok s

/-- What `Channel::InsertCharacter` and `Channel::Escape` do to the motion of a character. -/
def InsertCharacter (s : Scene F) (code : Int) : Scene F := s.onMotion code (·.SetMoveCancel.SetWarpPosition)

def Escape (mapCode : Int) (s : Scene F) (code : Int) : Scene F :=
  s.onMotion code ({ · with position := s.escapeCoordinates mapCode })

/-- `Component::Update` of a channel. -/
def updateChannel (id : Nat) (s : Scene F) : Except Fault (Scene F) := do
  let now ← s.now.updateChannel id
  match s.now.channels[id]? with
  | none => return { s with now }
  | some channel =>
    match channel.cm with
    | none => return { s with now }
    | some _ =>
      let s := channel.req_Insert_list.foldl InsertCharacter s
      let s := channel.req_func_list.foldl (Escape channel.mapCode) s
      return { s with now }

/-- A character is alive while a function that waits holds it, too. -/
def live (s : Scene F) (code : Int) : Bool :=
  s.now.live [] code ||
    (List.range s.now.channels.length).any fun id => (s.functions id).any fun func => func.character == code

/-- `CharacterManager::Tick`. -/
def tickManager (id : Nat) (delta : F) (s : Scene F) : Except Fault (Scene F) :=
  match s.now.manager id with
  | none => .ok s
  | some cm =>
    let functions := s.functions id
    let s := { s with
      now := s.now.onManager id fun cm => { cm with req_send_all := [] }
      functions := update s.functions id [] }
    let s := functions.foldl (fun s func => s.onMotion func.character func.call) s
    if cm.bMovable then
      if cm.characters.all s.live then
        .ok (cm.characters.foldl (fun s code => s.onMotion code (·.Moving delta)) s)
      else .error .deadCharacter
    else .ok s

/-- The steps of the world, where a manager ticks with a time, and a `MOVING` packet. -/
inductive Event (F : Type) where
  | request (code : Int) (request : World.Request)
  | MOVING (code : Int) (position forward : Vector3 F) (speed : F) (moving : Bool)
  | closeSession (code : Int)
  | disconnect (code : Int)
  | updateChannel (id : Nat)
  | tickManager (id : Nat) (delta : F)

def step (s : Scene F) : Event F → Except Fault (Scene F)
  | .request code request => s.On_Read code request
  | .MOVING code position forward speed moving => s.MOVING code position forward speed moving
  | .closeSession code => .ok { s with now := s.now.onCharacter code ({ · with session := false }) }
  | .disconnect code => do
    if (s.now.characters code).user then
      let now ← s.now.destroyUser code
      return { s with now }
    else return s
  | .updateChannel id => s.updateChannel id
  | .tickManager id delta => s.tickManager id delta

/-- The steps that follow no null or expired pointer. -/
def next (s : Scene F) (e : Event F) : Option (Scene F) := (s.step e).toOption

end Scene

end AsioGameServer.world

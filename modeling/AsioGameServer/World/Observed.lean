import AsioGameServer.Channel.Movement
import AsioGameServer.World.Scene

open Function Number

namespace AsioGameServer.world

open flatbuffers (FlatBufferBuilder)

variable {F : Type} [Number F]

namespace FB

/-- The table `FB::Character`. A field that is not stored is read as its default. -/
structure Character (F : Type) where
  code : Int
  type : Int
  nick : Option String
  position : Option (Vector3 F)
  level : Int
  hp : F
  power : F
  speed : F
  mapcode : Int
deriving DecidableEq, Repr

/-- A `CharacterBuilder`, with the table that can be read from what it has added. -/
structure CharacterBuilder (F : Type) where
  fbb_ : FlatBufferBuilder (Character F)
  start_ : Nat
  table : Character F

namespace CharacterBuilder

def new (fbb : FlatBufferBuilder (Character F)) : CharacterBuilder F :=
  ⟨fbb, fbb.GetSize, ⟨0, 0, none, none, 0, ofInt 0, ofInt 0, ofInt 0, 0⟩⟩

def add_code (code : Int) (b : CharacterBuilder F) : CharacterBuilder F :=
  { b with fbb_ := b.fbb_.AddElement 4 4 (code == 0), table.code := code }

def add_type (type : Int) (b : CharacterBuilder F) : CharacterBuilder F :=
  { b with fbb_ := b.fbb_.AddElement 6 1 (type == 0), table.type := type }

def add_nick (nick : String) (b : CharacterBuilder F) : CharacterBuilder F :=
  { b with fbb_ := b.fbb_.AddOffset 8 false, table.nick := nick }

def add_position (position : Vector3 F) (b : CharacterBuilder F) : CharacterBuilder F :=
  { b with fbb_ := b.fbb_.AddStruct 10 12 4, table.position := position }

def add_level (level : Int) (b : CharacterBuilder F) : CharacterBuilder F :=
  { b with fbb_ := b.fbb_.AddElement 12 4 (level == 0), table.level := level }

def add_hp (hp : F) (b : CharacterBuilder F) : CharacterBuilder F :=
  { b with fbb_ := b.fbb_.AddElement 14 4 (decide (hp = ofInt 0)), table.hp := hp }

def add_power (power : F) (b : CharacterBuilder F) : CharacterBuilder F :=
  { b with fbb_ := b.fbb_.AddElement 16 4 (decide (power = ofInt 0)), table.power := power }

def add_speed (speed : F) (b : CharacterBuilder F) : CharacterBuilder F :=
  { b with fbb_ := b.fbb_.AddElement 20 4 (decide (speed = ofInt 0)), table.speed := speed }

def add_mapcode (mapcode : Int) (b : CharacterBuilder F) : CharacterBuilder F :=
  { b with fbb_ := b.fbb_.AddElement 22 4 (mapcode == 0), table.mapcode := mapcode }

def Finish (b : CharacterBuilder F) : FlatBufferBuilder (Character F) × Nat :=
  (b.fbb_.EndTable b.start_).addTable b.table

end CharacterBuilder

end FB

/-- The fields of a `Character` that the rest of the server sets. -/
structure Profile (F : Type) where
  characterTypeCode : Int
  nickname : String
  level : Int
  maxHP : F
  power : F

/-- A `Character`, as far as the packets about it go. -/
structure Shown (F : Type) where
  code : Int
  profile : Profile F
  motion : Motion F
  mapKey : Int

/-- The table of one character in a snapshot. -/
def addCharacterInfo (ch : Shown F) (fbb : FlatBufferBuilder (FB.Character F)) :
    FlatBufferBuilder (FB.Character F) × Nat :=
  FB.CharacterBuilder.new (fbb.CreateString ch.profile.nickname.utf8ByteSize)
    |>.add_code ch.code
    |>.add_type ch.profile.characterTypeCode
    |>.add_hp ch.profile.maxHP
    |>.add_level ch.profile.level
    |>.add_nick ch.profile.nickname
    |>.add_power ch.profile.power
    |>.add_speed ch.motion.maxSpeed
    |>.add_position ch.motion.position
    |>.Finish

/-- `CharacterManager::Make_FBB_All_CharacterInfo`, with the default slice. -/
def Make_FBB_All_CharacterInfo (characters : List (Shown F)) : Int × List (FlatBufferBuilder (FB.Character F)) :=
  flatbuffers.Slices.run addCharacterInfo 10 (characters.map fun ch => (ch.code, some ch))

/-- `Character::Make_Fbb_Character`. -/
def Make_Fbb_Character (ch : Shown F) : FlatBufferBuilder (FB.Character F) :=
  let (fbb, offsetchar) :=
    FB.CharacterBuilder.new (FlatBufferBuilder.new.CreateString ch.profile.nickname.utf8ByteSize)
      |>.add_code ch.code
      |>.add_type ch.profile.characterTypeCode
      |>.add_nick ch.profile.nickname
      |>.add_level ch.profile.level
      |>.add_position ch.motion.position
      |>.add_hp ch.profile.maxHP
      |>.add_power ch.profile.power
      |>.add_speed ch.motion.maxSpeed
      |>.add_mapcode ch.mapKey
      |>.Finish
  fbb.Finish [offsetchar]

/-- The packet that says that a character has left. -/
def leaving (key : Int) : FlatBufferBuilder (FB.Character F) :=
  let (fbb, charoffset) := (FB.CharacterBuilder.new .new |>.add_code key).Finish
  fbb.Finish [charoffset]

/-- The packet that says where a character has escaped to. -/
def escaping (code : Int) (position : Vector3 F) : FlatBufferBuilder (movement.FB.Move F) :=
  let (fbb, moveoffset) := (movement.FB.MoveBuilder.new .new |>.add_code code |>.add_position position).Finish
  fbb.Finish [moveoffset]

/-- The packets about where characters are. -/
inductive Packet (F : Type) where
  | ENTER_NEW_CHARACTER_VECTOR (fbb : FlatBufferBuilder (FB.Character F))
  | ENTER_NEW_CHARACTER (fbb : FlatBufferBuilder (FB.Character F))
  | LEAVE_CHARACTER (fbb : FlatBufferBuilder (FB.Character F))
  | MOVING_VECTOR (fbb : FlatBufferBuilder (movement.FB.Move F))
  | CON_ESCAPE (fbb : FlatBufferBuilder (movement.FB.Move F))

/-- A scene whose packets are watched: the time since each manager last reported movements, the
`CON_ESCAPE` packets and the requests for the list of its characters that wait in it, with the
number of functions that wait before each of them, and what was pushed to the session of each
character since it was last inserted. `updated` is a channel whose manager is the next component
to tick. -/
structure Observed (F : Type) where
  scene : Scene F
  saveTime : Nat → F
  escapes : Nat → List (FlatBufferBuilder (movement.FB.Move F))
  lists : Nat → List (Int × Nat)
  received : Int → List (Packet F)
  updated : Option Nat

namespace Observed

/-- The characters in the manager of a channel. -/
def members (s : Observed F) (id : Nat) : List Int := (s.scene.now.manager id).elim [] CharacterManager.characters

/-- The user and the session of a character are there. -/
def watches (s : Observed F) (code : Int) : Bool :=
  (s.scene.now.characters code).user && (s.scene.now.characters code).session

def onNow (s : Observed F) (now : World) : Observed F := { s with scene := { s.scene with now } }

def PushSend (packets : List (Packet F)) (s : Observed F) (code : Int) : Observed F :=
  if s.watches code then { s with received := update s.received code (s.received code ++ packets) } else s

def SendAllCharacter (id : Nat) (s : Observed F) (packet : Packet F) : Observed F :=
  (s.members id).foldl (PushSend [packet]) s

/-- `Channel::EraseCharacter`. -/
def EraseCharacter (held : List Int) (id : Nat) (s : Observed F) (key : Int) : Except Fault (Observed F) := do
  let now ← s.scene.now.EraseCharacter held id key
  if key ∈ s.members id then return (s.onNow now).SendAllCharacter id (.LEAVE_CHARACTER (leaving key))
  else return s.onNow now

/-- What the packets about a character say of it. -/
def shown (s : Observed F) (profile : Int → Profile F) (code : Int) : Shown F :=
  ⟨code, profile code, s.scene.motions code, (s.scene.now.characters code).mapKey⟩

/-- The snapshot of the members for a new one, and the new one for all members. -/
def announce (iterate : List Int → List Int) (profile : Int → Profile F) (id : Nat) (s : Observed F) (code : Int) :
    Observed F :=
  let s := { s with received := update s.received code [] }
  let fbbArray := (Make_FBB_All_CharacterInfo ((iterate (s.members id)).map (s.shown profile))).2
  let s := s.PushSend (fbbArray.map .ENTER_NEW_CHARACTER_VECTOR) code
  s.SendAllCharacter id (.ENTER_NEW_CHARACTER (Make_Fbb_Character (s.shown profile code)))

/-- `Channel::InsertCharacter`. `iterate` is the order in which `characters` is iterated. -/
def InsertCharacter (iterate : List Int → List Int) (profile : Int → Profile F) (id : Nat) (s : Observed F)
    (code : Int) : Except Fault (Observed F) := do
  let now ← s.scene.now.InsertCharacter id code
  let s' := { s with scene := { s.scene.InsertCharacter code with now } }
  if code ∈ s.members id then return s' else return s'.announce iterate profile id code

/-- `Channel::Escape`. -/
def Escape (mapCode : Int) (s : Observed F) (code : Int) : Except Fault (Observed F) := do
  let now ← s.scene.now.Escape code
  let s' := { s with scene := { s.scene.Escape mapCode code with now } }
  match (s.scene.now.characters code).cm with
  | none => .error .noCharacterManager
  | some channel =>
    let fbb := escaping code (s'.scene.motions code).position
    return { s' with escapes := update s.escapes channel (s.escapes channel ++ [fbb]) }

/-- `Channel::PrevTick`. -/
def PrevTick (iterate : List Int → List Int) (profile : Int → Profile F) (id : Nat) (channel : Channel)
    (s : Observed F) : Except Fault (Observed F) := do
  let held := channel.req_Insert_list ++ channel.req_func_list
  let s := s.onNow (s.scene.now.onChannel id Channel.clear)
  let s ← channel.req_erase_list.foldlM (EraseCharacter held id) s
  let s ← channel.req_Insert_list.foldlM (InsertCharacter iterate profile id) s
  channel.req_func_list.foldlM (Escape channel.mapCode) s

/-- `Component::Update` of a channel. The manager that it begins with begins in the same pass,
and ticks in every later one right after the channel. -/
def updateChannel (iterate : List Int → List Int) (profile : Int → Profile F) (id : Nat) (s : Observed F) :
    Except Fault (Observed F) :=
  match s.scene.now.channels[id]? with
  | none => .ok s
  | some channel =>
    match channel.cm with
    | none => .ok (s.onNow (s.scene.now.onChannel id Channel.BeginPlay))
    | some _ => do
      let s ← s.PrevTick iterate profile id channel
      return { s with updated := some id }

/-- The manager of a channel, as the loops that report movements see it. -/
def reporter (iterate : List Int → List Int) (id : Nat) (s : Observed F) : movement.CharacterManager F where
  characters := (iterate (s.members id)).map fun code => (code, some ⟨code, s.scene.motions code⟩)
  bMovable := true
  saveTime := s.saveTime id
  req_send_all := []
  sent := []

/-- What the loops leave in a character. -/
def store (s : Observed F) : Int × Option (movement.Character F) → Observed F
  | (code, some ch) => { s with scene := s.scene.onMotion code fun _ => ch.motion }
  | (_, none) => s

def broadcast (iterate : List Int → List Int) (id : Nat) (s : Observed F) : Except Fault (Observed F) :=
  match (s.reporter iterate id).broadcast with
  | none => .error .deadCharacter
  | some cm =>
    let s := cm.characters.foldl store { s with saveTime := update s.saveTime id cm.saveTime }
    .ok (cm.sent.foldl (fun s packet => s.SendAllCharacter id (.MOVING_VECTOR packet.2)) s)

/-- The `PrevTick` of a manager sends what waits. -/
def sendWaiting (id : Nat) (s : Observed F) : Observed F :=
  (s.escapes id).foldl (fun s fbb => s.SendAllCharacter id (.CON_ESCAPE fbb))
    { s with escapes := update s.escapes id [] }

/-- The case `REQ_CHARACTER_LIST` of `InGameState::On_Read`. -/
def REQ_CHARACTER_LIST (code : Int) (s : Observed F) : Observed F :=
  if (s.scene.now.characters code).session ∧ (s.scene.now.characters code).user then
    match (s.scene.now.characters code).cm with
    | none => s
    | some id => { s with lists := update s.lists id (s.lists id ++ [(code, (s.scene.functions id).length)]) }
  else s

/-- The characters once the first functions that wait in a manager are called. -/
def after (id n : Nat) (s : Observed F) : Observed F :=
  { s with
    scene := ((s.scene.functions id).take n).foldl (fun scene func => scene.onMotion func.character func.call) s.scene }

/-- The function that a `REQ_CHARACTER_LIST` leaves in a manager. It holds the session, which
nobody reads once its user is gone. -/
def answer (iterate : List Int → List Int) (profile : Int → Profile F) (id : Nat) (s : Observed F)
    (request : Int × Nat) : Observed F :=
  let fbbArray := (Make_FBB_All_CharacterInfo ((iterate (s.members id)).map ((s.after id request.2).shown profile))).2
  s.PushSend (fbbArray.map .ENTER_NEW_CHARACTER_VECTOR) request.1

/-- A tick of the manager of a channel that reports the movements. -/
def due (s : Observed F) (id : Nat) (delta : F) : Prop :=
  (s.scene.now.manager id).any CharacterManager.bMovable = true ∧ s.saveTime id + delta > lit 4 1

instance (s : Observed F) (id : Nat) (delta : F) : Decidable (s.due id delta) := inferInstanceAs (Decidable (_ ∧ _))

/-- `CharacterManager::Tick`. -/
def tickManager (iterate : List Int → List Int) (profile : Int → Profile F) (id : Nat) (delta : F)
    (s : Observed F) : Except Fault (Observed F) := do
  let scene ← s.scene.tickManager id delta
  let s' := (s.lists id).foldl (answer iterate profile id) (s.sendWaiting id)
  let s' := { s' with scene, lists := update s'.lists id [], updated := none }
  if (s.scene.now.manager id).any CharacterManager.bMovable then
    let s' := { s' with saveTime := update s'.saveTime id (s'.saveTime id + delta) }
    if s'.saveTime id > lit 4 1 then s'.broadcast iterate id else return s'
  else return s'

/-- The steps of the IO threads, and those of the game thread, which come with the orders of
their iterations and with what the packets say of the characters beside their positions. -/
inductive Event (F : Type) where
  | request (code : Int) (request : World.Request)
  | REQ_CHARACTER_LIST (code : Int)
  | MOVING (code : Int) (position forward : Vector3 F) (speed : F) (moving : Bool)
  | closeSession (code : Int)
  | disconnect (code : Int)
  | updateChannel (id : Nat) (iterate : List Int → List Int) (profile : Int → Profile F)
  | tickManager (id : Nat) (iterate : List Int → List Int) (profile : Int → Profile F) (delta : F)

def onScene (s : Observed F) (e : Scene.Event F) : Except Fault (Observed F) := do
  let scene ← s.scene.step e
  return { s with scene }

def step (s : Observed F) : Event F → Except Fault (Observed F)
  | .request code request => s.onScene (.request code request)
  | .REQ_CHARACTER_LIST code => .ok (s.REQ_CHARACTER_LIST code)
  | .MOVING code position forward speed moving => s.onScene (.MOVING code position forward speed moving)
  | .closeSession code => s.onScene (.closeSession code)
  | .disconnect code => s.onScene (.disconnect code)
  | .updateChannel id iterate profile => s.updateChannel iterate profile id
  | .tickManager id iterate profile delta => s.tickManager iterate profile id delta

/-- The game thread ticks the manager of a channel next after the channel. -/
def inTurn (s : Observed F) : Event F → Bool
  | .updateChannel _ _ _ => s.updated = none
  | .tickManager id _ _ _ => s.updated = some id
  | _ => true

/-- The steps that follow no null or expired pointer. -/
def next (s : Observed F) (e : Event F) : Option (Observed F) :=
  if s.inTurn e then (s.step e).toOption else none

end Observed

end AsioGameServer.world

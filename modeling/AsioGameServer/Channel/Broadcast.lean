import AsioGameServer.FlatBuffers.Encoding

open Function

namespace AsioGameServer.channel

open flatbuffers

/-- A member of a channel, with the session of its user. -/
structure Member where
  code : Int
  session : Nat
deriving DecidableEq, Repr

/-- The finished builder of a packet. -/
inductive Payload where
  | characters (fbb : FlatBufferBuilder FB.Character)
  | monsters (fbb : FlatBufferBuilder FB.Monster)

/-- A packet pushed to a session. -/
structure Pushed where
  session : Nat
  symbol : Packet_Symbal
  payload : Payload

/-- A `Channel` with its `CharacterManager`. The members are in the order of the
iteration of `characters`. The last two fields record every packet pushed to a session,
in order, and how many of them there were when a character was last inserted. -/
structure Channel where
  characters : List Member
  pushed : List Pushed
  inserted : Int → Nat

/-- What the other objects hold when a character is inserted: the entries of a dungeon's
`MonsterManager`, and the fields of the characters. -/
structure Surroundings where
  monsters : List (Int × Option MonsterStatus)
  status : Int → CharacterStatus

/-- The fields of the character with a given code. -/
def Surroundings.statusOf (around : Surroundings) (code : Int) : CharacterStatus :=
  { around.status code with code }

namespace Channel

/-- A channel without members. -/
def start : Channel := ⟨[], [], fun _ => 0⟩

/-- The codes in the channel's `CharacterManager`. -/
def codes (s : Channel) : List Int := s.characters.map Member.code

def PushSend (session : Nat) (symbol : Packet_Symbal) (payload : Payload) (s : Channel) : Channel :=
  { s with pushed := s.pushed ++ [⟨session, symbol, payload⟩] }

/-- `CharacterManager::SendAllCharacter`, where the users and sessions are alive. -/
def SendAllCharacter (symbol : Packet_Symbal) (fbb : FlatBufferBuilder FB.Character) (s : Channel) : Channel :=
  s.characters.foldl (fun s ch => s.PushSend ch.session symbol (.characters fbb)) s

/-- The monsters and then the characters of the channel are sent to one session. -/
def sendSnapshots (session : Nat) (around : Surroundings) (s : Channel) : Channel :=
  let monsters := (Make_FBB_All_Monster around.monsters 10).2
  let s := monsters.foldl (fun s fbb => s.PushSend session .RESPAWN_MONSTER_VEC (.monsters fbb)) s
  let entries := s.characters.map fun ch => (ch.code, some (around.statusOf ch.code))
  let characters := (Make_FBB_All_CharacterInfo entries 10).2
  characters.foldl (fun s fbb => s.PushSend session .ENTER_NEW_CHARACTER_VECTOR (.characters fbb)) s

/-- `Channel::InsertCharacter`. `order` is the iteration order of `characters` after the
insertion, which `unordered_map` leaves open. -/
def InsertCharacter (character : Member) (around : Surroundings) (order : List Member) (s : Channel) :
    Channel :=
  if character.code ∈ s.codes then s
  else
    { s with characters := order, inserted := update s.inserted character.code s.pushed.length }
      |>.sendSnapshots character.session around
      |>.SendAllCharacter .ENTER_NEW_CHARACTER (Make_Fbb_Character (around.statusOf character.code))

/-- The packet that says that a character has left. -/
def leaving (key : Int) : FlatBufferBuilder FB.Character :=
  let (fbb, charoffset) := (FB.CharacterBuilder.new .new |>.add_code key).Finish
  fbb.Finish [charoffset]

/-- `Channel::EraseCharacter`. -/
def EraseCharacter (key : Int) (s : Channel) : Channel :=
  if key ∈ s.codes then
    { s with characters := s.characters.filter (·.code ≠ key) }.SendAllCharacter .LEAVE_CHARACTER (leaving key)
  else s

inductive Operation where
  | InsertCharacter (character : Member) (around : Surroundings) (order : List Member)
  | EraseCharacter (key : Int)

/-- An insertion may bring the members into any order. -/
def next (s : Channel) : Operation → Option Channel
  | .InsertCharacter character around order =>
    if character.code ∈ s.codes ∨ order.Perm (character :: s.characters) then
      some (s.InsertCharacter character around order)
    else none
  | .EraseCharacter key => some (s.EraseCharacter key)

end Channel

/-- What a client does with a packet: it adds the characters that enter and removes the
one that leaves. -/
def applyPacket (view : List Int) (p : Pushed) : List Int :=
  match p.symbol, p.payload with
  | .ENTER_NEW_CHARACTER, .characters fbb | .ENTER_NEW_CHARACTER_VECTOR, .characters fbb =>
    view ++ fbb.contents.map FB.Character.code
  | .LEAVE_CHARACTER, .characters fbb => view.filter (· ∉ fbb.contents.map FB.Character.code)
  | _, _ => view

/-- The codes that the client of a character knows from the packets pushed to its
session since the character was inserted. -/
def Channel.view (s : Channel) (ch : Member) : List Int :=
  ((s.pushed.drop (s.inserted ch.code)).filter (·.session = ch.session)).foldl applyPacket []

end AsioGameServer.channel

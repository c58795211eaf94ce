import AsioGameServer.FlatBuffers.Partition
import AsioGameServer.Monster.Manager
import AsioGameServer.Status.Manager

open Function Number

namespace AsioGameServer.dungeon

open flatbuffers (FlatBufferBuilder)
open monster (Monster MonsterManager Output)

variable {F : Type} [Number F]

namespace FB

/-- The table `FB::Monster`. A field that is not stored is read as its default. -/
structure Monster (F : Type) where
  code : Int
  number : Int
  nick : Option String
  position : Option (Vector3 F)
  CurrentHP : F
  MaxHp : F
  power : F
  speed : F
deriving DecidableEq, Repr

/-- A `MonsterBuilder`, with the table that can be read from what it has added. -/
structure MonsterBuilder (F : Type) where
  fbb_ : FlatBufferBuilder (Monster F)
  start_ : Nat
  table : Monster F

namespace MonsterBuilder

def new (fbb : FlatBufferBuilder (Monster F)) : MonsterBuilder F :=
  ⟨fbb, fbb.GetSize, ⟨0, 0, none, none, ofInt 0, ofInt 0, ofInt 0, ofInt 0⟩⟩

def add_code (code : Int) (b : MonsterBuilder F) : MonsterBuilder F :=
  { b with fbb_ := b.fbb_.AddElement 4 4 (code == 0), table.code := code }

def add_number (number : Int) (b : MonsterBuilder F) : MonsterBuilder F :=
  { b with fbb_ := b.fbb_.AddElement 6 4 (number == 0), table.number := number }

def add_nick (nick : String) (b : MonsterBuilder F) : MonsterBuilder F :=
  { b with fbb_ := b.fbb_.AddOffset 8 false, table.nick := nick }

def add_position (position : Vector3 F) (b : MonsterBuilder F) : MonsterBuilder F :=
  { b with fbb_ := b.fbb_.AddStruct 10 12 4, table.position := position }

def add_CurrentHP (CurrentHP : F) (b : MonsterBuilder F) : MonsterBuilder F :=
  { b with fbb_ := b.fbb_.AddElement 12 4 (decide (CurrentHP = ofInt 0)), table.CurrentHP := CurrentHP }

def add_MaxHp (MaxHp : F) (b : MonsterBuilder F) : MonsterBuilder F :=
  { b with fbb_ := b.fbb_.AddElement 14 4 (decide (MaxHp = ofInt 0)), table.MaxHp := MaxHp }

def add_power (power : F) (b : MonsterBuilder F) : MonsterBuilder F :=
  { b with fbb_ := b.fbb_.AddElement 16 4 (decide (power = ofInt 0)), table.power := power }

def add_speed (speed : F) (b : MonsterBuilder F) : MonsterBuilder F :=
  { b with fbb_ := b.fbb_.AddElement 18 4 (decide (speed = ofInt 0)), table.speed := speed }

def Finish (b : MonsterBuilder F) : FlatBufferBuilder (Monster F) × Nat :=
  (b.fbb_.EndTable b.start_).addTable b.table

end MonsterBuilder

end FB

/-- The table of one monster in a snapshot. -/
def addMonster (monster : Monster F) (fbb : FlatBufferBuilder (FB.Monster F)) :
    FlatBufferBuilder (FB.Monster F) × Nat :=
  FB.MonsterBuilder.new (fbb.CreateString monster.nickname.utf8ByteSize)
    |>.add_code monster.code
    |>.add_number monster.monsterNumber
    |>.add_MaxHp monster.maxHp
    |>.add_CurrentHP monster.currentHp
    |>.add_position monster.position
    |>.add_nick monster.nickname
    |>.add_power monster.power
    |>.add_speed monster.speed
    |>.Finish

/-- The entries of `monsters`, in the order of their numbers. The weak pointers are live as
long as the monsters are children of the manager. -/
def entries (mm : MonsterManager F) : List (Int × Option (Monster F)) :=
  (List.range mm.monKeyCount.toNat).filterMap fun i : Nat =>
    (mm.monsters i).map fun monster => ((i : Int), some monster)

/-- `MonsterManager::Make_FBB_All_Monster`. -/
def Make_FBB_All_Monster (mm : MonsterManager F) (slice : Int) : Int × List (FlatBufferBuilder (FB.Monster F)) :=
  flatbuffers.Slices.run addMonster slice (entries mm)

/-- The packets about monsters that a session gets. -/
inductive Packet (F : Type) where
  | RESPAWN_MONSTER_VEC (fbb : FlatBufferBuilder (FB.Monster F))
  | toAll (output : Output F)

/-- A character in the `CharacterManager`, with the packets about monsters that were pushed to
its session since it was inserted. -/
structure Client (F : Type) where
  code : Int
  received : List (Packet F)

/-- What a monster's death queues on the manager of the attacker. -/
structure Reward where
  attacker : Int
  exp : Int
deriving DecidableEq, Repr

/-- The `Channel` of a dungeon after its `BeginPlay`: the `MonsterManager`, the characters and
the packets that wait in its `CharacterManager`, the awards that wait in the managers of their
attackers, and the characters' levels. -/
structure Dungeon (F : Type) where
  mm : MonsterManager F
  characters : List (Client F)
  req_send_all : List (Output F)
  rewards : List Reward
  levels : Int → status.Character F

/-- Whether an output is given to `Async_SendAllCharacter`. -/
def isPacket : Output F → Bool
  | .RESPAWN_MONSTER _ | .DIE _ | .MONSTER_ATTACK _ _ | .CON_DAMAGE _ | .CON_DAMAGE_VECTOR _ => true
  | .AddCurrentExp _ _ _ | .damage _ => false

def reward : Output F → Option Reward
  | .AddCurrentExp _ attacker exp => some ⟨attacker, exp⟩
  | _ => none

/-- The steps on a dungeon: those of its monsters and their manager, the insertion and the
erasure of a character by its channel, the `PrevTick` of the `CharacterManager`, which sends
what waits, and an award that some manager executes. -/
inductive Event (F : Type) where
  | monsters (e : MonsterManager.Event F)
  | InsertCharacter (code : Int)
  | EraseCharacter (key : Int)
  | PrevTick
  | award (i : Nat) (cm session : Bool)

/-- `GetParentComponent<Channel>` and `GetComponent<CharacterManager>` of a monster find the
channel and its manager, which was attached before the monsters were. -/
def found (w : monster.Surroundings F) : monster.Surroundings F := { w with cm := true }

/-- A step of the monsters while the channel lives. A monster begins once. -/
def ofMonsters (mm : MonsterManager F) : MonsterManager.Event F → Option (MonsterManager.Event F)
  | .BeginPlay number w =>
    if (mm.monsters number).all (·.events = 0) then some (.BeginPlay number (found w)) else none
  | .Tick number w => some (.Tick number (found w))
  | .DamageProcess w attacker damaged_code attackType =>
    some (.DamageProcess (found w) attacker damaged_code attackType)
  | .DamageProcessVector w attacker damagevector => some (.DamageProcessVector (found w) attacker damagevector)
  | .Add_Spawn_Monster desc memory => some (.Add_Spawn_Monster desc memory)
  | .EndPlay _ => none

namespace Dungeon

def start (levels : Int → status.Character F) : Dungeon F := ⟨.start, [], [], [], levels⟩

/-- What left the monsters in a step is queued. -/
def queue (mm : MonsterManager F) (d : Dungeon F) : Dungeon F :=
  let new := mm.outputs.drop d.mm.outputs.length
  { d with
    mm
    req_send_all := d.req_send_all ++ new.filter isPacket
    rewards := d.rewards ++ new.filterMap reward }

/-- `Channel::InsertCharacter`, as far as the monsters go. -/
def InsertCharacter (code : Int) (d : Dungeon F) : Dungeon F :=
  if code ∈ d.characters.map Client.code then d
  else
    let fbbArray := (Make_FBB_All_Monster d.mm 10).2
    { d with characters := d.characters ++ [⟨code, fbbArray.map .RESPAWN_MONSTER_VEC⟩] }

def EraseCharacter (key : Int) (d : Dungeon F) : Dungeon F :=
  { d with characters := d.characters.filter (·.code ≠ key) }

/-- `SendAllCharacter`, where the users and sessions are alive. -/
def SendAllCharacter (d : Dungeon F) (packet : Output F) : Dungeon F :=
  { d with characters := d.characters.map fun ch => { ch with received := ch.received ++ [.toAll packet] } }

def PrevTick (d : Dungeon F) : Dungeon F :=
  d.req_send_all.foldl SendAllCharacter { d with req_send_all := [] }

/-- The steps that are defined. -/
def next (infos : Int → Option (monster.MonsterInfo F)) (f : monster.DamageFormula F) (sm : status.StatusManager F)
    (d : Dungeon F) : Event F → Option (Dungeon F)
  | .monsters e => do
    let mm ← d.mm.next infos f (← ofMonsters d.mm e)
    return d.queue mm
  | .InsertCharacter code => some (d.InsertCharacter code)
  | .EraseCharacter key => some (d.EraseCharacter key)
  | .PrevTick => some d.PrevTick
  | .award i cm session => do
    let reward ← d.rewards[i]?
    let (_, level) ← ((d.levels reward.attacker).AddCurrentExp sm ⟨reward.exp, cm, session⟩).toOption
    return { d with rewards := d.rewards.eraseIdx i, levels := update d.levels reward.attacker level }

end Dungeon

end AsioGameServer.dungeon

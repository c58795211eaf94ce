import AsioGameServer.FlatBuffers.Builder

namespace AsioGameServer.flatbuffers

structure Vector3 where
  x : float
  y : float
  z : float
deriving DecidableEq, Repr

/-- What the packets about a character say of it. -/
structure CharacterStatus where
  code : Int
  characterTypeCode : Int
  level : Int
  nickname : List UInt8
  maxHP : float
  power : float
  maxSpeed : float
  position : Vector3
  mapKey : Int
deriving DecidableEq, Repr

/-- What the packets about a monster say of it. -/
structure MonsterStatus where
  code : Int
  monsterNumber : Int
  nickname : List UInt8
  maxHp : float
  currentHp : float
  power : float
  speed : float
  position : Vector3
deriving DecidableEq, Repr

namespace FB

/-- The table `FB::Character`. A field that is not stored is read as its default. -/
structure Character where
  code : Int := 0
  type : Int := 0
  nick : Option (List UInt8) := none
  position : Option Vector3 := none
  level : Int := 0
  hp : float := 0
  power : float := 0
  speed : float := 0
  mapcode : Int := 0
deriving DecidableEq, Repr

/-- The table `FB::Monster`. -/
structure Monster where
  code : Int := 0
  number : Int := 0
  nick : Option (List UInt8) := none
  position : Option Vector3 := none
  CurrentHP : float := 0
  MaxHp : float := 0
  power : float := 0
  speed : float := 0
deriving DecidableEq, Repr

/-- The table `FB::Chat`, whose color the server leaves alone. -/
structure Chat where
  nick : Option (List UInt8) := none
  message : Option (List UInt8) := none
deriving DecidableEq, Repr

/-- A `CharacterBuilder`, with the table that can be read from what it has added. -/
structure CharacterBuilder where
  fbb_ : FlatBufferBuilder Character
  start_ : Nat
  table : Character

namespace CharacterBuilder

def new (fbb : FlatBufferBuilder Character) : CharacterBuilder := ⟨fbb, fbb.GetSize, {}⟩

def add_code (code : Int) (b : CharacterBuilder) : CharacterBuilder :=
  { b with fbb_ := b.fbb_.AddElement 4 4 (code == 0), table.code := code }

def add_type (type : Int) (b : CharacterBuilder) : CharacterBuilder :=
  { b with fbb_ := b.fbb_.AddElement 6 1 (type == 0), table.type := type }

def add_nick (nick : List UInt8) (b : CharacterBuilder) : CharacterBuilder :=
  { b with fbb_ := b.fbb_.AddOffset 8 false, table.nick := nick }

def add_position (position : Vector3) (b : CharacterBuilder) : CharacterBuilder :=
  { b with fbb_ := b.fbb_.AddStruct 10 12 4, table.position := position }

def add_level (level : Int) (b : CharacterBuilder) : CharacterBuilder :=
  { b with fbb_ := b.fbb_.AddElement 12 4 (level == 0), table.level := level }

def add_hp (hp : float) (b : CharacterBuilder) : CharacterBuilder :=
  { b with fbb_ := b.fbb_.AddElement 14 4 hp.isZero, table.hp := hp.stored }

def add_power (power : float) (b : CharacterBuilder) : CharacterBuilder :=
  { b with fbb_ := b.fbb_.AddElement 16 4 power.isZero, table.power := power.stored }

def add_speed (speed : float) (b : CharacterBuilder) : CharacterBuilder :=
  { b with fbb_ := b.fbb_.AddElement 20 4 speed.isZero, table.speed := speed.stored }

def add_mapcode (mapcode : Int) (b : CharacterBuilder) : CharacterBuilder :=
  { b with fbb_ := b.fbb_.AddElement 22 4 (mapcode == 0), table.mapcode := mapcode }

def Finish (b : CharacterBuilder) : FlatBufferBuilder Character × Nat :=
  (b.fbb_.EndTable b.start_).addTable b.table

end CharacterBuilder

/-- A `MonsterBuilder`. -/
structure MonsterBuilder where
  fbb_ : FlatBufferBuilder Monster
  start_ : Nat
  table : Monster

namespace MonsterBuilder

def new (fbb : FlatBufferBuilder Monster) : MonsterBuilder := ⟨fbb, fbb.GetSize, {}⟩

def add_code (code : Int) (b : MonsterBuilder) : MonsterBuilder :=
  { b with fbb_ := b.fbb_.AddElement 4 4 (code == 0), table.code := code }

def add_number (number : Int) (b : MonsterBuilder) : MonsterBuilder :=
  { b with fbb_ := b.fbb_.AddElement 6 4 (number == 0), table.number := number }

def add_nick (nick : List UInt8) (b : MonsterBuilder) : MonsterBuilder :=
  { b with fbb_ := b.fbb_.AddOffset 8 false, table.nick := nick }

def add_position (position : Vector3) (b : MonsterBuilder) : MonsterBuilder :=
  { b with fbb_ := b.fbb_.AddStruct 10 12 4, table.position := position }

def add_CurrentHP (CurrentHP : float) (b : MonsterBuilder) : MonsterBuilder :=
  { b with fbb_ := b.fbb_.AddElement 12 4 CurrentHP.isZero, table.CurrentHP := CurrentHP.stored }

def add_MaxHp (MaxHp : float) (b : MonsterBuilder) : MonsterBuilder :=
  { b with fbb_ := b.fbb_.AddElement 14 4 MaxHp.isZero, table.MaxHp := MaxHp.stored }

def add_power (power : float) (b : MonsterBuilder) : MonsterBuilder :=
  { b with fbb_ := b.fbb_.AddElement 16 4 power.isZero, table.power := power.stored }

def add_speed (speed : float) (b : MonsterBuilder) : MonsterBuilder :=
  { b with fbb_ := b.fbb_.AddElement 18 4 speed.isZero, table.speed := speed.stored }

def Finish (b : MonsterBuilder) : FlatBufferBuilder Monster × Nat :=
  (b.fbb_.EndTable b.start_).addTable b.table

end MonsterBuilder

/-- A `ChatBuilder`. -/
structure ChatBuilder where
  fbb_ : FlatBufferBuilder Chat
  start_ : Nat
  table : Chat

namespace ChatBuilder

def new (fbb : FlatBufferBuilder Chat) : ChatBuilder := ⟨fbb, fbb.GetSize, {}⟩

def add_nick (nick : List UInt8) (b : ChatBuilder) : ChatBuilder :=
  { b with fbb_ := b.fbb_.AddOffset 4 false, table.nick := nick }

def add_message (message : Option (List UInt8)) (b : ChatBuilder) : ChatBuilder :=
  { b with fbb_ := b.fbb_.AddOffset 6 message.isNone, table.message := message }

def Finish (b : ChatBuilder) : FlatBufferBuilder Chat × Nat := (b.fbb_.EndTable b.start_).addTable b.table

end ChatBuilder

/-- `CreateCharacterVec` and `CreateMonsterVec`: a table with the vector as its only
field. -/
def CreateVec {τ : Type} (b : FlatBufferBuilder τ) : FlatBufferBuilder τ :=
  (b.AddOffset 4 false).EndTable b.GetSize

end FB

end AsioGameServer.flatbuffers

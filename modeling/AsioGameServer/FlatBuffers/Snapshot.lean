import AsioGameServer.FlatBuffers.Tables

namespace AsioGameServer.flatbuffers

/-- The local variables of `Make_FBB_All_CharacterInfo` and `Make_FBB_All_Monster`.
The array refers to builders by number: those of `closed`, and `fbb` after them. -/
structure Slices (τ : Type) where
  closed : List (FlatBufferBuilder τ)
  fbb : FlatBufferBuilder τ
  vec : List Nat
  fbbArray : List Nat
  count : Int
  total : Int

namespace Slices

variable {α τ : Type}

def start : Slices τ := ⟨[], .new, [], [], 0, 0⟩

/-- The builder a pointer of the array refers to, with what has been added to it up to
now. -/
def builder (s : Slices τ) (i : Nat) : FlatBufferBuilder τ := s.closed.getD i s.fbb

/-- The vector of the tables added so far becomes the root of the current builder. -/
def finish (b : FlatBufferBuilder τ) (vec : List Nat) : FlatBufferBuilder τ :=
  (FB.CreateVec (b.CreateVector vec.length)).Finish vec

/-- The current builder is pushed into the array and finished. -/
def push (s : Slices τ) : Slices τ :=
  { s with fbbArray := s.fbbArray ++ [s.closed.length], fbb := finish s.fbb s.vec }

/-- A new builder and vector take the place of the current ones. -/
def renew (s : Slices τ) : Slices τ := { s with closed := s.closed ++ [s.fbb], fbb := .new, vec := [] }

/-- One iteration of the loop: an expired entry is skipped, the table of a live one is
added to the current builder. -/
def next (add : α → FlatBufferBuilder τ → FlatBufferBuilder τ × Nat) (slice : Int) (s : Slices τ)
    (entry : Int × Option α) : Slices τ :=
  match entry.2 with
  | none => s
  | some ch =>
    let (fbb, offset) := add ch s.fbb
    let s : Slices τ := { s with fbb, vec := s.vec ++ [offset], count := s.count + 1 }
    let s : Slices τ := if s.count = slice then ({ s with count := 0 } : Slices τ).push.renew else s
    let s : Slices τ := { s with total := s.total + 1 }
    if s.count ≠ 0 then s.push else s

/-- The whole function: its result, and the finished builders in the order of the
array. -/
def run (add : α → FlatBufferBuilder τ → FlatBufferBuilder τ × Nat) (slice : Int)
    (entries : List (Int × Option α)) : Int × List (FlatBufferBuilder τ) :=
  let s := entries.foldl (next add slice) start
  (s.total, s.fbbArray.map s.builder)

end Slices

/-- The name and the fields of one character in a snapshot. -/
def characterInfo (ch : CharacterStatus) (fbb : FlatBufferBuilder FB.Character) : FB.CharacterBuilder :=
  FB.CharacterBuilder.new (fbb.CreateString ch.nickname.length)
    |>.add_code ch.code
    |>.add_type ch.characterTypeCode
    |>.add_hp ch.maxHP
    |>.add_level ch.level
    |>.add_nick ch.nickname
    |>.add_power ch.power
    |>.add_speed ch.maxSpeed
    |>.add_position ch.position

/-- The table of one character in a snapshot. -/
def addCharacterInfo (ch : CharacterStatus) (fbb : FlatBufferBuilder FB.Character) :
    FlatBufferBuilder FB.Character × Nat :=
  (characterInfo ch fbb).Finish

/-- The table of one monster in a snapshot. -/
def addMonster (monster : MonsterStatus) (fbb : FlatBufferBuilder FB.Monster) :
    FlatBufferBuilder FB.Monster × Nat :=
  FB.MonsterBuilder.new (fbb.CreateString monster.nickname.length)
    |>.add_code monster.code
    |>.add_number monster.monsterNumber
    |>.add_MaxHp monster.maxHp
    |>.add_CurrentHP monster.currentHp
    |>.add_position monster.position
    |>.add_nick monster.nickname
    |>.add_power monster.power
    |>.add_speed monster.speed
    |>.Finish

/-- `CharacterManager::Make_FBB_All_CharacterInfo` on the entries of `characters`, in the
order of their iteration, each with the character if it is alive. -/
def Make_FBB_All_CharacterInfo (characters : List (Int × Option CharacterStatus)) (slice : Int) :
    Int × List (FlatBufferBuilder FB.Character) :=
  Slices.run addCharacterInfo slice characters

/-- `MonsterManager::Make_FBB_All_Monster` on the entries of `monsters`. -/
def Make_FBB_All_Monster (monsters : List (Int × Option MonsterStatus)) (slice : Int) :
    Int × List (FlatBufferBuilder FB.Monster) :=
  Slices.run addMonster slice monsters

end AsioGameServer.flatbuffers

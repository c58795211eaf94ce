import AsioGameServer.Channel.Movement
import AsioGameServer.Dungeon.State

open Function Number

namespace AsioGameServer.dungeon

open flatbuffers (FlatBufferBuilder)
open monster (Monster MonsterManager)

variable {F : Type} [Number F]

/-- What is pushed to a session: a packet about monsters, or a report of their movements. -/
inductive Sent (F : Type) where
  | packet (packet : Packet F)
  | MONSTER_MOVING_VECTOR (fbb : FlatBufferBuilder (movement.FB.Move F))

/-- A dungeon whose monsters report their movements: the time since the last report, everything
that waits in the `CharacterManager`, in its order, and what was pushed to the session of each
character since it was last inserted. -/
structure Tracked (F : Type) where
  now : Dungeon F
  saveTime : F
  req_send_all : List (Sent F)
  received : Int → List (Sent F)

namespace Tracked

/-- The steps of the dungeon, and the `Tick` of its `MonsterManager`, whose functions are steps of
the dungeon. -/
inductive Event (F : Type) where
  | step (e : dungeon.Event F)
  | Tick (delta : F)

def start (levels : Int → status.Character F) : Tracked F := ⟨.start levels, ofInt 0, [], fun _ => []⟩

/-- The characters in the manager. -/
def members (s : Tracked F) : List Int := s.now.characters.map Client.code

def Async_SendAllCharacter (packets : List (Sent F)) (s : Tracked F) : Tracked F :=
  { s with req_send_all := s.req_send_all ++ packets }

/-- `SendAllCharacter`, where the users and sessions are alive. -/
def SendAllCharacter (s : Tracked F) (packet : Sent F) : Tracked F :=
  { s with received := fun code => if code ∈ s.members then s.received code ++ [packet] else s.received code }

def PrevTick (s : Tracked F) : Tracked F := s.req_send_all.foldl SendAllCharacter { s with req_send_all := [] }

def InsertCharacter (code : Int) (s : Tracked F) : Tracked F :=
  if code ∈ s.members then s
  else
    let fbbArray := (Make_FBB_All_Monster s.now.mm 10).2
    { s with received := update s.received code (fbbArray.map fun fbb => .packet (.RESPAWN_MONSTER_VEC fbb)) }

/-- What a step that leads to `now` does with the packets. -/
def packets (now : Dungeon F) (s : Tracked F) : dungeon.Event F → Tracked F
  | .monsters _ =>
    let new := now.mm.outputs.drop s.now.mm.outputs.length
    s.Async_SendAllCharacter ((new.filter isPacket).map fun output => .packet (.toAll output))
  | .InsertCharacter code => s.InsertCharacter code
  | .PrevTick => s.PrevTick
  | .EraseCharacter _ | .award _ _ _ => s

/-- The manager of the monsters, as the loop that reports their movements sees it. -/
def reporter (s : Tracked F) : movement.MonsterManager F where
  monsters := entries s.now.mm
  saveTime := s.saveTime
  channel := some (some ⟨[], false, ofInt 0, [], []⟩)

/-- What the loop leaves in a monster. -/
def store (mm : MonsterManager F) : Int × Option (Monster F) → MonsterManager F
  | (number, some mon) => { mm with monsters := update mm.monsters number (some mon) }
  | (_, none) => mm

/-- What the loop has given to `Async_SendAllCharacter`. -/
def reports : Option (Option (movement.CharacterManager F)) → List (Sent F)
  | some (some cm) => cm.req_send_all.map fun packet => .MONSTER_MOVING_VECTOR packet.2
  | _ => []

/-- `MonsterManager::Tick`, after the functions that wait. -/
def Tick (delta : F) (s : Tracked F) : Option (Tracked F) := do
  let mm ← s.reporter.Tick some delta
  let s := { s with now.mm := mm.monsters.foldl store s.now.mm, saveTime := mm.saveTime }
  return s.Async_SendAllCharacter (reports mm.channel)

/-- The steps that are defined. -/
def next (infos : Int → Option (monster.MonsterInfo F)) (f : monster.DamageFormula F) (sm : status.StatusManager F)
    (s : Tracked F) : Event F → Option (Tracked F)
  | .step e => do
    let now ← s.now.next infos f sm e
    return { s.packets now e with now }
  | .Tick delta => s.Tick delta

end Tracked

end AsioGameServer.dungeon

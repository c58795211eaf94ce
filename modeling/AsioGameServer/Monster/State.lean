import AsioGameServer.Structs
import AsioGameServer.BehaviorTree.Refinement
import Mathlib.Logic.Function.Iterate

open Number

namespace AsioGameServer.monster

variable {F : Type} [Number F]

inductive State where
  | IDLE | CHASE | ATTACK | DIE
deriving DecidableEq, Repr

inductive IdleState where
  | PATROL | HOLD
deriving DecidableEq, Repr

/-- The member functions that the actors of the tree are bound to. -/
inductive Action where
  | UpdateState | UpdateIdle | Patrol | Hold | Chase | Attack | Die
deriving DecidableEq, Repr

/-- The members that selectors read. -/
inductive Key where
  | state | idleState
deriving DecidableEq, Repr

/-- The values of the enumerations. -/
def State.value : State → Int
  | .IDLE => 0 | .CHASE => 1 | .ATTACK => 2 | .DIE => 3

def IdleState.value : IdleState → Int
  | .PATROL => 0 | .HOLD => 1

/-- A `Monster`. `bAlive` is the data of the `React`, and `events` counts its post events,
which are all the same. -/
structure Monster (F : Type) where
  code : Int
  monsterNumber : Int
  exp : Int
  nickname : String
  bAlive : Bool
  events : Nat
  maxHp : F
  currentHp : F
  respawnTime : F
  curRespawnTime : F
  respawnRange : F
  respawnPosition : Vector3 F
  power : F
  speed : F
  position : Vector3 F
  forward : Vector3 F
  bMove : Bool
  bChangePosition : Bool
  state : State
  idleState : IdleState
  targetCode : Int
  idleTime : F
  curIdleTime : F
  bAttacking : Bool
  attackCoolTime : F
  paths : List (Vector3 F)
  /-- The nodes that the builder made, and the root among them. -/
  ai : Option (behavior.Heap Action Key × Nat)

/-- What the functions of a monster get from elsewhere. -/
structure Surroundings (F : Type) where
  /-- A `Channel` above the monster and a `CharacterManager` in it are found. -/
  cm : Bool
  /-- `SearchNearPlayer`, and the position of `GetCharacter`. -/
  SearchNearPlayer : Vector3 F → Int × F
  GetCharacter : Int → Option (Vector3 F)
  /-- `navi` is there. -/
  navi : Bool
  findRandomPointAroundCircle : Vector3 F → F → Vector3 F
  findStraightPath : Vector3 F → Vector3 F → List (Vector3 F)
  idleTimeRange : F
  /-- `Time::Delta()`, and the clock in seconds. -/
  delta : F
  now : F

/-- What `SetMonsterBuilder` and the name add to a table. -/
structure MonsterTable (F : Type) where
  code : Int
  CurrentHP : F
  MaxHp : F
  number : Int
  position : Vector3 F
  power : F
  speed : F
  nick : String

/-- `FB::AttackState`. A packet may hold a value that the enumeration has no name for. -/
inductive AttackState where
  | Combo1 | Combo2 | Combo3 | Skill1 | Skill2 | Skill3
  | other (value : Int)
deriving DecidableEq, Repr

/-- A damage record, from a player to a monster. -/
structure Record (F : Type) where
  attacker_code : Int
  attackType : AttackState
  currentHP : F
  damage : F
  damaged_code : Int

/-- What leaves the monsters: packets to all characters, awards that are queued on the
manager of the attacker, and the damage records that are filled in. -/
inductive Output (F : Type) where
  | RESPAWN_MONSTER (monster : MonsterTable F)
  | DIE (number : Int)
  | MONSTER_ATTACK (number targetCode : Int)
  | AddCurrentExp (number attacker exp : Int)
  | damage (record : Record F)
  | CON_DAMAGE (record : Record F)
  | CON_DAMAGE_VECTOR (records : List (Record F))

/-- What has no defined result. -/
inductive Fault where
  /-- `formula` is read and was not set. -/
  | unsetFormula
  /-- A node is run that is not there. -/
  | unsetNode
deriving DecidableEq, Repr

/-- A monster and what left it. -/
structure Stage (F : Type) where
  self : Monster F
  outputs : List (Output F)

namespace Stage

def send (output : Output F) (s : Stage F) : Stage F := { s with outputs := s.outputs ++ [output] }

def onMonster (f : Monster F → Monster F) (s : Stage F) : Stage F := { s with self := f s.self }

end Stage

namespace Monster

def SetForward (forward : Vector3 F) (m : Monster F) : Monster F := { m with forward := forward.Normalize }

def Moving (delta : F) (m : Monster F) : Monster F :=
  if m.bMove then
    { m with
      bChangePosition := true
      position := m.position + (m.forward.scale delta).scale m.speed }
  else m

def FindPath (w : Surroundings F) (dest : Vector3 F) (m : Monster F) : Monster F :=
  if w.navi then
    { m with
      paths := m.paths ++
        (w.findStraightPath m.position.ToGLLocation dest.ToGLLocation).map Vector3.ToUnrealLocation }
  else m

end Monster

section Life

variable (w : Surroundings F)

def Respawn (s : Stage F) : Stage F :=
  let s := s.onMonster fun m =>
    { m with curRespawnTime := ofInt 0, currentHp := m.maxHp, state := .IDLE, bAttacking := false }
  let s := if w.navi then
      s.onMonster fun m =>
        { m with
          position := (w.findRandomPointAroundCircle m.respawnPosition.ToGLLocation
            (m.respawnRange / ofInt 100)).ToUnrealLocation }
    else s
  if w.cm then
    let m := s.self
    s.send (.RESPAWN_MONSTER ⟨m.code, m.currentHp, m.maxHp, m.monsterNumber, m.position, m.power, m.speed,
      m.nickname⟩)
  else s

def Dead (s : Stage F) : Stage F := if w.cm then s.send (.DIE s.self.monsterNumber) else s

/-- The post event of `bAlive`. -/
def onAlive (val : Bool) (s : Stage F) : Stage F := if val then Respawn w s else Dead w s

/-- `bAlive.Set`. -/
def SetAlive (val : Bool) (s : Stage F) : Stage F :=
  let s := s.onMonster ({ · with bAlive := val })
  (onAlive w val)^[s.self.events] s

def BeginPlay (s : Stage F) : Stage F :=
  let s := s.onMonster fun m => { m with events := m.events + 1 }
  (SetAlive w true s).onMonster ({ · with bMove := false })

def EndPlay (s : Stage F) : Stage F := s.onMonster ({ · with events := 0 })

end Life

section Actors

variable (w : Surroundings F)

def UpdateState (s : Stage F) : Bool × Stage F :=
  if s.self.bAlive = false then
    let s := s.onMonster ({ · with state := .DIE })
    (true, if s.self.curRespawnTime > s.self.respawnTime then SetAlive w true s else s)
  else
    let s := if s.self.bAttacking then s.onMonster ({ · with state := .ATTACK, bMove := false }) else s
    if w.cm = false then (false, s)
    else
      let result := w.SearchNearPlayer s.self.position
      if result.1 ≠ -1 ∧ result.2 < ofInt 1000 then
        if result.2 > ofInt 100 then
          let s := s.onMonster ({ · with state := .CHASE, paths := [], bMove := true, targetCode := result.1 })
          match w.GetCharacter s.self.targetCode with
          | none => (true, s)
          | some position => (true, s.onMonster (·.FindPath w position))
        else (true, s.onMonster ({ · with state := .ATTACK, bMove := false, targetCode := result.1 }))
      else (true, s.onMonster ({ · with state := .IDLE }))

def UpdateIdle (s : Stage F) : Bool × Stage F :=
  match s.self.idleState with
  | .PATROL =>
    if s.self.paths = [] then
      (true, s.onMonster ({ · with
        curIdleTime := ofInt 0, idleTime := w.idleTimeRange, idleState := .HOLD, bMove := true }))
    else (true, s)
  | .HOLD =>
    if s.self.idleTime > s.self.curIdleTime then (true, s)
    else
      let s := s.onMonster ({ · with bMove := true })
      if w.navi then
        let destination := w.findRandomPointAroundCircle s.self.position.ToGLLocation (ofInt 15)
        (true, s.onMonster fun m => { m.FindPath w destination.ToUnrealLocation with idleState := .PATROL })
      else (true, s)

/-- One step along the path, which `Patrol` and `Chase` share. The result is whether the
path went on. -/
def follow (delta : F) (m : Monster F) : Bool × Monster F :=
  match m.paths with
  | [] => (false, m)
  | front :: rest =>
    let paths := if m.position.Distance front < ofInt 5 then rest else front :: rest
    match paths with
    | [] => (false, { m with paths })
    | front :: _ => (true, ({ m with paths }.SetForward (front - m.position)).Moving delta)

def Patrol (s : Stage F) : Bool × Stage F := (true, s.onMonster fun m => (follow w.delta m).2)

def Hold (s : Stage F) : Bool × Stage F :=
  (false, s.onMonster fun m => { m with curIdleTime := m.curIdleTime + w.delta })

def Chase (s : Stage F) : Bool × Stage F :=
  (! (follow w.delta s.self).1, s.onMonster fun m => (follow w.delta m).2)

def Attack (s : Stage F) : Bool × Stage F :=
  if s.self.bAttacking then
    if w.now - s.self.attackCoolTime < lit 17 1 then (true, s)
    else (true, s.onMonster ({ · with bAttacking := false }))
  else
    let s := s.onMonster ({ · with bAttacking := true, attackCoolTime := w.now })
    if w.cm then (false, s.send (.MONSTER_ATTACK s.self.monsterNumber s.self.targetCode)) else (false, s)

def Die (s : Stage F) : Bool × Stage F :=
  (false, s.onMonster fun m => { m with curRespawnTime := m.curRespawnTime + w.delta })

/-- What the actors do, and what the selectors read. -/
def actors : behavior.Actors Action Key (Surroundings F) (Stage F) where
  act
    | .UpdateState, w, s => UpdateState w s
    | .UpdateIdle, w, s => UpdateIdle w s
    | .Patrol, w, s => Patrol w s
    | .Hold, w, s => Hold w s
    | .Chase, w, s => Chase w s
    | .Attack, w, s => Attack w s
    | .Die, w, s => Die w s
  read
    | .state, s => s.self.state.value
    | .idleState, s => s.self.idleState.value

/-- `Tick`. The tree is no deeper than it has nodes. -/
def Tick (s : Stage F) : Except Fault (Stage F) :=
  match s.self.ai with
  | none => .ok s
  | some (heap, root) =>
    match behavior.Run actors heap w heap.length root ⟨s, []⟩ with
    | none => .error .unsetNode
    | some (_, e) => .ok e.state

end Actors

end AsioGameServer.monster

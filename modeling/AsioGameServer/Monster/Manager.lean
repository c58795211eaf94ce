import AsioGameServer.Monster.State
import AsioGameServer.Lib.Transition
import AsioGameServer.Lib.Outcome

open Function Number

namespace AsioGameServer.monster

variable {F : Type} [Number F]

structure Damage (F : Type) where
  combo1 : F
  combo2 : F
  combo3 : F
  skill1 : F
  skill2 : F
  skill3 : F
  growCombo1 : F
  growCombo2 : F
  growCombo3 : F
  growSkill1 : F
  growSkill2 : F
  growSkill3 : F

structure Range (F : Type) where
  combo1 : F
  combo2 : F
  combo3 : F
  skill1 : F
  skill2 : F
  skill3 : F

structure DamageFormula (F : Type) where
  damages : Int → Option (Damage F)
  ranges : Int → Option (Range F)

namespace DamageFormula

/-- `GetCurDamage`, which gives `cur` where it returns true. -/
def GetCurDamage (f : DamageFormula F) (code : Int) (state : AttackState) (level power : F) :
    Except Fault (Option F) :=
  match f.damages code with
  | none => .ok none
  | some d =>
    match state with
    | .Combo1 => .ok (some ((d.combo1 + d.growCombo1 * level) * power))
    | .Combo2 => .ok (some ((d.combo2 + d.growCombo2 * level) * power))
    | .Combo3 => .ok (some ((d.combo3 + d.growCombo3 * level) * power))
    | .Skill1 => .ok (some ((d.skill1 + d.growSkill1 * level) * power))
    | .Skill2 => .ok (some ((d.skill2 + d.growSkill2 * level) * power))
    | .Skill3 => .ok (some ((d.skill3 + d.growSkill3 * level) * power))
    | .other _ => .error .unsetFormula

def rangeOf (r : Range F) : AttackState → Option F
  | .Combo1 => some r.combo1
  | .Combo2 => some r.combo2
  | .Combo3 => some r.combo3
  | .Skill1 => some r.skill1
  | .Skill2 => some r.skill2
  | .Skill3 => some r.skill3
  | .other _ => none

def CheckRange (f : DamageFormula F) (attackerCode : Int) (state : AttackState) (fromPos toPos : Vector3 F) :
    Bool :=
  match f.ranges attackerCode with
  | none => false
  | some r =>
    match rangeOf r state with
    | none => false
    | some range => fromPos.Distance toPos < range

end DamageFormula

/-- What the damage functions read of a character, and whether its `CharacterManager` is
there. -/
structure Attacker (F : Type) where
  code : Int
  typeCode : Int
  power : F
  position : Vector3 F
  cm : Bool

section Damage

variable (f : DamageFormula F) (w : Surroundings F)

/-- What `GetDamage` does when the hit points are gone: the award is queued on the manager
of the attacker, if that is there. -/
def kill (attacker : Attacker F) (s : Stage F) : Stage F :=
  let s := SetAlive w false s
  if attacker.cm then s.send (.AddCurrentExp s.self.monsterNumber attacker.code s.self.exp) else s

/-- `Monster::GetDamage` with a place for the record, which it gives where it returns
true. -/
def GetDamage (attacker : Attacker F) (state : AttackState) (s : Stage F) :
    Except Fault (Option (Record F) × Stage F) :=
  if s.self.bAlive = false then .ok (none, s)
  else
    match f.GetCurDamage attacker.typeCode state (ofInt 1) attacker.power with
    | .error fault => .error fault
    | .ok none => .ok (none, s)
    | .ok (some damageval) =>
      let s := s.onMonster fun m => { m with currentHp := m.currentHp - damageval }
      let s := if s.self.currentHp ≤ ofInt 0 then kill w attacker s else s
      let record := ⟨attacker.code, state, s.self.currentHp, damageval, s.self.monsterNumber⟩
      .ok (some record, s.send (.damage record))

/-- One request of a damage packet: the range is checked first. -/
def hit (attacker : Attacker F) (state : AttackState) (s : Stage F) :
    Except Fault (Option (Record F) × Stage F) :=
  if f.CheckRange attacker.typeCode state attacker.position s.self.position then
    GetDamage f w attacker state s
  else .ok (none, s)

end Damage

structure MonsterInfo (F : Type) where
  code : Int
  name : String
  HP : F
  Power : F
  Speed : F
  exp : Int

structure MonsterSpawnDesc (F : Type) where
  monsterCode : Int
  monsterCount : Nat
  position : Vector3 F
  distanceRange : F
  respawnTime : F

namespace MonsterBuilder

/-- The calls that `InsertAI` makes for the monsters of code 1. -/
def calls : List (behavior.Call Action Key) :=
  [.sequence,
    .actor .UpdateState,
    .selector .state,
      .sequenceKey State.IDLE.value,
        .actor .UpdateIdle,
        .selector .idleState,
          .actorKey IdleState.PATROL.value .Patrol,
          .actorKey IdleState.HOLD.value .Hold,
        .end,
      .end,
      .sequenceKey State.CHASE.value,
        .actor .Chase,
      .end,
      .sequenceKey State.ATTACK.value,
        .actor .Attack,
      .end,
      .sequenceKey State.DIE.value,
        .actor .Die,
      .end,
    .end,
  .end]

def InsertAI (code : Int) : Option (behavior.Heap Action Key × Nat) :=
  if code = 1 then
    match behavior.BehaviorTreeBuilder.build calls with
    | some (some root, heap) => some (heap, root)
    | _ => none
  else none

/-- `CreateMonster`. The members that neither it nor the constructor sets have the values
that the memory holds. -/
def CreateMonster (infos : Int → Option (MonsterInfo F)) (memory : Monster F) (monstercode number : Int) :
    Option (Monster F) :=
  (infos monstercode).map fun info =>
    { memory with
      code := monstercode
      events := 0
      bMove := false
      bChangePosition := false
      bAttacking := false
      state := .IDLE
      idleState := .HOLD
      curRespawnTime := ofInt 0
      curIdleTime := ofInt 0
      idleTime := ofInt 5
      paths := []
      monsterNumber := number
      nickname := info.name
      maxHp := info.HP
      power := info.Power
      speed := info.Speed
      exp := info.exp
      ai := InsertAI monstercode }

end MonsterBuilder

/-- A `MonsterManager` with its monsters by their numbers, and what left them so far. -/
structure MonsterManager (F : Type) where
  monsters : Int → Option (Monster F)
  monKeyCount : Int
  outputs : List (Output F)

namespace MonsterManager

/-- A manager that was constructed. -/
def start : MonsterManager F := ⟨fun _ => none, 0, []⟩

/-- A function of one monster. -/
def onStage (number : Int) (g : Stage F → Except Fault (Stage F)) (mm : MonsterManager F) :
    Except Fault (MonsterManager F) :=
  match mm.monsters number with
  | none => .ok mm
  | some monster => do
    let s ← g ⟨monster, mm.outputs⟩
    return { mm with monsters := update mm.monsters number (some s.self), outputs := s.outputs }

def send (output : Output F) (mm : MonsterManager F) : MonsterManager F :=
  { mm with outputs := mm.outputs ++ [output] }

section Requests

variable (f : DamageFormula F) (w : Surroundings F)

/-- One entry of a damage packet, with the record that it adds to the ones before. -/
def damage (attacker : Attacker F) (damaged_code : Int) (attackType : AttackState)
    (records : List (Record F)) (mm : MonsterManager F) : Except Fault (List (Record F) × MonsterManager F) :=
  match mm.monsters damaged_code with
  | none => .ok (records, mm)
  | some monster => do
    let (record, s) ← hit f w attacker attackType ⟨monster, mm.outputs⟩
    return (records ++ record.toList,
      { mm with monsters := update mm.monsters damaged_code (some s.self), outputs := s.outputs })

def DamageProcess (attacker : Attacker F) (damaged_code : Int) (attackType : AttackState)
    (mm : MonsterManager F) : Except Fault (MonsterManager F) := do
  let (records, mm) ← damage f w attacker damaged_code attackType [] mm
  match records with
  | [] => return mm
  | record :: _ => return if w.cm then mm.send (.CON_DAMAGE record) else mm

def DamageProcessVector (attacker : Attacker F) (damagevector : List (Int × AttackState))
    (mm : MonsterManager F) : Except Fault (MonsterManager F) := do
  let (records, mm) ← damagevector.foldlM
    (fun (records, mm) (damaged_code, attackType) => damage f w attacker damaged_code attackType records mm) ([], mm)
  if records.length = 0 then return mm
  return if w.cm then mm.send (.CON_DAMAGE_VECTOR records) else mm

end Requests

/-- One round of the loop of `Add_Spawn_Monster`, where the range is set to the time. -/
def spawn (infos : Int → Option (MonsterInfo F)) (desc : MonsterSpawnDesc F) (memory : Monster F)
    (mm : MonsterManager F) : MonsterManager F :=
  let number := mm.monKeyCount
  let mm := { mm with monKeyCount := number + 1 }
  match MonsterBuilder.CreateMonster infos memory desc.monsterCode number with
  | none => mm
  | some monster =>
    let monster := { monster with
      respawnPosition := desc.position
      respawnRange := desc.respawnTime
      respawnTime := desc.respawnTime }
    if (mm.monsters number).isSome then mm
    else { mm with monsters := update mm.monsters number (some monster) }

def Add_Spawn_Monster (infos : Int → Option (MonsterInfo F)) (desc : MonsterSpawnDesc F)
    (memory : Nat → Monster F) (mm : MonsterManager F) : MonsterManager F :=
  (List.range desc.monsterCount).foldl (fun mm i => mm.spawn infos desc (memory i)) mm

/-- The steps of a manager and its monsters. -/
inductive Event (F : Type) where
  | Add_Spawn_Monster (desc : MonsterSpawnDesc F) (memory : Nat → Monster F)
  | BeginPlay (number : Int) (w : Surroundings F)
  | Tick (number : Int) (w : Surroundings F)
  | EndPlay (number : Int)
  | DamageProcess (w : Surroundings F) (attacker : Attacker F) (damaged_code : Int) (attackType : AttackState)
  | DamageProcessVector (w : Surroundings F) (attacker : Attacker F) (damagevector : List (Int × AttackState))

/-- A step, which has no result where one has no defined result. -/
def next (infos : Int → Option (MonsterInfo F)) (f : DamageFormula F) (mm : MonsterManager F) :
    Event F → Option (MonsterManager F)
  | .Add_Spawn_Monster desc memory => some (mm.Add_Spawn_Monster infos desc memory)
  | .BeginPlay number w => (mm.onStage number fun s => .ok (BeginPlay w s)).toOption
  | .Tick number w => (mm.onStage number (Tick w)).toOption
  | .EndPlay number => (mm.onStage number fun s => .ok (EndPlay s)).toOption
  | .DamageProcess w attacker damaged_code attackType =>
    (mm.DamageProcess f w attacker damaged_code attackType).toOption
  | .DamageProcessVector w attacker damagevector => (mm.DamageProcessVector f w attacker damagevector).toOption

end MonsterManager

end AsioGameServer.monster

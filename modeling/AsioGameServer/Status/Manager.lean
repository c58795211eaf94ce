import AsioGameServer.Lib.Number
import AsioGameServer.Lib.Outcome
import AsioGameServer.Lib.Transition
import Mathlib.Logic.Function.Basic

open Function Number

namespace AsioGameServer.status

variable {F : Type} [Number F]

structure StatusInfo (F : Type) where
  baseHP : F
  basePower : F
  baseDefense : F
  baseSpeed : F
  growthHP : F
  growthPower : F
  growthDefense : F
  skill1_coolingtime : F
  skill2_coolingtime : F
  skill3_coolingtime : F

structure StatusManager (F : Type) where
  statusInfos : Int → Option (StatusInfo F)
  expReqInfos : List Int

/-- What a `Character` has to do with its level. -/
structure Character (F : Type) where
  characterTypeCode : Int
  level : Int
  reqExp : Int
  currentExp : Int
  maxHP : F
  defense : F
  power : F
  maxSpeed : F
  skill_cooltime : Int → F

/-- What has no defined result: a vector is read or written outside, or an `int` gets a value
that is none. -/
inductive Fault where
  | outOfRange | overflow
deriving DecidableEq, Repr

/-- The bounds of an `int`. -/
def INT_MIN : Int := -2147483648

def INT_MAX : Int := 2147483647

/-- A result of `int` arithmetic. -/
def int (n : Int) : Except Fault Int := if INT_MIN ≤ n ∧ n ≤ INT_MAX then .ok n else .error .overflow

/-- The place of a vector that an `int` stands for. -/
def place (level : Int) (infos : List Int) : Option Nat :=
  if 0 ≤ level ∧ level < infos.length then some level.toNat else none

/-- `infos[level]`. -/
def read (infos : List Int) (level : Int) : Except Fault Int :=
  match place level infos with
  | none => .error .outOfRange
  | some i => .ok (infos.getD i 0)

/-- `infos[level] = value`. -/
def write (infos : List Int) (level value : Int) : Except Fault (List Int) :=
  match place level infos with
  | none => .error .outOfRange
  | some i => .ok (infos.set i value)

namespace Character

def SetSkillCooltime (skillNumber : Int) (time : F) (c : Character F) : Character F :=
  if skillNumber > 0 ∧ skillNumber < 4 then
    { c with skill_cooltime := update c.skill_cooltime skillNumber time }
  else c

end Character

namespace StatusManager

/-- The two columns of a row of the table, where `stoi` reads them, and throws otherwise. -/
abbrev ExpRow := Option (Int × Int)

/-- The rows one after the other. What is thrown ends the loop and is dropped with the future
of the query. -/
def fill (infos : List Int) : List ExpRow → Except Fault (List Int)
  | [] => .ok infos
  | none :: _ => .ok infos
  | some (level, exp) :: rows => do fill (← write infos level exp) rows

/-- The table after its query, which fails or has rows. -/
def load (statusInfos : Int → Option (StatusInfo F)) : Option (List ExpRow) → Except Fault (StatusManager F)
  | none => .ok ⟨statusInfos, []⟩
  | some rows => do
    let infos ← fill (List.replicate (rows.length + 1) 0) rows
    return ⟨statusInfos, infos⟩

def SetStatus (sm : StatusManager F) (c : Character F) : Except Fault (Bool × Character F) :=
  match sm.statusInfos c.characterTypeCode with
  | none => .ok (false, c)
  | some info => do
    let level : F := ofInt c.level
    let reqExp ← read sm.expReqInfos c.level
    let c := { c with
      reqExp
      maxHP := level * info.growthHP + info.baseHP
      defense := level * info.growthDefense + info.baseDefense
      power := level * info.growthPower + info.basePower
      maxSpeed := info.baseSpeed }
    let c := c.SetSkillCooltime 1 info.skill1_coolingtime
    let c := c.SetSkillCooltime 2 info.skill2_coolingtime
    return (true, c.SetSkillCooltime 3 info.skill3_coolingtime)

end StatusManager

/-- An award, and whether a `CharacterManager` and an open session of the character are
found. -/
structure Award where
  value : Int
  cm : Bool
  session : Bool
deriving DecidableEq, Repr

/-- What an award sends: a function that tells all characters about the level, and a packet
with the experience. -/
inductive Notice where
  | LEVEL_UP
  | CHANGE_EXP (currentExp reqExp : Int)
deriving DecidableEq, Repr

namespace Character

variable (sm : StatusManager F)

def LevelUp (cm : Bool) (c : Character F) : Except Fault (List Notice × Character F) := do
  let currentExp ← int (c.currentExp - c.reqExp)
  let level ← int (c.level + 1)
  let (_, c) ← sm.SetStatus { c with currentExp, level }
  return (if cm then [.LEVEL_UP] else [], c)

def AddCurrentExp (award : Award) (c : Character F) : Except Fault (List Notice × Character F) := do
  let currentExp ← int (c.currentExp + award.value)
  let c := { c with currentExp }
  let (notices, c) ← if c.currentExp ≥ c.reqExp then c.LevelUp sm award.cm else .ok ([], c)
  return (if award.session then notices ++ [.CHANGE_EXP c.currentExp c.reqExp] else notices, c)

end Character

end AsioGameServer.status

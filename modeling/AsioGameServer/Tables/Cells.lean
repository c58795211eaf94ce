import AsioGameServer.Lib.Rows
import AsioGameServer.Mysql.Execute
import AsioGameServer.Status.Manager
import AsioGameServer.Structs

open Rows

namespace AsioGameServer.tables

/-- How the reading of a row goes wrong: `stoi` or `stof` throws, or something has no defined
result. -/
inductive Fault where
  | thrown | undefined
deriving DecidableEq, Repr

/-- What is thrown is dropped with the future of an `Async_Query`. -/
def Fault.dropped : Fault → Bool
  | .thrown => true
  | .undefined => false

abbrev Row := List (String × String)

/-- `row[i].second`. -/
def cell (row : Row) (i : Nat) : Except Fault String :=
  match row[i]? with
  | none => .error .undefined
  | some (_, text) => .ok text

section Load

variable {β : Type} {read : Row → Except Fault (Int × β)} {rows : Option (List Row)} {m : Int → Option β} {code : Int}
  {v : β}

/-- The callback of an `Async_Query` that fills a map. A query that fails has no rows. -/
def loadTable (read : Row → Except Fault (Int × β)) : Option (List Row) → Except Fault (Int → Option β)
  | none => .ok fun _ => none
  | some rows => fill Fault.dropped (fun m row => (read row).map (insertNew m)) (fun _ => none) rows

/-- A load that fills a map goes wrong exactly at a row it gets to. -/
theorem loadTable_undefined_iff :
    loadTable read rows = .error .undefined ↔
      ∃ row, Reaches read (rows.getD []) row ∧ read row = .error .undefined := by
  cases rows with
  | none => simp [loadTable, Reaches]
  | some rows => exact fill_eq_error_iff rfl

/-- A load that has a result has the first row of each key. -/
theorem loadTable_ok {m : Int → Option β} {v : β} (hload : loadTable read rows = .ok m) :
    m code = some v ↔ Leads read (rows.getD []) code v := by
  cases rows with
  | none =>
    cases hload
    constructor
    · exact fun hsome => by cases hsome
    · exact fun hleads => by cases hleads
  | some rows =>
    refine (fill_insertNew hload).trans ⟨fun h => ?_, fun hleads => .inr ⟨rfl, hleads⟩⟩
    obtain hnone | ⟨_, hleads⟩ := h
    · cases hnone
    · exact hleads

end Load

section Numbers

/-- The characters that `isspace` accepts. -/
def isspace (c : Char) : Bool := c = ' ' || (9 ≤ c.toNat && c.toNat ≤ 13)

def digits (chars : List Char) : Option Int :=
  match chars.takeWhile Char.isDigit with
  | [] => none
  | ds => some (ds.foldl (fun n c => 10 * n + Int.ofNat (c.toNat - 48)) 0)

/-- The number that a text begins with. -/
def number (text : String) : Option Int :=
  match text.toList.dropWhile isspace with
  | '-' :: rest => (digits rest).map (- ·)
  | '+' :: rest => digits rest
  | rest => digits rest

def isInt (n : Int) : Bool := status.INT_MIN ≤ n && n ≤ status.INT_MAX

def stoi (text : String) : Except Fault Int :=
  match number text with
  | none => .error .thrown
  | some n => if isInt n then .ok n else .error .thrown

def atoi (text : String) : Except Fault Int :=
  match number text with
  | none => .ok 0
  | some n => if isInt n then .ok n else .error .undefined

example : (number " -12a", number "+7", number "x") = (some (-12), some 7, none) := by decide

end Numbers

/-- How a number format reads a text, where `stof` does not throw, and what it becomes as an
`int`, where that is defined. -/
structure Format (F : Type) where
  stof : String → Option F
  toInt : F → Option Int

section Floats

variable {F : Type} (fmt : Format F)

def stof (text : String) : Except Fault F :=
  match fmt.stof text with
  | none => .error .thrown
  | some x => .ok x

/-- The constructor of a `Vector3` from three cells. -/
def readVector3 (row : Row) (i : Nat) : Except Fault (Vector3 F) := do
  let x ← cell row i
  let y ← cell row (i + 1)
  let z ← cell row (i + 2)
  return ⟨← stof fmt x, ← stof fmt y, ← stof fmt z⟩

end Floats

section Example

def plain : Format Int := ⟨number, some⟩

def rowOf (texts : List String) : Row := texts.map ("", ·)

end Example

end AsioGameServer.tables

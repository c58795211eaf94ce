import AsioGameServer.Lib.Number
import Mathlib.Tactic.Common

open Number

namespace AsioGameServer

variable {F : Type} [Number F]

@[ext] structure Vector3 (F : Type) where
  x : F
  y : F
  z : F
deriving DecidableEq, Repr

namespace Vector3

/-- The default arguments of the constructor. -/
def zero : Vector3 F := ⟨ofInt 0, ofInt 0, ofInt 0⟩

instance : Add (Vector3 F) := ⟨fun u v => ⟨u.x + v.x, u.y + v.y, u.z + v.z⟩⟩

instance : Sub (Vector3 F) := ⟨fun u v => ⟨u.x - v.x, u.y - v.y, u.z - v.z⟩⟩

/-- `operator*` by a number. -/
def scale (v : Vector3 F) (s : F) : Vector3 F := ⟨v.x * s, v.y * s, v.z * s⟩

/-- `Normalize`, with the default tolerance. -/
def Normalize (v : Vector3 F) : Vector3 F :=
  let SquareSum := v.x * v.x + v.y * v.y + v.z * v.z
  if SquareSum > lit 1 8 then v.scale (ofInt 1 / sqrt SquareSum) else v

def Distance (first second : Vector3 F) : F :=
  let temp := first - second
  sqrt (temp.x * temp.x + temp.y * temp.y + temp.z * temp.z)

def ToUnrealLocation (v : Vector3 F) : Vector3 F :=
  ⟨-v.x * ofInt 100, -v.z * ofInt 100, v.y * ofInt 100⟩

def ToGLLocation (v : Vector3 F) : Vector3 F := ⟨-v.x * lit 1 2, v.z * lit 1 2, -v.y * lit 1 2⟩

end Vector3

end AsioGameServer

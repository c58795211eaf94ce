import AsioGameServer.Structs

open Number

namespace AsioGameServer.world

variable {F : Type} [Number F]

/-- Where a `Character` is, and how it moves. -/
@[ext] structure Motion (F : Type) where
  position : Vector3 F
  dest : Vector3 F
  warpLocateDestination : Vector3 F
  forward : Vector3 F
  bMove : Bool
  bChangePosition : Bool
  currentSpeed : F
  maxSpeed : F
deriving DecidableEq, Repr

namespace Motion

def SetForward (forward : Vector3 F) (m : Motion F) : Motion F := { m with forward := forward.Normalize }

def SetMoveCancel (m : Motion F) : Motion F :=
  { m with bChangePosition := false, bMove := false, forward := ⟨ofInt 0, ofInt 0, ofInt 0⟩ }

def SetWarpPosition (m : Motion F) : Motion F := { m with warpLocateDestination := m.position }

/-- The first half of `Moving`, which sets the speed. -/
def accelerate (m : Motion F) : Motion F :=
  if m.bMove then
    if m.currentSpeed > m.maxSpeed then { m with currentSpeed := m.maxSpeed } else m
  else if m.dest.Distance m.position < ofInt 10 then
    { m with currentSpeed := m.maxSpeed }.SetForward (m.dest - m.position)
  else { m with currentSpeed := ofInt 0 }

def Moving (delta : F) (m : Motion F) : Motion F :=
  let m := m.accelerate
  if m.currentSpeed ≠ ofInt 0 then
    { m with
      bChangePosition := true
      position := m.position + (m.forward.scale delta).scale m.currentSpeed }
  else m

end Motion

end AsioGameServer.world

import Mathlib.Order.Lattice
import Mathlib.Order.Defs.LinearOrder
import Mathlib.Data.Int.Order.Basic

/-- The operations of a number type that may round: values can be compared, and nothing is
known of what the operations give. -/
class Number (F : Type) extends LinearOrder F, Neg F, Add F, Sub F, Mul F, Div F where
  /-- A literal, by its digits and how many of them are behind the point. -/
  lit : Int → Nat → F
  sqrt : F → F

namespace Number

/-- A number that stands for an integer. -/
def ofInt {F : Type} [Number F] (n : Int) : F := lit n 0

/-- The integers, with literals and roots cut off. -/
instance : Number Int where
  lit n d := n / Int.ofNat (Nat.pow 10 d)
  sqrt n := Int.ofNat n.toNat.sqrt

/-- A greater number leaves no smaller difference. -/
class MonotoneSub (F : Type) [Number F] : Prop where
  sub_le_sub_right {a b : F} (hab : a ≤ b) (c : F) : a - c ≤ b - c

instance : MonotoneSub Int := ⟨fun hab c => Int.sub_le_sub_right hab c⟩

end Number

import Mathlib.Analysis.Real.Sqrt
import AsioGameServer.Lib.Number

namespace Number

/-- The reals, where no operation rounds. -/
noncomputable instance : Number ℝ where
  lit n d := n / 10 ^ d
  sqrt := Real.sqrt

instance : MonotoneSub ℝ := ⟨fun hab c => sub_le_sub_right hab c⟩

theorem lit_real (n : Int) (d : Nat) : (lit n d : ℝ) = n / 10 ^ d := rfl

theorem ofInt_real (n : Int) : (ofInt n : ℝ) = n := by
  change (n : ℝ) / 10 ^ 0 = n
  rw [pow_zero, div_one]

end Number

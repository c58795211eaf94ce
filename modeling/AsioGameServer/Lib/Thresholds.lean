import Mathlib.Algebra.BigOperators.Intervals
import Mathlib.Algebra.Order.BigOperators.Group.Finset

namespace Thresholds

variable {f : ℕ → ℤ} {n m : ℕ} {a b : ℤ}

/-- What it takes to get past the first thresholds. An amount is split into such a sum and a
remainder that is below the next threshold. -/
def upTo (f : ℕ → ℤ) (n : ℕ) : ℤ := ∑ i ∈ Finset.range n, f i

@[simp] theorem upTo_zero : upTo f 0 = 0 := rfl

theorem upTo_succ : upTo f (n + 1) = upTo f n + f n := Finset.sum_range_succ f n

/-- Positive thresholds add up to more and more. -/
theorem upTo_mono (hpos : ∀ i, 0 < f i) (hle : n ≤ m) : upTo f n ≤ upTo f m :=
  Finset.sum_le_sum_of_subset_of_nonneg (Finset.range_mono hle) fun i _ _ => (hpos i).le

/-- A remainder that is below its threshold does not reach the next split. -/
theorem le_of_split_eq (hpos : ∀ i, 0 < f i) (hb : 0 ≤ b) (ha : a < f n) (heq : upTo f n + a = upTo f m + b) :
    m ≤ n := by
  by_contra hlt
  have hnext : upTo f (n + 1) ≤ upTo f m := upTo_mono hpos (by omega)
  rw [upTo_succ] at hnext
  omega

/-- A total is split in one way into whole thresholds and a rest below the next one. -/
theorem split_unique (hpos : ∀ i, 0 < f i) (ha : 0 ≤ a) (ha' : a < f n) (hb : 0 ≤ b) (hb' : b < f m)
    (heq : upTo f n + a = upTo f m + b) : n = m ∧ a = b := by
  have hle : m ≤ n := le_of_split_eq hpos hb ha' heq
  have hge : n ≤ m := le_of_split_eq hpos ha hb' heq.symm
  obtain rfl := le_antisymm hge hle
  exact ⟨rfl, by omega⟩

end Thresholds

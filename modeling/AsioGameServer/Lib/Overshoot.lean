import Mathlib.Algebra.Order.Floor.Semiring
import Mathlib.Algebra.Order.Group.Abs
import Mathlib.Analysis.Real.Sqrt
import Mathlib.Tactic.FieldSimp
import Mathlib.Tactic.Linarith
import Mathlib.Tactic.Ring

open Function

namespace Overshoot

section Line

variable {α : Type} [AddCommGroup α] [LinearOrder α] [IsOrderedAddMonoid α] {L d r : α}

/-- A step towards a point on a line, which goes past it where the point is nearer: what is
left of the distance. -/
def step (L d : α) : α := |d - L|

theorem exists_iterate_step (hd : 0 ≤ d) (n : Nat) : ∃ k : Nat, (step L)^[n] d = |d - k • L| := by
  induction n with
  | zero => exact ⟨0, by simp [abs_of_nonneg hd]⟩
  | succ n ih =>
    obtain ⟨k, hk⟩ := ih
    rw [iterate_succ_apply', hk, step]
    obtain hfront | hpast := le_or_gt 0 (d - k • L)
    · refine ⟨k + 1, ?_⟩
      rw [abs_of_nonneg hfront, succ_nsmul, sub_sub]
    · cases k with
      | zero =>
        rw [zero_nsmul, sub_zero] at hpast
        exact absurd hd (not_le_of_gt hpast)
      | succ k =>
        refine ⟨k, ?_⟩
        rw [abs_of_neg hpast, ← abs_neg, succ_nsmul]
        congr 1
        abel

/-- Whole steps come near a point if and only if some number of them is near the distance. -/
theorem exists_iterate_step_lt_iff (hL : 0 ≤ L) (hd : 0 ≤ d) :
    (∃ n, (step L)^[n] d < r) ↔ ∃ k : Nat, |d - k • L| < r := by
  constructor
  · rintro ⟨n, hn⟩
    obtain ⟨k, hk⟩ := exists_iterate_step (L := L) hd n
    exact ⟨k, hk ▸ hn⟩
  · rintro ⟨k, hk⟩
    induction k generalizing d with
    | zero => exact ⟨0, by simpa [abs_of_nonneg hd] using hk⟩
    | succ k ih =>
      obtain hpast | hbefore := lt_or_ge d L
      · -- The first step goes past the point, and the others only further away.
        refine ⟨1, ?_⟩
        have hle : L - d ≤ (k + 1) • L - d := by
          rw [succ_nsmul]
          exact sub_le_sub_right (le_add_of_nonneg_left (nsmul_nonneg hL k)) d
        have hnonneg : 0 ≤ L - d := sub_nonneg.mpr hpast.le
        rw [iterate_one, step, abs_sub_comm, abs_of_nonneg hnonneg]
        rw [abs_sub_comm, abs_of_nonneg (hnonneg.trans hle)] at hk
        exact hle.trans_lt hk
      · have hnonneg : 0 ≤ d - L := sub_nonneg.mpr hbefore
        obtain ⟨n, hn⟩ := ih hnonneg (by rwa [sub_sub, ← succ_nsmul'])
        refine ⟨n + 1, ?_⟩
        rw [iterate_succ_apply, step, abs_of_nonneg hnonneg]
        exact hn

end Line

/-- Steps shorter than twice the radius do not miss a point. -/
theorem exists_near_of_step_lt {L d r : ℝ} (hL : 0 < L) (hd : 0 ≤ d) (hshort : L < 2 * r) :
    ∃ k : Nat, |d - k • L| < r := by
  have hle : ⌊d / L⌋₊ * L ≤ d := (le_div_iff₀ hL).mp (Nat.floor_le (div_nonneg hd hL.le))
  have hlt : d < (⌊d / L⌋₊ + 1) * L := (div_lt_iff₀ hL).mp (Nat.lt_floor_add_one _)
  by_cases hnear : d - ⌊d / L⌋₊ * L < r
  · refine ⟨⌊d / L⌋₊, ?_⟩
    rw [nsmul_eq_mul, abs_of_nonneg (sub_nonneg.mpr hle)]
    exact hnear
  · refine ⟨⌊d / L⌋₊ + 1, ?_⟩
    rw [nsmul_eq_mul, Nat.cast_succ, abs_of_neg (sub_neg.mpr hlt)]
    linarith

/-- A step in space towards a point leaves what a step on the line to it leaves. -/
theorem sqrt_step {px py pz fx fy fz delta speed : ℝ}
    (hfar : 0 < √((px - fx) * (px - fx) + (py - fy) * (py - fy) + (pz - fz) * (pz - fz))) :
    let len := √((fx - px) * (fx - px) + (fy - py) * (fy - py) + (fz - pz) * (fz - pz))
    let qx := px + (fx - px) * (1 / len) * delta * speed
    let qy := py + (fy - py) * (1 / len) * delta * speed
    let qz := pz + (fz - pz) * (1 / len) * delta * speed
    √((qx - fx) * (qx - fx) + (qy - fy) * (qy - fy) + (qz - fz) * (qz - fz)) =
      step (speed * delta) (√((px - fx) * (px - fx) + (py - fy) * (py - fy) + (pz - fz) * (pz - fz))) := by
  intro len qx qy qz
  set S := (px - fx) * (px - fx) + (py - fy) * (py - fy) + (pz - fz) * (pz - fz) with hS
  have hlen : len = √S := congrArg Real.sqrt (by rw [hS]; ring)
  have hne : √S ≠ 0 := hfar.ne'
  have hleft : (qx - fx) * (qx - fx) + (qy - fy) * (qy - fy) + (qz - fz) * (qz - fz) =
      S * ((1 - speed * delta / √S) * (1 - speed * delta / √S)) := by
    simp only [qx, qy, qz, hlen]
    rw [hS]
    field_simp
    ring
  have hstep : √S * (1 - speed * delta / √S) = √S - speed * delta := by
    field_simp
  calc √((qx - fx) * (qx - fx) + (qy - fy) * (qy - fy) + (qz - fz) * (qz - fz))
      = √S * |1 - speed * delta / √S| := by
        rw [hleft, Real.sqrt_mul' _ (mul_self_nonneg _), Real.sqrt_mul_self_eq_abs]
    _ = |√S * (1 - speed * delta / √S)| := by rw [abs_mul, abs_of_pos hfar]
    _ = step (speed * delta) (√S) := by rw [hstep, step]

end Overshoot

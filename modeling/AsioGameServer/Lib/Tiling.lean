import Mathlib.Data.List.Basic
import Mathlib.Tactic.Common

namespace Tiling

variable {a b c i : Nat} {rs ss : List (Nat × Nat)}

/-- Non-empty ranges that follow each other without a gap from `a` to `b`. -/
def Tiles (a : Nat) : List (Nat × Nat) → Nat → Prop
  | [], b => a = b
  | r :: rs, b => r.1 = a ∧ a < r.2 ∧ Tiles r.2 rs b

@[simp] theorem tiles_nil : Tiles a [] b ↔ a = b := Iff.rfl

@[simp] theorem tiles_cons {r : Nat × Nat} : Tiles a (r :: rs) b ↔ r.1 = a ∧ a < r.2 ∧ Tiles r.2 rs b :=
  Iff.rfl

/-- Ranges that tile an interval can be cut at any of them. -/
theorem tiles_append_iff : Tiles a (rs ++ ss) c ↔ ∃ b, Tiles a rs b ∧ Tiles b ss c := by
  induction rs generalizing a with
  | nil => simp
  | cons r rs ih => simp [ih, and_assoc]

/-- One range more at the end. -/
theorem Tiles.concat (h : Tiles a rs b) (hlt : b < c) : Tiles a (rs ++ [(b, c)]) c :=
  tiles_append_iff.mpr ⟨b, h, rfl, hlt, rfl⟩

/-- An interval that is tiled does not end before it begins. -/
theorem Tiles.le (h : Tiles a rs b) : a ≤ b := by
  induction rs generalizing a with
  | nil => exact Nat.le_of_eq h
  | cons r rs ih =>
    obtain ⟨_, hlt, htail⟩ := h
    exact Nat.le_trans (Nat.le_of_lt hlt) (ih htail)

/-- The ranges cover every position between the ends once and no other. -/
theorem Tiles.countP (h : Tiles a rs b) (i : Nat) :
    rs.countP (fun r => r.1 ≤ i ∧ i < r.2) = if a ≤ i ∧ i < b then 1 else 0 := by
  induction rs generalizing a with
  | nil =>
    obtain rfl : a = b := h
    rw [List.countP_nil, if_neg (by omega)]
  | cons r rs ih =>
    obtain ⟨hstart, hlt, htail⟩ := h
    have hle := htail.le
    rw [List.countP_cons, ih htail]
    simp only [hstart, decide_eq_true_eq]
    split_ifs <;> omega

end Tiling

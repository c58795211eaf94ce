import AsioGameServer.Lib.Transition
import Mathlib.Data.List.DropRight

open Transition

namespace Stopwatch

section Sightings

variable {σ ℓ α : Type} {next : σ → ℓ → Option σ} {look : σ → ℓ → Option α} {s t : σ} {ls : List ℓ}

/-- What is seen on the way along some labels, from the states in which they are taken. -/
def seen (next : σ → ℓ → Option σ) (look : σ → ℓ → Option α) : σ → List ℓ → List α
  | _, [] => []
  | s, l :: ls => (look s l).toList ++ ((next s l).map fun t => seen next look t ls).getD []

/-- One more step adds what is seen in the state before it. -/
theorem seen_concat (hrun : Run (OfOption next) s ls t) (l : ℓ) :
    seen next look s (ls ++ [l]) = seen next look s ls ++ (look t l).toList := by
  induction hrun with
  | nil s =>
    simp only [List.nil_append, seen]
    cases next s l <;> simp
  | @cons s t _ l' ls hstep _ ih =>
    have hnext : next s l' = some t := hstep
    rw [List.cons_append, seen, seen, hnext, Option.map_some, Option.map_some, Option.getD_some, Option.getD_some, ih,
      List.append_assoc]

end Sightings

section Time

variable {τ : Type} [Add τ] [OfNat τ 0] {sights : List (Bool × τ)}

/-- The time that has passed since it was last seen not to run. -/
def shown (sights : List (Bool × τ)) : τ := ((sights.rtakeWhile Prod.fst).map Prod.snd).foldl (· + ·) 0

/-- A sight with the condition on adds to the time that is shown. -/
theorem shown_on (sights : List (Bool × τ)) (delta : τ) : shown (sights ++ [(true, delta)]) = shown sights + delta := by
  rw [shown, List.rtakeWhile_concat_pos Prod.fst sights (true, delta) rfl, List.map_append, List.foldl_append]
  rfl

/-- A sight with the condition off sets the watch to 0. -/
theorem shown_reset (sights : List (Bool × τ)) (delta : τ) : shown (sights ++ [(false, delta)]) = 0 := by
  rw [shown, List.rtakeWhile_concat_neg Prod.fst sights (false, delta) Bool.false_ne_true]
  rfl

end Time

section Laps

variable {α : Type} {starts : α → Bool} {sights : List α} {a : α}

/-- The last sight that started the watch again. -/
def started (starts : α → Bool) (sights : List α) : Option α := (sights.filter starts).getLast?

/-- What was seen since the watch was started again, that sight included. -/
def lap (starts : α → Bool) (sights : List α) : List α :=
  (started starts sights).toList ++ sights.rtakeWhile (! starts ·)

/-- A sight that starts a lap is its beginning. -/
theorem started_start (hstarts : starts a = true) : started starts (sights ++ [a]) = some a := by
  simp [started, hstarts]

/-- Any other sight belongs to the lap that is going on. -/
theorem started_on (hon : starts a = false) : started starts (sights ++ [a]) = started starts sights := by
  simp [started, hon]

/-- A lap begins with the sight that starts it. -/
theorem lap_start (hstarts : starts a = true) : lap starts (sights ++ [a]) = [a] := by
  rw [lap, started_start hstarts, List.rtakeWhile_concat_neg _ _ _ (by simp [hstarts])]
  rfl

/-- A lap goes on until the next one starts. -/
theorem lap_on (hon : starts a = false) : lap starts (sights ++ [a]) = lap starts sights ++ [a] := by
  rw [lap, started_on hon, List.rtakeWhile_concat_pos _ _ _ (by simp [hon]), ← List.append_assoc]
  rfl

end Laps

end Stopwatch

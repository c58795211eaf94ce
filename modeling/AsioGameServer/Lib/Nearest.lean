import Mathlib.Data.List.Basic
import Mathlib.Data.List.Induction
import Mathlib.Order.Lattice
import Mathlib.Tactic.Common

namespace Nearest

variable {κ α : Type} [LinearOrder α] {missing : κ} {top : α} {l : List (κ × α)} {x y : κ × α}

/-- A search for a least value, which keeps the first one that it finds. -/
def search (missing : κ) (top : α) (l : List (κ × α)) : κ × α :=
  l.foldl (fun best x => if x.2 < best.2 then x else best) (missing, top)

/-- The first element of a list with its least value. -/
def IsFirst (l : List (κ × α)) (x : κ × α) : Prop :=
  ∃ before after, l = before ++ x :: after ∧ (∀ y ∈ before, x.2 < y.2) ∧ ∀ y ∈ after, x.2 ≤ y.2

/-- The first least element is one of the list. -/
theorem IsFirst.mem (h : IsFirst l x) : x ∈ l := by
  obtain ⟨before, after, rfl, _, _⟩ := h
  simp

/-- No element of the list is less. -/
theorem IsFirst.le (h : IsFirst l x) : ∀ y ∈ l, x.2 ≤ y.2 := by
  obtain ⟨before, after, rfl, hbefore, hafter⟩ := h
  intro y hy
  obtain hy | hy := List.mem_append.mp hy
  · exact le_of_lt (hbefore y hy)
  · obtain rfl | hy := List.mem_cons.mp hy
    · exact le_rfl
    · exact hafter y hy

/-- One more element replaces what was found only where it is less. -/
theorem search_concat :
    search missing top (l ++ [y]) = if y.2 < (search missing top l).2 then y else search missing top l := by
  rw [search, List.foldl_append]
  rfl

/-- The search finds the first least value, where all are below its start. -/
theorem search_spec (htop : ∀ y ∈ l, y.2 < top) :
    l = [] ∧ search missing top l = (missing, top) ∨ IsFirst l (search missing top l) := by
  induction l using List.reverseRecOn with
  | nil => exact .inl ⟨rfl, rfl⟩
  | append_singleton l y ih =>
    right
    rw [search_concat]
    obtain ⟨rfl, hnone⟩ | hfirst := ih fun z hz => htop z (List.mem_append_left _ hz)
    · rw [hnone, if_pos (htop y (by simp))]
      exact ⟨[], [], rfl, by simp, by simp⟩
    · split
      · rename_i hless
        exact ⟨l, [], rfl, fun z hz => lt_of_lt_of_le hless (hfirst.le z hz), by simp⟩
      · rename_i hnot
        obtain ⟨before, after, hsplit, hbefore, hafter⟩ := hfirst
        refine ⟨before, after ++ [y], ?_, hbefore, fun z hz => ?_⟩
        · rw [← List.cons_append, ← List.append_assoc, ← hsplit]
        · obtain hz | hz := List.mem_append.mp hz
          · exact hafter z hz
          · rw [List.mem_singleton.mp hz]
            exact le_of_not_gt hnot

/-- There is one first least element. -/
theorem IsFirst.unique (h : IsFirst l x) (h' : IsFirst l y) : x = y := by
  obtain ⟨before, after, rfl, hbefore, hafter⟩ := h
  have hle : ∀ z, IsFirst (before ++ x :: after) z → z.2 = x.2 := fun z hz =>
    le_antisymm (hz.le x (by simp)) (IsFirst.le ⟨before, after, rfl, hbefore, hafter⟩ z hz.mem)
  have heq := hle y h'
  obtain ⟨before', after', hsplit, hbefore', _⟩ := h'
  obtain ⟨more, hmore, hrest⟩ | ⟨more, hmore, hrest⟩ := List.append_eq_append_iff.mp hsplit
  · cases more with
    | nil => exact (List.cons.inj hrest).1
    | cons z more =>
      obtain ⟨rfl, _⟩ := List.cons.inj hrest
      exact absurd heq (ne_of_lt (hbefore' x (by simp [hmore])))
  · cases more with
    | nil => exact (List.cons.inj hrest).1.symm
    | cons z more =>
      obtain ⟨rfl, _⟩ := List.cons.inj hrest
      exact absurd heq.symm (ne_of_lt (hbefore y (by simp [hmore])))

end Nearest

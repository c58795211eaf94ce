import Mathlib.Data.List.Sort

namespace Rank

variable {α : Type} [LinearOrder α] {l m : List α} {a b : α}

/-- How many elements are below another one: its place in ascending order. -/
def rank (l : List α) (a : α) : Nat := l.countP (· < a)

/-- The rank does not depend on the order of the list. -/
theorem rank_perm (h : l.Perm m) (a : α) : rank l a = rank m a := h.countP_eq _

/-- An element below adds one to the rank. -/
theorem rank_cons_of_lt (h : b < a) : rank (b :: l) a = rank l a + 1 := by
  simp [rank, h]

/-- The least element has rank 0. -/
theorem rank_of_forall_le (h : ∀ b ∈ l, a ≤ b) : rank l a = 0 := by
  unfold rank
  rw [List.countP_eq_zero]
  intro b hb
  simpa using h b hb

/-- In ascending order an element is at its place. -/
theorem getElem?_rank (hsorted : l.Pairwise (· < ·)) (ha : a ∈ l) : l[rank l a]? = some a := by
  induction l with
  | nil => cases ha
  | cons b l ih =>
    obtain ⟨hbelow, hsorted'⟩ := List.pairwise_cons.mp hsorted
    obtain rfl | hmem := List.mem_cons.mp ha
    · have hzero : rank (a :: l) a = 0 := by
        apply rank_of_forall_le
        intro b hb
        obtain rfl | hb := List.mem_cons.mp hb
        · exact le_rfl
        · exact (hbelow b hb).le
      rw [hzero]
      rfl
    · rw [rank_cons_of_lt (hbelow a hmem), List.getElem?_cons_succ]
      exact ih hsorted' hmem

/-- An element of the list has a rank below its length. -/
theorem rank_lt (ha : a ∈ l) : rank l a < l.length := by
  have hne : rank l a ≠ l.length := by
    intro heq
    have hall := List.countP_eq_length.mp heq a ha
    simp at hall
  exact lt_of_le_of_ne List.countP_le_length hne

end Rank

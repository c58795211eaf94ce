import AsioGameServer.Component.WellFormed

open Function Relation

namespace AsioGameServer.component

namespace Heap

variable {h : Heap} {isT : Nat → Bool} {c d : Nat} {depth : Nat}

/-- Everything under a component, each one before what is under itself. -/
def under (h : Heap) (c : Nat) : List Nat := (h.subtree c).tail

theorem WellFormed.under_eq (hw : h.WellFormed) (c : Nat) :
    h.under c = (h.get c).children.flatMap fun com => com :: h.under com := by
  have hall : ∀ com, h.subtree com = com :: h.under com := by
    intro com
    rw [under, hw.subtree_eq, List.tail_cons]
  rw [under, hw.subtree_eq, List.tail_cons]
  exact List.flatMap_congr fun com _ => hall com

theorem WellFormed.mem_under_iff (hw : h.WellFormed) : d ∈ h.under c ↔ TransGen h.family.Under d c := by
  rw [hw.under_eq, List.mem_flatMap]
  have hsubtree : ∀ com, com :: h.under com = h.subtree com := by
    intro com
    rw [under, hw.subtree_eq, List.tail_cons]
  simp only [hsubtree, hw.mem_subtree_iff]
  rw [TransGen.tail'_iff]
  constructor
  · rintro ⟨com, hcom, hbelow⟩
    exact ⟨com, hbelow, (hw.forest.mem_children c com).mp hcom⟩
  · rintro ⟨com, hbelow, hparent⟩
    exact ⟨com, (hw.forest.mem_children c com).mpr hparent, hbelow⟩

theorem WellFormed.nodup_under (hw : h.WellFormed) (c : Nat) : (h.under c).Nodup := (hw.nodup_subtree c).tail

/-- `GetComponents` adds the components of the type that are under a component to its vector. -/
theorem WellFormed.GetComponentsFrom_eq (hw : h.WellFormed) (hdepth : h.family.height c < depth) (vec : List Nat) :
    GetComponentsFrom isT depth c vec h = some (vec ++ (h.under c).filter isT) := by
  induction depth generalizing c vec with
  | zero => omega
  | succ depth ih =>
    have hlt : ∀ com ∈ (h.get c).children, h.family.height com < depth := by
      intro com hcom
      have hless := hw.forest.height_lt ((hw.forest.mem_children c com).mp hcom)
      omega
    rw [GetComponentsFrom, hw.under_eq]
    generalize (h.get c).children = coms at hlt
    induction coms generalizing vec with
    | nil => simp
    | cons com coms ihcoms =>
      have hcom : GetComponentsFrom isT depth com (if isT com then vec ++ [com] else vec) h =
          some (vec ++ (com :: h.under com).filter isT) := by
        rw [ih (hlt com List.mem_cons_self)]
        cases hisT : isT com with
        | true => simp [hisT]
        | false => simp [hisT]
      rw [List.foldlM_cons, hcom, Option.bind_eq_bind, Option.bind_some,
        ihcoms _ fun other hother => hlt other (List.mem_cons_of_mem _ hother), List.flatMap_cons, List.filter_append,
        List.append_assoc]

/-- A loop that has found something goes on without a change. -/
theorem foldlM_found {found : Nat} (coms : List Nat) (search : Nat → Option (Option Nat)) :
    coms.foldlM (fun retval com => if retval ≠ none then some retval else search com) (some found) =
      some (some found) := by
  induction coms with
  | nil => rfl
  | cons com coms ih =>
    rw [List.foldlM_cons, if_pos (Option.some_ne_none found)]
    exact ih

/-- `GetComponent` returns the first component of the type that is under a component. -/
theorem WellFormed.GetComponentFrom_eq (hw : h.WellFormed) (hdepth : h.family.height c < depth) :
    GetComponentFrom isT depth c h = some ((h.under c).filter isT).head? := by
  induction depth generalizing c with
  | zero => omega
  | succ depth ih =>
    have hlt : ∀ com ∈ (h.get c).children, h.family.height com < depth := by
      intro com hcom
      have hless := hw.forest.height_lt ((hw.forest.mem_children c com).mp hcom)
      omega
    rw [GetComponentFrom, hw.under_eq]
    generalize (h.get c).children = coms at hlt
    induction coms with
    | nil => rfl
    | cons com coms ihcoms =>
      have hcom : (if isT com then some (some com) else GetComponentFrom isT depth com h) =
          some ((com :: h.under com).filter isT).head? := by
        cases hisT : isT com with
        | true => simp [hisT]
        | false => simp [hisT, ih (hlt com List.mem_cons_self)]
      have hothers := ihcoms fun other hother => hlt other (List.mem_cons_of_mem _ hother)
      rw [List.foldlM_cons, if_neg (not_not.mpr rfl), hcom, Option.bind_eq_bind, Option.bind_some, List.flatMap_cons,
        List.filter_append]
      cases hfirst : ((com :: h.under com).filter isT).head? with
      | none =>
        rw [List.head?_eq_none_iff.mp hfirst, List.nil_append]
        exact hothers
      | some found =>
        rw [List.head?_append, hfirst, Option.some_or]
        exact foldlM_found coms _

/-- The lookup of one component and that of all agree: both go through what is under a
component, in the same order. -/
theorem lookups_agree (hw : h.WellFormed) (isT : Nat → Bool) (c : Nat) :
    ∃ vec, h.GetComponents isT c = some vec ∧ h.GetComponent isT c = some vec.head? ∧
      (h.GetComponent isT c = some none ↔ vec = []) ∧ vec = (h.under c).filter isT ∧
      (∀ c, h.under c = (h.get c).children.flatMap fun com => com :: h.under com) ∧ vec.Nodup ∧
      ∀ d, d ∈ vec ↔ TransGen h.family.Under d c ∧ isT d = true := by
  have hone : h.GetComponent isT c = some ((h.under c).filter isT).head? := hw.GetComponentFrom_eq (hw.height_lt c)
  refine ⟨(h.under c).filter isT, hw.GetComponentsFrom_eq (hw.height_lt c) [], hone, ?_, rfl,
    hw.under_eq, (hw.nodup_under c).filter _, fun d => ?_⟩
  · rw [hone, Option.some.injEq, List.head?_eq_none_iff]
  · rw [List.mem_filter, hw.mem_under_iff]

/-- A component with two children, the first of which has a child. -/
def nested : Heap :=
  ((start.CreateComponent.CreateComponent.CreateComponent.CreateComponent.Attach 1 3).Attach 3 5).Attach 1 7

theorem wellFormed_nested : nested.WellFormed := by
  have hfour := WellFormed.start.CreateComponent.CreateComponent.CreateComponent.CreateComponent
  have hfirst := hfour.Attach (p := 1) (c := 3) (by decide) (by decide) (by decide)
  have hsecond := hfirst.Attach (p := 3) (c := 5) (by decide) (by decide) (by decide)
  exact hsecond.Attach (by decide) (by decide) (by decide)

theorem lookups_agree_nested :
    nested.GetComponents (· ≥ 5) 1 = some [5, 7] ∧ nested.GetComponent (· ≥ 5) 1 = some (some 5) := by
  obtain ⟨vec, hall, hone, _⟩ := lookups_agree wellFormed_nested (· ≥ 5) 1
  have hvec : nested.GetComponents (· ≥ 5) 1 = some [5, 7] := by decide
  rw [hvec] at hall
  cases hall
  exact ⟨hvec, hone⟩

end Heap

end AsioGameServer.component

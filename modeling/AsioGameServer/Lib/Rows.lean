import Mathlib.Logic.Function.Basic
import Mathlib.Tactic.Common

open Function

namespace Rows

variable {ρ κ β ε τ : Type}

/-- A loop over rows. An error that is caught outside of it ends it, with what was done until
then. -/
def fill (caught : ε → Bool) (f : τ → ρ → Except ε τ) : τ → List ρ → Except ε τ
  | t, [] => .ok t
  | t, row :: rows =>
    match f t row with
    | .ok t => fill caught f t rows
    | .error e => if caught e then .ok t else .error e

/-- A row that can be used is used, and the loop goes on. -/
theorem fill_ok {caught : ε → Bool} {f : τ → ρ → Except ε τ} {t t' : τ} {row : ρ} (hrow : f t row = .ok t')
    (rows : List ρ) : fill caught f t (row :: rows) = fill caught f t' rows := by
  rw [fill, hrow]

/-- A row with an error ends the loop. Whether the loop fails with it is a matter of which errors
are caught. -/
theorem fill_error {caught : ε → Bool} {f : τ → ρ → Except ε τ} {t : τ} {row : ρ} {e : ε} (hrow : f t row = .error e)
    (rows : List ρ) : fill caught f t (row :: rows) = if caught e then .ok t else .error e := by
  rw [fill, hrow]

/-- A loop over rows gets to a row if those before it are read. -/
def Reaches {α : Type} (read : ρ → Except ε α) (rows : List ρ) (row : ρ) : Prop :=
  ∃ before after, rows = before ++ row :: after ∧ ∀ r ∈ before, ∃ a, read r = .ok a

/-- A row is reached where all rows before it can be read. -/
theorem reaches_cons_iff {α : Type} {read : ρ → Except ε α} {rows : List ρ} {first row : ρ} :
    Reaches read (first :: rows) row ↔ first = row ∨ (∃ a, read first = .ok a) ∧ Reaches read rows row := by
  constructor
  · rintro ⟨before, after, hrows, hread⟩
    cases before with
    | nil => exact .inl (List.cons.inj hrows).1
    | cons r before =>
      obtain ⟨rfl, hrest⟩ := List.cons.inj hrows
      exact .inr ⟨hread _ List.mem_cons_self, before, after, hrest, fun r hr => hread r (List.mem_cons_of_mem _ hr)⟩
  · rintro (rfl | ⟨hfirst, before, after, rfl, hread⟩)
    · exact ⟨[], rows, rfl, by simp⟩
    · exact ⟨first :: before, after, rfl, List.forall_mem_cons.mpr ⟨hfirst, hread⟩⟩

/-- It ends with an error that is not caught exactly if it gets to a row with it. -/
theorem fill_eq_error_iff {α : Type} {caught : ε → Bool} {read : ρ → Except ε α} {step : τ → α → τ} {t : τ}
    {rows : List ρ} {e : ε} (hcaught : caught e = false) :
    fill caught (fun t row => (read row).map (step t)) t rows = .error e ↔
      ∃ row, Reaches read rows row ∧ read row = .error e := by
  induction rows generalizing t with
  | nil => simp [fill, Reaches]
  | cons first rows ih =>
    simp only [reaches_cons_iff]
    cases hread : read first with
    | ok a =>
      rw [fill_ok (by rw [hread]; rfl), ih]
      constructor
      · rintro ⟨row, hreaches, hrow⟩
        exact ⟨row, .inr ⟨⟨a, rfl⟩, hreaches⟩, hrow⟩
      · rintro ⟨row, rfl | ⟨_, hreaches⟩, hrow⟩
        · cases hread.symm.trans hrow
        · exact ⟨row, hreaches, hrow⟩
    | error e' =>
      rw [fill_error (by rw [hread]; rfl)]
      constructor
      · intro herror
        split at herror
        · cases herror
        · cases herror
          exact ⟨first, .inl rfl, hread⟩
      · rintro ⟨row, rfl | ⟨⟨a, ha⟩, _⟩, hrow⟩
        · cases hread.symm.trans hrow
          rw [hcaught]
          rfl
        · cases ha

section Maps

variable [DecidableEq κ] {m m' : κ → Option β} {k : κ} {v : β} {read : ρ → Except ε (κ × β)} {rows : List ρ}

/-- Inserts an entry where there is none. -/
def insertNew (m : κ → Option β) (entry : κ × β) : κ → Option β :=
  if (m entry.1).isSome then m else update m entry.1 (some entry.2)

/-- A key that is taken keeps its value. -/
theorem insertNew_of_some {w : β} (hsome : m k = some w) : insertNew m (k, v) = m := by
  rw [insertNew, hsome]
  rfl

/-- A key that is free gets the value. -/
theorem insertNew_self (hnone : m k = none) : insertNew m (k, v) k = some v := by
  rw [insertNew, hnone]
  exact update_self _ _ _

/-- Other keys are not concerned. -/
theorem insertNew_of_ne {k' : κ} (hne : k ≠ k') : insertNew m (k', v) k = m k := by
  unfold insertNew
  split
  · rfl
  · exact update_of_ne hne _ _

omit [DecidableEq κ] in
/-- Among the rows that are read, the first with a key has this value. -/
inductive Leads (read : ρ → Except ε (κ × β)) : List ρ → κ → β → Prop where
  | here {row : ρ} {rows : List ρ} {k : κ} {v : β} (hread : read row = .ok (k, v)) : Leads read (row :: rows) k v
  | later {row : ρ} {rows : List ρ} {k k' : κ} {v v' : β} (hread : read row = .ok (k', v')) (hne : k' ≠ k)
      (hleads : Leads read rows k v) : Leads read (row :: rows) k v

omit [DecidableEq κ] in
/-- A key leads to the value of the first row, or to that of a later one where the first row has
another key. -/
theorem leads_cons_iff {row : ρ} {k' : κ} {v' : β} (hread : read row = .ok (k', v')) :
    Leads read (row :: rows) k v ↔ (k' = k ∧ v' = v) ∨ (k' ≠ k ∧ Leads read rows k v) := by
  constructor
  · intro hleads
    cases hleads with
    | here hhere =>
      obtain ⟨rfl, rfl⟩ := Prod.mk.inj (Except.ok.inj (hread.symm.trans hhere))
      exact .inl ⟨rfl, rfl⟩
    | later hlater hne hleads =>
      obtain ⟨rfl, rfl⟩ := Prod.mk.inj (Except.ok.inj (hread.symm.trans hlater))
      exact .inr ⟨hne, hleads⟩
  · rintro (⟨rfl, rfl⟩ | ⟨hne, hleads⟩)
    · exact .here hread
    · exact .later hread hne hleads

omit [DecidableEq κ] in
/-- No row counts from the first error on. -/
theorem not_leads_of_error {row : ρ} {e : ε} (hread : read row = .error e) : ¬ Leads read (row :: rows) k v := by
  intro hleads
  cases hleads with
  | here hhere => cases hread.symm.trans hhere
  | later hlater => cases hread.symm.trans hlater

omit [DecidableEq κ] in
/-- A value that a key leads to stands in one of the rows. -/
theorem Leads.mem (h : Leads read rows k v) : ∃ row ∈ rows, read row = .ok (k, v) := by
  induction h with
  | here hread => exact ⟨_, List.mem_cons_self, hread⟩
  | later _ _ _ ih =>
    obtain ⟨row, hrow, hread⟩ := ih
    exact ⟨row, List.mem_cons_of_mem _ hrow, hread⟩

omit [DecidableEq κ] in
/-- The first row with a key. -/
def First (read : ρ → Except ε (κ × β)) (rows : List ρ) (k : κ) (row : ρ) : Prop :=
  Leads (fun row => (read row).map fun entry => (entry.1, row)) rows k row

omit [DecidableEq κ] in
/-- The first row of a key can be read. -/
theorem First.readable {row : ρ} (h : First read rows k row) : ∃ v, read row = .ok (k, v) := by
  obtain ⟨row', _, hread⟩ := Leads.mem h
  cases hrow : read row' with
  | error e =>
    rw [hrow] at hread
    cases hread
  | ok entry =>
    rw [hrow] at hread
    obtain ⟨rfl, rfl⟩ := Prod.mk.inj (Except.ok.inj hread)
    exact ⟨entry.2, hrow⟩

omit [DecidableEq κ] in
/-- A key leads to the value of its first row, and to no other. -/
theorem leads_iff_first : Leads read rows k v ↔ ∃ row, First read rows k row ∧ read row = .ok (k, v) := by
  constructor
  · intro hleads
    induction hleads with
    | @here row _ _ _ hread => exact ⟨row, .here (by rw [hread]; rfl), hread⟩
    | later hread hne _ ih =>
      obtain ⟨row, hfirst, hrow⟩ := ih
      exact ⟨row, .later (by rw [hread]; rfl) hne hfirst, hrow⟩
  · rintro ⟨row, hfirst, hrow⟩
    unfold First at hfirst
    induction rows with
    | nil => cases hfirst
    | cons first rows ih =>
      cases hread : read first with
      | error e => exact absurd hfirst (not_leads_of_error (e := e) (by rw [hread]; rfl))
      | ok entry =>
        obtain ⟨k', v'⟩ := entry
        obtain ⟨rfl, rfl⟩ | ⟨hne, hfirst⟩ := (leads_cons_iff (by rw [hread]; rfl)).mp hfirst
        · exact .here hrow
        · exact .later hread hne (ih hfirst)

/-- A map that is filled by inserting what is read has, beside what it had, the first value of
each key. -/
theorem fill_insertNew {caught : ε → Bool}
    (hfill : fill caught (fun m row => (read row).map (insertNew m)) m rows = .ok m') :
    m' k = some v ↔ m k = some v ∨ m k = none ∧ Leads read rows k v := by
  induction rows generalizing m with
  | nil =>
    cases hfill
    refine ⟨.inl, fun h => h.resolve_right fun hleads => ?_⟩
    cases hleads.2
  | cons row rows ih =>
    cases hread : read row with
    | error e =>
      rw [fill_error (by rw [hread]; rfl)] at hfill
      split at hfill
      · cases hfill
        exact ⟨.inl, fun h => h.resolve_right fun hleads => not_leads_of_error hread hleads.2⟩
      · cases hfill
    | ok entry =>
      obtain ⟨k', v'⟩ := entry
      rw [fill_ok (by rw [hread]; rfl)] at hfill
      rw [ih hfill, leads_cons_iff hread]
      by_cases hkey : k' = k
      · subst hkey
        cases hm : m k' with
        | some w => simp [insertNew_of_some hm, hm]
        | none => simp [insertNew_self hm]
      · simp [insertNew_of_ne (Ne.symm hkey), hkey]

end Maps

end Rows

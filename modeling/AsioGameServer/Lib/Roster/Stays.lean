import AsioGameServer.Lib.Roster.Invariants

open Function

namespace Roster

variable {κ π : Type} {r s : Roster κ π} {c d : κ} {p q : π}

/-- An item is a member of a place that is not asked to drop it. -/
def Stays (r : Roster κ π) (c : κ) (p : π) : Prop := c ∈ r.members p ∧ c ∉ r.erases p

/-- A member is asked in only behind a request to drop it. -/
def Renewed (r : Roster κ π) : Prop := ∀ c p, c ∈ r.inserts p → c ∈ r.members p → c ∈ r.erases p

variable [DecidableEq κ] [DecidableEq π] {alive : κ → Bool} {present : κ → Prop}

omit [DecidableEq κ] [DecidableEq π] in
theorem Consistent.assigned_of_stays (h : Consistent r) (hstays : r.Stays c p) : r.assigned c = some p := by
  by_contra hother
  exact hstays.2 (h.left c p hstays.1 hother)

omit [DecidableEq κ] [DecidableEq π] in
/-- An item stays in one place at most. -/
theorem Consistent.stays_unique (h : Consistent r) (hp : r.Stays c p) (hq : r.Stays c q) : p = q :=
  Option.some.inj ((h.assigned_of_stays hp).symm.trans (h.assigned_of_stays hq))

/-- Moves take no queued erase back. -/
theorem Moves.erases_mono (h : Moves c r s) (hd : d ∈ r.erases p) : d ∈ s.erases p := by
  induction h with
  | refl => exact hd
  | leave _ ih => exact mem_erases_leave.mpr (.inl ih)
  | enter q _ _ ih => exact ih

/-- Nothing stays because of a move. -/
theorem Moves.stays (h : Moves c r s) (hstays : s.Stays d p) : r.Stays d p :=
  ⟨h.members ▸ hstays.1, fun herase => hstays.2 (h.erases_mono herase)⟩

theorem Renewed.moves (h : Renewed r) (hconsistent : Consistent r) (hmoves : Moves c r s) : Renewed s := by
  induction hmoves with
  | refl => exact h
  | leave hbefore ih =>
    intro d p hinsert hmember
    rw [inserts_leave] at hinsert
    rw [members_leave] at hmember
    exact mem_erases_leave.mpr (.inl (ih d p hinsert hmember))
  | @enter s q hbefore hfree ih =>
    intro d p hinsert hmember
    obtain hinsert | ⟨rfl, rfl⟩ := mem_inserts_enter.mp hinsert
    · exact ih d p hinsert hmember
    · exact (hconsistent.moves hbefore).left d q hmember (by simp [hfree])

theorem Renewed.tick (h : Renewed r) : Renewed (r.tick alive p) := by
  intro d q hinsert hmember
  rw [inserts_tick] at hinsert
  rw [mem_members_tick] at hmember
  rw [erases_tick]
  by_cases hqp : q = p
  · subst hqp
    simp at hinsert
  · rw [update_of_ne hqp] at hinsert ⊢
    exact h d q hinsert (by tauto)

omit [DecidableEq κ] [DecidableEq π] in
/-- The tick of a place that applies current requests, and resets no pointer that leads
elsewhere, has nothing to do with what stays elsewhere. -/
theorem Consistent.untouched (h : Consistent r) (hpointing : Pointing present r) (hcurrent : r.Current p)
    (hunclobbered : r.Unclobbered present p) (hpresent : present c) (hstays : r.Stays c q) (hne : q ≠ p) :
    c ∉ r.members p ∧ c ∉ r.inserts p := by
  have hassigned := h.assigned_of_stays hstays
  have hinsert : c ∉ r.inserts p := by
    intro hinsert
    rw [hcurrent c hinsert] at hassigned
    exact hne (Option.some.inj hassigned).symm
  refine ⟨fun hmember => ?_, hinsert⟩
  have hother : r.assigned c ≠ some p := by
    rw [hassigned]
    exact fun heq => hne (Option.some.inj heq)
  have howner : r.owner c = some q := (hpointing.pointer c q hpresent hstays.1).resolve_right hstays.2
  obtain hqp | herase := hunclobbered c (h.left c p hmember hother) hpresent hmember hinsert q howner
  · exact hne hqp
  · exact hstays.2 herase

/-- What stays in a place and has a pointer points back to it after the tick of the place. -/
theorem Pointing.owner_of_tick (h : Pointing present r) (hpresent : ∀ c, r.Stays c p → present c)
    (hmember : c ∈ r.members p) (halive : alive c = true) (howner : (r.tick alive p).owner c = some q) :
    q = p ∧ c ∈ (r.tick alive p).members p := by
  rw [owner_tick] at howner
  rw [mem_members_tick]
  split_ifs at howner with hnew hdropped
  · exact ⟨(Option.some.inj howner).symm, .inr ⟨rfl, hnew.1⟩⟩
  · have herase : c ∉ r.erases p := fun herase => hdropped ⟨hmember, herase, halive⟩
    have hpointer := (h.pointer c p (hpresent c ⟨hmember, herase⟩) hmember).resolve_right herase
    exact ⟨Option.some.inj (howner.symm.trans hpointer), .inl ⟨hmember, fun _ => herase⟩⟩

end Roster

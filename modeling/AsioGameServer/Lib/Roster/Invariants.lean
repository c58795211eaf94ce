import AsioGameServer.Lib.Roster

open Function

namespace Roster

variable {κ π : Type} [DecidableEq κ] [DecidableEq π] {r : Roster κ π} {c : κ} {p : π}
  {alive : κ → Bool} {present : κ → Prop}

/-- Every request queued at a place to take an item in is still meant: the item is
assigned to the place. -/
def Current (r : Roster κ π) (p : π) : Prop := ∀ c ∈ r.inserts p, r.assigned c = some p

/-- An item is, or is going to be, a member of the place it is assigned to. -/
def Joined (r : Roster κ π) : Prop :=
  ∀ c p, r.assigned c = some p → c ∈ r.inserts p ∨ c ∈ r.members p ∧ c ∉ r.erases p

/-- An item that leaves is assigned to nothing, so that nothing is asked of it. -/
theorem Joined.leave (h : Joined r) : Joined (r.leave c) := by
  intro d p hassigned
  rw [assigned_leave] at hassigned
  have hne : d ≠ c := by
    rintro rfl
    simp at hassigned
  rw [update_of_ne hne] at hassigned
  rw [inserts_leave, members_leave, mem_erases_leave]
  rcases h d p hassigned with hinsert | ⟨hmember, hkept⟩
  · exact Or.inl hinsert
  · exact Or.inr ⟨hmember, fun herase => herase.elim hkept (fun hleft => hne hleft.1)⟩

/-- An item that enters is in the queue of its place. -/
theorem Joined.enter (h : Joined r) : Joined (r.enter c p) := by
  intro d q hassigned
  rw [mem_inserts_enter]
  by_cases hsame : d = c
  · subst hsame
    simp only [Roster.enter, update_self, Option.some.injEq] at hassigned
    exact Or.inl (Or.inr ⟨rfl, hassigned⟩)
  · simp only [Roster.enter, update_of_ne hsame] at hassigned
    exact (h d q hassigned).imp_left Or.inl

/-- Moves are made of leaving and entering. -/
theorem Joined.moves {s : Roster κ π} (h : Joined r) (hmoves : Moves c r s) : Joined s := by
  induction hmoves with
  | refl => exact h
  | leave _ ih => exact ih.leave
  | enter _ _ _ ih => exact ih.enter

/-- A tick makes members of the items that wait, and erases no item that is assigned to the place
and stays. -/
theorem Joined.tick (h : Joined r) : Joined (r.tick alive p) := by
  intro d q hassigned
  rw [assigned_tick] at hassigned
  rw [mem_members_tick, inserts_tick, erases_tick]
  by_cases hqp : q = p
  · subst hqp
    rcases h d q hassigned with hinsert | ⟨hmember, hkept⟩
    · exact Or.inr ⟨Or.inr ⟨rfl, hinsert⟩, by simp⟩
    · exact Or.inr ⟨Or.inl ⟨hmember, fun _ => hkept⟩, by simp⟩
  · simpa [update_of_ne hqp, hqp] using h d q hassigned

/-- An item is, or is going to be, a member of the place it is assigned to, and is
going to be dropped by every other place it is a member of. -/
structure Consistent (r : Roster κ π) : Prop where
  joined : ∀ c p, r.assigned c = some p → c ∈ r.inserts p ∨ c ∈ r.members p ∧ c ∉ r.erases p
  left : ∀ c p, c ∈ r.members p → r.assigned c ≠ some p → c ∈ r.erases p

/-- An item that leaves is erased later, since the erase is queued with the leaving. -/
theorem Consistent.leave (h : Consistent r) : Consistent (r.leave c) := by
  refine ⟨Joined.leave h.joined, fun d p hmember hassigned => ?_⟩
  rw [members_leave] at hmember
  rw [mem_erases_leave]
  by_cases hbefore : r.assigned d = some p
  · refine Or.inr ⟨?_, ?_⟩
    · by_contra hne
      rw [assigned_leave, update_of_ne hne] at hassigned
      exact hassigned hbefore
    · have hsame : d = c := by
        by_contra hne
        rw [assigned_leave, update_of_ne hne] at hassigned
        exact hassigned hbefore
      rwa [← hsame]
  · exact Or.inl (h.left d p hmember hbefore)

/-- An item that enters was assigned to no place before, so that no other place has it without an
erase. -/
theorem Consistent.enter (h : Consistent r) (hfree : r.assigned c = none) : Consistent (r.enter c p) := by
  refine ⟨Joined.enter h.joined, fun d q hmember hassigned => ?_⟩
  by_cases hsame : d = c
  · subst hsame
    exact h.left d q hmember (by simp [hfree])
  · simp only [Roster.enter, update_of_ne hsame] at hassigned
    exact h.left d q hmember hassigned

/-- Moves are made of leaving and entering, each in its turn. -/
theorem Consistent.moves {s : Roster κ π} (h : Consistent r) (hmoves : Moves c r s) : Consistent s := by
  induction hmoves with
  | refl => exact h
  | leave _ ih => exact ih.leave
  | enter _ _ hfree ih => exact ih.enter hfree

/-- A tick keeps the roster consistent exactly where the requests it applies are
current: an outdated one takes an item in behind its own removal. -/
theorem Consistent.tick_iff (h : Consistent r) : Consistent (r.tick alive p) ↔ r.Current p := by
  constructor
  · intro hafter c hinsert
    by_contra hother
    have hmember : c ∈ (r.tick alive p).members p := mem_members_tick.mpr (Or.inr ⟨rfl, hinsert⟩)
    have herase := hafter.left c p hmember (by rwa [assigned_tick])
    simp at herase
  · intro hcurrent
    refine ⟨Joined.tick h.joined, fun d q hmember hassigned => ?_⟩
    rw [assigned_tick] at hassigned
    rw [mem_members_tick] at hmember
    rw [erases_tick]
    rcases hmember with ⟨hmember, hkept⟩ | ⟨rfl, hinsert⟩
    · have herase := h.left d q hmember hassigned
      by_cases hqp : q = p
      · subst hqp
        exact absurd herase (hkept rfl)
      · rwa [update_of_ne hqp]
    · exact absurd (hcurrent d hinsert) hassigned

omit [DecidableEq κ] in
/-- With no request left, the members of a place are the items assigned to it. -/
theorem Consistent.mem_members_iff (h : Consistent r) (hinserts : ∀ p, r.inserts p = [])
    (herases : ∀ p, r.erases p = []) : c ∈ r.members p ↔ r.assigned c = some p := by
  constructor
  · intro hmember
    by_contra hother
    simpa [herases] using h.left c p hmember hother
  · intro hassigned
    rcases h.joined c p hassigned with hinsert | ⟨hmember, _⟩
    · simp [hinserts] at hinsert
    · exact hmember

/-- No present item that a tick drops for good points to another place already, unless
that place is going to drop it too. -/
def Unclobbered (present : κ → Prop) (r : Roster κ π) (p : π) : Prop :=
  ∀ c ∈ r.erases p, present c → c ∈ r.members p → c ∉ r.inserts p →
    ∀ q, r.owner c = some q → q = p ∨ c ∈ r.erases q

/-- The back pointers of the items that are present: they lead to a place the item
is a member of, and a place that is not pointed back to is going to drop the item. -/
structure Pointing (present : κ → Prop) (r : Roster κ π) : Prop where
  member : ∀ c p, present c → r.owner c = some p → c ∈ r.members p
  pointer : ∀ c p, present c → c ∈ r.members p → r.owner c = some p ∨ c ∈ r.erases p

omit [DecidableEq κ] [DecidableEq π] in
/-- Where fewer items are present, less is asked. -/
theorem Pointing.mono {fewer : κ → Prop} (h : Pointing present r) (hfewer : ∀ c, fewer c → present c) :
    Pointing fewer r :=
  ⟨fun c p hc => h.member c p (hfewer c hc), fun c p hc => h.pointer c p (hfewer c hc)⟩

/-- An item that leaves keeps its back pointer until the erase is applied. -/
theorem Pointing.leave (h : Pointing present r) : Pointing present (r.leave c) := by
  constructor
  · intro d p hd
    rw [owner_leave, members_leave]
    exact h.member d p hd
  · intro d p hd hmember
    rw [members_leave] at hmember
    rw [owner_leave, mem_erases_leave]
    exact (h.pointer d p hd hmember).imp_right Or.inl

/-- An item that enters gets its back pointer when the insert is applied. -/
theorem Pointing.enter (h : Pointing present r) : Pointing present (r.enter c p) :=
  ⟨h.member, h.pointer⟩

/-- Moves change no back pointer. -/
theorem Pointing.moves {s : Roster κ π} (h : Pointing present r) (hmoves : Moves c r s) :
    Pointing present s := by
  induction hmoves with
  | refl => exact h
  | leave _ ih => exact ih.leave
  | enter _ _ _ ih => exact ih.enter

/-- A tick that applies current requests keeps the back pointers exactly where it
resets none that already leads elsewhere. -/
theorem Pointing.tick_iff (h : Pointing present r) (hconsistent : Consistent r) (hcurrent : r.Current p)
    (halive : ∀ c, present c → alive c = true) :
    Pointing present (r.tick alive p) ↔ r.Unclobbered present p := by
  constructor
  · intro hafter c herase hc hmember hnew q howner
    by_contra hother
    rw [not_or] at hother
    have hkept : c ∈ (r.tick alive p).members q :=
      mem_members_tick.mpr (Or.inl ⟨h.member c q hc howner, fun hqp => absurd hqp hother.1⟩)
    have hreset : (r.tick alive p).owner c = none := by
      rw [owner_tick, if_neg (fun hin => hnew hin.1), if_pos ⟨hmember, herase, halive c hc⟩]
    have hpointer := hafter.pointer c q hc hkept
    rw [hreset, erases_tick, update_of_ne hother.1] at hpointer
    exact hpointer.elim (by simp) hother.2
  · intro hunclobbered
    constructor
    · intro d q hd howner
      rw [owner_tick] at howner
      rw [mem_members_tick]
      split_ifs at howner with hnew hdropped
      · obtain rfl := Option.some.inj howner
        exact Or.inr ⟨rfl, hnew.1⟩
      · have hmember := h.member d q hd howner
        by_cases hqp : q = p
        · subst hqp
          by_cases herase : d ∈ r.erases q
          · exact absurd ⟨hmember, herase, halive d hd⟩ hdropped
          · exact Or.inl ⟨hmember, fun _ => herase⟩
        · exact Or.inl ⟨hmember, fun hqp' => absurd hqp' hqp⟩
    · intro d q hd hmember
      rw [mem_members_tick] at hmember
      rw [owner_tick, erases_tick]
      by_cases hqp : q = p
      · subst hqp
        left
        split_ifs with hnew hdropped
        · rfl
        · tauto
        · have hstay : d ∈ r.members q ∧ d ∉ r.erases q := by tauto
          exact (h.pointer d q hd hstay.1).resolve_right hstay.2
      · have hbefore : d ∈ r.members q := by tauto
        rw [update_of_ne hqp]
        split_ifs with hnew hdropped
        · right
          apply hconsistent.left d q hbefore
          rw [hcurrent d hnew.1]
          exact fun heq => hqp (Option.some.inj heq).symm
        · right
          rcases h.pointer d q hd hbefore with howner | herase
          · have hnotnew : d ∉ r.inserts p := by tauto
            exact (hunclobbered d hdropped.2.1 hd hdropped.1 hnotnew q howner).resolve_left hqp
          · exact herase
        · exact h.pointer d q hd hbefore

omit [DecidableEq κ] [DecidableEq π] in
/-- With no request left, an item is a member of the one place it points back to. -/
theorem Pointing.mem_members_iff (h : Pointing present r) (herases : ∀ p, r.erases p = [])
    (hc : present c) : c ∈ r.members p ↔ r.owner c = some p := by
  constructor
  · intro hmember
    simpa [herases] using h.pointer c p hc hmember
  · exact h.member c p hc

/-- An item has a back pointer after the tick of a place: it is newly taken in, or it
has one that the tick does not reset. -/
def Attached (r : Roster κ π) (p : π) (c : κ) : Prop :=
  c ∈ r.inserts p ∧ ¬ (c ∈ r.members p ∧ c ∉ r.erases p) ∨
    r.owner c ≠ none ∧ ¬ (c ∈ r.members p ∧ c ∈ r.erases p)

/-- An item that exists has a back pointer after the tick of a place exactly where it is attached.
-/
theorem owner_tick_ne_none_iff (halive : alive c = true) :
    (r.tick alive p).owner c ≠ none ↔ r.Attached p c := by
  rw [owner_tick, Attached]
  split_ifs with hnew hdropped
  · simp [hnew]
  · simp only [halive, and_true] at hdropped
    tauto
  · simp only [halive, and_true] at hdropped
    tauto

end Roster

import Mathlib.Logic.Function.Basic
import Mathlib.Tactic.Common

open Function

/-- Items assigned to places whose membership follows by requests: each place
queues the items to take in and to drop and applies both at its next tick, the
drops first. An item points back to the place it was last taken into. -/
@[ext] structure Roster (κ π : Type) where
  assigned : κ → Option π
  inserts : π → List κ
  erases : π → List κ
  members : π → List κ
  owner : κ → Option π

namespace Roster

variable {κ π : Type}

/-- The fields that only requests change. -/
def requests (r : Roster κ π) : (κ → Option π) × (π → List κ) × (π → List κ) :=
  (r.assigned, r.inserts, r.erases)

/-- What no single step changes, no sequence of steps changes. -/
theorem foldl_field {α : Type} {field : Roster κ π → α} {f : Roster κ π → κ → Roster κ π}
    (hfield : ∀ r c, field (f r c) = field r) (cs : List κ) (r : Roster κ π) :
    field (cs.foldl f r) = field r := by
  induction cs generalizing r with
  | nil => rfl
  | cons c cs ih => rw [List.foldl_cons, ih, hfield]

variable [DecidableEq κ] [DecidableEq π] {r : Roster κ π} {c d : κ} {p q : π}
  {alive : κ → Bool} {cs : List κ}

/-- Takes an item off its place and asks the place to drop it. -/
def leave (r : Roster κ π) (c : κ) : Roster κ π :=
  match r.assigned c with
  | none => r
  | some p =>
    { r with
      assigned := update r.assigned c none
      erases := update r.erases p (r.erases p ++ [c]) }

/-- Assigns an item to a place and asks the place to take it in. -/
def enter (r : Roster κ π) (c : κ) (p : π) : Roster κ π :=
  { r with
    assigned := update r.assigned c (some p)
    inserts := update r.inserts p (r.inserts p ++ [c]) }

/-- Drops a member, whose back pointer is reset if the item still exists. -/
def erase (alive : κ → Bool) (p : π) (r : Roster κ π) (c : κ) : Roster κ π :=
  if c ∈ r.members p then
    { r with
      members := update r.members p ((r.members p).filter (· ≠ c))
      owner := if alive c then update r.owner c none else r.owner }
  else r

/-- Takes an item in that is not yet a member. -/
def insert (p : π) (r : Roster κ π) (c : κ) : Roster κ π :=
  if c ∈ r.members p then r
  else
    { r with
      members := update r.members p (r.members p ++ [c])
      owner := update r.owner c (some p) }

/-- Empties the request lists of a place. -/
def clear (p : π) (r : Roster κ π) : Roster κ π :=
  { r with inserts := update r.inserts p [], erases := update r.erases p [] }

/-- Applies the requests of a place. -/
def tick (alive : κ → Bool) (p : π) (r : Roster κ π) : Roster κ π :=
  (r.inserts p).foldl (insert p) ((r.erases p).foldl (erase alive p) (clear p r))

/-- Some requests of an item to leave and to enter, in which it enters only when it is
assigned to no place. -/
inductive Moves (c : κ) (r : Roster κ π) : Roster κ π → Prop where
  | refl : Moves c r r
  | leave {s : Roster κ π} (h : Moves c r s) : Moves c r (s.leave c)
  | enter {s : Roster κ π} (p : π) (h : Moves c r s) (hfree : s.assigned c = none) :
      Moves c r (s.enter c p)

/-- What an item asks for in two sequences of requests, one after the other. -/
theorem Moves.trans {s t : Roster κ π} (h : Moves c r s) (h' : Moves c s t) : Moves c r t := by
  induction h' with
  | refl => exact h
  | leave _ ih => exact .leave ih
  | enter p _ hfree ih => exact .enter p ih hfree

section Requests

/-- An item that leaves is assigned to no place. -/
theorem assigned_leave : (r.leave c).assigned = update r.assigned c none := by
  unfold leave
  split
  · rename_i h
    rw [← h, update_eq_self]
  · rfl

@[simp] theorem inserts_leave : (r.leave c).inserts = r.inserts := by
  unfold leave
  split <;> rfl

@[simp] theorem members_leave : (r.leave c).members = r.members := by
  unfold leave
  split <;> rfl

@[simp] theorem owner_leave : (r.leave c).owner = r.owner := by
  unfold leave
  split <;> rfl

/-- An item that leaves is erased from the place that it was assigned to, if there was one. -/
theorem mem_erases_leave : d ∈ (r.leave c).erases p ↔ d ∈ r.erases p ∨ d = c ∧ r.assigned c = some p := by
  unfold leave
  split
  · rename_i h
    simp [h]
  · rename_i q h
    by_cases hpq : p = q
    · subst hpq
      simp [h]
    · simp [h, update_of_ne hpq, Ne.symm hpq]

/-- An item that enters a place is inserted there. -/
theorem mem_inserts_enter : d ∈ (r.enter c p).inserts q ↔ d ∈ r.inserts q ∨ d = c ∧ p = q := by
  by_cases hpq : q = p
  · subst hpq
    simp [enter]
  · simp [enter, update_of_ne hpq, Ne.symm hpq]

/-- The moves of one item queue no other. -/
theorem Moves.mem_inserts {s : Roster κ π} (h : Moves c r s) (hne : d ≠ c) :
    d ∈ s.inserts p ↔ d ∈ r.inserts p := by
  induction h with
  | refl => exact Iff.rfl
  | leave _ ih => rw [inserts_leave, ih]
  | enter q _ _ ih => simp [mem_inserts_enter, ih, hne]

/-- Moves only ask: the members of a place change with its tick. -/
theorem Moves.members {s : Roster κ π} (h : Moves c r s) : s.members = r.members := by
  induction h with
  | refl => rfl
  | leave _ ih => rw [members_leave, ih]
  | enter _ _ _ ih => exact ih

/-- Moves take no queued insert back. -/
theorem Moves.inserts_mono {s : Roster κ π} (h : Moves c r s) (hd : d ∈ r.inserts p) : d ∈ s.inserts p := by
  induction h with
  | refl => exact hd
  | leave _ ih => rwa [inserts_leave]
  | enter q _ _ ih => exact mem_inserts_enter.mpr (.inl ih)

end Requests

section Tick

/-- Dropping and taking in leave the requests and assignments alone. -/
theorem requests_erase (alive : κ → Bool) (p : π) (r : Roster κ π) (c : κ) :
    (erase alive p r c).requests = r.requests := by
  unfold erase
  split <;> rfl

/-- To insert an item takes back no request. -/
theorem requests_insert (p : π) (r : Roster κ π) (c : κ) : (insert p r c).requests = r.requests := by
  unfold insert
  split <;> rfl

/-- An erase takes one member from one place. -/
theorem mem_members_erase :
    d ∈ (erase alive p r c).members q ↔ d ∈ r.members q ∧ (q = p → d ≠ c) := by
  unfold erase
  split
  · by_cases hqp : q = p
    · subst hqp
      simp
    · simp [hqp]
  · rename_i hnot
    constructor
    · refine fun h => ⟨h, ?_⟩
      rintro rfl rfl
      exact hnot h
    · exact fun h => h.1

/-- The erases of a place together, by induction on the list. -/
theorem mem_members_foldl_erase :
    d ∈ (cs.foldl (erase alive p) r).members q ↔ d ∈ r.members q ∧ (q = p → d ∉ cs) := by
  induction cs generalizing r with
  | nil => simp
  | cons c cs ih =>
    rw [List.foldl_cons, ih, mem_members_erase]
    simp only [List.mem_cons, not_or]
    tauto

/-- An insert adds one member to one place. -/
theorem mem_members_insert :
    d ∈ (insert p r c).members q ↔ d ∈ r.members q ∨ q = p ∧ d = c := by
  unfold insert
  split
  · rename_i hmem
    constructor
    · exact Or.inl
    · rintro (h | ⟨rfl, rfl⟩)
      · exact h
      · exact hmem
  · by_cases hqp : q = p
    · subst hqp
      simp
    · simp [hqp]

/-- The inserts of a place together, by induction on the list. -/
theorem mem_members_foldl_insert :
    d ∈ (cs.foldl (insert p) r).members q ↔ d ∈ r.members q ∨ q = p ∧ d ∈ cs := by
  induction cs generalizing r with
  | nil => simp
  | cons c cs ih =>
    rw [List.foldl_cons, ih, mem_members_insert]
    simp only [List.mem_cons]
    tauto

/-- An erase clears the back pointer of a member that was there, if it is alive. No other back
pointer changes. -/
theorem owner_foldl_erase :
    (cs.foldl (erase alive p) r).owner d =
      if d ∈ r.members p ∧ d ∈ cs ∧ alive d then none else r.owner d := by
  induction cs generalizing r with
  | nil => simp
  | cons c cs ih =>
    rw [List.foldl_cons, ih]
    simp only [mem_members_erase]
    by_cases hdc : d = c
    · subst hdc
      by_cases hmem : d ∈ r.members p <;> by_cases halive : alive d <;> simp [erase, hmem, halive]
    · by_cases hmem : c ∈ r.members p <;> by_cases halive : alive c <;> simp [erase, hmem, halive, hdc]

/-- An insert sets the back pointer of every item that was no member before. -/
theorem owner_foldl_insert :
    (cs.foldl (insert p) r).owner d =
      if d ∈ cs ∧ d ∉ r.members p then some p else r.owner d := by
  induction cs generalizing r with
  | nil => simp
  | cons c cs ih =>
    rw [List.foldl_cons, ih]
    simp only [mem_members_insert]
    by_cases hdc : d = c
    · subst hdc
      by_cases hmem : d ∈ r.members p <;> simp [insert, hmem]
    · by_cases hmem : c ∈ r.members p <;> simp [insert, hmem, hdc]

/-- A tick clears the requests of its own place and no others. -/
theorem requests_tick : (tick alive p r).requests = (clear p r).requests := by
  rw [tick, foldl_field (requests_insert p), foldl_field (requests_erase alive p)]

@[simp] theorem assigned_tick : (tick alive p r).assigned = r.assigned :=
  congrArg Prod.fst requests_tick

@[simp] theorem inserts_tick : (tick alive p r).inserts = update r.inserts p [] :=
  congrArg (Prod.fst ∘ Prod.snd) requests_tick

@[simp] theorem erases_tick : (tick alive p r).erases = update r.erases p [] :=
  congrArg (Prod.snd ∘ Prod.snd) requests_tick

/-- The members after a tick: the ones asked in, and those of before that were not
asked out. -/
theorem mem_members_tick :
    d ∈ (tick alive p r).members q ↔
      (d ∈ r.members q ∧ (q = p → d ∉ r.erases p)) ∨ q = p ∧ d ∈ r.inserts p := by
  rw [tick, mem_members_foldl_insert, mem_members_foldl_erase]
  rfl

/-- The back pointer after a tick: set where the item was newly taken in, reset
where it was dropped, and else as before. -/
theorem owner_tick :
    (tick alive p r).owner d =
      if d ∈ r.inserts p ∧ ¬ (d ∈ r.members p ∧ d ∉ r.erases p) then some p
      else if d ∈ r.members p ∧ d ∈ r.erases p ∧ alive d then none else r.owner d := by
  simp only [tick, owner_foldl_insert, mem_members_foldl_erase, owner_foldl_erase, clear, true_implies]

end Tick

end Roster

import Mathlib.Data.Finset.Card
import Mathlib.Data.List.Nodup
import AsioGameServer.Lib.Roster

open Function

namespace Roster

variable {κ π : Type} [DecidableEq κ] {r s : Roster κ π} {c : κ} {p q : π} {limit : Int}

/-- The members of a place after its next tick. -/
def upcoming (r : Roster κ π) (p : π) : Finset κ :=
  (r.inserts p).toFinset ∪ ((r.members p).toFinset \ (r.erases p).toFinset)

/-- The members that a place will have after its next tick: the items that are inserted, and the
members that are not erased. -/
theorem mem_upcoming : c ∈ r.upcoming p ↔ c ∈ r.inserts p ∨ c ∈ r.members p ∧ c ∉ r.erases p := by
  simp [upcoming]

/-- A place does not hold more than its limit, and will not after its next tick. -/
structure Fits (r : Roster κ π) (p : π) (limit : Int) : Prop where
  once : (r.members p).Nodup
  present : ((r.members p).length : Int) ≤ limit
  next : ((r.upcoming p).card : Int) ≤ limit

/-- A place without members and requests fits. -/
theorem Fits.of_empty (hlimit : 0 ≤ limit) (hinserts : r.inserts p = []) (hmembers : r.members p = []) :
    r.Fits p limit := by
  refine ⟨?_, ?_, ?_⟩
  · simp [hmembers]
  · simpa [hmembers]
  · simpa [upcoming, hinserts, hmembers]

/-- Only the lists of a place count. -/
theorem Fits.congr (h : r.Fits p limit) (hinserts : s.inserts p = r.inserts p)
    (herases : s.erases p = r.erases p) (hmembers : s.members p = r.members p) : s.Fits p limit := by
  refine ⟨hmembers ▸ h.once, hmembers ▸ h.present, ?_⟩
  have hsame : s.upcoming p = r.upcoming p := by simp only [upcoming, hinserts, herases, hmembers]
  exact hsame ▸ h.next

/-- Requests keep a place within its limit if no more than that many items can come out of
them. -/
theorem Fits.request (h : r.Fits p limit) (hmembers : s.members p = r.members p) {bound : Finset κ}
    (hsub : s.upcoming p ⊆ bound) (hbound : (bound.card : Int) ≤ limit) : s.Fits p limit := by
  refine ⟨hmembers ▸ h.once, hmembers ▸ h.present, ?_⟩
  have hcard := Finset.card_le_card hsub
  omega

section Tick

variable [DecidableEq π] {alive : κ → Bool}

/-- The tick of a place leaves the members of the others alone. -/
theorem members_tick_of_ne (hne : q ≠ p) : (r.tick alive p).members q = r.members q := by
  have herase : ∀ (r : Roster κ π) c, (erase alive p r c).members q = r.members q := by
    intro r c
    unfold erase
    split
    · exact update_of_ne hne _ _
    · rfl
  have hinsert : ∀ (r : Roster κ π) c, (insert p r c).members q = r.members q := by
    intro r c
    unfold insert
    split
    · rfl
    · exact update_of_ne hne _ _
  have hdropped : ((r.erases p).foldl (erase alive p) (r.clear p)).members q = r.members q :=
    @foldl_field κ π _ (fun r => r.members q) (erase alive p) herase (r.erases p) (r.clear p)
  rw [← hdropped]
  exact @foldl_field κ π _ (fun r => r.members q) (insert p) hinsert (r.inserts p) _

/-- After an erase, no item is a member twice. -/
theorem nodup_members_erase (h : (r.members p).Nodup) : ((erase alive p r c).members p).Nodup := by
  unfold erase
  split
  · simpa using h.filter _
  · exact h

/-- An insert adds an item only if it is no member. -/
theorem nodup_members_insert (h : (r.members p).Nodup) : ((insert p r c).members p).Nodup := by
  unfold insert
  split
  · exact h
  · rename_i hnew
    simpa using h.concat hnew

/-- After a tick no item is a member twice, by both loops. -/
theorem nodup_members_tick (h : (r.members p).Nodup) : ((r.tick alive p).members p).Nodup := by
  have hcleared : ((r.clear p).members p).Nodup := h
  have herased := List.foldlRecOn (r.erases p) (erase alive p) (motive := fun r => (r.members p).Nodup)
    hcleared fun _ h _ _ => nodup_members_erase h
  exact List.foldlRecOn (r.inserts p) (insert p) (motive := fun r => (r.members p).Nodup)
    herased fun _ h _ _ => nodup_members_insert h

/-- After a tick, the members are those that were to come. -/
theorem toFinset_members_tick : ((r.tick alive p).members p).toFinset = r.upcoming p := by
  ext c
  rw [List.mem_toFinset, mem_members_tick, mem_upcoming]
  tauto

/-- A tick makes members of the items that the requests of its place lead to. -/
theorem Fits.tick (h : r.Fits q limit) : (r.tick alive p).Fits q limit := by
  by_cases hqp : q = p
  · subst hqp
    have hnodup : ((r.tick alive q).members q).Nodup := nodup_members_tick h.once
    have hsame : (r.tick alive q).upcoming q = r.upcoming q := by
      ext c
      rw [mem_upcoming, mem_upcoming, mem_members_tick, inserts_tick, erases_tick, update_self]
      simp
      tauto
    refine ⟨hnodup, ?_, hsame ▸ h.next⟩
    rw [← List.toFinset_card_of_nodup hnodup, toFinset_members_tick]
    exact h.next
  · refine h.congr ?_ ?_ (members_tick_of_ne hqp)
    · rw [inserts_tick, update_of_ne hqp]
    · rw [erases_tick, update_of_ne hqp]

end Tick

end Roster

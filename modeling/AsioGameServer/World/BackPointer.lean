import AsioGameServer.World.Membership

open Transition

namespace AsioGameServer.world

namespace World

variable {w w' w₀ : World} {e : Event} {events : List Event}

def connected (w : World) (code : Int) : Prop := (w.characters code).user = true

/-- A channel that ticks applies current inserts only, and resets no connected
character's back pointer that leads to a channel which is going to keep it. -/
def PointersKept (w : World) : Event → Prop
  | .updateChannel id =>
    w.manager id ≠ none → w.roster.Current id ∧ w.roster.Unclobbered w.connected id
  | _ => True

theorem PointersKept.insertsCurrent (h : w.PointersKept e) : w.InsertsCurrent e := by
  cases e with
  | updateChannel id => exact fun hbegun => (h hbegun).1
  | _ => trivial

instance : ∀ w e, Decidable (PointersKept w e)
  | w, .updateChannel id =>
    inferInstanceAs (Decidable (w.manager id ≠ none →
      (∀ c ∈ w.roster.inserts id, w.assigned c = some id) ∧
      ∀ c ∈ w.roster.erases id, (w.characters c).user = true → c ∈ w.roster.members id →
        c ∉ w.roster.inserts id → ∀ q, (w.characters c).cm = some q → q = id ∨ c ∈ w.roster.erases q))
  | _, .request .. | _, .closeSession _ | _, .disconnect _ | _, .tickManager _ => isTrue trivial

theorem Start.pointing (h : w.Start) : Roster.Pointing w.connected w.roster := by
  constructor
  · intro code id _ howner
    simp [roster, (h.outside code).2] at howner
  · intro code id _ hmember
    simp [(h.no_requests id).2.2] at hmember

/-- A step keeps the back pointers of the connected characters. -/
theorem Stepped.pointing (h : w.Stepped e w') (hcond : w.PointersKept e)
    (hconsistent : w.roster.Consistent) (hpointing : Roster.Pointing w.connected w.roster) :
    Roster.Pointing w'.connected w'.roster := by
  refine Roster.Pointing.mono ?_ h.users
  rcases h.roster with ⟨_, hmoves⟩ | ⟨id, alive, rfl, hbegun, halive, hroster⟩
  · exact hpointing.moves hmoves
  · obtain ⟨hcurrent, hunclobbered⟩ := hcond hbegun
    rw [hroster]
    exact (hpointing.tick_iff hconsistent hcurrent halive).mpr hunclobbered

/-- In a run in which no channel applies an outdated insert or resets a pointer that
leads elsewhere, the managers and the back pointers of the connected characters agree
whenever all request lists are empty. -/
theorem run_back_pointer_agrees (hstart : w₀.Start)
    (hrun : Run (Guarded PointersKept (OfOption next)) w₀ events w) (hdrained : w.Drained) (code : Int)
    (hconnected : (w.characters code).user = true) (id : Nat) (cm : CharacterManager)
    (hcm : w.manager id = some cm) : code ∈ cm.characters ↔ (w.characters code).cm = some id := by
  obtain ⟨_, _, hpointing⟩ : w.Valid ∧ w.roster.Consistent ∧ Roster.Pointing w.connected w.roster := by
    apply hrun.invariant ⟨hstart.valid, hstart.consistent, hstart.pointing⟩
    intro a e b ⟨hvalid, hconsistent, hpointing⟩ ⟨hcond, hnext⟩
    have hstep := stepped_of_next hvalid hnext
    exact ⟨hstep.valid, hstep.consistent hcond.insertsCurrent hconsistent,
      hstep.pointing hcond hconsistent hpointing⟩
  rw [← roster_members_of_manager hcm]
  exact hpointing.mem_members_iff (fun id => (hdrained.no_requests id).2) hconnected

/-- A move whose source channel ticks before its destination. -/
theorem run_source_first_agrees :
    ∃ events w cm, Run (OfOption next) twoMaps events w ∧ w.manager 1 = some cm ∧
      (w.characters 7).cm = some 1 ∧ (7 ∈ cm.characters ↔ (w.characters 7).cm = some 1) := by
  have hfold : ([.request 7 (.REQ_ENTER_MAP 1), .updateChannel 0, .updateChannel 0,
      .request 7 (.REQ_ENTER_MAP 2), .updateChannel 0, .updateChannel 1, .updateChannel 1].foldlM
        (fun w e => if PointersKept w e then w.next e else none) twoMaps).map
      (fun w => (w.characters 7, w.manager 1, decide w.Drained)) =
        some (⟨2, 1, some 1, true, true⟩, some ⟨[7], true, []⟩, true) := by
    decide +kernel
  obtain ⟨w, hw, hseen⟩ := Option.map_eq_some_iff.mp hfold
  simp only [Prod.mk.injEq, decide_eq_true_eq] at hseen
  obtain ⟨hcharacter, hcm, hdrained⟩ := hseen
  have hrun := run_guarded_ofOption_iff.mpr hw
  exact ⟨_, w, _, hrun.of_guarded, hcm, by rw [hcharacter],
    run_back_pointer_agrees twoMaps_start hrun hdrained 7 (by rw [hcharacter]) 1 _ hcm⟩

/-- A move whose destination channel ticks before its source leaves the character in
the destination's manager without a back pointer. -/
theorem destination_first_loses_pointer :
    ∃ events w cm, twoMaps.Start ∧ Run (OfOption next) twoMaps events w ∧ w.Drained ∧
      (w.characters 7).user = true ∧ w.manager 1 = some cm ∧
      ¬ (7 ∈ cm.characters ↔ (w.characters 7).cm = some 1) := by
  have hfold : ([.request 7 (.REQ_ENTER_MAP 1), .updateChannel 0, .updateChannel 0,
      .request 7 (.REQ_ENTER_MAP 2), .updateChannel 1, .updateChannel 1, .updateChannel 0].foldlM
        next twoMaps).map (fun w => (w.characters 7, w.manager 1, decide w.Drained)) =
        some (⟨2, 1, none, true, true⟩, some ⟨[7], true, []⟩, true) := by
    decide +kernel
  obtain ⟨w, hw, hseen⟩ := Option.map_eq_some_iff.mp hfold
  simp only [Prod.mk.injEq, decide_eq_true_eq] at hseen
  obtain ⟨hcharacter, hcm, hdrained⟩ := hseen
  refine ⟨_, w, _, twoMaps_start, run_ofOption_iff.mpr hw, hdrained, by rw [hcharacter], hcm, ?_⟩
  rw [hcharacter]
  simp

end World

end AsioGameServer.world

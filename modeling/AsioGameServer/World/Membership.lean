import AsioGameServer.Lib.Roster.Invariants
import AsioGameServer.World.Steps

open Function Transition

namespace AsioGameServer.world

namespace World

variable {w w' w₀ : World} {e : Event} {events : List Event} {id : Nat} {code : Int}

/-- A character is in the manager of a channel. -/
def InManager (w : World) (id : Nat) (code : Int) : Prop :=
  ∃ cm, w.manager id = some cm ∧ code ∈ cm.characters

theorem mem_members_iff : code ∈ w.roster.members id ↔ w.InManager id code := by
  constructor
  · intro hmember
    obtain ⟨channel, hget⟩ : ∃ channel, w.channels[id]? = some channel := by
      by_contra hnone
      simp [roster, Option.eq_none_iff_forall_ne_some.mpr fun channel h => hnone ⟨channel, h⟩] at hmember
    rw [roster_members hget, Channel.members] at hmember
    cases hcm : channel.cm with
    | none => simp [hcm] at hmember
    | some cm => exact ⟨cm, by simp [manager, hget, hcm], by simpa [hcm] using hmember⟩
  · rintro ⟨cm, hcm, hmember⟩
    rwa [roster_members_of_manager hcm]

/-- The members agree with the locations: a connected character with a channel is in
the manager of the one that its `(mapKey, channel)` names and in no other, and a
character that has left is in none. -/
structure MembershipAgrees (w : World) : Prop where
  inside : ∀ code, (w.characters code).user = true → (w.characters code).channel ≠ 0 →
    ∃ id, w.assigned code = some id ∧ ∀ other, w.InManager other code ↔ other = id
  outside : ∀ code, (w.characters code).user = false ∨ (w.characters code).channel = 0 →
    ∀ other, ¬ w.InManager other code

/-- Every insert that a channel is going to apply is of a character whose location
still names the channel. -/
def InsertsCurrent (w : World) : Event → Prop
  | .updateChannel id => w.manager id ≠ none → w.roster.Current id
  | _ => True

instance : ∀ w e, Decidable (InsertsCurrent w e)
  | w, .updateChannel id =>
    inferInstanceAs (Decidable (w.manager id ≠ none → ∀ c ∈ w.roster.inserts id, w.assigned c = some id))
  | _, .request .. | _, .closeSession _ | _, .disconnect _ | _, .tickManager _ => isTrue trivial

instance : Decidable w.Drained :=
  inferInstanceAs (Decidable (∀ channel ∈ w.channels, channel.req_Insert_list = [] ∧
    channel.req_erase_list = [] ∧ channel.req_func_list = [] ∧ ∀ cm ∈ channel.cm, cm.req_send_all = []))

theorem Start.valid (h : w.Start) : w.Valid := by
  refine ⟨⟨?_, fun code hchannel => absurd (h.outside code).1 hchannel⟩, fun code _ => (h.outside code).1⟩
  intro mapKey mapinfo number id hmap hchannel
  simp [MapInfo.GetChannel, h.no_entries mapKey mapinfo hmap] at hchannel

theorem Start.no_requests (h : w.Start) (id : Nat) :
    w.roster.inserts id = [] ∧ w.roster.erases id = [] ∧ w.roster.members id = [] := by
  simp [roster, h.no_channels]

theorem Start.consistent (h : w.Start) : w.roster.Consistent := by
  constructor
  · intro code id hassigned
    simp [roster, assigned, (h.outside code).1] at hassigned
  · intro code id hmember
    simp [(h.no_requests id).2.2] at hmember

/-- A step keeps the requests and members consistent with the locations. -/
theorem Stepped.consistent (h : w.Stepped e w') (hcond : w.InsertsCurrent e)
    (hconsistent : w.roster.Consistent) : w'.roster.Consistent := by
  rcases h.roster with ⟨_, hmoves⟩ | ⟨id, alive, rfl, hbegun, _, hroster⟩
  · exact hconsistent.moves hmoves
  · rw [hroster, hconsistent.tick_iff]
    exact hcond hbegun

theorem stepped_of_next (hw : w.Valid) (hnext : OfOption next w e w') : w.Stepped e w' :=
  (step_spec hw e).toOption hnext

/-- A character that is in no channel may be set up anew. -/
theorem Valid.renew (hw : w.Valid) (hconsistent : w.roster.Consistent)
    (hchannel : (w.characters code).channel = 0) (mapKey : Int) :
    (w.onCharacter code fun _ => ⟨mapKey, 0, none, true, true⟩).Valid ∧
      (w.onCharacter code fun _ => ⟨mapKey, 0, none, true, true⟩).roster.Consistent := by
  have hassigned : w.roster.assigned code = none := if_pos hchannel
  constructor
  · refine ⟨hw.relocate rfl rfl (fun _ => onCharacter_of_ne) fun hne => ?_, fun other hother => ?_⟩
    · simp at hne
    · by_cases hsame : other = code
      · simp [hsame]
      · rw [onCharacter_of_ne hsame] at hother ⊢
        exact hw.departed other hother
  · rw [roster_onCharacter]
    have hnone : (w.onCharacter code fun _ => ⟨mapKey, 0, none, true, true⟩).assigned code = none := by
      simp [assigned]
    rw [hnone, ← hassigned, update_eq_self]
    exact ⟨hconsistent.joined, hconsistent.left⟩

/-- A tick that applies current inserts takes in characters with a channel only. -/
theorem updateChannel_members (hcurrent : w.InsertsCurrent (.updateChannel id)) :
    Outcome (fun w' => ∀ code other, (w.characters code).channel = 0 → code ∈ w'.roster.members other →
      code ∈ w.roster.members other) (fun _ => True) (w.updateChannel id) := by
  cases hget : w.channels[id]? with
  | none =>
    have hidle : w.updateChannel id = .ok w := by simp [updateChannel, hget]
    rw [hidle]
    exact fun _ _ _ hmember => hmember
  | some ch =>
    refine (updateChannel_roster hget).imp (fun w' hroster code other hchannel hmember => ?_) fun _ h => h
    obtain ⟨_, hroster⟩ | ⟨hbegun, hroster⟩ := hroster
    · rwa [hroster] at hmember
    · rw [hroster, Roster.mem_members_tick] at hmember
      obtain ⟨hmember, _⟩ | ⟨rfl, hinsert⟩ := hmember
      · exact hmember
      · have hassigned := hcurrent (by simpa [manager, hget] using hbegun) code hinsert
        have hnone : w.roster.assigned code = none := if_pos hchannel
        rw [hnone] at hassigned
        cases hassigned

/-- Every world that a run reaches by steps of current inserts is valid and has its
requests and members consistent with the locations. -/
theorem run_consistent (hstart : w₀.Start)
    (hrun : Run (Guarded InsertsCurrent (OfOption next)) w₀ events w) : w.Valid ∧ w.roster.Consistent := by
  apply hrun.invariant ⟨hstart.valid, hstart.consistent⟩
  intro a e b ⟨hvalid, hconsistent⟩ ⟨hcond, hnext⟩
  have hstep := stepped_of_next hvalid hnext
  exact ⟨hstep.valid, hstep.consistent hcond hconsistent⟩

theorem Drained.no_requests (h : w.Drained) (id : Nat) :
    w.roster.inserts id = [] ∧ w.roster.erases id = [] := by
  cases hget : w.channels[id]? with
  | none => simp [roster, hget]
  | some channel =>
    obtain ⟨hinserts, herases, _⟩ := h channel (List.mem_of_getElem? hget)
    rw [roster_inserts hget, roster_erases hget]
    exact ⟨hinserts, herases⟩

/-- In a run in which no channel applies an outdated insert, the members agree with the
locations whenever all request lists are empty. -/
theorem run_membership_agrees (hstart : w₀.Start)
    (hrun : Run (Guarded InsertsCurrent (OfOption next)) w₀ events w) (hdrained : w.Drained) :
    w.MembershipAgrees := by
  obtain ⟨hvalid, hconsistent⟩ := run_consistent hstart hrun
  have hmembers : ∀ other code, w.InManager other code ↔ w.assigned code = some other := by
    intro other code
    rw [← mem_members_iff]
    exact hconsistent.mem_members_iff (fun id => (hdrained.no_requests id).1)
      fun id => (hdrained.no_requests id).2
  constructor
  · intro code _ hchannel
    obtain ⟨id, hid⟩ := hvalid.located code hchannel
    refine ⟨id, hid, fun other => ?_⟩
    rw [hmembers, hid, Option.some.injEq, eq_comm]
  · intro code hleft other
    have hzero : (w.characters code).channel = 0 := hleft.elim (hvalid.departed code) id
    rw [hmembers, assigned, if_pos hzero]
    exact Option.some_ne_none _ ∘ Eq.symm

/-- Two maps, which have no channel yet. -/
def twoMaps : World where
  maps code := if code = 1 ∨ code = 2 then some ⟨code, 10, [], []⟩ else none
  channels := []
  characters _ := ⟨0, 0, none, true, true⟩

theorem twoMaps_start : twoMaps.Start := by
  refine ⟨rfl, fun mapKey mapinfo hmap => ?_, fun _ => ⟨rfl, rfl⟩, fun _ => rfl⟩
  obtain ⟨_, hinfo⟩ := Option.ite_none_right_eq_some.mp hmap
  obtain rfl := Option.some.inj hinfo
  rfl

/-- Two characters, one of which changes maps and disconnects. Each request is applied
before the next one. -/
theorem run_settled_moves_agree :
    ∃ events w, Run (OfOption next) twoMaps events w ∧ w.InManager 1 8 ∧ w.MembershipAgrees := by
  have hfold : ([.request 7 (.REQ_ENTER_MAP 1), .updateChannel 0, .updateChannel 0,
      .request 7 (.REQ_ENTER_MAP 2), .updateChannel 0, .updateChannel 1, .updateChannel 1,
      .request 8 (.REQ_ENTER_MAP 2), .updateChannel 1, .disconnect 7, .updateChannel 1].foldlM
        (fun w e => if InsertsCurrent w e then w.next e else none) twoMaps).map
      (fun w => (w.roster.members 1, decide w.Drained)) = some ([8], true) := by
    decide +kernel
  obtain ⟨w, hw, hseen⟩ := Option.map_eq_some_iff.mp hfold
  obtain ⟨hmembers, hdrained⟩ := Prod.mk.inj hseen
  have hrun := run_guarded_ofOption_iff.mpr hw
  have hmember : w.InManager 1 8 := by
    rw [← mem_members_iff, hmembers]
    simp
  exact ⟨_, w, hrun.of_guarded, hmember,
    run_membership_agrees twoMaps_start hrun (of_decide_eq_true hdrained)⟩

/-- A character that enters one map and then another before the first one's channel
ticks stays a member of both channels. -/
theorem move_before_tick_keeps_both :
    ∃ events w, twoMaps.Start ∧ Run (OfOption next) twoMaps events w ∧ w.Drained ∧
      w.InManager 0 7 ∧ w.InManager 1 7 ∧ ¬ w.MembershipAgrees := by
  have hfold : ([.request 7 (.REQ_ENTER_MAP 1), .request 7 (.REQ_ENTER_MAP 2), .updateChannel 0,
      .updateChannel 1, .updateChannel 0, .updateChannel 1].foldlM next twoMaps).map
      (fun w => ((w.characters 7).user, (w.characters 7).channel, w.roster.members 0,
        w.roster.members 1, decide w.Drained)) = some (true, 1, [7], [7], true) := by
    decide +kernel
  obtain ⟨w, hw, hseen⟩ := Option.map_eq_some_iff.mp hfold
  simp only [Prod.mk.injEq, decide_eq_true_eq] at hseen
  obtain ⟨huser, hchannel, hfirst, hsecond, hdrained⟩ := hseen
  have hboth : w.InManager 0 7 ∧ w.InManager 1 7 := by
    rw [← mem_members_iff, ← mem_members_iff, hfirst, hsecond]
    simp
  refine ⟨_, w, twoMaps_start, run_ofOption_iff.mpr hw, hdrained, hboth.1, hboth.2, fun hagrees => ?_⟩
  obtain ⟨id, _, hmembers⟩ := hagrees.inside 7 huser (by simp [hchannel])
  have hzero := (hmembers 0).mp hboth.1
  have hone := (hmembers 1).mp hboth.2
  omega

end World

end AsioGameServer.world

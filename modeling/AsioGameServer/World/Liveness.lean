import AsioGameServer.World.Membership

open Transition

namespace AsioGameServer.world

/-- The faults of a dead character, user, session or manager that a tick uses. -/
def Fault.dead : Fault → Bool
  | .deadCharacter | .deadUser | .deadSession | .noCharacterManager => true
  | .nullMapInfo | .nullChannel | .nullManager => false

theorem Fault.IsLookup.not_dead {fault : Fault} (h : fault.IsLookup) : fault.dead = false := by
  obtain rfl | rfl | rfl := h <;> rfl

namespace World

variable {w w' w₀ : World} {e : Event} {events : List Event} {id : Nat}

/-- A step follows a pointer to a dead character, user, session or manager. -/
def followsDead (w : World) (e : Event) : Bool :=
  match w.step e with
  | .ok _ => false
  | .error fault => fault.dead

/-- What the order of the steps has to spare the ticks. A session does not end between
the request to insert its character and the insertion. A channel applies current
inserts only, and an escape only where the tick sets or keeps the character's manager.
A manager does not tick between the release of a member and its removal. -/
def Spared (w : World) : Event → Prop
  | .closeSession code => ∀ channel ∈ w.channels, code ∉ channel.req_Insert_list
  | .updateChannel id => w.manager id ≠ none → w.roster.Current id ∧
    ∀ channel ∈ w.channels[id]?, ∀ code ∈ channel.req_func_list, w.roster.Attached id code
  | .tickManager id =>
    ∀ code ∈ w.roster.members id, code ∈ w.roster.erases id → w.live [] code = true
  | _ => True

theorem Spared.insertsCurrent (h : w.Spared e) : w.InsertsCurrent e := by
  cases e with
  | updateChannel id => exact fun hbegun => (h hbegun).1
  | _ => trivial

instance : ∀ w e, Decidable (Spared w e)
  | w, .closeSession code =>
    inferInstanceAs (Decidable (∀ channel ∈ w.channels, code ∉ channel.req_Insert_list))
  | w, .updateChannel id =>
    inferInstanceAs (Decidable (w.manager id ≠ none →
      (∀ c ∈ w.roster.inserts id, w.assigned c = some id) ∧
      ∀ channel ∈ w.channels[id]?, ∀ code ∈ channel.req_func_list,
        code ∈ w.roster.inserts id ∧ ¬ (code ∈ w.roster.members id ∧ code ∉ w.roster.erases id) ∨
          (w.characters code).cm ≠ none ∧ ¬ (code ∈ w.roster.members id ∧ code ∈ w.roster.erases id)))
  | w, .tickManager id =>
    inferInstanceAs (Decidable (∀ code ∈ w.roster.members id, code ∈ w.roster.erases id →
      w.live [] code = true))
  | _, .request .. | _, .disconnect _ => isTrue trivial

/-- The characters that wait to be inserted and are connected have their sessions. -/
def InsertsOpen (w : World) : Prop :=
  ∀ id code, code ∈ w.roster.inserts id → (w.characters code).user = true →
    (w.characters code).session = true

theorem Stepped.insertsOpen (h : w.Stepped e w') (hspared : w.Spared e) (hopen : w.InsertsOpen) :
    w'.InsertsOpen := by
  intro id code hinsert huser
  rcases h.inserts id code hinsert huser with hbefore | hsession
  · have hsession := hopen id code hbefore (h.users code huser)
    by_cases hclose : e = .closeSession code
    · subst hclose
      cases hget : w.channels[id]? with
      | none => simp [World.roster, hget] at hbefore
      | some channel =>
        rw [roster_inserts hget] at hbefore
        exact absurd hbefore (hspared channel (List.mem_of_getElem? hget))
    · rw [h.sessions code hclose, hsession]
  · exact hsession

/-- A tick of a channel that is spared has no fault. -/
theorem TickFault.not_spared {channel : Channel} {fault : Fault} (hvalid : w.Valid) (hopen : w.InsertsOpen)
    (hget : w.channels[id]? = some channel) (hbegun : channel.cm ≠ none)
    (hfault : w.TickFault id channel fault) : ¬ w.Spared (.updateChannel id) := by
  intro hspared
  obtain ⟨hcurrent, hescapes⟩ := hspared (by simpa [manager, hget] using hbegun)
  have huser : ∀ code ∈ channel.req_Insert_list, (w.characters code).user = true := by
    intro code hinsert
    by_contra hgone
    have hassigned : w.assigned code = some id := hcurrent code (by rwa [roster_inserts hget])
    rw [assigned, if_pos (hvalid.departed code (by simpa using hgone))] at hassigned
    cases hassigned
  rcases hfault with ⟨code, hinsert, ⟨_, hgone⟩ | ⟨_, hended⟩⟩ | ⟨code, hfunc, _, hnone⟩
  · simp [huser code hinsert] at hgone
  · have hsession := hopen id code (by rwa [roster_inserts hget]) (huser code hinsert)
    simp [hsession] at hended
  · exact (Roster.owner_tick_ne_none_iff (alive_of_func hfunc)).mpr (hescapes channel hget code hfunc) hnone

/-- A member that is no longer alive has disconnected, so its channel is going to
erase it. -/
theorem mem_erases_of_dead {code : Int} (hvalid : w.Valid) (hconsistent : w.roster.Consistent)
    (hmember : code ∈ w.roster.members id) (hdead : w.live [] code = false) :
    code ∈ w.roster.erases id := by
  have huser : (w.characters code).user = false := by
    by_contra huser
    simp [live, huser] at hdead
  apply hconsistent.left code id hmember
  have hnone : w.roster.assigned code = none := if_pos (hvalid.departed code huser)
  simp [hnone]

theorem StepFault.not_dead {fault : Fault} (hvalid : w.Valid) (hconsistent : w.roster.Consistent)
    (hopen : w.InsertsOpen) (hspared : w.Spared e) (hfault : w.StepFault e fault) :
    fault.dead = false := by
  cases e with
  | request code request => exact Fault.IsLookup.not_dead hfault
  | closeSession code => exact Fault.IsLookup.not_dead hfault
  | disconnect code => exact Fault.IsLookup.not_dead hfault
  | updateChannel id =>
    obtain ⟨channel, hget, hbegun, htick⟩ := hfault
    exact absurd hspared (htick.not_spared hvalid hopen hget hbegun)
  | tickManager id =>
    obtain ⟨_, code, hmember, hdead⟩ := hfault
    have hlive := hspared code hmember (mem_erases_of_dead hvalid hconsistent hmember hdead)
    rw [hdead] at hlive
    cases hlive

/-- In a run whose steps are spared, a further step that is spared follows no pointer to
a dead character, user, session or manager. -/
theorem run_follows_live_references (hstart : w₀.Start)
    (hrun : Run (Guarded Spared (OfOption next)) w₀ events w) (hspared : w.Spared e) :
    w.followsDead e = false := by
  obtain ⟨hvalid, hconsistent, hopen⟩ : w.Valid ∧ w.roster.Consistent ∧ w.InsertsOpen := by
    have hfirst : w₀.InsertsOpen := fun id code hinsert => by simp [(hstart.no_requests id).1] at hinsert
    apply hrun.invariant ⟨hstart.valid, hstart.consistent, hfirst⟩
    intro a e b ⟨hvalid, hconsistent, hopen⟩ ⟨hspared, hnext⟩
    have hstep := stepped_of_next hvalid hnext
    exact ⟨hstep.valid, hstep.consistent hspared.insertsCurrent hconsistent,
      hstep.insertsOpen hspared hopen⟩
  unfold followsDead
  split
  · rfl
  · rename_i fault hfault
    exact ((step_spec hvalid e).error hfault).not_dead hvalid hconsistent hopen hspared

/-- A character that enters a map, asks to escape, moves on and disconnects. Each of its
requests is applied before the next one and before the manager ticks. -/
theorem run_settled_disconnect_is_live :
    ∃ events w, Run (OfOption next) twoMaps events w ∧ w.manager 1 = some ⟨[], true, []⟩ ∧
      (w.characters 7).user = false ∧ w.followsDead (.tickManager 1) = false := by
  have hfold : ([.request 7 (.REQ_ENTER_MAP 1), .updateChannel 0, .updateChannel 0, .tickManager 0,
      .request 7 .REQ_ESCAPE, .updateChannel 0, .tickManager 0, .request 7 (.REQ_ENTER_MAP 2),
      .updateChannel 0, .updateChannel 1, .updateChannel 1, .tickManager 1, .closeSession 7,
      .disconnect 7, .updateChannel 1].foldlM
        (fun w e => if Spared w e then w.next e else none) twoMaps).map
      (fun w => (w.manager 1, (w.characters 7).user, decide (w.Spared (.tickManager 1)))) =
        some (some ⟨[], true, []⟩, false, true) := by
    decide +kernel
  obtain ⟨w, hw, hseen⟩ := Option.map_eq_some_iff.mp hfold
  simp only [Prod.mk.injEq, decide_eq_true_eq] at hseen
  obtain ⟨hcm, huser, hspared⟩ := hseen
  have hrun := run_guarded_ofOption_iff.mpr hw
  exact ⟨_, w, hrun.of_guarded, hcm, huser, run_follows_live_references twoMaps_start hrun hspared⟩

/-- A character that disconnects between the tick of its channel and the tick of its
manager is still a member when the manager locks it. -/
theorem disconnect_before_manager_tick_follows_dead :
    ∃ events w, twoMaps.Start ∧ Run (OfOption next) twoMaps events w ∧
      w.followsDead (.tickManager 0) = true := by
  have hfold : ([.request 7 (.REQ_ENTER_MAP 1), .updateChannel 0, .updateChannel 0,
      .disconnect 7].foldlM next twoMaps).map (followsDead · (.tickManager 0)) = some true := by
    decide +kernel
  obtain ⟨w, hw, hdead⟩ := Option.map_eq_some_iff.mp hfold
  exact ⟨_, w, twoMaps_start, run_ofOption_iff.mpr hw, hdead⟩

end World

end AsioGameServer.world

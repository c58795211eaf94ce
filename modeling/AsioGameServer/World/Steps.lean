import AsioGameServer.World.Update

open Function Transition

namespace AsioGameServer.world

namespace World

variable {w w' : World} {events : List Event}

/-- A world in which a character without a user is in no channel. -/
structure Valid (w : World) : Prop extends WellFormed w where
  departed : ∀ code, (w.characters code).user = false → (w.characters code).channel = 0

/-- What a step does: it moves a character, or it ticks the place of a channel that has
begun. A user that is gone does not come back, a session ends by its own step only,
and an insert is queued for a character whose session is open. -/
structure Stepped (w : World) (e : Event) (w' : World) : Prop where
  valid : w'.Valid
  users : ∀ code, (w'.characters code).user = true → (w.characters code).user = true
  sessions : ∀ code, e ≠ .closeSession code →
    (w'.characters code).session = (w.characters code).session
  inserts : ∀ id code, code ∈ w'.roster.inserts id → (w'.characters code).user = true →
    code ∈ w.roster.inserts id ∨ (w'.characters code).session = true
  roster : (∃ code, w.roster.Moves code w'.roster) ∨
    ∃ id alive, e = .updateChannel id ∧ w.manager id ≠ none ∧
      (∀ code, (w.characters code).user = true → alive code = true) ∧
      w'.roster = w.roster.tick alive id

/-- What makes a step fail. -/
def StepFault (w : World) : Event → Fault → Prop
  | .updateChannel id, fault =>
    ∃ channel, w.channels[id]? = some channel ∧ channel.cm ≠ none ∧ w.TickFault id channel fault
  | .tickManager id, fault =>
    fault = .deadCharacter ∧ ∃ code ∈ w.roster.members id, w.live [] code = false
  | _, fault => fault.IsLookup

/-- Where the managers and back pointers are the only difference, nothing but the
roster has changed. -/
theorem Valid.of_base (hw : w.Valid) (hbase : w'.base = w.base) : w'.Valid := by
  have hcharacter : ∀ code, (w'.base.characters code).user = (w.base.characters code).user ∧
      (w'.base.characters code).channel = (w.base.characters code).channel := by
    intro code
    rw [hbase]
    exact ⟨rfl, rfl⟩
  refine ⟨wellFormed_base.mp (hbase ▸ wellFormed_base.mpr hw.toWellFormed), fun code huser => ?_⟩
  obtain ⟨hsame, hchannel⟩ := hcharacter code
  exact hchannel.trans (hw.departed code (hsame.symm.trans huser))

theorem user_session_of_base (hbase : w'.base = w.base) (code : Int) :
    (w'.characters code).user = (w.characters code).user ∧
      (w'.characters code).session = (w.characters code).session := by
  have hsame : (w'.base.characters code).user = (w.base.characters code).user ∧
      (w'.base.characters code).session = (w.base.characters code).session := by
    rw [hbase]
    exact ⟨rfl, rfl⟩
  exact hsame

/-- The moves of one character, where its session is open or its user is gone. -/
theorem Stepped.of_moves {code : Int} {e : Event} (hvalid : w'.Valid)
    (hothers : ∀ other, other ≠ code → w'.characters other = w.characters other)
    (huser : (w'.characters code).user = true → (w.characters code).user = true ∧
      (w.characters code).session = true)
    (hsession : (w'.characters code).session = (w.characters code).session)
    (hmoves : w.roster.Moves code w'.roster) : w.Stepped e w' := by
  refine ⟨hvalid, fun other hother => ?_, fun other _ => ?_, fun id other hinsert hother => ?_,
    Or.inl ⟨code, hmoves⟩⟩
  · by_cases hsame : other = code
    · subst hsame
      exact (huser hother).1
    · rwa [← hothers other hsame]
  · by_cases hsame : other = code
    · rw [hsame, hsession]
    · rw [hothers other hsame]
  · by_cases hsame : other = code
    · subst hsame
      exact Or.inr (hsession.trans (huser hother).2)
    · exact Or.inl ((hmoves.mem_inserts hsame).mp hinsert)

theorem Moved.stepped {code : Int} {e : Event} (hw : w.Valid) (h : w.Moved code w')
    (huser : (w.characters code).user = true) (hsession : (w.characters code).session = true) :
    w.Stepped e w' := by
  refine .of_moves ⟨h.wellFormed, fun other hgone => ?_⟩ h.others (fun _ => ⟨huser, hsession⟩) h.session
    h.roster
  by_cases hsame : other = code
  · simp [hsame, h.user, huser] at hgone
  · rw [h.others other hsame] at hgone ⊢
    exact hw.departed other hgone

/-- A step that changes a session, or nothing, or only managers. -/
theorem Stepped.of_roster {e : Event} (hvalid : w'.Valid) (hroster : w'.roster = w.roster)
    (husers : ∀ code, (w'.characters code).user = (w.characters code).user)
    (hsessions : ∀ code, e ≠ .closeSession code →
      (w'.characters code).session = (w.characters code).session) : w.Stepped e w' :=
  ⟨hvalid, fun code hcode => (husers code).symm.trans hcode, hsessions,
    fun _ _ hinsert _ => Or.inl (hroster ▸ hinsert), Or.inl ⟨0, hroster ▸ .refl⟩⟩

theorem Stepped.idle {e : Event} (hw : w.Valid) : w.Stepped e w :=
  .of_roster hw rfl (fun _ => rfl) fun _ _ => rfl

theorem updateChannel_spec (hw : w.Valid) (id : Nat) :
    Outcome (w.Stepped (.updateChannel id)) (w.StepFault (.updateChannel id)) (w.updateChannel id) := by
  unfold updateChannel
  split
  · exact .idle hw
  · rename_i channel hget
    split
    · rename_i hnone
      have hbase : (w.onChannel id Channel.BeginPlay).base = w.base := base_onChannel_cm
      exact .of_roster (hw.of_base hbase) (roster_BeginPlay hget hnone) (fun _ => rfl) fun _ _ => rfl
    · rename_i cm hcm
      have hcleared : (w.onChannel id Channel.clear).Valid :=
        ⟨hw.relocate rfl onChannel_length (fun _ _ => rfl) (hw.located 0), hw.departed⟩
      have hbegun : channel.cm ≠ none := by simp [hcm]
      refine (PrevTick_spec hget hcm).imp (fun w' h => ?_) fun fault h => ⟨channel, hget, hbegun, h⟩
      obtain ⟨hroster, hbase⟩ := h
      have hcharacter := user_session_of_base hbase
      refine ⟨hcleared.of_base hbase, fun code hcode => (hcharacter code).1.symm.trans hcode,
        fun code _ => (hcharacter code).2, fun other code hinsert _ => Or.inl ?_, ?_⟩
      · rw [hroster, Roster.inserts_tick] at hinsert
        by_cases hsame : other = id
        · simp [hsame] at hinsert
        · rwa [update_of_ne hsame] at hinsert
      · refine Or.inr ⟨id, w.alive id channel, rfl, ?_, fun code => alive_of_user, hroster⟩
        simp [manager, hget, hcm]

theorem tickManager_spec (hw : w.Valid) (id : Nat) :
    Outcome (w.Stepped (.tickManager id)) (w.StepFault (.tickManager id)) (w.tickManager id) := by
  unfold tickManager
  split
  · exact .idle hw
  · rename_i cm hcm
    have hbase : (w.onManager id fun cm => { cm with req_send_all := [] }).base = w.base := base_onChannel_cm
    have hlive : (w.onManager id fun cm => { cm with req_send_all := [] }).live [] = w.live [] := by
      rw [← live_base, hbase, live_base]
    dsimp only
    rw [hlive]
    split
    · rename_i hdead
      refine ⟨rfl, ?_⟩
      rw [roster_members_of_manager hcm]
      simpa using hdead.2
    · exact .of_roster (hw.of_base hbase) (roster_onManager_same fun _ => rfl) (fun _ => rfl)
        fun _ _ => rfl

/-- Every step is a step of the roster. -/
theorem step_spec (hw : w.Valid) (e : Event) : Outcome (w.Stepped e) (w.StepFault e) (w.step e) := by
  cases e with
  | request code request =>
    by_cases hopen : (w.characters code).session = true ∧ (w.characters code).user = true
    · obtain ⟨hsession, huser⟩ := hopen
      exact (On_Read_spec hw.toWellFormed request huser hsession).imp
        (fun _ h => h.stepped hw huser hsession) fun _ h => h
    · have hnothing : w.step (.request code request) = .ok w := if_neg hopen
      rw [hnothing]
      exact .idle hw
  | closeSession code =>
    have hcharacter : ∀ other,
        ((w.onCharacter code ({ · with session := false })).characters other).user =
          (w.characters other).user ∧
        ((w.onCharacter code ({ · with session := false })).characters other).channel =
          (w.characters other).channel := by
      intro other
      by_cases hsame : other = code
      · subst hsame
        simp
      · simp [onCharacter_of_ne hsame]
    have hassigned : (w.onCharacter code ({ · with session := false })).assigned code =
        w.assigned code := by
      simp [assigned]
    refine .of_roster ⟨?_, fun other hgone => ?_⟩ (roster_onCharacter_same hassigned rfl)
      (fun other => (hcharacter other).1) fun other hother => ?_
    · refine hw.relocate rfl rfl (fun _ => onCharacter_of_ne) fun hlocated => ?_
      rw [hassigned]
      exact hw.located code ((hcharacter code).2 ▸ hlocated)
    · rw [(hcharacter other).2]
      exact hw.departed other ((hcharacter other).1 ▸ hgone)
    · rw [onCharacter_of_ne fun hsame => hother (by rw [hsame])]
  | disconnect code =>
    unfold step
    dsimp only
    split
    · refine (destroyUser_spec hw.toWellFormed code).imp (fun w' h => ?_) fun _ h => h
      obtain ⟨hformed, hmoves, hothers, hzero, hgone, hsession⟩ := h
      have hnotuser : ¬ (w'.characters code).user = true := by simp [hgone]
      refine .of_moves ⟨hformed, fun other hother => ?_⟩ hothers (fun huser => absurd huser hnotuser)
        hsession hmoves
      by_cases hsame : other = code
      · rw [hsame, hzero]
      · rw [hothers other hsame] at hother ⊢
        exact hw.departed other hother
    · exact .idle hw
  | updateChannel id => exact updateChannel_spec hw id
  | tickManager id => exact tickManager_spec hw id

end World

end AsioGameServer.world

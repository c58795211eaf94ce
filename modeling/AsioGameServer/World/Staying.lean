import AsioGameServer.Lib.Roster.Stays
import AsioGameServer.World.BackPointer
import AsioGameServer.World.Shape
import AsioGameServer.World.Warp

open Function Number Transition

namespace AsioGameServer.world

namespace World

variable {w w' : World} {code c : Int} {id : Nat}

/-- The characters that the functions which wait in a channel are about. -/
def funcs (w : World) (id : Nat) : List Int := (w.channels[id]?).elim [] Channel.req_func_list

theorem funcs_onChannel {f : Channel → Channel} (hf : ∀ ch, (f ch).req_func_list = ch.req_func_list) :
    (w.onChannel id f).funcs = w.funcs := by
  cases hget : w.channels[id]? with
  | none => rw [onChannel_of_none hget]
  | some ch =>
    have hsame := elim_onChannel hget f Channel.req_func_list
    have hself : ch.req_func_list = w.funcs id := by simp [funcs, hget]
    rw [hf ch, hself] at hsame
    exact hsame.trans (update_eq_self _ _)

theorem funcs_base : w.base.funcs = w.funcs := by
  funext id
  simp only [funcs, base, List.getElem?_map]
  cases w.channels[id]? <;> rfl

theorem channel_prev_funcs (code channel : Int) :
    Outcome (fun w' => w'.funcs = w.funcs) (fun _ => True) (w.channel_prev code channel) := by
  unfold channel_prev
  split
  · split
    · trivial
    · split
      · exact funcs_onChannel fun _ => rfl
      · exact rfl
  · exact rfl

theorem channel_post_funcs (code key : Int) :
    Outcome (fun w' => w'.funcs = w.funcs) (fun _ => True) (w.channel_post code key) := by
  unfold channel_post
  split
  · split
    · trivial
    · split
      · exact funcs_onChannel fun _ => rfl
      · trivial
  · exact rfl

theorem SetChannel_funcs (w : World) (code number : Int) :
    Outcome (fun w' => w'.funcs = w.funcs) (fun _ => True) (w.SetChannel code number) := by
  rw [SetChannel_eq]
  refine (channel_prev_funcs code _).bind fun w₁ hprev => ?_
  exact (channel_post_funcs code number).imp (fun w' hpost => hpost.trans hprev) fun _ => id

theorem mapKey_post_funcs (w : World) (code mapKey : Int) :
    Outcome (fun w' => w'.funcs = w.funcs) (fun _ => True) (w.mapKey_post code mapKey) := by
  unfold mapKey_post
  split
  · split
    · trivial
    · rename_i mapinfo _
      refine ((findRoom_spec _ w mapinfo.channels).imp (fun _ h => h) fun _ _ => trivial).bind fun room _ => ?_
      cases room with
      | some number => exact SetChannel_funcs w code number
      | none =>
        refine (SetChannel_funcs _ code _).imp (fun w' hset => hset.trans ?_) fun _ => id
        exact elim_openChannel rfl
  · exact rfl

theorem SetMapKey_funcs (w : World) (code mapkey : Int) :
    Outcome (fun w' => w'.funcs = w.funcs) (fun _ => True) (w.SetMapKey code mapkey) := by
  rw [SetMapKey_eq]
  refine (SetChannel_funcs w code 0).bind fun w₁ hleft => ?_
  exact (mapKey_post_funcs _ code mapkey).imp (fun w' hpost => hpost.trans hleft) fun _ => id

/-- A character that enters a map, or none, stays in no channel that it was in. -/
theorem SetMapKey_leaves (hw : w.WellFormed) (hconsistent : w.roster.Consistent) (code mapkey : Int) :
    Outcome (fun w' => ∀ id, ¬ w'.roster.Stays code id) (fun _ => True) (w.SetMapKey code mapkey) := by
  rw [SetMapKey_eq]
  refine ((SetChannel_spec hw code 0).imp (fun _ h => h) fun _ _ => trivial).bind fun w₁ ⟨hmoved, hzero⟩ => ?_
  have hleft : ∀ id, ¬ w₁.roster.Stays code id := by
    intro id hstays
    have hassigned := (hconsistent.moves hmoved.roster).assigned_of_stays hstays
    have hnone : w₁.roster.assigned code = none := if_pos hzero
    rw [hnone] at hassigned
    cases hassigned
  have hkept : ∀ w' : World, (w₁.onCharacter code ({ · with mapKey := mapkey })).Asked code (fun _ => True) w' →
      ∀ id, ¬ w'.roster.Stays code id := fun w' hasked id ⟨hmember, herase⟩ => by
    rw [hasked.members] at hmember
    exact hleft id ⟨hmember, fun hbefore => herase (hasked.erases id code hbefore)⟩
  unfold mapKey_post
  split
  · split
    · trivial
    · rename_i mapinfo hmap
      refine (InsertIntoMap_requested hmap (by simp)).imp (fun w' h => ?_) fun _ => id
      exact hkept w' (h.2.mono fun _ _ => trivial)
  · exact hkept _ (.refl _)

/-- A function is queued for a connected character in the channel that its pointer leads to. -/
theorem On_Read_funcs (w : World) (code : Int) (request : Request) :
    Outcome (fun w' => ∀ id c, c ∈ w'.funcs id → c ∈ w.funcs id ∨ w.connected c ∧ w.roster.owner c = some id)
      (fun _ => True) (w.On_Read code request) := by
  have hsame : ∀ w' : World, w'.funcs = w.funcs →
      ∀ id c, c ∈ w'.funcs id → c ∈ w.funcs id ∨ w.connected c ∧ w.roster.owner c = some id :=
    fun w' hfuncs id c hc => .inl (hfuncs ▸ hc)
  unfold On_Read
  split
  · rename_i hopen
    cases request with
    | REQ_ENTER_MAP mapcode => exact (SetMapKey_funcs w code mapcode).imp hsame fun _ => id
    | REQ_ENTER_CHANNEL channel => exact (SetChannel_funcs w code channel).imp hsame fun _ => id
    | REQ_PORTAL gateNumber currentMapCode =>
      dsimp only
      split
      · exact hsame w rfl
      · split
        · exact (SetMapKey_funcs w code _).imp hsame fun _ => id
        · exact hsame w rfl
    | REQ_ESCAPE =>
      dsimp only
      split
      · exact hsame w rfl
      · rename_i channel hcm
        intro id c hc
        cases hget : w.channels[channel]? with
        | none =>
          rw [onChannel_of_none hget] at hc
          exact .inl hc
        | some ch =>
          have hfuncs : (w.onChannel channel (·.Async_Func code)).funcs =
              update w.funcs channel (ch.req_func_list ++ [code]) :=
            elim_onChannel hget (·.Async_Func code) Channel.req_func_list
          rw [hfuncs] at hc
          by_cases hid : id = channel
          · subst hid
            rw [update_self, List.mem_append, List.mem_singleton] at hc
            obtain hc | rfl := hc
            · exact .inl (by simpa [funcs, hget] using hc)
            · exact .inr ⟨hopen.2, hcm⟩
          · rw [update_of_ne hid] at hc
            exact .inl hc
  · exact hsame w rfl

/-- A character that is inserted has a user and a session. -/
theorem open_of_InsertCharacter (hinsert : w.InsertCharacter id code = .ok w') (hnew : code ∉ w.roster.members id) :
    (w.characters code).user = true ∧ (w.characters code).session = true := by
  unfold InsertCharacter at hinsert
  split at hinsert
  · cases hinsert
  · rename_i cm hcm
    rw [roster_members_of_manager hcm] at hnew
    rw [if_neg hnew] at hinsert
    dsimp only at hinsert
    split at hinsert
    · cases hinsert
    · rename_i huser
      split at hinsert
      · cases hinsert
      · rename_i hsession
        simp only [onManager, onChannel_characters, onCharacter_self, Bool.not_eq_false] at huser hsession
        exact ⟨huser, hsession⟩

end World

namespace Scene

variable {F : Type} [Number F] {s s' : Scene F} {code : Int}

/-- What the IO threads do: they move a character, and nothing is done to the motion of one that
stays in its channel. -/
structure Between (s s' : Scene F) : Prop where
  valid : s'.now.Valid
  moves : ∃ code, s.now.roster.Moves code s'.now.roster
  users : ∀ code, (s'.now.characters code).user = true → (s.now.characters code).user = true
  sessions : ∀ code, (s'.now.characters code).session = true → (s.now.characters code).session = true
  funcs : ∀ id code, code ∈ s'.now.funcs id →
    code ∈ s.now.funcs id ∨ s.now.connected code ∧ s.now.roster.owner code = some id
  motions : ∀ code id, s'.now.roster.Stays code id → s'.motions code = s.motions code

omit [Number F] in
theorem now_MOVING {position forward : Vector3 F} {speed : F} {moving : Bool}
    (hmoving : s.MOVING code position forward speed moving = .ok s') : s'.now = s.now := by
  unfold MOVING at hmoving
  split at hmoving
  · split at hmoving
    · cases hmoving
    · split at hmoving
      · cases hmoving
        rfl
      · split at hmoving
        · cases hmoving
          rfl
        · cases hmoving
          rfl
  · cases hmoving
    rfl

omit [Number F] in
/-- A step of the world that moves a character, with the motions of those that stay. -/
theorem Between.of_stepped {e : World.Event} (hstepped : s.now.Stepped e s'.now) (he : ∀ id, e ≠ .updateChannel id)
    (hclose : ∀ code, e = .closeSession code → (s'.now.characters code).session = false)
    (hfuncs : ∀ id code, code ∈ s'.now.funcs id →
      code ∈ s.now.funcs id ∨ s.now.connected code ∧ s.now.roster.owner code = some id)
    (hmotions : ∀ code id, s'.now.roster.Stays code id → s'.motions code = s.motions code) : s.Between s' := by
  refine ⟨hstepped.valid, ?_, hstepped.users, fun code hsession => ?_, hfuncs, hmotions⟩
  · obtain hmoves | ⟨id, _, heq, _⟩ := hstepped.roster
    · exact hmoves
    · exact absurd heq (he id)
  · by_cases hself : e = .closeSession code
    · rw [hclose code hself] at hsession
      cases hsession
    · rwa [← hstepped.sessions code hself]

omit [Number F] in
theorem now_warp (code : Int) (s : Scene F) (request : World.Request) : (s.warp code request).now = s.now := by
  cases request with
  | REQ_PORTAL gateNumber currentMapCode =>
    unfold warp
    dsimp only
    split
    · rfl
    · split <;> rfl
  | _ => rfl

omit [Number F] in
/-- A character that is warped leaves its channel. -/
theorem motions_On_Read {request : World.Request} (hvalid : s.now.Valid) (hconsistent : s.now.roster.Consistent)
    (hread : s.On_Read code request = .ok s') (c : Int) (id : Nat) (hstays : s'.now.roster.Stays c id) :
    s'.motions c = s.motions c := by
  obtain ⟨now, hnow, hdone⟩ := Outcome.bind_eq_ok_iff.mp hread
  cases hdone
  dsimp only at hnow hstays ⊢
  split at hnow
  · rename_i hopen
    rw [if_pos hopen]
    rw [now_warp] at hnow
    by_cases hc : c = code
    · subst hc
      cases request with
      | REQ_PORTAL gateNumber currentMapCode =>
        unfold warp
        dsimp only
        cases hportal : (s.now.maps (s.now.characters c).mapKey).bind (·.GetPortal gateNumber) with
        | none => rfl
        | some destCode =>
          dsimp only
          by_cases hother : destCode ≠ currentMapCode
          · have hmap : s.now.SetMapKey c destCode = .ok now := by
              simpa [World.On_Read, hopen, hportal, hother] using hnow
            exact absurd hstays ((World.SetMapKey_leaves hvalid.toWellFormed hconsistent c destCode).ok hmap id)
          · rw [if_neg hother]
      | _ => rfl
    · exact motions_warp fun _ _ _ heq => hc heq.symm
  · rename_i hclosed
    rw [if_neg hclosed]

theorem between_request {request : World.Request} (hvalid : s.now.Valid) (hconsistent : s.now.roster.Consistent)
    (hread : s.step (.request code request) = .ok s') : s.Between s' := by
  have hmotions := motions_On_Read hvalid hconsistent hread
  obtain ⟨now, hnow, hdone⟩ := Outcome.bind_eq_ok_iff.mp hread
  cases hdone
  have hread : s.now.On_Read code request = .ok now := by
    split at hnow
    · rwa [now_warp] at hnow
    · exact hnow
  refine .of_stepped ((World.step_spec hvalid (.request code request)).ok hread) nofun nofun ?_ hmotions
  exact (World.On_Read_funcs s.now code request).ok hread

theorem between_MOVING {position forward : Vector3 F} {speed : F} {moving : Bool} (hvalid : s.now.Valid)
    (hmoving : s.step (.MOVING code position forward speed moving) = .ok s') : s.Between s' := by
  have hnow : s'.now = s.now := now_MOVING hmoving
  have hmotions : s'.motions = s.motions := motions_MOVING hmoving
  have hstepped : s.now.Stepped (.request code .REQ_ESCAPE) s'.now := by
    rw [hnow]
    exact .idle hvalid
  refine .of_stepped hstepped nofun nofun (fun id c hc => ?_) fun _ _ _ => by rw [hmotions]
  rw [hnow] at hc
  exact .inl hc

theorem between_closeSession (hvalid : s.now.Valid) (hclose : s.step (.closeSession code) = .ok s') :
    s.Between s' := by
  cases hclose
  refine .of_stepped ((World.step_spec hvalid (.closeSession code)).ok rfl) nofun ?_ (fun _ _ hc => .inl hc)
    fun _ _ _ => rfl
  rintro _ ⟨⟩
  simp

theorem between_disconnect (hvalid : s.now.Valid) (hdisconnect : s.step (.disconnect code) = .ok s') :
    s.Between s' := by
  simp only [step] at hdisconnect
  split at hdisconnect
  · rename_i huser
    obtain ⟨now, hnow, hdone⟩ := Outcome.bind_eq_ok_iff.mp hdisconnect
    cases hdone
    have hstep : s.now.step (.disconnect code) = .ok now := (if_pos huser).trans hnow
    refine .of_stepped ((World.step_spec hvalid (.disconnect code)).ok hstep) (by rintro _ ⟨⟩) (by rintro _ ⟨⟩) ?_
      fun _ _ _ => rfl
    obtain ⟨w₁, h₁, hnow⟩ := Outcome.bind_eq_ok_iff.mp hnow
    obtain ⟨w₂, h₂, hnow⟩ := Outcome.bind_eq_ok_iff.mp hnow
    cases hnow
    have hfuncs : w₂.funcs = s.now.funcs :=
      ((World.SetChannel_funcs w₁ code 0).ok h₂).trans ((World.SetMapKey_funcs s.now code 0).ok h₁)
    intro id c hc
    exact .inl (hfuncs ▸ hc)
  · cases hdisconnect
    have hstepped : s.now.Stepped (.disconnect code) s.now := .idle hvalid
    exact .of_stepped hstepped (by rintro _ ⟨⟩) (by rintro _ ⟨⟩) (fun _ _ hc => .inl hc) fun _ _ _ => rfl

end Scene

end AsioGameServer.world

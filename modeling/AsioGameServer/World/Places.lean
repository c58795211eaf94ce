import AsioGameServer.World.Scene
import AsioGameServer.World.Moves

open Function Number Transition

namespace AsioGameServer.world

namespace World

variable {w w' : World} {code number mapkey : Int}

/-- The previous event of `channel` looks at the character only. -/
theorem channel_prev_ok {channel : Int} (hprev : w.channel_prev code channel = .ok w') :
    w'.maps = w.maps ∧ w'.characters = w.characters := by
  unfold channel_prev at hprev
  split at hprev
  · split at hprev
    · cases hprev
    · split at hprev
      · cases hprev
        exact ⟨rfl, rfl⟩
      · cases hprev
        exact ⟨rfl, rfl⟩
  · cases hprev
    exact ⟨rfl, rfl⟩

/-- `SetChannel` that returned, up to its post event. -/
theorem SetChannel_ok (hset : w.SetChannel code number = .ok w') :
    ∃ w₁ : World, w₁.maps = w.maps ∧ w₁.characters code = { w.characters code with channel := number } ∧
      w₁.channel_post code number = .ok w' := by
  rw [SetChannel_eq] at hset
  obtain ⟨w₀, hprev, hpost⟩ := Outcome.bind_eq_ok_iff.mp hset
  obtain ⟨hmaps, hcharacters⟩ := channel_prev_ok hprev
  exact ⟨w₀.onCharacter code ({ · with channel := number }), hmaps, by simp [hcharacters], hpost⟩

/-- A number that no channel of the map has can be set if it is 0 only. -/
theorem SetChannel_absent (habsent : (w.maps (w.characters code).mapKey).bind (·.GetChannel number) = none)
    (hset : w.SetChannel code number = .ok w') :
    number = 0 ∧ w'.characters code = { w.characters code with channel := 0 } := by
  obtain ⟨w₁, hmaps, hcharacter, hpost⟩ := SetChannel_ok hset
  unfold channel_post at hpost
  rw [hcharacter, hmaps] at hpost
  split at hpost
  · split at hpost
    · cases hpost
    · rename_i mapinfo hmap
      dsimp only at hmap
      rw [hmap, Option.bind_some] at habsent
      rw [habsent] at hpost
      cases hpost
  · rename_i hzero
    obtain rfl := not_not.mp hzero
    cases hpost
    exact ⟨rfl, hcharacter⟩

theorem SetChannel_zero_of_zero (hzero : (w.characters code).channel = 0) : w.SetChannel code 0 = .ok w := by
  have hsame : w.onCharacter code ({ · with channel := 0 }) = w := by
    have hcharacter : { w.characters code with channel := 0 } = w.characters code := by rw [← hzero]
    simp [onCharacter, hcharacter]
  simp [SetChannel_eq, channel_prev, channel_post, hzero, hsame, bind, Except.bind]

/-- A map that is not there can be set if its code is 0 only. -/
theorem SetMapKey_absent (habsent : w.maps mapkey = none) (hset : w.SetMapKey code mapkey = .ok w') :
    mapkey = 0 ∧ w'.characters code = { w.characters code with mapKey := 0, channel := 0 } := by
  rw [SetMapKey_eq] at hset
  obtain ⟨w₂, hleave, hpost⟩ := Outcome.bind_eq_ok_iff.mp hset
  obtain ⟨w₁, hmaps, hcharacter, hzero⟩ := SetChannel_ok hleave
  obtain rfl : w₁ = w₂ := Except.ok.inj hzero
  have habsent₁ : (w₁.onCharacter code ({ · with mapKey := mapkey })).maps mapkey = none := by
    rw [← habsent, ← hmaps]
    rfl
  unfold mapKey_post at hpost
  rw [habsent₁] at hpost
  split at hpost
  · cases hpost
  · rename_i hzero
    obtain rfl := not_not.mp hzero
    cases hpost
    exact ⟨rfl, by simp [hcharacter]⟩

theorem SetMapKey_zero_of_zero (hmapKey : (w.characters code).mapKey = 0) (hzero : (w.characters code).channel = 0) :
    w.SetMapKey code 0 = .ok w := by
  have hsame : w.onCharacter code ({ · with mapKey := 0 }) = w := by
    have hcharacter : { w.characters code with mapKey := 0 } = w.characters code := by rw [← hmapKey]
    simp [onCharacter, hcharacter]
  simp [SetMapKey_eq, SetChannel_zero_of_zero hzero, mapKey_post, hsame, bind, Except.bind]

end World

namespace Scene

variable {F : Type} [Number F] {s s' : Scene F} {code : Int}

/-- The place that a request asks for is not there: a map, a channel of the map that the
character is in, or the map that a portal leads to. -/
def Absent (s : Scene F) (code : Int) : World.Request → Prop
  | .REQ_ENTER_MAP mapcode => s.now.maps mapcode = none
  | .REQ_ENTER_CHANNEL channel =>
    (s.now.maps (s.now.characters code).mapKey).bind (·.GetChannel channel) = none
  | .REQ_PORTAL gateNumber _ => ∃ destCode,
    (s.now.maps (s.now.characters code).mapKey).bind (·.GetPortal gateNumber) = some destCode ∧
      s.now.maps destCode = none
  | .REQ_ESCAPE => False

/-- The location of a character, every member and request of the channels, and the position
are as they were. -/
structure Unchanged (code : Int) (s s' : Scene F) : Prop where
  location : s'.now.characters code = s.now.characters code
  channels : s'.now.channels = s.now.channels
  position : (s'.motions code).position = (s.motions code).position

/-- A request for a place that is not there changes nothing: it leaves where the character is
not, or it goes through a portal to the map that the client says to be in. -/
def Harmless (s : Scene F) (code : Int) : World.Request → Prop
  | .REQ_ENTER_MAP mapcode =>
    mapcode = 0 ∧ (s.now.characters code).mapKey = 0 ∧ (s.now.characters code).channel = 0
  | .REQ_ENTER_CHANNEL channel => channel = 0 ∧ (s.now.characters code).channel = 0
  | .REQ_PORTAL gateNumber currentMapCode =>
    (s.now.maps (s.now.characters code).mapKey).bind (·.GetPortal gateNumber) = some currentMapCode
  | .REQ_ESCAPE => True

omit [Number F] in
/-- A request that is read goes to the world after the warp. -/
theorem On_Read_ok_iff (hsession : (s.now.characters code).session = true)
    (huser : (s.now.characters code).user = true) (request : World.Request) :
    s.On_Read code request = .ok s' ↔
      ∃ now, s.now.On_Read code request = .ok now ∧ s' = { s.warp code request with now } := by
  have hnow : (s.warp code request).now = s.now := by
    cases request with
    | REQ_PORTAL gateNumber currentMapCode =>
      unfold warp
      dsimp only
      split
      · rfl
      · split <;> rfl
    | _ => rfl
  unfold On_Read
  rw [if_pos ⟨hsession, huser⟩]
  simp only [hnow]
  cases s.now.On_Read code request with
  | error fault => simp [bind, Except.bind]
  | ok now => simp [bind, Except.bind, pure, Except.pure, eq_comm]

omit [Number F] in
/-- A request of a character in the game for a place that does not exist follows no null
pointer and leaves everything as it was if and only if it is one of those that do nothing. -/
theorem absent_place_unchanged_iff (hsession : (s.now.characters code).session = true)
    (huser : (s.now.characters code).user = true) {request : World.Request} (habsent : s.Absent code request) :
    (∃ s', s.On_Read code request = .ok s' ∧ Unchanged code s s') ↔ s.Harmless code request := by
  simp only [On_Read_ok_iff hsession huser]
  cases request with
  | REQ_ENTER_MAP mapcode =>
    have hread : s.now.On_Read code (.REQ_ENTER_MAP mapcode) = s.now.SetMapKey code mapcode :=
      if_pos ⟨hsession, huser⟩
    rw [hread]
    constructor
    · rintro ⟨_, ⟨now, hset, rfl⟩, hunchanged⟩
      obtain ⟨hzero, hcharacter⟩ := World.SetMapKey_absent habsent hset
      have hsame : { s.now.characters code with mapKey := 0, channel := 0 } = s.now.characters code :=
        hcharacter.symm.trans hunchanged.location
      exact ⟨hzero, by rw [← hsame], by rw [← hsame]⟩
    · rintro ⟨rfl, hmapKey, hchannel⟩
      exact ⟨s, ⟨s.now, World.SetMapKey_zero_of_zero hmapKey hchannel, rfl⟩, rfl, rfl, rfl⟩
  | REQ_ENTER_CHANNEL channel =>
    have hread : s.now.On_Read code (.REQ_ENTER_CHANNEL channel) = s.now.SetChannel code channel :=
      if_pos ⟨hsession, huser⟩
    rw [hread]
    constructor
    · rintro ⟨_, ⟨now, hset, rfl⟩, hunchanged⟩
      obtain ⟨hzero, hcharacter⟩ := World.SetChannel_absent habsent hset
      have hsame : { s.now.characters code with channel := 0 } = s.now.characters code :=
        hcharacter.symm.trans hunchanged.location
      exact ⟨hzero, by rw [← hsame]⟩
    · rintro ⟨rfl, hchannel⟩
      exact ⟨s, ⟨s.now, World.SetChannel_zero_of_zero hchannel, rfl⟩, rfl, rfl, rfl⟩
  | REQ_PORTAL gateNumber currentMapCode =>
    obtain ⟨destCode, hportal, hdest⟩ := habsent
    have hread : s.now.On_Read code (.REQ_PORTAL gateNumber currentMapCode) =
        if destCode ≠ currentMapCode then s.now.SetMapKey code destCode else .ok s.now := by
      rw [World.On_Read, if_pos ⟨hsession, huser⟩]
      simp only [hportal]
    have hharmless : s.Harmless code (.REQ_PORTAL gateNumber currentMapCode) ↔ destCode = currentMapCode := by
      simp [Harmless, hportal]
    rw [hread, hharmless]
    constructor
    · rintro ⟨_, ⟨now, hset, rfl⟩, hunchanged⟩
      by_contra hne
      rw [if_pos hne] at hset
      obtain ⟨rfl, hcharacter⟩ := World.SetMapKey_absent hdest hset
      -- the portal is in the map that the character leaves, so that map is not the absent one
      have hsame : { s.now.characters code with mapKey := 0, channel := 0 } = s.now.characters code :=
        hcharacter.symm.trans hunchanged.location
      have hkey : (s.now.characters code).mapKey = 0 := by rw [← hsame]
      rw [hkey, hdest] at hportal
      cases hportal
    · rintro rfl
      refine ⟨s, ⟨s.now, if_neg (not_not.mpr rfl), ?_⟩, rfl, rfl, rfl⟩
      simp [warp, hportal]
  | REQ_ESCAPE => exact habsent.elim

section Example

/-- One map, with a portal to a map that does not exist, and characters who stand still. -/
def onlyMap : Scene Int where
  now := ⟨fun mapKey => if mapKey = 1 then some ⟨1, 10, [], [(3, 99)]⟩ else none, [], fun _ => ⟨0, 0, none, true, true⟩⟩
  motions _ := ⟨.zero, .zero, .zero, .zero, false, false, 0, 5⟩
  functions _ := []
  sent := 0
  portalPosition _ _ := ⟨100, 200, 300⟩
  escapeCoordinates _ := .zero

/-- The portal is not taken by a client that says it is where the portal leads to. -/
theorem absent_place_unchanged_portal :
    ∃ s, onlyMap.On_Read 7 (.REQ_ENTER_MAP 1) = .ok s ∧ s.Absent 7 (.REQ_PORTAL 3 99) ∧
      ∃ s', s.On_Read 7 (.REQ_PORTAL 3 99) = .ok s' ∧ Unchanged 7 s s' := by
  have habsent : ∃ s, onlyMap.On_Read 7 (.REQ_ENTER_MAP 1) = .ok s ∧ s.Absent 7 (.REQ_PORTAL 3 99) ∧
      s.Harmless 7 (.REQ_PORTAL 3 99) ∧ (s.now.characters 7).session = true ∧ (s.now.characters 7).user = true :=
    ⟨_, rfl, ⟨99, rfl, rfl⟩, rfl, rfl, rfl⟩
  obtain ⟨s, henter, habsent, hharmless, hsession, huser⟩ := habsent
  exact ⟨s, henter, habsent, (absent_place_unchanged_iff hsession huser habsent).mpr hharmless⟩

/-- Each kind of request for a place that is not there follows a null pointer, after the
character was asked to leave its channel. -/
theorem absent_place_faults :
    ∃ s, onlyMap.On_Read 7 (.REQ_ENTER_MAP 1) = .ok s ∧
      (s.Absent 7 (.REQ_ENTER_MAP 99) ∧ s.On_Read 7 (.REQ_ENTER_MAP 99) = .error .nullMapInfo) ∧
      (s.Absent 7 (.REQ_ENTER_CHANNEL 5) ∧ s.On_Read 7 (.REQ_ENTER_CHANNEL 5) = .error .nullChannel) ∧
      s.Absent 7 (.REQ_PORTAL 3 1) ∧ s.On_Read 7 (.REQ_PORTAL 3 1) = .error .nullMapInfo :=
  ⟨_, rfl, ⟨rfl, rfl⟩, ⟨rfl, rfl⟩, ⟨99, rfl, rfl⟩, rfl⟩

end Example

end Scene

end AsioGameServer.world

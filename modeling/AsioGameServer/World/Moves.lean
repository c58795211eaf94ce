import AsioGameServer.Lib.Outcome
import AsioGameServer.World.Roster

open Function

namespace AsioGameServer.world

/-- The faults of a request that names a map or channel which is not there, or one
that has not begun. -/
def Fault.IsLookup (fault : Fault) : Prop :=
  fault = .nullMapInfo ∨ fault = .nullChannel ∨ fault = .nullManager

namespace World

variable {w w' w'' : World} {code number : Int}

/-- What the relocation of a character changes: its own location and the requests
to the channels it leaves and enters. -/
structure Moved (code : Int) (w w' : World) : Prop where
  wellFormed : w'.WellFormed
  roster : w.roster.Moves code w'.roster
  others : ∀ other, other ≠ code → w'.characters other = w.characters other
  user : (w'.characters code).user = (w.characters code).user
  session : (w'.characters code).session = (w.characters code).session

theorem Moved.refl (hw : w.WellFormed) : w.Moved code w := ⟨hw, .refl, fun _ _ => rfl, rfl, rfl⟩

theorem Moved.trans (h : w.Moved code w') (h' : w'.Moved code w'') : w.Moved code w'' :=
  ⟨h'.wellFormed, h.roster.trans h'.roster,
    fun other hother => (h'.others other hother).trans (h.others other hother),
    h'.user.trans h.user, h'.session.trans h.session⟩

theorem SetChannel_eq : w.SetChannel code number =
    (w.channel_prev code (w.characters code).channel >>= fun w =>
      (w.onCharacter code ({ · with channel := number })).channel_post code number) := by
  simp [SetChannel, React.Set, onCharacter]

/-- `SetMapKey` up to its post event: the character has left its channel. -/
theorem SetMapKey_eq (w : World) (code mapkey : Int) :
    w.SetMapKey code mapkey = (w.SetChannel code 0 >>= fun w =>
      (w.onCharacter code ({ · with mapKey := mapkey })).mapKey_post code mapkey) := by
  simp [SetMapKey, React.Set, onCharacter]

/-- A location that names a channel names one that exists. -/
theorem WellFormed.getElem? (hw : w.WellFormed) {mapKey : Int} {mapinfo : MapInfo} {id : Nat}
    (hmap : w.maps mapKey = some mapinfo) (hchannel : mapinfo.GetChannel number = some id) :
    ∃ ch, w.channels[id]? = some ch :=
  ⟨_, List.getElem?_eq_getElem (hw.entries mapKey mapinfo number id hmap hchannel)⟩

/-- The previous event asks the channel that is left to drop the character, which
is still assigned to it at that point. -/
theorem channel_prev_spec (hw : w.WellFormed) (code : Int) :
    ∃ w', w.channel_prev code (w.characters code).channel = .ok w' ∧ w'.maps = w.maps ∧
      w'.characters = w.characters ∧ w'.channels.length = w.channels.length ∧
      w'.roster = { w.roster.leave code with assigned := w.roster.assigned } := by
  by_cases hzero : (w.characters code).channel = 0
  · have hnone : w.roster.assigned code = none := if_pos hzero
    refine ⟨w, by simp [channel_prev, hzero], rfl, rfl, rfl, ?_⟩
    simp [Roster.leave, hnone]
  · obtain ⟨id, hid⟩ := hw.located code hzero
    have hbind := hid
    rw [assigned, if_neg hzero, Option.bind_eq_some_iff] at hbind
    obtain ⟨mapinfo, hmap, hchannel⟩ := hbind
    obtain ⟨ch, hget⟩ := hw.getElem? hmap hchannel
    refine ⟨w.onChannel id (·.Async_EraseCharacter code), ?_, rfl, rfl, onChannel_length, ?_⟩
    · simp [channel_prev, hzero, hmap, hchannel]
    · have hassigned : w.roster.assigned code = some id := hid
      rw [roster_Async_EraseCharacter hget, Roster.leave, hassigned]

/-- A character that takes a location whose channel exists, or none, leaves the
world well formed. -/
theorem WellFormed.relocate (hw : w.WellFormed) (hmaps : w'.maps = w.maps)
    (hlength : w'.channels.length = w.channels.length)
    (hothers : ∀ other, other ≠ code → w'.characters other = w.characters other)
    (hlocated : (w'.characters code).channel ≠ 0 → ∃ id, w'.assigned code = some id) :
    w'.WellFormed := by
  constructor
  · intro mapKey mapinfo number id hmap hchannel
    rw [hmaps] at hmap
    rw [hlength]
    exact hw.entries mapKey mapinfo number id hmap hchannel
  · intro other hother
    by_cases hsame : other = code
    · subst hsame
      exact hlocated hother
    · rw [hothers other hsame] at hother
      obtain ⟨id, hid⟩ := hw.located other hother
      exact ⟨id, by simpa [assigned, hothers other hsame, hmaps] using hid⟩

/-- `SetChannel` up to its post event: the character has left, and its location names
the new channel, which has not been asked to insert it yet. -/
theorem SetChannel_eq_post (hw : w.WellFormed) (code number : Int) :
    ∃ w' : World, w.SetChannel code number = w'.channel_post code number ∧ w'.maps = w.maps ∧
      w'.channels.length = w.channels.length ∧
      w'.characters = (w.onCharacter code ({ · with channel := number })).characters ∧
      w'.roster = { w.roster.leave code with
        assigned := update (w.roster.leave code).assigned code (w'.assigned code) } := by
  obtain ⟨w₁, hprev, hmaps, hcharacters, hlength, hroster⟩ := channel_prev_spec hw code
  refine ⟨w₁.onCharacter code ({ · with channel := number }), ?_, hmaps, hlength, ?_, ?_⟩
  · rw [SetChannel_eq, hprev]
    rfl
  · simp only [onCharacter, hcharacters]
  · rw [roster_assign_channel, hroster, Roster.assigned_leave, update_idem]

/-- Setting a character's channel to 0 leaves the place it was in, and setting another
value enters the channel that it names as well. -/
theorem SetChannel_spec (hw : w.WellFormed) (code number : Int) :
    Outcome (fun w' => w.Moved code w' ∧ (w'.characters code).channel = number) Fault.IsLookup
      (w.SetChannel code number) := by
  obtain ⟨w₁, heq, hmaps, hlength, hcharacters, hroster⟩ := SetChannel_eq_post hw code number
  have hothers : ∀ other, other ≠ code → w₁.characters other = w.characters other := by
    intro other hother
    rw [hcharacters, onCharacter_of_ne hother]
  have huser : (w₁.characters code).user = (w.characters code).user := by
    rw [hcharacters, onCharacter_self]
  have hsession : (w₁.characters code).session = (w.characters code).session := by
    rw [hcharacters, onCharacter_self]
  have hchannel : (w₁.characters code).channel = number := by
    rw [hcharacters, onCharacter_self]
  rw [heq]
  unfold channel_post
  split
  · rename_i hnumber
    split
    · exact Or.inl rfl
    · rename_i mapinfo hmap
      split
      · rename_i id hget
        have hassigned : w₁.assigned code = some id := by
          simp [assigned, hchannel, hnumber, hmap, hget]
        have hw₁ : w₁.WellFormed := hw.relocate hmaps hlength hothers fun _ => ⟨id, hassigned⟩
        obtain ⟨ch, hch⟩ := hw₁.getElem? hmap hget
        refine ⟨⟨?_, ?_, hothers, huser, hsession⟩, hchannel⟩
        · exact hw₁.relocate rfl onChannel_length (fun _ _ => rfl) fun _ => ⟨id, hassigned⟩
        · rw [roster_Async_InsertCharacter hch, hroster, hassigned]
          refine .enter id (.leave .refl) ?_
          rw [Roster.assigned_leave, update_self]
      · exact Or.inr (Or.inl rfl)
  · rename_i hnumber
    have hzero : (w₁.characters code).channel = 0 := by rw [hchannel, not_not.mp hnumber]
    refine ⟨⟨?_, ?_, hothers, huser, hsession⟩, hchannel⟩
    · exact hw.relocate hmaps hlength hothers fun hne => absurd hzero hne
    · have hassigned : w₁.assigned code = none := if_pos hzero
      have hsame : update (w.roster.leave code).assigned code none = (w.roster.leave code).assigned := by
        rw [Roster.assigned_leave, update_idem]
      rw [hroster, hassigned, hsame]
      exact .leave .refl

/-- A list kept in each channel, where a new channel has an empty one. -/
theorem elim_openChannel {mapKey : Int} {mapinfo : MapInfo} {field : Channel → List Int}
    (hempty : field (Channel.new mapinfo.mapCode number) = []) :
    (fun id : Nat => ((w.openChannel mapKey mapinfo number).channels[id]?).elim [] field) =
      fun id => (w.channels[id]?).elim [] field := by
  funext id
  simp only [openChannel]
  rcases Nat.lt_trichotomy id w.channels.length with hlt | rfl | hgt
  · rw [List.getElem?_append_left hlt]
  · rw [List.getElem?_concat_length, List.getElem?_eq_none (Nat.le_refl _)]
    exact hempty
  · rw [List.getElem?_eq_none, List.getElem?_eq_none (Nat.le_of_lt hgt)]
    rw [List.length_append]
    exact hgt

section OpenChannel

variable {mapKey : Int} {mapinfo : MapInfo} (hw : w.WellFormed) (hmap : w.maps mapKey = some mapinfo)
include hw hmap

/-- A new channel has a number of its own, so no location changes its meaning. -/
theorem assigned_openChannel :
    (w.openChannel mapKey mapinfo mapinfo.unusedNumber).assigned = w.assigned := by
  funext other
  by_cases hzero : (w.characters other).channel = 0
  · simp [assigned, openChannel, hzero]
  · obtain ⟨id, hid⟩ := hw.located other hzero
    rw [hid]
    rw [assigned, if_neg hzero, Option.bind_eq_some_iff] at hid
    obtain ⟨found, hfound, hchannel⟩ := hid
    rw [assigned, openChannel, if_neg hzero]
    by_cases hkey : (w.characters other).mapKey = mapKey
    · obtain rfl : mapinfo = found := Option.some.inj (by rw [← hmap, ← hkey, hfound])
      have hother : (w.characters other).channel ≠ mapinfo.unusedNumber := by
        intro hsame
        rw [hsame, MapInfo.GetChannel, List.lookup_eq_some_iff] at hchannel
        obtain ⟨before, after, hsplit, _⟩ := hchannel
        exact mapinfo.unusedNumber_not_mem (by simp [hsplit])
      simp only [hkey, update_self, Option.bind_some, MapInfo.GetChannel]
      rw [MapInfo.lookup_insertChannel _ _ mapinfo.unusedNumber_not_mem, if_neg hother]
      exact hchannel
    · simp [update_of_ne hkey, hfound, hchannel]

theorem WellFormed.openChannel : (w.openChannel mapKey mapinfo mapinfo.unusedNumber).WellFormed := by
  constructor
  · intro key found number id hfound hchannel
    have hlength : (w.openChannel mapKey mapinfo mapinfo.unusedNumber).channels.length =
        w.channels.length + 1 := List.length_append
    rw [hlength]
    simp only [World.openChannel] at hfound
    by_cases hkey : key = mapKey
    · rw [hkey, update_self, Option.some.injEq] at hfound
      rw [← hfound, MapInfo.GetChannel, MapInfo.lookup_insertChannel _ _ mapinfo.unusedNumber_not_mem]
        at hchannel
      split at hchannel
      · simp only [Option.some.injEq] at hchannel
        omega
      · exact Nat.lt_succ_of_lt (hw.entries mapKey mapinfo number id hmap hchannel)
    · rw [update_of_ne hkey] at hfound
      exact Nat.lt_succ_of_lt (hw.entries key found number id hfound hchannel)
  · intro other hother
    rw [assigned_openChannel hw hmap]
    exact hw.located other hother

/-- A new channel has no member and no request. -/
theorem roster_openChannel : (w.openChannel mapKey mapinfo mapinfo.unusedNumber).roster = w.roster := by
  apply Roster.ext
  · exact assigned_openChannel hw hmap
  · exact elim_openChannel rfl
  · exact elim_openChannel rfl
  · exact elim_openChannel rfl
  · rfl

end OpenChannel

theorem findRoom_spec (temp : Int) (w : World) (entries : List (Int × Nat)) :
    Outcome (fun _ => True) Fault.IsLookup (w.findRoom temp entries) := by
  induction entries with
  | nil => trivial
  | cons entry rest ih =>
    unfold findRoom
    split
    · exact Or.inr (Or.inl rfl)
    · split
      · exact Or.inr (Or.inr rfl)
      · split
        · trivial
        · exact ih

theorem InsertIntoMap_spec {mapKey : Int} {mapinfo : MapInfo} (hw : w.WellFormed)
    (hmap : w.maps mapKey = some mapinfo) (code : Int) :
    Outcome (w.Moved code) Fault.IsLookup (w.InsertIntoMap mapKey mapinfo code) := by
  refine (findRoom_spec _ w mapinfo.channels).bind fun room _ => ?_
  cases room with
  | some number => exact (SetChannel_spec hw code number).imp (fun _ h => h.1) (fun _ h => h)
  | none =>
    have hopened := hw.openChannel hmap
    refine (SetChannel_spec hopened code _).imp (fun w' h => ?_) (fun _ h => h)
    exact ⟨h.1.wellFormed, roster_openChannel hw hmap ▸ h.1.roster, h.1.others, h.1.user, h.1.session⟩

/-- A character that is in no channel moves to a map and then into one of its channels. -/
theorem SetMapKey_spec (hw : w.WellFormed) (code mapkey : Int) :
    Outcome (w.Moved code) Fault.IsLookup (w.SetMapKey code mapkey) := by
  rw [SetMapKey_eq]
  refine (SetChannel_spec hw code 0).bind fun w₁ hw₁ => ?_
  obtain ⟨hmoved, hzero⟩ := hw₁
  have hassign : w₁.Moved code (w₁.onCharacter code ({ · with mapKey := mapkey })) := by
    have hroster : (w₁.onCharacter code ({ · with mapKey := mapkey })).roster = w₁.roster :=
      roster_onCharacter_same (by simp [assigned, hzero]) rfl
    refine ⟨?_, hroster ▸ .refl, fun _ => onCharacter_of_ne, by simp, by simp⟩
    exact hmoved.wellFormed.relocate rfl rfl (fun _ => onCharacter_of_ne) fun hne =>
      absurd (by simpa) hne
  have hbefore := hmoved.trans hassign
  generalize w₁.onCharacter code ({ · with mapKey := mapkey }) = w₂ at hbefore
  unfold mapKey_post
  split
  · split
    · exact Or.inl rfl
    · rename_i mapinfo hmap
      exact (InsertIntoMap_spec hbefore.wellFormed hmap code).imp (fun _ h => hbefore.trans h) fun _ h => h
  · exact hbefore

/-- A character whose user is destroyed is in no place, for good. -/
theorem destroyUser_spec (hw : w.WellFormed) (code : Int) :
    Outcome (fun w' => w'.WellFormed ∧ w.roster.Moves code w'.roster ∧
      (∀ other, other ≠ code → w'.characters other = w.characters other) ∧
      (w'.characters code).channel = 0 ∧ (w'.characters code).user = false ∧
      (w'.characters code).session = (w.characters code).session)
      Fault.IsLookup (w.destroyUser code) := by
  refine (SetMapKey_spec hw code 0).bind fun w₁ hw₁ => ?_
  refine (SetChannel_spec hw₁.wellFormed code 0).bind fun w₂ hw₂ => ?_
  obtain ⟨hmoved, hzero⟩ := hw₂
  have hall := hw₁.trans hmoved
  have hroster : (w₂.onCharacter code ({ · with user := false })).roster = w₂.roster :=
    roster_onCharacter_same (by simp [assigned, hzero]) rfl
  refine ⟨?_, hroster ▸ hall.roster, fun other hother => ?_, by simpa using hzero, by simp,
    by simpa using hall.session⟩
  · exact hall.wellFormed.relocate rfl rfl (fun _ => onCharacter_of_ne) fun hne => absurd (by simpa) hne
  · exact (onCharacter_of_ne hother).trans (hall.others other hother)

/-- A request moves its own character, or leaves the roster alone. -/
theorem On_Read_spec (hw : w.WellFormed) (request : Request) (huser : (w.characters code).user = true)
    (hsession : (w.characters code).session = true) :
    Outcome (w.Moved code) Fault.IsLookup (w.On_Read code request) := by
  unfold On_Read
  rw [if_pos ⟨hsession, huser⟩]
  cases request with
  | REQ_ENTER_MAP mapcode => exact SetMapKey_spec hw code mapcode
  | REQ_ENTER_CHANNEL channel =>
    exact (SetChannel_spec hw code channel).imp (fun _ h => h.1) (fun _ h => h)
  | REQ_PORTAL gateNumber currentMapCode =>
    dsimp only
    split
    · exact .refl hw
    · split
      · exact SetMapKey_spec hw code _
      · exact .refl hw
  | REQ_ESCAPE =>
    dsimp only
    split
    · exact .refl hw
    · rename_i channel _
      have hroster : (w.onChannel channel (·.Async_Func code)).roster = w.roster :=
        roster_onChannel_same fun _ _ => ⟨rfl, rfl, rfl⟩
      refine ⟨?_, hroster ▸ .refl, fun _ _ => rfl, rfl, rfl⟩
      exact hw.relocate rfl onChannel_length (fun _ _ => rfl) (hw.located code)

/-- A request moves its own character at most. -/
theorem On_Read_moved (hw : w.WellFormed) (request : Request) :
    Outcome (w.Moved code) (fun _ => True) (w.On_Read code request) := by
  by_cases hopen : (w.characters code).session = true ∧ (w.characters code).user = true
  · exact (On_Read_spec hw request hopen.2 hopen.1).imp (fun _ h => h) fun _ _ => trivial
  · have hidle : w.On_Read code request = .ok w := if_neg hopen
    rw [hidle]
    exact .refl hw

end World

end AsioGameServer.world

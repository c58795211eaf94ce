import AsioGameServer.Lib.Roster
import AsioGameServer.World.Tick

open Function

namespace AsioGameServer.world

/-- The members of a channel's manager. -/
def Channel.members (ch : Channel) : List Int := ch.cm.elim [] CharacterManager.characters

namespace World

variable {w w' : World} {code number : Int} {id : Nat}

/-- The channel a character's `(mapKey, channel)` names. -/
def assigned (w : World) (code : Int) : Option Nat :=
  if (w.characters code).channel = 0 then none
  else (w.maps (w.characters code).mapKey).bind (·.GetChannel (w.characters code).channel)

/-- The characters and channels as a roster: a character's place is the channel its
location names, its pointer is `cm`. -/
def roster (w : World) : Roster Int Nat where
  assigned := w.assigned
  inserts id := (w.channels[id]?).elim [] Channel.req_Insert_list
  erases id := (w.channels[id]?).elim [] Channel.req_erase_list
  members id := (w.channels[id]?).elim [] Channel.members
  owner code := (w.characters code).cm

/-- The channels that maps and characters refer to exist. -/
structure WellFormed (w : World) : Prop where
  entries : ∀ mapKey mapinfo number id, w.maps mapKey = some mapinfo →
    mapinfo.GetChannel number = some id → id < w.channels.length
  located : ∀ code, (w.characters code).channel ≠ 0 → ∃ id, w.assigned code = some id

@[simp] theorem onChannel_characters {f : Channel → Channel} :
    (w.onChannel id f).characters = w.characters := rfl

@[simp] theorem onChannel_length {f : Channel → Channel} :
    (w.onChannel id f).channels.length = w.channels.length :=
  List.length_modify _ _ _

@[simp] theorem onCharacter_maps {f : Character → Character} : (w.onCharacter code f).maps = w.maps := rfl

@[simp] theorem onCharacter_self {f : Character → Character} :
    (w.onCharacter code f).characters code = f (w.characters code) :=
  update_self _ _ _

theorem onCharacter_of_ne {f : Character → Character} {other : Int} (hne : other ≠ code) :
    (w.onCharacter code f).characters other = w.characters other :=
  update_of_ne hne _ _

section Channels

variable {ch : Channel} (hget : w.channels[id]? = some ch)
include hget

theorem roster_inserts : w.roster.inserts id = ch.req_Insert_list := by simp [roster, hget]

theorem roster_erases : w.roster.erases id = ch.req_erase_list := by simp [roster, hget]

theorem roster_members : w.roster.members id = ch.members := by simp [roster, hget]

/-- A list kept in each channel, after a change of one channel. -/
theorem elim_onChannel (f : Channel → Channel) (field : Channel → List Int) :
    (fun other => ((w.onChannel id f).channels[other]?).elim [] field) =
      update (fun other => (w.channels[other]?).elim [] field) id (field (f ch)) := by
  funext other
  rw [onChannel, List.getElem?_modify]
  by_cases hsame : other = id
  · subst hsame
    simp [hget]
  · simp [Ne.symm hsame, update_of_ne hsame]

/-- A change of a channel, as a change of its requests and members. -/
theorem roster_onChannel (f : Channel → Channel) :
    (w.onChannel id f).roster =
      { w.roster with
        inserts := update w.roster.inserts id (f ch).req_Insert_list
        erases := update w.roster.erases id (f ch).req_erase_list
        members := update w.roster.members id (f ch).members } := by
  apply Roster.ext
  · rfl
  · exact elim_onChannel hget f _
  · exact elim_onChannel hget f _
  · exact elim_onChannel hget f _
  · rfl

theorem roster_Async_InsertCharacter :
    (w.onChannel id (·.Async_InsertCharacter code)).roster =
      { w.roster with inserts := update w.roster.inserts id (w.roster.inserts id ++ [code]) } := by
  have hsame : update w.roster.erases id ch.req_erase_list = w.roster.erases ∧
      update w.roster.members id ch.members = w.roster.members := by
    rw [← roster_erases hget, ← roster_members hget]
    simp
  rw [roster_onChannel hget, roster_inserts hget]
  simp only [Channel.Async_InsertCharacter, Channel.members] at hsame ⊢
  rw [hsame.1, hsame.2]

theorem roster_Async_EraseCharacter :
    (w.onChannel id (·.Async_EraseCharacter code)).roster =
      { w.roster with erases := update w.roster.erases id (w.roster.erases id ++ [code]) } := by
  have hsame : update w.roster.inserts id ch.req_Insert_list = w.roster.inserts ∧
      update w.roster.members id ch.members = w.roster.members := by
    rw [← roster_inserts hget, ← roster_members hget]
    simp
  rw [roster_onChannel hget, roster_erases hget]
  simp only [Channel.Async_EraseCharacter, Channel.members] at hsame ⊢
  rw [hsame.1, hsame.2]

end Channels

/-- A change of a channel that keeps its insert and erase requests and its members. -/
theorem roster_onChannel_same {f : Channel → Channel}
    (hf : ∀ ch, w.channels[id]? = some ch → (f ch).req_Insert_list = ch.req_Insert_list ∧
      (f ch).req_erase_list = ch.req_erase_list ∧ (f ch).members = ch.members) :
    (w.onChannel id f).roster = w.roster := by
  cases hget : w.channels[id]? with
  | none =>
    have hunchanged : w.channels.modify id f = w.channels :=
      List.modify_eq_self (List.getElem?_eq_none_iff.mp hget)
    rw [onChannel, hunchanged]
  | some ch =>
    obtain ⟨hinserts, herases, hmembers⟩ := hf ch hget
    rw [roster_onChannel hget, hinserts, herases, hmembers, ← roster_inserts hget,
      ← roster_erases hget, ← roster_members hget]
    simp

/-- A channel that begins has no member before and after. -/
theorem roster_BeginPlay {ch : Channel} (hget : w.channels[id]? = some ch) (hnone : ch.cm = none) :
    (w.onChannel id Channel.BeginPlay).roster = w.roster := by
  refine roster_onChannel_same fun found hfound => ?_
  obtain rfl := Option.some.inj (hget.symm.trans hfound)
  exact ⟨rfl, rfl, by simp [Channel.members, Channel.BeginPlay, hnone]⟩

/-- A change of a manager that keeps its members. -/
theorem roster_onManager_same {f : CharacterManager → CharacterManager}
    (hf : ∀ cm, (f cm).characters = cm.characters) : (w.onManager id f).roster = w.roster := by
  refine roster_onChannel_same fun ch _ => ⟨rfl, rfl, ?_⟩
  cases hch : ch.cm <;> simp [Channel.members, hch, hf]

theorem assigned_onCharacter_of_ne {f : Character → Character} {other : Int} (hne : other ≠ code) :
    (w.onCharacter code f).assigned other = w.assigned other := by
  rw [assigned, onCharacter_of_ne hne, onCharacter_maps, assigned]

/-- A change of a character, as a change of its place and of its back pointer. -/
theorem roster_onCharacter (f : Character → Character) :
    (w.onCharacter code f).roster =
      { w.roster with
        assigned := update w.roster.assigned code ((w.onCharacter code f).assigned code)
        owner := update w.roster.owner code (f (w.characters code)).cm } := by
  apply Roster.ext
  · funext other
    by_cases hsame : other = code
    · subst hsame
      simp [roster]
    · exact (assigned_onCharacter_of_ne hsame).trans (update_of_ne hsame _ _).symm
  · rfl
  · rfl
  · rfl
  · funext other
    by_cases hsame : other = code
    · subst hsame
      simp [roster]
    · simp [roster, onCharacter_of_ne hsame, update_of_ne hsame]

/-- A change of a character that keeps its place and its back pointer. -/
theorem roster_onCharacter_same {f : Character → Character}
    (hassigned : (w.onCharacter code f).assigned code = w.assigned code)
    (hcm : (f (w.characters code)).cm = (w.characters code).cm) :
    (w.onCharacter code f).roster = w.roster := by
  have hplace : update w.roster.assigned code (w.assigned code) = w.roster.assigned := update_eq_self _ _
  have howner : update w.roster.owner code (w.characters code).cm = w.roster.owner := update_eq_self _ _
  rw [roster_onCharacter, hassigned, hcm, hplace, howner]

/-- The assignment of a character's `channel`. -/
theorem roster_assign_channel :
    (w.onCharacter code ({ · with channel := number })).roster =
      { w.roster with
        assigned := update w.roster.assigned code
          ((w.onCharacter code ({ · with channel := number })).assigned code) } := by
  have howner : update w.roster.owner code (w.characters code).cm = w.roster.owner := update_eq_self _ _
  rw [roster_onCharacter, howner]

/-- The roster does not depend on the users and sessions. -/
theorem roster_congr (hmaps : w'.maps = w.maps) (hchannels : w'.channels = w.channels)
    (hcharacters : ∀ code, (w'.characters code).mapKey = (w.characters code).mapKey ∧
      (w'.characters code).channel = (w.characters code).channel ∧
      (w'.characters code).cm = (w.characters code).cm) : w'.roster = w.roster := by
  apply Roster.ext
  · funext code
    obtain ⟨hmapKey, hchannel, _⟩ := hcharacters code
    simp only [roster, assigned, hmaps, hmapKey, hchannel]
  · simp only [roster, hchannels]
  · simp only [roster, hchannels]
  · simp only [roster, hchannels]
  · exact funext fun code => (hcharacters code).2.2

end World

end AsioGameServer.world

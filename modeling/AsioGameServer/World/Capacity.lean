import AsioGameServer.Lib.Roster.Capacity
import AsioGameServer.World.Admission

open Function Transition

namespace AsioGameServer.world

namespace World

variable {w w' : World} {code mapKey most : Int} {id : Nat} {mapinfo : MapInfo} {target : Nat → Prop}

/-- The `maxUserCount` of a channel's map. -/
def limit (w : World) (id : Nat) : Option Int :=
  (w.labels[id]?).bind fun label => (w.maps label.1).map MapInfo.maxUserCount

/-- No channel has more characters than its map allows, and none will after its next tick. -/
structure Fitting (w : World) : Prop where
  generous : ∀ mapKey mapinfo, w.maps mapKey = some mapinfo → 2 ≤ mapinfo.maxUserCount
  homed : ∀ label ∈ w.labels, ∃ mapinfo, w.maps label.1 = some mapinfo
  fits : ∀ id limit, w.limit id = some limit → w.roster.Fits id limit

theorem limit_sameShape (h : w.SameShape w') : w'.limit id = w.limit id := by
  rw [limit, limit, h.labels, h.maps]

/-- A channel that is opened gets the limit of its map. -/
theorem limit_openChannel (hmap : w.maps mapKey = some mapinfo) (hcode : mapinfo.mapCode = mapKey)
    {number : Int} (hlimit : (w.openChannel mapKey mapinfo number).limit id = some most) :
    w.limit id = some most ∨ id = w.channels.length ∧ most = mapinfo.maxUserCount := by
  have hmaps : ∀ key, ((w.openChannel mapKey mapinfo number).maps key).map MapInfo.maxUserCount =
      (w.maps key).map MapInfo.maxUserCount := by
    intro key
    by_cases hkey : key = mapKey
    · simp [openChannel, hkey, hmap]
    · simp [openChannel, update_of_ne hkey]
  have hlength : w.labels.length = w.channels.length := List.length_map _
  simp only [World.limit, hmaps, labels_openChannel] at hlimit ⊢
  rcases Nat.lt_trichotomy id w.labels.length with hlt | heq | hgt
  · rw [List.getElem?_append_left hlt] at hlimit
    exact .inl hlimit
  · rw [heq, List.getElem?_concat_length, Option.bind_some, hcode, hmap] at hlimit
    exact .inr ⟨by omega, (Option.some.inj hlimit).symm⟩
  · rw [List.getElem?_eq_none (by simp; omega)] at hlimit
    cases hlimit

/-- A channel that is not there has no request and no member. -/
theorem roster_of_none (hget : w.channels[id]? = none) :
    w.roster.inserts id = [] ∧ w.roster.erases id = [] ∧ w.roster.members id = [] := by
  simp [roster, hget]

theorem Asked.upcoming (h : w.Asked code target w') (id : Nat) :
    w'.roster.upcoming id ⊆ insert code (w.roster.upcoming id) ∧
      (¬ target id → w'.roster.upcoming id ⊆ w.roster.upcoming id) := by
  have hcases : ∀ c ∈ w'.roster.upcoming id, c ∈ w.roster.upcoming id ∨ c = code ∧ target id := by
    intro c hc
    rw [Roster.mem_upcoming] at hc ⊢
    obtain hinsert | ⟨hmember, herase⟩ := hc
    · exact (h.inserts id c hinsert).imp_left .inl
    · rw [h.members] at hmember
      exact .inl (.inr ⟨hmember, fun hold => herase (h.erases id c hold)⟩)
  constructor
  · intro c hc
    rw [Finset.mem_insert]
    exact (hcases c hc).elim .inr fun hnew => .inl hnew.1
  · exact fun hnot c hc => (hcases c hc).resolve_right fun hnew => hnot hnew.2

/-- Where a channel may have been opened, the others keep their limits. -/
theorem Fitting.opened (h : w.Fitting) (hopened : w.Opened w')
    (hcoded : ∀ mapKey mapinfo, w.maps mapKey = some mapinfo → mapinfo.mapCode = mapKey) :
    (∀ mapKey mapinfo, w'.maps mapKey = some mapinfo → 2 ≤ mapinfo.maxUserCount) ∧
      (∀ label ∈ w'.labels, ∃ mapinfo, w'.maps label.1 = some mapinfo) ∧
      ∀ id most, w'.limit id = some most → w.limit id = some most ∨ id = w.channels.length ∧ 2 ≤ most := by
  obtain hsame | ⟨key, mapinfo, hmap, hsame⟩ := hopened
  · rw [hsame.maps, hsame.labels]
    exact ⟨h.generous, h.homed, fun id most hmost => .inl (limit_sameShape hsame ▸ hmost)⟩
  · have hleast := h.generous key mapinfo hmap
    rw [hsame.maps, hsame.labels]
    refine ⟨fun mapKey found hfound => ?_, fun label hlabel => ?_, fun id most hmost => ?_⟩
    · by_cases hkey : mapKey = key
      · simp only [openChannel, hkey, update_self, Option.some.injEq] at hfound
        rw [← hfound]
        exact hleast
      · simp only [openChannel, update_of_ne hkey] at hfound
        exact h.generous mapKey found hfound
    · rw [labels_openChannel, List.mem_append, List.mem_singleton] at hlabel
      by_cases hkey : label.1 = key
      · simp [openChannel, hkey]
      · obtain hold | rfl := hlabel
        · simpa [openChannel, update_of_ne hkey] using h.homed label hold
        · exact absurd (hcoded key mapinfo hmap) hkey
    · rw [limit_sameShape hsame] at hmost
      refine (limit_openChannel hmap (hcoded key mapinfo hmap) hmost).imp_right fun hnew => ⟨hnew.1, ?_⟩
      rw [hnew.2]
      exact hleast

/-- A request keeps every channel within its limit if the channels that it asks to let the
character in have a place for it. -/
theorem Fitting.asked (h : w.Fitting) (hopened : w.Opened w') (hasked : w.Asked code target w')
    (hcoded : ∀ mapKey mapinfo, w.maps mapKey = some mapinfo → mapinfo.mapCode = mapKey)
    (htarget : ∀ id limit, target id → w.limit id = some limit →
      ((insert code (w.roster.upcoming id)).card : Int) ≤ limit) : w'.Fitting := by
  obtain ⟨hgenerous, hhomed, hlimit⟩ := h.opened hopened hcoded
  refine ⟨hgenerous, hhomed, fun id most hmost => ?_⟩
  have hbase : w.roster.Fits id most ∧ (target id → ((insert code (w.roster.upcoming id)).card : Int) ≤ most) := by
    obtain hold | ⟨rfl, hleast⟩ := hlimit id most hmost
    · exact ⟨h.fits id most hold, fun hid => htarget id most hid hold⟩
    · obtain ⟨hinserts, herases, hmembers⟩ := roster_of_none (w := w) (List.getElem?_eq_none (Nat.le_refl _))
      have hempty : w.roster.upcoming w.channels.length = ∅ := by
        simp [Roster.upcoming, hinserts, hmembers]
      refine ⟨.of_empty (by omega) hinserts hmembers, fun _ => ?_⟩
      rw [hempty]
      simp only [insert_empty_eq, Finset.card_singleton]
      omega
  obtain ⟨hgrow, hkeep⟩ := hasked.upcoming id
  have hmembers := congrFun hasked.members id
  by_cases hid : target id
  · exact hbase.1.request hmembers hgrow (hbase.2 hid)
  · exact hbase.1.request hmembers (hkeep hid) hbase.1.next

/-- A change that keeps the maps' limits and what is queued and present keeps all channels
within their limits. -/
theorem Fitting.congr (h : w.Fitting)
    (hmaps : ∀ key, (w'.maps key).map MapInfo.maxUserCount = (w.maps key).map MapInfo.maxUserCount)
    (hkeys : w'.labels.map Prod.fst = w.labels.map Prod.fst)
    (hfits : ∀ id most, 2 ≤ most → w.roster.Fits id most → w'.roster.Fits id most) : w'.Fitting := by
  have hleast : ∀ mapKey mapinfo, w'.maps mapKey = some mapinfo →
      ∃ old, w.maps mapKey = some old ∧ mapinfo.maxUserCount = old.maxUserCount := by
    intro mapKey mapinfo hmap
    have hsome := hmaps mapKey
    rw [hmap, Option.map_some] at hsome
    obtain ⟨old, hold, hsame⟩ := Option.map_eq_some_iff.mp hsome.symm
    exact ⟨old, hold, hsame.symm⟩
  have hlimit : ∀ id, w'.limit id = w.limit id := by
    intro id
    have hkey : (w'.labels[id]?).map Prod.fst = (w.labels[id]?).map Prod.fst := by
      rw [← List.getElem?_map, hkeys, List.getElem?_map]
    have hsplit : ∀ w : World, w.limit id = ((w.labels[id]?).map Prod.fst).bind fun key =>
        (w.maps key).map MapInfo.maxUserCount := by
      intro w
      rw [World.limit, Option.bind_map]
      rfl
    rw [hsplit, hsplit, hkey]
    simp only [hmaps]
  have hgenerous : ∀ mapKey mapinfo, w'.maps mapKey = some mapinfo → 2 ≤ mapinfo.maxUserCount := by
    intro mapKey mapinfo hmap
    obtain ⟨old, hold, hsame⟩ := hleast mapKey mapinfo hmap
    rw [hsame]
    exact h.generous mapKey old hold
  refine ⟨hgenerous, fun label hlabel => ?_, fun id most hmost => ?_⟩
  · have hin : label.1 ∈ w.labels.map Prod.fst := hkeys ▸ List.mem_map_of_mem hlabel
    obtain ⟨old, hold, hsame⟩ := List.mem_map.mp hin
    obtain ⟨mapinfo, hmap⟩ := h.homed old hold
    have hsome := hmaps old.1
    rw [hmap, Option.map_some] at hsome
    obtain ⟨found, hfound, _⟩ := Option.map_eq_some_iff.mp hsome
    exact ⟨found, hsame ▸ hfound⟩
  · rw [hlimit] at hmost
    refine hfits id most ?_ (h.fits id most hmost)
    obtain ⟨label, _, hmapped⟩ := Option.bind_eq_some_iff.mp hmost
    obtain ⟨mapinfo, hmap, rfl⟩ := Option.map_eq_some_iff.mp hmapped
    exact h.generous label.1 mapinfo hmap

theorem mapCodes_onChannel {f : Channel → Channel} (hf : ∀ ch, (f ch).mapCode = ch.mapCode) :
    (w.onChannel id f).labels.map Prod.fst = w.labels.map Prod.fst := by
  refine List.ext_getElem? fun other => ?_
  simp only [labels, onChannel, List.getElem?_map, List.getElem?_modify]
  cases w.channels[other]? with
  | none => rfl
  | some ch => by_cases hsame : id = other <;> simp [hsame, Channel.label, hf]

theorem Fitting.sameShape (h : w.Fitting) (hshape : w.SameShape w')
    (hfits : ∀ id most, w.roster.Fits id most → w'.roster.Fits id most) : w'.Fitting :=
  h.congr (fun _ => by rw [hshape.maps]) (by rw [hshape.labels]) fun id most _ => hfits id most

end World

namespace Game

variable {τ : Type} {g g₀ : Game τ} {events : List (GameEvent τ)}

/-- Characters join channels through `MapInfo::InsertCharacter` only. -/
def JoinsByMap : GameEvent τ → Prop
  | .step (.request _ (.REQ_ENTER_CHANNEL channel)) => channel = 0
  | _ => True

/-- A channel that lets a character in has a place for it besides the members that are not
about to leave and the characters whose insertion is queued. -/
def RoomLeft (g : Game τ) : GameEvent τ → Prop
  | .step (.request code request) =>
    (g.now.characters code).session ∧ (g.now.characters code).user →
      ∀ mapKey ∈ g.now.entered code request, ∀ mapinfo ∈ g.now.maps mapKey,
        ∀ entry ∈ g.now.firstRoom mapinfo,
          ((insert code (g.now.roster.upcoming entry.2)).card : Int) ≤ mapinfo.maxUserCount
  | _ => True

instance : ∀ e : GameEvent τ, Decidable (JoinsByMap e)
  | .step (.request _ (.REQ_ENTER_CHANNEL channel)) => inferInstanceAs (Decidable (channel = 0))
  | .step (.request _ (.REQ_ENTER_MAP _)) | .step (.request _ (.REQ_PORTAL _ _))
  | .step (.request _ .REQ_ESCAPE) | .step (.closeSession _) | .step (.disconnect _)
  | .step (.updateChannel _) | .step (.tickManager _) | .tickMap _ _ => isTrue trivial

instance (g : Game τ) : ∀ e, Decidable (g.RoomLeft e)
  | .step (.request code request) =>
    inferInstanceAs (Decidable ((g.now.characters code).session ∧ (g.now.characters code).user →
      ∀ mapKey ∈ g.now.entered code request, ∀ mapinfo ∈ g.now.maps mapKey,
        ∀ entry ∈ g.now.firstRoom mapinfo,
          ((insert code (g.now.roster.upcoming entry.2)).card : Int) ≤ mapinfo.maxUserCount))
  | .step (.closeSession _) | .step (.disconnect _) | .step (.updateChannel _)
  | .step (.tickManager _) | .tickMap _ _ => isTrue trivial

/-- What keeps the channels within their limits. -/
def JoinsWithRoom (g : Game τ) (e : GameEvent τ) : Prop := JoinsByMap e ∧ g.RoomLeft e

instance (g : Game τ) (e : GameEvent τ) : Decidable (g.JoinsWithRoom e) :=
  inferInstanceAs (Decidable (JoinsByMap e ∧ g.RoomLeft e))

/-- The channels that a request asks to let its character in have a place for it. -/
theorem place_of_asks (hlisted : g.Listed) {code : Int} {request : World.Request}
    (hjoins : JoinsByMap (.step (.request code request) : GameEvent τ))
    (hroom : g.RoomLeft (.step (.request code request)))
    (hopen : (g.now.characters code).session ∧ (g.now.characters code).user) {id : Nat} {most : Int}
    (hasks : g.now.Asks code request id) (hmost : g.now.limit id = some most) :
    ((insert code (g.now.roster.upcoming id)).card : Int) ≤ most := by
  have hentered : ∃ mapKey, g.now.entered code request = some mapKey ∧ g.now.Admitting mapKey id := by
    cases request with
    | REQ_ENTER_CHANNEL channel => exact absurd hjoins hasks.1
    | _ => exact hasks
  obtain ⟨mapKey, hkey, mapinfo, hmap, rfl | ⟨entry, ch, hfirst, hget, hchannel⟩⟩ := hentered
  · rw [World.limit, World.labels, List.getElem?_eq_none (by simp)] at hmost
    cases hmost
  · have hin := List.mem_of_find?_eq_some hfirst
    obtain ⟨_, _, begun, hlabel⟩ := hlisted.entries mapKey mapinfo entry hmap hin
    have hlabel' := hlabel
    rw [World.labels, List.getElem?_map, hget] at hlabel'
    simp only [Option.map_some, Channel.label, Option.some.injEq, Prod.mk.injEq] at hlabel'
    have hid : entry.2 = id := by
      rw [MapInfo.GetChannel, hlabel'.2.1, World.lookup_of_mem (hlisted.once mapKey mapinfo hmap) hin]
        at hchannel
      exact Option.some.inj hchannel
    have hsame : mapinfo.maxUserCount = most := by
      rw [World.limit, ← hid, hlabel, Option.bind_some, hmap] at hmost
      exact Option.some.inj hmost
    rw [← hid, ← hsame]
    exact hroom hopen mapKey hkey mapinfo hmap entry hfirst

theorem Fitting.request (hfitting : g.now.Fitting) (hlisted : g.Listed) {code : Int} {request : World.Request}
    (hjoins : JoinsByMap (.step (.request code request) : GameEvent τ))
    (hroom : g.RoomLeft (.step (.request code request))) :
    Outcome World.Fitting (fun _ => True) (g.now.On_Read code request) := by
  by_cases hopen : (g.now.characters code).session ∧ (g.now.characters code).user
  · refine (World.On_Read_requested g.now code request).imp (fun w hw => ?_) fun _ => id
    exact hfitting.asked hw.1 hw.2 hlisted.coded fun id most hid hmost =>
      place_of_asks hlisted hjoins hroom hopen hid hmost
  · have hidle : g.now.On_Read code request = .ok g.now := if_neg (by simpa using hopen)
    rw [hidle]
    exact hfitting

theorem Fitting.updateChannel (hfitting : g.now.Fitting) (hlisted : g.Listed) (id : Nat) :
    Outcome (fun g => g.now.Fitting) (fun _ => True) (g.updateChannel id) := by
  unfold Game.updateChannel
  split
  · exact hfitting
  · rename_i channel hget
    have hbegun := hlisted.begun id _ _ _ (labels_of_getElem? hget)
    split
    · rename_i hstate
      have hnone : channel.cm = none := by simpa [hstate] using hbegun
      refine hfitting.congr (fun _ => rfl) (World.mapCodes_onChannel fun _ => rfl) fun other most _ h => ?_
      exact World.roster_BeginPlay hget hnone ▸ h
    · rename_i hstate
      obtain ⟨cm, hcm⟩ := Option.isSome_iff_exists.mp (by simpa [hstate] using hbegun)
      have htick := (World.PrevTick_spec hget hcm).imp (fun _ h => h.1) fun _ _ => trivial
      refine ((World.PrevTick_sameShape id channel g.now).and htick).bind fun w ⟨hshape, hroster⟩ => ?_
      refine hfitting.sameShape hshape fun other most h => ?_
      rw [hroster]
      exact h.tick
    · split
      · exact hfitting
      · refine hfitting.congr (fun _ => rfl) (World.mapCodes_onChannel fun _ => rfl) fun other most hleast h => ?_
        have hroster := World.roster_onChannel hget fun ch => { ch.clear with cm := none }
        have hinserts := congrFun (congrArg Roster.inserts hroster) other
        have herases := congrFun (congrArg Roster.erases hroster) other
        have hmembers := congrFun (congrArg Roster.members hroster) other
        by_cases hother : other = id
        · subst hother
          simp only [update_self] at hinserts herases hmembers
          exact .of_empty (by omega) hinserts hmembers
        · simp only [update_of_ne hother] at hinserts herases hmembers
          exact h.congr hinserts herases hmembers

section Ticks

variable [OfNat τ 0]

theorem Start.fitting (h : g.Start)
    (hleast : ∀ mapKey mapinfo, g.now.maps mapKey = some mapinfo → 2 ≤ mapinfo.maxUserCount) :
    g.now.Fitting := by
  have hlabels : g.now.labels = [] := by rw [World.labels, h.start.no_channels, List.map_nil]
  refine ⟨hleast, by simp [hlabels], fun id limit hlimit => ?_⟩
  simp [World.limit, hlabels] at hlimit

variable [Add τ] [LE τ] [DecidableLE τ] [OfNat τ 60]

theorem Fitting.tickMap (hfitting : g.now.Fitting) (mapKey : Int) (delta : τ) :
    (g.tickMap mapKey delta).now.Fitting := by
  unfold Game.tickMap
  split
  · exact hfitting
  · rename_i mapinfo hmap
    refine hfitting.congr (fun key => ?_) rfl fun id most _ h => h.congr rfl rfl rfl
    by_cases hkey : key = mapKey
    · simp [hkey, hmap]
    · simp [update_of_ne hkey]

/-- A step keeps every channel within its limit where those that let a character in have a
place for it. -/
theorem Fitting.step (hfitting : g.now.Fitting) (hlisted : g.Listed) {e : GameEvent τ}
    (hjoins : JoinsByMap e) (hroom : g.RoomLeft e) :
    Outcome (fun g => g.now.Fitting) (fun _ => True) (g.step e) := by
  cases e with
  | tickMap mapKey delta => exact Fitting.tickMap hfitting mapKey delta
  | step e =>
    cases e with
    | request code request =>
      exact (Fitting.request hfitting hlisted hjoins hroom).bind fun w hw => hw
    | closeSession code =>
      have hshape : g.now.SameShape (g.now.onCharacter code ({ · with session := false })) :=
        World.sameShape_onCharacter code
      exact hfitting.sameShape hshape fun _ _ h => h.congr rfl rfl rfl
    | disconnect code =>
      refine (World.disconnect_requested g.now code).bind fun w hw => ?_
      exact hfitting.asked (.inl hw.shape) hw.asked hlisted.coded fun _ _ hno => hno.elim
    | updateChannel id => exact Fitting.updateChannel hfitting hlisted id
    | tickManager id =>
      unfold Game.step
      dsimp only
      split
      · refine (World.tickManager_same g.now id).bind fun w ⟨hshape, hroster⟩ => ?_
        exact hfitting.sameShape hshape fun _ _ h => hroster ▸ h
      · exact hfitting

/-- In a run in which characters join channels through `MapInfo::InsertCharacter` only, and
each channel that lets one in has a place for it, no manager of a channel ever has more
characters than the map allows. -/
theorem run_within_capacity (hstart : g₀.Start)
    (hleast : ∀ mapKey mapinfo, g₀.now.maps mapKey = some mapinfo → 2 ≤ mapinfo.maxUserCount)
    (hrun : Run (Guarded JoinsWithRoom (OfOption next)) g₀ events g) (id : Nat) (ch : Channel)
    (cm : CharacterManager) (hget : g.now.channels[id]? = some ch) (hcm : ch.cm = some cm) :
    ∃ mapinfo, g.now.maps ch.mapCode = some mapinfo ∧
      (cm.characters.length : Int) ≤ mapinfo.maxUserCount := by
  obtain ⟨_, hfitting⟩ : g.Listed ∧ g.now.Fitting := by
    apply hrun.invariant ⟨hstart.listed, hstart.fitting hleast⟩
    intro a e b ⟨hlisted, hfitting⟩ ⟨⟨hjoins, hroom⟩, hnext⟩
    exact ⟨(hlisted.step e).toOption hnext, (Fitting.step hfitting hlisted hjoins hroom).toOption hnext⟩
  have hlabel := labels_of_getElem? hget
  obtain ⟨mapinfo, hmap⟩ := hfitting.homed ch.label (List.mem_of_getElem? hlabel)
  have hlimit : g.now.limit id = some mapinfo.maxUserCount := by
    rw [World.limit, hlabel, Option.bind_some, hmap, Option.map_some]
  have hpresent := (hfitting.fits id _ hlimit).present
  rw [World.roster_members hget, Channel.members, hcm, Option.elim_some] at hpresent
  exact ⟨mapinfo, hmap, hpresent⟩

end Ticks

/-- A map whose channels hold two characters. -/
def smallMap : Game Nat where
  now := {
    maps := fun code => if code = 1 then some ⟨1, 2, [], []⟩ else none
    channels := []
    characters := fun _ => ⟨0, 0, none, true, true⟩ }
  components _ := ⟨.Create, 0, false⟩

theorem smallMap_maps {mapKey : Int} {mapinfo : MapInfo} (h : smallMap.now.maps mapKey = some mapinfo) :
    mapKey = 1 ∧ mapinfo = ⟨1, 2, [], []⟩ := by
  obtain ⟨hkey, hinfo⟩ := Option.ite_none_right_eq_some.mp h
  exact ⟨hkey, (Option.some.inj hinfo).symm⟩

theorem smallMap_start : smallMap.Start := by
  refine ⟨⟨rfl, fun mapKey mapinfo hmap => ?_, fun _ => ⟨rfl, rfl⟩, fun _ => rfl⟩,
    fun mapKey mapinfo hmap => ?_, fun _ => rfl⟩
  · rw [(smallMap_maps hmap).2]
  · rw [(smallMap_maps hmap).1, (smallMap_maps hmap).2]

theorem smallMap_least (mapKey : Int) (mapinfo : MapInfo) (h : smallMap.now.maps mapKey = some mapinfo) :
    2 ≤ mapinfo.maxUserCount := by
  rw [(smallMap_maps h).2]

/-- The second character enters after the first one is in, and gets a channel of its own. -/
theorem second_character_within_capacity :
    ∃ events g ch cm, Run (OfOption next) smallMap events g ∧ g.now.channels[1]? = some ch ∧
      ch.cm = some cm ∧ cm.characters = [8] ∧
      ∃ mapinfo, g.now.maps ch.mapCode = some mapinfo ∧
        (cm.characters.length : Int) ≤ mapinfo.maxUserCount := by
  have hfold : ([.step (.request 7 (.REQ_ENTER_MAP 1)), .step (.updateChannel 0), .step (.updateChannel 0),
      .step (.request 8 (.REQ_ENTER_MAP 1)), .step (.updateChannel 1), .step (.updateChannel 1)].foldlM
        (fun g e => if JoinsWithRoom g e then g.next e else none) smallMap).map
      (fun g => g.now.channels[1]?) = some (some ⟨1, 2, some ⟨[8], true, []⟩, [], [], []⟩) := by
    decide +kernel
  obtain ⟨g, hg, hget⟩ := Option.map_eq_some_iff.mp hfold
  have hrun := run_guarded_ofOption_iff.mpr hg
  exact ⟨_, g, _, _, hrun.of_guarded, hget, rfl, rfl,
    run_within_capacity smallMap_start smallMap_least hrun 1 _ _ hget rfl⟩

/-- A channel lets in every character that comes between two of its ticks. -/
theorem burst_overflows :
    ∃ events g ch cm, smallMap.Start ∧ Run (OfOption next) smallMap events g ∧
      (∀ e ∈ events, JoinsByMap e) ∧ g.now.channels[0]? = some ch ∧ ch.cm = some cm ∧
      ¬ ∃ mapinfo, g.now.maps ch.mapCode = some mapinfo ∧
        (cm.characters.length : Int) ≤ mapinfo.maxUserCount := by
  have hfold : ([.step (.request 7 (.REQ_ENTER_MAP 1)), .step (.updateChannel 0),
      .step (.request 8 (.REQ_ENTER_MAP 1)), .step (.request 9 (.REQ_ENTER_MAP 1)),
      .step (.updateChannel 0)].foldlM next smallMap).map (fun g => (g.now.channels[0]?, g.now.maps 1)) =
        some (some ⟨1, 1, some ⟨[7, 8, 9], true, []⟩, [], [], []⟩, some ⟨1, 2, [(1, 0)], []⟩) := by
    decide +kernel
  obtain ⟨g, hg, hseen⟩ := Option.map_eq_some_iff.mp hfold
  obtain ⟨hget, hmap⟩ := Prod.mk.inj hseen
  refine ⟨_, g, _, _, smallMap_start, run_ofOption_iff.mpr hg, by decide, hget, rfl, ?_⟩
  rintro ⟨mapinfo, hfound, hleast⟩
  obtain rfl := Option.some.inj (hmap.symm.trans hfound)
  simp at hleast

end Game

end AsioGameServer.world

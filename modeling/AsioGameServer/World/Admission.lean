import AsioGameServer.World.Listing
import AsioGameServer.World.Membership

open Function Transition

namespace AsioGameServer.world

namespace World

variable {w w' : World} {code number mapKey temp : Int} {id : Nat} {mapinfo : MapInfo}
  {entry e : Int × Nat} {entries rest : List (Int × Nat)}

/-- The loop of `MapInfo::InsertCharacter` comes to an entry: none of those before it has
room. -/
def Reached (w : World) (temp : Int) (entries : List (Int × Nat)) (entry : Int × Nat) : Prop :=
  ∃ before after, entries = before ++ entry :: after ∧ ∀ e ∈ before, w.hasRoom temp e.2 = false

/-- `MapInfo::InsertCharacter` comes to an entry of its map. -/
def Visits (w : World) (mapinfo : MapInfo) (entry : Int × Nat) : Prop :=
  w.Reached mapinfo.temp mapinfo.channels entry

theorem reached_cons : w.Reached temp (e :: rest) entry ↔
    entry = e ∨ w.hasRoom temp e.2 = false ∧ w.Reached temp rest entry := by
  constructor
  · rintro ⟨before, after, hsplit, hfull⟩
    cases before with
    | nil => exact .inl (List.cons.inj hsplit).1.symm
    | cons first before =>
      obtain ⟨rfl, rfl⟩ := List.cons.inj hsplit
      exact .inr ⟨hfull _ List.mem_cons_self, before, after, rfl,
        fun e he => hfull e (List.mem_cons_of_mem _ he)⟩
  · rintro (rfl | ⟨hroom, before, after, rfl, hfull⟩)
    · exact ⟨[], rest, rfl, by simp⟩
    · exact ⟨e :: before, after, rfl, by simpa [hroom] using hfull⟩

/-- The loop ends exactly where every channel that it comes to has a manager. -/
theorem findRoom_ok_iff : (∃ room, w.findRoom temp entries = .ok room) ↔
    ∀ entry, w.Reached temp entries entry → ∃ cm, w.manager entry.2 = some cm := by
  induction entries with
  | nil =>
    refine ⟨fun _ entry hreached => ?_, fun _ => ⟨none, rfl⟩⟩
    obtain ⟨before, after, hsplit, _⟩ := hreached
    cases before <;> cases hsplit
  | cons e rest ih =>
    simp only [reached_cons]
    unfold findRoom
    cases hget : w.channels[e.2]? with
    | none =>
      constructor
      · rintro ⟨room, hroom⟩
        cases hroom
      · intro hall
        obtain ⟨cm, hcm⟩ := hall e (.inl rfl)
        simp [manager, hget] at hcm
    | some channel =>
      cases hcm : channel.cm with
      | none =>
        constructor
        · rintro ⟨room, hroom⟩
          simp [hcm] at hroom
        · intro hall
          obtain ⟨cm, hmanager⟩ := hall e (.inl rfl)
          simp [manager, hget, hcm] at hmanager
      | some cm =>
        have hmanager : w.manager e.2 = some cm := by simp [manager, hget, hcm]
        have hroom : w.hasRoom temp e.2 = decide ((cm.characters.length : Int) < temp) := by
          simp [hasRoom, hmanager]
        dsimp only
        rw [hcm]
        dsimp only
        by_cases hless : (cm.characters.length : Int) < temp
        · rw [if_pos hless]
          refine ⟨fun _ entry hreached => ?_, fun _ => ⟨_, rfl⟩⟩
          obtain rfl | ⟨hfull, _⟩ := hreached
          · exact ⟨cm, hmanager⟩
          · simp [hroom, hless] at hfull
        · rw [if_neg hless, ih]
          constructor
          · rintro hall entry (rfl | ⟨_, hreached⟩)
            · exact ⟨cm, hmanager⟩
            · exact hall entry hreached
          · exact fun hall entry hreached => hall entry (.inr ⟨by simp [hroom, hless], hreached⟩)

/-- A character with a channel is in a map that there is. -/
def Located (w : World) : Prop :=
  ∀ code, (w.characters code).channel ≠ 0 → ∃ mapinfo, w.maps (w.characters code).mapKey = some mapinfo

theorem Located.onCharacter (h : w.Located) (code : Int) (f : Character → Character)
    (hcode : (f (w.characters code)).channel ≠ 0 →
      ∃ mapinfo, w.maps (f (w.characters code)).mapKey = some mapinfo) :
    (w.onCharacter code f).Located := by
  intro other hother
  by_cases hsame : other = code
  · subst hsame
    rw [onCharacter_self] at hother ⊢
    exact hcode hother
  · rw [onCharacter_of_ne hsame] at hother ⊢
    exact h other hother

/-- The maps that there are stay, whatever happens to their entries. -/
theorem Located.congr (h : w.Located)
    (hcharacters : ∀ code, (w'.characters code).channel = (w.characters code).channel ∧
      (w'.characters code).mapKey = (w.characters code).mapKey)
    (hmaps : ∀ key mapinfo, w.maps key = some mapinfo → ∃ found, w'.maps key = some found) :
    w'.Located := by
  intro code hcode
  rw [(hcharacters code).1] at hcode
  rw [(hcharacters code).2]
  obtain ⟨mapinfo, hmap⟩ := h code hcode
  exact hmaps _ mapinfo hmap

theorem SetChannel_located (h : w.Located) (code number : Int) :
    Outcome Located (fun _ => True) (w.SetChannel code number) := by
  rw [SetChannel_eq]
  refine (channel_prev_requested code _).bind fun w₁ ⟨hprev, hcharacters⟩ => ?_
  have h₁ : w₁.Located := h.congr (fun _ => hcharacters ▸ ⟨rfl, rfl⟩) fun key mapinfo hmap =>
    ⟨mapinfo, hprev.shape.maps ▸ hmap⟩
  unfold channel_post
  split
  · split
    · trivial
    · rename_i mapinfo hmap
      have hset := h₁.onCharacter code ({ · with channel := number }) fun _ => by
        exact ⟨mapinfo, by simpa using hmap⟩
      split
      · exact hset.congr (fun _ => ⟨rfl, rfl⟩) fun key mapinfo hmap => ⟨mapinfo, hmap⟩
      · trivial
  · rename_i hzero
    exact h₁.onCharacter code _ fun hnumber => absurd hnumber hzero

theorem Located.openChannel (h : w.Located) (number : Int) :
    (w.openChannel mapKey mapinfo number).Located := by
  refine h.congr (fun _ => ⟨rfl, rfl⟩) fun key found hfound => ?_
  by_cases hkey : key = mapKey
  · simp [World.openChannel, hkey]
  · exact ⟨found, by simpa [World.openChannel, hkey] using hfound⟩

theorem SetMapKey_located (h : w.Located) (code mapkey : Int) :
    Outcome Located (fun _ => True) (w.SetMapKey code mapkey) := by
  rw [SetMapKey_eq]
  refine ((SetChannel_located h code 0).and (SetChannel_requested w code 0)).bind fun w₁ ⟨h₁, _, hset⟩ => ?_
  have hzero : (w₁.characters code).channel = 0 := by rw [hset, onCharacter_self]
  have h₂ := h₁.onCharacter code ({ · with mapKey := mapkey }) fun hnumber =>
    absurd hzero hnumber
  unfold mapKey_post
  split
  · split
    · trivial
    · unfold InsertIntoMap
      cases World.findRoom _ _ _ with
      | error fault => trivial
      | ok room =>
        cases room with
        | some number => exact SetChannel_located h₂ code number
        | none => exact SetChannel_located (h₂.openChannel _) code _
  · exact h₂

theorem On_Read_located (h : w.Located) (code : Int) (request : Request) :
    Outcome Located (fun _ => True) (w.On_Read code request) := by
  unfold On_Read
  split
  · cases request with
    | REQ_ENTER_MAP mapcode => exact SetMapKey_located h code mapcode
    | REQ_ENTER_CHANNEL channel => exact SetChannel_located h code channel
    | REQ_PORTAL gateNumber currentMapCode =>
      dsimp only
      split
      · exact h
      · split
        · exact SetMapKey_located h code _
        · exact h
    | REQ_ESCAPE =>
      dsimp only
      split
      · exact h
      · exact h
  · exact h

theorem disconnect_located (h : w.Located) (code : Int) :
    Outcome Located (fun _ => True) (w.step (.disconnect code)) := by
  unfold step
  dsimp only
  split
  · refine (SetMapKey_located h code 0).bind fun w₁ h₁ => ?_
    refine (SetChannel_located h₁ code 0).bind fun w₂ h₂ => ?_
    exact h₂.onCharacter code ({ · with user := false }) (h₂ code)
  · exact h

theorem PrevTick_located (h : w.Located) (id : Nat) (channel : Channel) :
    Outcome Located (fun _ => True) (w.PrevTick id channel) :=
  PrevTick_keeps (P := Located) h (fun _ _ _ h => h) fun _ code _ h => h.onCharacter code _ (h code)

/-- A character can set its channel to one of its map, or to none. -/
theorem Located.setChannel (h : w.Located) (code number : Int) {target : Option Nat}
    (htarget : if number = 0 then target = none
      else target ≠ none ∧ w.named (w.characters code).mapKey number = target) :
    ∃ w', w.SetChannel code number = .ok w' ∧ w'.assigned code = target := by
  have hprev : ∃ w₁, w.channel_prev code (w.characters code).channel = .ok w₁ := by
    unfold channel_prev
    split
    · rename_i hchannel
      obtain ⟨mapinfo, hmap⟩ := h code hchannel
      rw [hmap]
      dsimp only
      split <;> exact ⟨_, rfl⟩
    · exact ⟨_, rfl⟩
  obtain ⟨w₁, hw₁⟩ := hprev
  obtain ⟨hrequested, hcharacters⟩ := (channel_prev_requested code _).ok hw₁
  have hmaps := hrequested.shape.maps
  have hpost : ∃ w', w.SetChannel code number = .ok w' := by
    rw [SetChannel_eq, hw₁]
    simp only [bind, Except.bind, channel_post]
    split at htarget
    · rename_i hzero
      exact ⟨_, if_neg (not_not.mpr hzero)⟩
    · rename_i hnumber
      obtain ⟨hsome, hnamed⟩ := htarget
      obtain ⟨id, rfl⟩ := Option.ne_none_iff_exists'.mp hsome
      obtain ⟨mapinfo, hmap, hchannel⟩ := Option.bind_eq_some_iff.mp hnamed
      simp [hnumber, hcharacters, hmaps, hmap, hchannel]
  obtain ⟨w', hw'⟩ := hpost
  obtain ⟨hshape, hset⟩ := (SetChannel_requested w code number).ok hw'
  refine ⟨w', hw', ?_⟩
  rw [assigned, hset, onCharacter_self, hshape.shape.maps]
  split at htarget
  · rename_i hzero
    rw [if_pos hzero, htarget]
  · rename_i hnumber
    rw [if_neg hnumber]
    exact htarget.2

/-- What the loop comes to does not depend on requests. -/
theorem Requested.reached {target : Nat → Prop} (h : w.Requested code target w') :
    w'.Reached temp entries entry ↔ w.Reached temp entries entry := by
  simp only [Reached, h.shape.hasRoom h.asked.members]

/-- A channel has a manager once it has begun. -/
theorem exists_manager_iff :
    (∃ cm, w.manager id = some cm) ↔ ∃ key number, w.labels[id]? = some (key, number, true) := by
  cases hget : w.channels[id]? with
  | none => simp [manager, labels, hget]
  | some ch => cases hcm : ch.cm <;> simp [manager, labels, hget, Channel.label, hcm]

theorem Requested.manager {target : Nat → Prop} (h : w.Requested code target w') (id : Nat) :
    (∃ cm, w'.manager id = some cm) ↔ ∃ cm, w.manager id = some cm := by
  rw [exists_manager_iff, h.shape.labels, ← exists_manager_iff]

theorem lookup_of_mem (honce : (entries.map Prod.fst).Nodup) (hentry : entry ∈ entries) :
    entries.lookup entry.1 = some entry.2 := by
  induction entries with
  | nil => cases hentry
  | cons first rest ih =>
    obtain ⟨hnot, hrest⟩ := List.nodup_cons.mp honce
    rw [List.lookup_cons]
    obtain rfl | hin := List.mem_cons.mp hentry
    · simp
    · have hne : entry.1 ≠ first.1 := fun hsame => hnot (hsame ▸ List.mem_map_of_mem hin)
      rw [beq_false_of_ne hne]
      exact ih hrest hin

section Entering

variable (h : w.Located) (hmap : w.maps mapKey = some mapinfo)
  (honce : (mapinfo.channels.map Prod.fst).Nodup)
  (hentries : ∀ entry ∈ mapinfo.channels, 0 < entry.1 ∧
    ∃ begun, w.labels[entry.2]? = some (mapKey, entry.1, begun))
  (hreached : ∀ entry, w.Reached mapinfo.temp mapinfo.channels entry → ∃ cm, w.manager entry.2 = some cm)
include h hmap honce hentries hreached

/-- `MapInfo::InsertCharacter` assigns a channel where every one that its loop comes to has a
manager. -/
theorem Located.insertIntoMap (code : Int) (hself : (w.characters code).mapKey = mapKey) :
    ∃ w' id, w.InsertIntoMap mapKey mapinfo code = .ok w' ∧ w'.assigned code = some id := by
  obtain ⟨room, hroom⟩ := findRoom_ok_iff.mpr hreached
  have hfound := findRoom_ok hroom
  unfold InsertIntoMap
  rw [show w.findRoom ((mapinfo.maxUserCount * 4).tdiv 5) mapinfo.channels = .ok room from hroom]
  cases room with
  | some number =>
    obtain ⟨entry, hfirst, hnumber⟩ := Option.bind_eq_some_iff.mp hfound.symm
    obtain ⟨ch, hget, rfl⟩ := Option.map_eq_some_iff.mp hnumber
    have hin := List.mem_of_find?_eq_some hfirst
    obtain ⟨hpos, begun, hlabel⟩ := hentries entry hin
    rw [labels, List.getElem?_map, hget] at hlabel
    simp only [Option.map_some, Channel.label, Option.some.injEq, Prod.mk.injEq] at hlabel
    have hnamed : w.named (w.characters code).mapKey ch.number = some entry.2 := by
      rw [named, hself, hmap, Option.bind_some, MapInfo.GetChannel, hlabel.2.1]
      exact lookup_of_mem honce hin
    have htarget : if ch.number = 0 then some entry.2 = none
        else some entry.2 ≠ none ∧ w.named (w.characters code).mapKey ch.number = some entry.2 := by
      rw [if_neg (by omega)]
      exact ⟨Option.some_ne_none _, hnamed⟩
    obtain ⟨w', hset, hassigned⟩ := h.setChannel code ch.number htarget
    exact ⟨w', entry.2, hset, hassigned⟩
  | none =>
    have hnumber := mapinfo.unusedNumber_pos
    have hopened : ((w.openChannel mapKey mapinfo mapinfo.unusedNumber).characters code).mapKey = mapKey :=
      hself
    have htarget : if mapinfo.unusedNumber = 0 then some w.channels.length = none
        else some w.channels.length ≠ none ∧ (w.openChannel mapKey mapinfo mapinfo.unusedNumber).named
          ((w.openChannel mapKey mapinfo mapinfo.unusedNumber).characters code).mapKey
          mapinfo.unusedNumber = some w.channels.length := by
      rw [if_neg (by omega), hopened]
      exact ⟨Option.some_ne_none _, named_openChannel⟩
    obtain ⟨w', hset, hassigned⟩ := (h.openChannel mapinfo.unusedNumber).setChannel code _ htarget
    exact ⟨w', _, hset, hassigned⟩

/-- A character that sets its map to one of these ends in a channel. -/
theorem Located.setMapKey (hkey : mapKey ≠ 0) (code : Int) :
    ∃ w' id, w.SetMapKey code mapKey = .ok w' ∧ w'.assigned code = some id := by
  obtain ⟨w₁, hw₁, _⟩ := @Located.setChannel w h code 0 none (by simp)
  obtain ⟨hleft, hset⟩ := (SetChannel_requested w code 0).ok hw₁
  have hzero : (w₁.characters code).channel = 0 := by rw [hset, onCharacter_self]
  have h₂ := ((SetChannel_located h code 0).ok hw₁).onCharacter code
    ({ · with mapKey := mapKey }) fun hnumber => absurd hzero hnumber
  have hmoved := hleft.trans (requested_onCharacter (f := ({ · with mapKey := mapKey })) code)
  have hmap₂ := hmoved.shape.maps ▸ hmap
  have hentries₂ := hmoved.shape.labels ▸ hentries
  obtain ⟨w', id, hw', hassigned⟩ := h₂.insertIntoMap hmap₂ honce hentries₂
    (fun entry hin => (hmoved.manager entry.2).mpr (hreached entry (hmoved.reached.mp hin))) code (by simp)
  refine ⟨w', id, ?_, hassigned⟩
  rw [SetMapKey_eq, hw₁]
  simpa only [bind, Except.bind, mapKey_post, if_pos hkey, hmap₂] using hw'

end Entering

/-- The call does not end where the loop comes to a channel without a manager. -/
theorem manager_of_SetMapKey (hkey : mapKey ≠ 0) (hmap : w.maps mapKey = some mapinfo)
    (hset : w.SetMapKey code mapKey = .ok w') (hreached : w.Reached mapinfo.temp mapinfo.channels entry) :
    ∃ cm, w.manager entry.2 = some cm := by
  rw [SetMapKey_eq] at hset
  obtain ⟨w₁, hleave, hpost⟩ := Outcome.bind_eq_ok_iff.mp hset
  have hmoved := ((leave_requested w code).ok hleave).trans
    (requested_onCharacter (f := ({ · with mapKey := mapKey })) code)
  have hmap₂ := hmoved.shape.maps ▸ hmap
  simp only [mapKey_post, if_pos hkey, hmap₂, InsertIntoMap] at hpost
  obtain ⟨room, hroom, _⟩ := Outcome.bind_eq_ok_iff.mp hpost
  have hall := findRoom_ok_iff.mp ⟨room, hroom⟩ entry (hmoved.reached.mpr hreached)
  exact (hmoved.manager entry.2).mp hall

end World

namespace Game

variable {τ : Type} {g g₀ : Game τ} {events : List (GameEvent τ)} {mapKey : Int} {mapinfo : MapInfo}

/-- A weak pointer to the channel has not expired, and the channel is not destroyed. -/
def IsLive (g : Game τ) (id : Nat) : Prop :=
  (∃ ch, g.now.channels[id]? = some ch) ∧ (g.components id).released = false ∧
    (g.components id).state ≠ .Destroy

theorem Listed.isLive (h : g.Listed) (hmap : g.now.maps mapKey = some mapinfo) {entry : Int × Nat}
    (hentry : entry ∈ mapinfo.channels) : g.IsLive entry.2 := by
  obtain ⟨_, hstate, begun, hlabel⟩ := h.entries mapKey mapinfo entry hmap hentry
  rw [World.labels, List.getElem?_map] at hlabel
  obtain ⟨ch, hget, _⟩ := Option.map_eq_some_iff.mp hlabel
  refine ⟨⟨ch, hget⟩, ?_, hstate⟩
  by_contra hreleased
  exact hstate (h.destroyed entry.2 (by simpa using hreleased))

/-- A channel in a map has a manager after its first update. -/
theorem Listed.manager_iff (h : g.Listed) (hmap : g.now.maps mapKey = some mapinfo) {entry : Int × Nat}
    (hentry : entry ∈ mapinfo.channels) :
    (∃ cm, g.now.manager entry.2 = some cm) ↔ (g.components entry.2).state ≠ .Create := by
  obtain ⟨_, hstate, begun, hlabel⟩ := h.entries mapKey mapinfo entry hmap hentry
  have hbegun := h.begun entry.2 mapKey entry.1 begun hlabel hstate
  rw [World.exists_manager_iff, hlabel]
  cases hcomponent : (g.components entry.2).state <;> simp_all

theorem updateChannel_located (h : g.now.Located) (id : Nat) :
    Outcome (fun g => g.now.Located) (fun _ => True) (g.updateChannel id) := by
  unfold updateChannel
  split
  · exact h
  · rename_i channel _
    split
    · exact h
    · exact (World.PrevTick_located h id channel).bind fun w hw => hw
    · split
      · exact h
      · refine h.congr (fun code => ?_) fun key found hfound => ⟨found, hfound⟩
        dsimp only [Remove, World.expire]
        split <;> exact ⟨rfl, rfl⟩

variable [Add τ] [LE τ] [DecidableLE τ] [OfNat τ 0] [OfNat τ 60]

theorem tickMap_located (h : g.now.Located) (mapKey : Int) (delta : τ) :
    (g.tickMap mapKey delta).now.Located := by
  unfold tickMap
  split
  · exact h
  · rename_i mapinfo hmap
    refine h.congr (fun _ => ⟨rfl, rfl⟩) fun key found hfound => ?_
    by_cases hkey : key = mapKey
    · simp [hkey]
    · exact ⟨found, by simpa [hkey] using hfound⟩

theorem step_located (h : g.now.Located) (e : GameEvent τ) :
    Outcome (fun g => g.now.Located) (fun _ => True) (g.step e) := by
  cases e with
  | tickMap mapKey delta => exact tickMap_located h mapKey delta
  | step e =>
    cases e with
    | request code request => exact (World.On_Read_located h code request).bind fun w hw => hw
    | closeSession code => exact h.onCharacter code ({ · with session := false }) (h code)
    | disconnect code => exact (World.disconnect_located h code).bind fun w hw => hw
    | updateChannel id => exact updateChannel_located h id
    | tickManager id =>
      unfold step
      dsimp only
      split
      · unfold World.tickManager
        split
        · exact h
        · dsimp only
          split
          · trivial
          · exact h
      · exact h

theorem run_located (hstart : g₀.Start) (hrun : Run (OfOption next) g₀ events g) : g.now.Located := by
  apply hrun.invariant
  · exact fun code hcode => absurd (hstart.start.outside code).1 hcode
  · exact fun a e b ha hnext => (step_located ha e).toOption hnext

/-- In every state of every run the entries of a map are live channels. A character that
sets its map to it meets a manager in each channel that the loop of
`MapInfo::InsertCharacter` comes to, and ends in a channel, exactly where each of these
channels has had its first update. -/
theorem run_admission_ends_iff (hstart : g₀.Start) (hrun : Run (OfOption next) g₀ events g)
    (hkey : mapKey ≠ 0) (hmap : g.now.maps mapKey = some mapinfo) (code : Int) :
    (∀ entry ∈ mapinfo.channels, g.IsLive entry.2) ∧
      ((∀ entry, g.now.Visits mapinfo entry → ∃ cm, g.now.manager entry.2 = some cm) ↔
        ∀ entry, g.now.Visits mapinfo entry → (g.components entry.2).state ≠ .Create) ∧
      ((∃ w id, g.now.SetMapKey code mapKey = .ok w ∧ w.assigned code = some id) ↔
        ∀ entry, g.now.Visits mapinfo entry → (g.components entry.2).state ≠ .Create) := by
  have hlisted := run_listed hstart hrun
  have hmanagers : ∀ entry, g.now.Visits mapinfo entry →
      ((∃ cm, g.now.manager entry.2 = some cm) ↔ (g.components entry.2).state ≠ .Create) := by
    rintro entry ⟨before, after, hsplit, _⟩
    exact hlisted.manager_iff hmap (hsplit ▸ List.mem_append_right _ List.mem_cons_self)
  have hall : (∀ entry, g.now.Visits mapinfo entry → ∃ cm, g.now.manager entry.2 = some cm) ↔
      ∀ entry, g.now.Visits mapinfo entry → (g.components entry.2).state ≠ .Create :=
    forall_congr' fun entry => forall_congr' fun hreached => hmanagers entry hreached
  refine ⟨fun entry hentry => hlisted.isLive hmap hentry, hall, ?_⟩
  rw [← hall]
  constructor
  · rintro ⟨w, _, hset, _⟩ entry hreached
    exact World.manager_of_SetMapKey hkey hmap hset hreached
  · intro hreached
    refine (run_located hstart hrun).setMapKey hmap (hlisted.once mapKey mapinfo hmap) ?_ hreached hkey code
    intro entry hentry
    obtain ⟨hpos, _, hlabel⟩ := hlisted.entries mapKey mapinfo entry hmap hentry
    exact ⟨hpos, hlabel⟩

/-- Two maps without channels. -/
def emptyMaps : Game Nat := ⟨World.twoMaps, fun _ => ⟨.Create, 0, false⟩⟩

theorem emptyMaps_start : emptyMaps.Start := by
  refine ⟨World.twoMaps_start, fun mapKey mapinfo hmap => ?_, fun _ => rfl⟩
  obtain ⟨_, hinfo⟩ := Option.ite_none_right_eq_some.mp hmap
  obtain rfl := Option.some.inj hinfo
  rfl

/-- The second of two characters, which enters a map after the update that begins the
channel of the first one. -/
theorem second_character_assigned :
    ∃ g w id, Run (OfOption next) emptyMaps
        [.step (.request 7 (.REQ_ENTER_MAP 1)), .step (.updateChannel 0)] g ∧
      g.now.SetMapKey 8 1 = .ok w ∧ w.assigned 8 = some id := by
  have hfold : ([.step (.request 7 (.REQ_ENTER_MAP 1)), .step (.updateChannel 0)].foldlM next emptyMaps).map
      (fun g => (g.now.maps 1, (g.components 0).state)) = some (some ⟨1, 10, [(1, 0)], []⟩, .Alive) := by
    decide +kernel
  obtain ⟨g, hg, hseen⟩ := Option.map_eq_some_iff.mp hfold
  obtain ⟨hmap, hstate⟩ := Prod.mk.inj hseen
  have hrun := run_ofOption_iff.mpr hg
  obtain ⟨w, id, hset, hassigned⟩ :=
    (run_admission_ends_iff emptyMaps_start hrun (by decide) hmap 8).2.2.mpr (by
      rintro entry ⟨before, after, hsplit, _⟩
      have hentry : entry ∈ before ++ entry :: after := List.mem_append_right _ List.mem_cons_self
      rw [← hsplit] at hentry
      obtain rfl := List.mem_singleton.mp hentry
      simp [hstate])
  exact ⟨g, w, id, hrun, hset, hassigned⟩

/-- The second of two characters that enter an empty map within a frame finds a channel
without a manager. -/
theorem second_character_meets_no_manager :
    ∃ g, Run (OfOption next) emptyMaps [.step (.request 7 (.REQ_ENTER_MAP 1))] g ∧
      g.now.SetMapKey 8 1 = .error .nullManager := by
  have hfold : ([.step (.request 7 (.REQ_ENTER_MAP 1))].foldlM next emptyMaps).map
      (fun g => match g.now.SetMapKey 8 1 with
        | .ok _ => none
        | .error fault => some fault) = some (some .nullManager) := by
    decide +kernel
  obtain ⟨g, hg, hfault⟩ := Option.map_eq_some_iff.mp hfold
  refine ⟨g, run_ofOption_iff.mpr hg, ?_⟩
  split at hfault
  · cases hfault
  · rename_i fault hset
    rw [hset, Option.some.inj hfault]

end Game

end AsioGameServer.world

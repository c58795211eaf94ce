import AsioGameServer.World.Moves
import AsioGameServer.World.Tick

open Function

namespace AsioGameServer.world

/-- What requests and ticks leave alone in a channel: its map, its number, and whether
it has begun. -/
def Channel.label (ch : Channel) : Int × Int × Bool := (ch.mapCode, ch.number, ch.cm.isSome)

/-- The value of `temp` in `MapInfo::InsertCharacter`. -/
def MapInfo.temp (mapinfo : MapInfo) : Int := (mapinfo.maxUserCount * 4).tdiv 5

namespace World

variable {w w' w'' : World} {code number mapKey : Int} {id : Nat} {mapinfo : MapInfo}

/-- The labels of all channels of a world, in the order in which the channels were opened. -/
def labels (w : World) : List (Int × Int × Bool) := w.channels.map Channel.label

/-- Two worlds have the same maps and, but for their requests and characters, the same
channels. -/
structure SameShape (w w' : World) : Prop where
  maps : w'.maps = w.maps
  labels : w'.labels = w.labels

theorem SameShape.refl (w : World) : w.SameShape w := ⟨rfl, rfl⟩

theorem SameShape.trans (h : w.SameShape w') (h' : w'.SameShape w'') : w.SameShape w'' :=
  ⟨h'.maps.trans h.maps, h'.labels.trans h.labels⟩

/-- Worlds of the same shape have the same channels: a number below the length names one in both
or in neither. -/
theorem SameShape.length (h : w.SameShape w') : w'.channels.length = w.channels.length := by
  simpa [World.labels] using congrArg List.length h.labels

/-- A channel has the same label in two worlds of the same shape, and is missing from both where
it is missing from one. -/
theorem SameShape.getElem? (h : w.SameShape w') (id : Nat) :
    (w'.channels[id]?).map Channel.label = (w.channels[id]?).map Channel.label := by
  rw [← List.getElem?_map, ← List.getElem?_map]
  exact congrArg (·[id]?) h.labels

/-- A change of one channel that leaves its label alone, such as a new request in one of its
lists, leaves the shape of the world. -/
theorem sameShape_onChannel {f : Channel → Channel} (hf : ∀ ch, (f ch).label = ch.label) :
    w.SameShape (w.onChannel id f) := by
  refine ⟨rfl, List.ext_getElem? fun other => ?_⟩
  simp only [World.labels, onChannel, List.getElem?_map, List.getElem?_modify]
  cases w.channels[other]? with
  | none => rfl
  | some ch =>
    by_cases hsame : id = other
    · simp [hsame, hf]
    · simp [hsame]

/-- What a character is set to is no part of the shape, which is only about maps and channels. -/
theorem sameShape_onCharacter {f : Character → Character} (code : Int) :
    w.SameShape (w.onCharacter code f) :=
  ⟨rfl, rfl⟩

/-- What the requests of one character change: its inserts are new only where it asks to
be let in, and no erase is taken back. -/
structure Asked (code : Int) (target : Nat → Prop) (w w' : World) : Prop where
  members : w'.roster.members = w.roster.members
  erases : ∀ id c, c ∈ w.roster.erases id → c ∈ w'.roster.erases id
  inserts : ∀ id c, c ∈ w'.roster.inserts id → c ∈ w.roster.inserts id ∨ c = code ∧ target id

variable {target : Nat → Prop}

theorem Asked.refl (w : World) : Asked code target w w := ⟨rfl, fun _ _ h => h, fun _ _ h => .inl h⟩

/-- What a character asks for in one world and in the one after it adds up. An insert of the
second that is not new was one of the first. -/
theorem Asked.trans (h : Asked code target w w') (h' : Asked code target w' w'') :
    Asked code target w w'' := by
  refine ⟨h'.members.trans h.members, fun id c hc => h'.erases id c (h.erases id c hc), fun id c hc => ?_⟩
  exact (h'.inserts id c hc).elim (h.inserts id c) .inr

/-- A request that asks to be let in somewhere also does so among more channels. This brings the
branches of a request to one target. -/
theorem Asked.mono {wider : Nat → Prop} (h : Asked code target w w') (hwider : ∀ id, target id → wider id) :
    Asked code wider w w' :=
  ⟨h.members, h.erases, fun id c hc => (h.inserts id c hc).imp_right fun hin => ⟨hin.1, hwider id hin.2⟩⟩

/-- A change of a channel that was never opened changes nothing. -/
theorem onChannel_of_none {f : Channel → Channel} (hget : w.channels[id]? = none) :
    w.onChannel id f = w := by
  have hunchanged : w.channels.modify id f = w.channels :=
    List.modify_eq_self (List.getElem?_eq_none_iff.mp hget)
  rw [onChannel, hunchanged]

/-- `Channel::Async_EraseCharacter` adds an erase and takes none back. No insert comes of it, so
it is allowed for whatever target. -/
theorem asked_Async_EraseCharacter (id : Nat) (c : Int) :
    w.Asked code target (w.onChannel id (·.Async_EraseCharacter c)) := by
  cases hget : w.channels[id]? with
  | none => exact (onChannel_of_none hget).symm ▸ .refl w
  | some ch =>
    have hroster := @roster_Async_EraseCharacter w c id ch hget
    refine ⟨by rw [hroster], fun other d hd => ?_, fun other d hd => ?_⟩
    · rw [hroster]
      by_cases hsame : other = id
      · subst hsame
        simp [hd]
      · simpa [update_of_ne hsame] using hd
    · rw [hroster] at hd
      exact .inl hd

/-- `Channel::Async_InsertCharacter` makes the one insert that its caller asks for, in the channel
that it is called on. -/
theorem asked_Async_InsertCharacter (id : Nat) :
    w.Asked code (· = id) (w.onChannel id (·.Async_InsertCharacter code)) := by
  cases hget : w.channels[id]? with
  | none => exact (onChannel_of_none hget).symm ▸ .refl w
  | some ch =>
    have hroster := @roster_Async_InsertCharacter w code id ch hget
    refine ⟨by rw [hroster], fun other d hd => by rwa [hroster], fun other d hd => ?_⟩
    rw [hroster] at hd
    by_cases hsame : other = id
    · subst hsame
      simpa using hd
    · exact .inl (by simpa [update_of_ne hsame] using hd)

/-- The requests are kept by the channels, so that a change of a character asks for nothing. -/
theorem asked_onCharacter {f : Character → Character} (other : Int) :
    w.Asked code target (w.onCharacter other f) :=
  ⟨rfl, fun _ _ h => h, fun _ _ h => .inl h⟩

/-- What a request changes that opens no channel. -/
structure Requested (code : Int) (target : Nat → Prop) (w w' : World) : Prop where
  shape : w.SameShape w'
  asked : w.Asked code target w'

theorem Requested.refl (w : World) : Requested code target w w := ⟨.refl w, .refl w⟩

theorem Requested.trans (h : w.Requested code target w') (h' : w'.Requested code target w'') :
    w.Requested code target w'' :=
  ⟨h.shape.trans h'.shape, h.asked.trans h'.asked⟩

theorem Requested.mono {wider : Nat → Prop} (h : w.Requested code target w')
    (hwider : ∀ id, target id → wider id) : w.Requested code wider w' :=
  ⟨h.shape, h.asked.mono hwider⟩

/-- A change of a character alone is what a request may do, whatever it asks for. -/
theorem requested_onCharacter {f : Character → Character} (other : Int) :
    w.Requested code target (w.onCharacter other f) :=
  ⟨sameShape_onCharacter other, asked_onCharacter other⟩

/-- The channel that a number names in a map. -/
def named (w : World) (mapKey number : Int) : Option Nat := (w.maps mapKey).bind (·.GetChannel number)

/-- The handler that runs before `channel` changes only takes the character out of the channel it
is in: it lets it into none, and leaves all characters as they are. -/
theorem channel_prev_requested (code channel : Int) :
    Outcome (fun w' => w.Requested code (fun _ => False) w' ∧ w'.characters = w.characters) (fun _ => True)
      (w.channel_prev code channel) := by
  unfold channel_prev
  split
  · split
    · trivial
    · split
      · exact ⟨⟨sameShape_onChannel fun _ => rfl, asked_Async_EraseCharacter _ _⟩, rfl⟩
      · exact ⟨.refl w, rfl⟩
  · exact ⟨.refl w, rfl⟩

/-- The handler that runs after `channel` has changed asks to let the character into the channel
of its map that has the number, unless the number is 0. -/
theorem channel_post_requested (code key : Int) :
    Outcome (fun w' =>
      w.Requested code (fun id => key ≠ 0 ∧ w.named (w.characters code).mapKey key = some id) w' ∧
      w'.characters = w.characters) (fun _ => True) (w.channel_post code key) := by
  unfold channel_post
  split
  · rename_i hkey
    split
    · trivial
    · rename_i mapinfo hmap
      split
      · rename_i id hget
        have hrequested : w.Requested code (· = id) (w.onChannel id (·.Async_InsertCharacter code)) :=
          ⟨sameShape_onChannel fun _ => rfl, asked_Async_InsertCharacter id⟩
        refine ⟨hrequested.mono ?_, rfl⟩
        rintro _ rfl
        exact ⟨hkey, by rw [named, hmap, Option.bind_some, hget]⟩
      · trivial
  · exact ⟨.refl w, rfl⟩

/-- A character that sets its channel asks to be let into the one that its map has under
the number, and into none with 0. -/
theorem SetChannel_requested (w : World) (code number : Int) :
    Outcome (fun w' =>
      w.Requested code (fun id => number ≠ 0 ∧ w.named (w.characters code).mapKey number = some id) w' ∧
      w'.characters = (w.onCharacter code ({ · with channel := number })).characters) (fun _ => True)
      (w.SetChannel code number) := by
  rw [SetChannel_eq]
  refine (channel_prev_requested code _).bind fun w₁ h₁ => ?_
  obtain ⟨hprev, hcharacters⟩ := h₁
  have hset : (w₁.onCharacter code ({ · with channel := number })).characters =
      (w.onCharacter code ({ · with channel := number })).characters := by
    simp only [onCharacter, hcharacters]
  refine (channel_post_requested code number).imp (fun w' h => ⟨?_, h.2.trans hset⟩) fun _ => id
  refine .trans (.trans (hprev.mono fun _ hno => hno.elim) (requested_onCharacter code))
    (h.1.mono fun id hid => ⟨hid.1, ?_⟩)
  have hnamed := hid.2
  rw [hset, onCharacter_self] at hnamed
  simpa [named, hprev.shape.maps] using hnamed

/-- `MapInfo::InsertCharacter` finds room in a channel that has begun and has fewer than
`temp` characters. -/
def hasRoom (w : World) (temp : Int) (id : Nat) : Bool :=
  (w.manager id).any fun cm => decide ((cm.characters.length : Int) < temp)

/-- The first channel of a map that has room. -/
def firstRoom (w : World) (mapinfo : MapInfo) : Option (Int × Nat) :=
  mapinfo.channels.find? fun entry => w.hasRoom mapinfo.temp entry.2

/-- The loop of `MapInfo::InsertCharacter` over the channels of a map, where it comes to an end:
it answers with the number of the first channel with room, and with none if there is no such
channel. -/
theorem findRoom_ok {temp : Int} {entries : List (Int × Nat)} {room : Option Int}
    (h : w.findRoom temp entries = .ok room) :
    room = (entries.find? fun entry => w.hasRoom temp entry.2).bind fun entry =>
      (w.channels[entry.2]?).map Channel.number := by
  induction entries with
  | nil => exact (Except.ok.inj h).symm
  | cons entry rest ih =>
    unfold findRoom at h
    cases hget : w.channels[entry.2]? with
    | none => simp [hget] at h
    | some channel =>
      cases hcm : channel.cm with
      | none => simp [hget, hcm] at h
      | some cm =>
        have hroom : w.hasRoom temp entry.2 = decide ((cm.characters.length : Int) < temp) := by
          simp [hasRoom, manager, hget, hcm]
        simp only [hget, hcm] at h
        by_cases hless : (cm.characters.length : Int) < temp
        · rw [if_pos hless] at h
          rw [List.find?_cons_of_pos (by simpa [hroom] using hless), Option.bind_some, hget]
          exact (Except.ok.inj h).symm
        · rw [if_neg hless] at h
          rw [List.find?_cons_of_neg (by simpa [hroom] using hless)]
          exact ih h

/-- The channels that a character may be let into when it enters a map: the first one with
room, or a new one. -/
def Admitting (w : World) (mapKey : Int) (id : Nat) : Prop :=
  ∃ mapinfo, w.maps mapKey = some mapinfo ∧ (id = w.channels.length ∨
    ∃ entry ch, w.firstRoom mapinfo = some entry ∧ w.channels[entry.2]? = some ch ∧
      mapinfo.GetChannel ch.number = some id)

/-- A world in which a channel may have been opened in some map. -/
def Opened (w w' : World) : Prop :=
  w.SameShape w' ∨ ∃ mapKey mapinfo, w.maps mapKey = some mapinfo ∧
    (w.openChannel mapKey mapinfo mapinfo.unusedNumber).SameShape w'

/-- A channel that was just opened has no members and no requests. -/
theorem asked_openChannel : w.Asked code target (w.openChannel mapKey mapinfo number) := by
  have hfields : (w.openChannel mapKey mapinfo number).roster.members = w.roster.members ∧
      (w.openChannel mapKey mapinfo number).roster.erases = w.roster.erases ∧
      (w.openChannel mapKey mapinfo number).roster.inserts = w.roster.inserts :=
    ⟨elim_openChannel rfl, elim_openChannel rfl, elim_openChannel rfl⟩
  refine ⟨hfields.1, fun id c hc => ?_, fun id c hc => .inl ?_⟩
  · rwa [hfields.2.1]
  · rwa [hfields.2.2] at hc

/-- A new channel comes last, under the number it was opened with, and has not begun. -/
theorem labels_openChannel (number : Int) :
    (w.openChannel mapKey mapinfo number).labels = w.labels ++ [(mapinfo.mapCode, number, false)] := by
  simp [labels, openChannel, Channel.label, Channel.new]

/-- The free number that a map finds for a new channel names this channel from then on. -/
theorem named_openChannel :
    (w.openChannel mapKey mapinfo mapinfo.unusedNumber).named mapKey mapinfo.unusedNumber =
      some w.channels.length := by
  simp [named, openChannel, MapInfo.GetChannel,
    MapInfo.lookup_insertChannel _ _ mapinfo.unusedNumber_not_mem]

/-- `MapInfo::InsertCharacter` asks to let the character into the first channel with room, or
opens one and asks to let it in there. The map that `SetChannel` looks the number up in is the
same one, since the character was set to it before. -/
theorem InsertIntoMap_requested (hmap : w.maps mapKey = some mapinfo)
    (hcode : (w.characters code).mapKey = mapKey) :
    Outcome (fun w' => w.Opened w' ∧ w.Asked code (w.Admitting mapKey) w') (fun _ => True)
      (w.InsertIntoMap mapKey mapinfo code) := by
  unfold InsertIntoMap
  cases hroom : w.findRoom ((mapinfo.maxUserCount * 4).tdiv 5) mapinfo.channels with
  | error fault => trivial
  | ok room =>
    have hfound := findRoom_ok hroom
    cases room with
    | some number =>
      refine (SetChannel_requested w code number).imp (fun w' h => ?_) fun _ => id
      refine ⟨.inl h.1.shape, h.1.asked.mono fun id hid => ⟨mapinfo, hmap, .inr ?_⟩⟩
      obtain ⟨entry, hfirst, hnumber⟩ := Option.bind_eq_some_iff.mp hfound.symm
      obtain ⟨ch, hget, rfl⟩ := Option.map_eq_some_iff.mp hnumber
      refine ⟨entry, ch, hfirst, hget, ?_⟩
      simpa [named, hcode, hmap] using hid.2
    | none =>
      refine (SetChannel_requested _ code _).imp (fun w' h => ?_) fun _ => id
      refine ⟨.inr ⟨mapKey, mapinfo, hmap, h.1.shape⟩,
        asked_openChannel.trans (h.1.asked.mono fun id hid => ⟨mapinfo, hmap, .inl ?_⟩)⟩
      have hnamed := hid.2
      have hopened : ((w.openChannel mapKey mapinfo mapinfo.unusedNumber).characters code).mapKey = mapKey :=
        hcode
      rw [hopened, named_openChannel] at hnamed
      exact (Option.some.inj hnamed).symm

section Shape

variable (hshape : w.SameShape w')
include hshape

/-- The same channel can be opened in two worlds of the same shape. -/
theorem SameShape.openChannel (number : Int) :
    (w.openChannel mapKey mapinfo number).SameShape (w'.openChannel mapKey mapinfo number) := by
  have hmaps := hshape.maps
  have hlabels := hshape.labels
  have hlength := hshape.length
  refine ⟨?_, ?_⟩
  · simp only [World.openChannel, hmaps, hlength]
  · simp only [World.labels] at hlabels
    simp only [World.labels, World.openChannel, List.map_append, hlabels]

/-- Whether a channel has room depends on whether it has begun and on its members. -/
theorem SameShape.hasRoom (hmembers : w'.roster.members = w.roster.members) (temp : Int) (id : Nat) :
    w'.hasRoom temp id = w.hasRoom temp id := by
  have hlabel := hshape.getElem? id
  have hlist := congrFun hmembers id
  simp only [roster] at hlist
  cases hget : w.channels[id]? with
  | none =>
    rw [hget, Option.map_none, Option.map_eq_none_iff] at hlabel
    simp [World.hasRoom, manager, hget, hlabel]
  | some ch =>
    rw [hget, Option.map_some] at hlabel
    obtain ⟨ch', hget', hsame⟩ := Option.map_eq_some_iff.mp hlabel
    simp only [Channel.label, Prod.mk.injEq] at hsame
    simp only [hget, hget', Option.elim_some, Channel.members] at hlist
    cases hcm : ch.cm <;> cases hcm' : ch'.cm <;> simp_all [World.hasRoom, manager]

end Shape

/-- What a character may be let into does not depend on requests. -/
theorem Requested.admitting (h : w.Requested code target w') (hadmitting : w'.Admitting mapKey id) :
    w.Admitting mapKey id := by
  obtain ⟨mapinfo, hmap, hid⟩ := hadmitting
  rw [h.shape.maps] at hmap
  refine ⟨mapinfo, hmap, hid.imp (fun hnew => hnew.trans h.shape.length) ?_⟩
  rintro ⟨entry, ch, hfirst, hget, hchannel⟩
  have hlabel := h.shape.getElem? entry.2
  rw [hget, Option.map_some] at hlabel
  obtain ⟨old, hold, hsame⟩ := Option.map_eq_some_iff.mp hlabel.symm
  simp only [Channel.label, Prod.mk.injEq] at hsame
  refine ⟨entry, old, ?_, hold, hsame.2.1 ▸ hchannel⟩
  simpa only [firstRoom, h.shape.hasRoom h.asked.members] using hfirst

/-- What a request changes may follow on what another one does. -/
theorem Requested.opened (h : w.Requested code (fun _ => False) w')
    (hopened : w'.Opened w'' ∧ w'.Asked code (w'.Admitting mapKey) w'') :
    w.Opened w'' ∧ w.Asked code (w.Admitting mapKey) w'' := by
  refine ⟨?_, .trans (h.asked.mono fun _ hno => hno.elim) (hopened.2.mono fun _ => h.admitting)⟩
  obtain hsame | ⟨key, mapinfo, hmap, hnew⟩ := hopened.1
  · exact .inl (h.shape.trans hsame)
  · exact .inr ⟨key, mapinfo, h.shape.maps ▸ hmap, (h.shape.openChannel _).trans hnew⟩

/-- A character that sets its channel to 0 asks to be let in nowhere. -/
theorem leave_requested (w : World) (code : Int) :
    Outcome (w.Requested code fun _ => False) (fun _ => True) (w.SetChannel code 0) :=
  (SetChannel_requested w code 0).imp (fun _ h => h.1.mono fun _ hno => absurd rfl hno.1) fun _ => id

/-- `Character::SetMapKey` takes the character out of its channel first. What it may be let into
is therefore the same before and after that. -/
theorem SetMapKey_requested (w : World) (code mapkey : Int) :
    Outcome (fun w' => w.Opened w' ∧ w.Asked code (w.Admitting mapkey) w') (fun _ => True)
      (w.SetMapKey code mapkey) := by
  rw [SetMapKey_eq]
  refine (leave_requested w code).bind fun w₁ hleft => ?_
  have hmoved := hleft.trans (requested_onCharacter (f := ({ · with mapKey := mapkey })) code)
  unfold mapKey_post
  split
  · split
    · trivial
    · rename_i mapinfo hmap
      exact (InsertIntoMap_requested hmap (by simp)).imp (fun w' h => hmoved.opened h) fun _ => id
  · exact ⟨.inl hmoved.shape, hmoved.asked.mono fun _ hno => hno.elim⟩

/-- A character that enters no map leaves its channel. -/
theorem SetMapKey_zero_requested (w : World) (code : Int) :
    Outcome (w.Requested code fun _ => False) (fun _ => True) (w.SetMapKey code 0) := by
  rw [SetMapKey_eq]
  refine (leave_requested w code).bind fun w₁ hleft => ?_
  exact hleft.trans (requested_onCharacter code)

/-- The same for a target that has every channel the map may let the character into. With the map
0, no such channel is asked for. -/
theorem SetMapKey_asks {mapkey : Int} (htarget : mapkey ≠ 0 → ∀ id, w.Admitting mapkey id → target id) :
    Outcome (fun w' => w.Opened w' ∧ w.Asked code target w') (fun _ => True) (w.SetMapKey code mapkey) := by
  by_cases hmapkey : mapkey = 0
  · subst hmapkey
    refine (SetMapKey_zero_requested w code).imp (fun w' h => ⟨.inl h.shape, ?_⟩) fun _ => id
    exact h.asked.mono fun _ hno => hno.elim
  · exact (SetMapKey_requested w code mapkey).imp
      (fun w' h => ⟨h.1, h.2.mono (htarget hmapkey)⟩) fun _ => id

/-- A user that is destroyed sets its map and its channel to 0, so that no insert of its character
is left behind by that. -/
theorem destroyUser_requested (w : World) (code : Int) :
    Outcome (w.Requested code fun _ => False) (fun _ => True) (w.destroyUser code) := by
  refine (SetMapKey_zero_requested w code).bind fun w₁ h₁ => ?_
  refine (leave_requested w₁ code).bind fun w₂ h₂ => ?_
  exact (h₁.trans h₂).trans (requested_onCharacter code)

/-- A session that is closed asks for nothing but erases, whether or not it had a character. -/
theorem disconnect_requested (w : World) (code : Int) :
    Outcome (w.Requested code fun _ => False) (fun _ => True) (w.step (.disconnect code)) := by
  unfold step
  dsimp only
  split
  · exact destroyUser_requested w code
  · exact .refl w

/-- The map that a request of a character enters. -/
def entered (w : World) (code : Int) : Request → Option Int
  | .REQ_ENTER_MAP mapcode => if mapcode ≠ 0 then some mapcode else none
  | .REQ_PORTAL gateNumber currentMapCode =>
    ((w.maps (w.characters code).mapKey).bind (·.GetPortal gateNumber)).filter fun destCode =>
      destCode ≠ currentMapCode ∧ destCode ≠ 0
  | _ => none

/-- The channels that a request asks to let the character in: the one it names, or one of
the map it enters. -/
def Asks (w : World) (code : Int) : Request → Nat → Prop
  | .REQ_ENTER_CHANNEL channel, id => channel ≠ 0 ∧ w.named (w.characters code).mapKey channel = some id
  | request, id => ∃ mapKey, w.entered code request = some mapKey ∧ w.Admitting mapKey id

/-- What one request of a client may change: at most one channel is opened, and the character asks
to be let in only where the request says. -/
theorem On_Read_requested (w : World) (code : Int) (request : Request) :
    Outcome (fun w' => w.Opened w' ∧ w.Asked code (w.Asks code request) w') (fun _ => True)
      (w.On_Read code request) := by
  have hidle : w.Opened w ∧ w.Asked code (w.Asks code request) w := ⟨.inl (.refl w), .refl w⟩
  unfold On_Read
  split
  · cases request with
    | REQ_ENTER_MAP mapcode =>
      refine SetMapKey_asks fun hmapcode id hid => ⟨mapcode, ?_, hid⟩
      rw [entered, if_pos hmapcode]
    | REQ_ENTER_CHANNEL channel =>
      exact (SetChannel_requested w code channel).imp (fun w' h => ⟨.inl h.1.shape, h.1.asked⟩) fun _ => id
    | REQ_PORTAL gateNumber currentMapCode =>
      dsimp only
      split
      · exact hidle
      · rename_i destCode hportal
        split
        · rename_i hother
          refine SetMapKey_asks fun hdest id hid => ⟨destCode, ?_, hid⟩
          simp [entered, hportal, hother, hdest]
        · exact hidle
    | REQ_ESCAPE =>
      dsimp only
      split
      · exact hidle
      · rename_i channel _
        have hroster : (w.onChannel channel (·.Async_Func code)).roster = w.roster :=
          roster_onChannel_same fun _ _ => ⟨rfl, rfl, rfl⟩
        refine ⟨.inl (sameShape_onChannel fun _ => rfl), ?_⟩
        refine ⟨by rw [hroster], fun id c hc => by rwa [hroster], fun id c hc => .inl ?_⟩
        rwa [hroster] at hc
  · exact hidle

/-- The members of a channel are no part of its label, and a manager that is there stays there. -/
theorem sameShape_onManager (f : CharacterManager → CharacterManager) : w.SameShape (w.onManager id f) :=
  sameShape_onChannel fun ch => by simp [Channel.label]

/-- A tick of a channel clears its requests and changes managers and back pointers. -/
theorem PrevTick_keeps {P : World → Prop} {channel : Channel} (hcleared : P (w.onChannel id Channel.clear))
    (hmanager : ∀ w id f, P w → P (w.onManager id f))
    (hpointer : ∀ w code owner, P w → P (w.onCharacter code ({ · with cm := owner }))) :
    Outcome P (fun _ => True) (w.PrevTick id channel) := by
  refine (Outcome.foldlM_keeps hcleared fun w₁ key _ h => ?_).bind fun w₁ h₁ => ?_
  · unfold EraseCharacter
    split
    · trivial
    · split
      · refine hmanager _ _ _ ?_
        split
        · exact hpointer _ _ _ h
        · exact h
      · exact h
  refine (Outcome.foldlM_keeps h₁ fun w₂ code _ h => ?_).bind fun w₂ h₂ => ?_
  · unfold InsertCharacter
    split
    · trivial
    · split
      · exact h
      · dsimp only
        split
        · trivial
        · split
          · trivial
          · exact hmanager _ _ _ (hpointer _ _ _ h)
  refine Outcome.foldlM_keeps h₂ fun w₃ code _ h => ?_
  unfold Escape
  split
  · trivial
  · exact hmanager _ _ _ h

/-- `Channel::PrevTick` opens no channel and destroys none. -/
theorem PrevTick_sameShape (id : Nat) (channel : Channel) (w : World) :
    Outcome w.SameShape (fun _ => True) (w.PrevTick id channel) :=
  PrevTick_keeps (sameShape_onChannel fun _ => rfl) (fun _ _ _ h => h.trans (sameShape_onManager _))
    fun _ code _ h => h.trans (sameShape_onCharacter code)

/-- The tick of a `CharacterManager` changes neither what channels there are nor who is in them. -/
theorem tickManager_same (w : World) (id : Nat) :
    Outcome (fun w' => w.SameShape w' ∧ w'.roster = w.roster) (fun _ => True) (w.tickManager id) := by
  unfold tickManager
  split
  · exact ⟨.refl w, rfl⟩
  · dsimp only
    split
    · trivial
    · exact ⟨sameShape_onManager _, roster_onManager_same fun _ => rfl⟩

end World

end AsioGameServer.world

import AsioGameServer.World.Membership
import AsioGameServer.World.Requests

open Transition

namespace AsioGameServer.world

/-- Where a character is: the address that its location names, and the channel there. -/
def World.address (w : World) (code : Int) : Option Address :=
  (w.assigned code).map fun id => ⟨(w.characters code).mapKey, (w.characters code).channel, id⟩

/-- Reads a request where the last insert without an erase went to the given address,
if there is one: inserts and erases take turns, and an erase goes where the insert
before it went. -/
def bracket (unmatched : Option Address) (request : ChannelRequest) : Option (Option Address) :=
  match unmatched, request.insert with
  | none, true => some (some request.address)
  | some address, false => if request.address = address then some none else none
  | _, _ => none

namespace Recorded

variable {s t u : Recorded} {code number : Int}

/-- What the relocation of a character sends: requests about it alone, which continue
the ones that led to where it was and lead to where it is. -/
structure Sent (code : Int) (s t : Recorded) : Prop where
  requests : ∃ sent, t.requests = s.requests ++ sent ∧ (∀ r ∈ sent, r.code = code) ∧
    sent.foldlM bracket (s.now.address code) = some (t.now.address code)
  others : ∀ other, other ≠ code → t.now.address other = s.now.address other

/-- A step that asks for nothing and leaves all characters where they are. -/
theorem Sent.of_same (hrequests : t.requests = s.requests) (haddress : t.now.address = s.now.address) :
    s.Sent code t :=
  ⟨⟨[], by simp [hrequests], by simp, by simp [haddress]⟩, fun other _ => congrFun haddress other⟩

/-- What two relocations of a character send is one sequence of requests about it. -/
theorem Sent.trans (h : s.Sent code t) (h' : t.Sent code u) : s.Sent code u := by
  obtain ⟨sent, hsent, hcode, hbracket⟩ := h.requests
  obtain ⟨sent', hsent', hcode', hbracket'⟩ := h'.requests
  refine ⟨⟨sent ++ sent', ?_, ?_, ?_⟩, fun other hother => ?_⟩
  · rw [hsent', hsent, List.append_assoc]
  · exact fun r hr => (List.mem_append.mp hr).elim (hcode r) (hcode' r)
  · rw [List.foldlM_append, hbracket]
    exact hbracket'
  · rw [h'.others other hother, h.others other hother]

/-- What holds of a result of the world holds of the recorded one. -/
theorem outcome_now {P : World → Prop} {E : Fault → Prop} {x : Except Fault Recorded} {y : Except Fault World}
    (hnow : x.map now = y) (h : Outcome P E y) : Outcome (fun t => P t.now) E x := by
  subst hnow
  cases x <;> exact h

/-- Where a character is depends on the maps and on the character. -/
theorem address_of_same {w w' : World} (hmaps : w'.maps = w.maps) {other : Int}
    (hcharacter : w'.characters other = w.characters other) : w'.address other = w.address other := by
  simp only [World.address, World.assigned, hmaps, hcharacter]

/-- A change of one character leaves the others as they are. -/
theorem characters_onCharacter_of_ne {f : Character → Character} {other : Int} (hne : other ≠ code) :
    (s.onCharacter code f).now.characters other = s.now.characters other :=
  World.onCharacter_of_ne hne

/-- A change of one character leaves the others where they are. -/
theorem address_onCharacter_of_ne {f : Character → Character} {other : Int} (hne : other ≠ code) :
    (s.onCharacter code f).now.address other = s.now.address other :=
  address_of_same (World.onCharacter_maps (f := f)) (characters_onCharacter_of_ne hne)

/-- The character that is changed. -/
@[simp] theorem onCharacter_self {f : Character → Character} :
    (s.onCharacter code f).now.characters code = f (s.now.characters code) :=
  World.onCharacter_self

/-- A character whose channel is 0 is in no channel. -/
theorem address_of_channel_zero {w : World} (hzero : (w.characters code).channel = 0) :
    w.address code = none := by
  rw [World.address, World.assigned, if_pos hzero]
  rfl

/-- The previous event erases the character where it is. -/
theorem channel_prev_sent (hw : s.now.WellFormed) (code : Int) :
    ∃ t, s.channel_prev code (s.now.characters code).channel = .ok t ∧ t.now.maps = s.now.maps ∧
      t.now.characters = s.now.characters ∧
      ∃ sent, t.requests = s.requests ++ sent ∧ (∀ r ∈ sent, r.code = code) ∧
        sent.foldlM bracket (s.now.address code) = some none := by
  by_cases hzero : (s.now.characters code).channel = 0
  · refine ⟨s, by simp [channel_prev, hzero], rfl, rfl, [], by simp, by simp, ?_⟩
    rw [address_of_channel_zero hzero]
    rfl
  · obtain ⟨id, hid⟩ := hw.located code hzero
    have haddress : s.now.address code =
        some ⟨(s.now.characters code).mapKey, (s.now.characters code).channel, id⟩ := by
      rw [World.address, hid]
      rfl
    rw [World.assigned, if_neg hzero, Option.bind_eq_some_iff] at hid
    obtain ⟨mapinfo, hmap, hchannel⟩ := hid
    refine ⟨s.send ⟨code, false, (s.now.characters code).mapKey, (s.now.characters code).channel, id⟩
      (·.Async_EraseCharacter code), by simp [channel_prev, hzero, hmap, hchannel], rfl, rfl, _, rfl,
      by simp, ?_⟩
    rw [haddress]
    simp [bracket]

/-- A character whose channel is set is erased where it was and inserted where it is. -/
theorem SetChannel_sent (hw : s.now.WellFormed) (code number : Int) :
    Outcome (s.Sent code) (fun _ => True) (s.SetChannel code number) := by
  obtain ⟨s₁, hprev, hmaps, hcharacters, sent, hsent, hcode, hbracket⟩ := channel_prev_sent hw code
  have heq : s.SetChannel code number =
      (s₁.onCharacter code ({ · with channel := number })).channel_post code number := by
    simp only [SetChannel, React.Set, List.foldlM_cons, List.foldlM_nil, bind_pure, hprev]
    change channel_post code _ _ = channel_post code _ _
    simp [onCharacter]
  rw [heq]
  let s₂ := s₁.onCharacter code ({ · with channel := number })
  have hnew : (s₂.now.characters code).channel = number := by
    simp [s₂, onCharacter]
  have hothers : ∀ other, other ≠ code → s₂.now.address other = s.now.address other := by
    intro other hother
    exact (address_onCharacter_of_ne hother).trans (address_of_same hmaps (congrFun hcharacters other))
  change Outcome _ _ (s₂.channel_post code number)
  unfold channel_post
  split
  · rename_i hnumber
    dsimp only
    split
    · trivial
    · rename_i mapinfo hmap
      split
      · rename_i id hget
        have haddress : s₂.now.address code = some ⟨(s₂.now.characters code).mapKey, number, id⟩ := by
          rw [World.address, World.assigned, hnew, if_neg hnumber, hmap, Option.bind_some, hget]
          rfl
        refine ⟨⟨sent ++ [⟨code, true, (s₂.now.characters code).mapKey, number, id⟩], ?_, ?_, ?_⟩, hothers⟩
        · rw [← List.append_assoc, ← hsent]
          rfl
        · intro r hr
          rcases List.mem_append.mp hr with hr | hr
          · exact hcode r hr
          · rw [List.mem_singleton.mp hr]
        · rw [List.foldlM_append, hbracket]
          exact congrArg some haddress.symm
      · trivial
  · rename_i hnumber
    have hzero : (s₂.now.characters code).channel = 0 := by rw [hnew, not_not.mp hnumber]
    refine ⟨⟨sent, hsent, hcode, ?_⟩, hothers⟩
    rw [hbracket, address_of_channel_zero hzero]

/-- The assignment of `mapKey` to a character that is in no channel. -/
theorem Sent.assign_mapKey (hzero : (s.now.characters code).channel = 0) (mapkey : Int) :
    s.Sent code (s.onCharacter code ({ · with mapKey := mapkey })) := by
  refine .of_same rfl (funext fun other => ?_)
  by_cases hsame : other = code
  · subst hsame
    rw [address_of_channel_zero hzero, address_of_channel_zero]
    simpa using hzero
  · exact address_onCharacter_of_ne hsame

/-- `MapInfo::InsertCharacter` sends what `SetChannel` does, for a channel that is there or was
just opened. To open one moves nobody. -/
theorem InsertIntoMap_sent {mapKey : Int} {mapinfo : MapInfo} (hw : s.now.WellFormed)
    (hmap : s.now.maps mapKey = some mapinfo) (code : Int) :
    Outcome (s.Sent code) (fun _ => True) (s.InsertIntoMap mapKey mapinfo code) := by
  unfold InsertIntoMap
  cases s.now.findRoom ((mapinfo.maxUserCount * 4).tdiv 5) mapinfo.channels with
  | error fault => trivial
  | ok room =>
    cases room with
    | some number => exact SetChannel_sent hw code number
    | none =>
      let opened : Recorded := { s with now := s.now.openChannel mapKey mapinfo mapinfo.unusedNumber }
      have haddress : opened.now.address = s.now.address := by
        funext other
        rw [World.address, World.assigned_openChannel hw hmap]
        rfl
      have hopened : opened.now.WellFormed := hw.openChannel hmap
      have hsame : s.Sent code opened := .of_same rfl haddress
      exact (SetChannel_sent hopened code _).imp (fun t h => hsame.trans h) fun _ h => h

/-- A character whose map is set leaves its channel before the map changes, and enters a
channel of the new map after it. -/
theorem SetMapKey_sent (hw : s.now.WellFormed) (code mapkey : Int) :
    Outcome (s.Sent code) (fun _ => True) (s.SetMapKey code mapkey) := by
  have heq : s.SetMapKey code mapkey = (s.SetChannel code 0 >>= fun s =>
      (s.onCharacter code ({ · with mapKey := mapkey })).mapKey_post code mapkey) := by
    simp [SetMapKey, React.Set, onCharacter, World.onCharacter]
  rw [heq]
  have hsent := SetChannel_sent hw code 0
  have hmoved := outcome_now (now_SetChannel s code 0) (World.SetChannel_spec hw code 0)
  cases hleft : s.SetChannel code 0 with
  | error fault => trivial
  | ok s₁ =>
    obtain ⟨hmoved, hzero⟩ := hmoved.ok hleft
    let s₂ := s₁.onCharacter code ({ · with mapKey := mapkey })
    have hbefore : s.Sent code s₂ := (hsent.ok hleft).trans (.assign_mapKey hzero mapkey)
    have hzero₂ : (s₂.now.characters code).channel = 0 := by simpa [s₂] using hzero
    have hw₂ : s₂.now.WellFormed :=
      hmoved.wellFormed.relocate rfl rfl (fun _ => characters_onCharacter_of_ne) fun hne => absurd hzero₂ hne
    change Outcome _ _ (s₂.mapKey_post code mapkey)
    unfold mapKey_post
    split
    · split
      · trivial
      · rename_i mapinfo hmap
        exact (InsertIntoMap_sent hw₂ hmap code).imp (fun t h => hbefore.trans h) fun _ h => h
    · exact hbefore

/-- A user that is destroyed leaves its map and its channel, which sends at most one erase. -/
theorem destroyUser_sent (hw : s.now.WellFormed) (code : Int) :
    Outcome (s.Sent code) (fun _ => True) (s.destroyUser code) := by
  have hmoved := outcome_now (now_SetMapKey s code 0) (World.SetMapKey_spec hw code 0)
  unfold destroyUser
  cases hleft : s.SetMapKey code 0 with
  | error fault => trivial
  | ok s₁ =>
    have hsent := (SetMapKey_sent hw code 0).ok hleft
    refine (SetChannel_sent (hmoved.ok hleft).wellFormed code 0).bind fun s₂ h => ?_
    refine (hsent.trans h).trans (.of_same rfl (funext fun other => ?_))
    by_cases hsame : other = code
    · subst hsame
      simp [World.address, World.assigned, onCharacter]
    · exact address_onCharacter_of_ne hsame

end Recorded

/-- What the updates of channels and managers leave alone: the maps, where the characters
are and which channels exist. -/
structure World.Stays (w w' : World) : Prop where
  maps : w'.maps = w.maps
  located : ∀ code, (w'.characters code).mapKey = (w.characters code).mapKey ∧
    (w'.characters code).channel = (w.characters code).channel
  length : w'.channels.length = w.channels.length

namespace World

variable {w w' : World} {id : Nat}

/-- No step at all. -/
theorem Stays.refl : w.Stays w := ⟨rfl, fun _ => ⟨rfl, rfl⟩, rfl⟩

/-- A step that changes one channel, besides requests and back pointers. -/
theorem Stays.of_base {f : Channel → Channel} (hbase : w'.base = (w.onChannel id f).base) : w.Stays w' := by
  have hcharacter : ∀ code, (w'.base.characters code).mapKey = (w.characters code).mapKey ∧
      (w'.base.characters code).channel = (w.characters code).channel := by
    intro code
    rw [hbase]
    exact ⟨rfl, rfl⟩
  have hlength : w'.base.channels.length = (w.onChannel id f).base.channels.length := by rw [hbase]
  have hmaps : w'.base.maps = (w.onChannel id f).base.maps := by rw [hbase]
  refine ⟨hmaps, hcharacter, ?_⟩
  simpa [base] using hlength

/-- Characters stay assigned to their channels. -/
theorem Stays.assigned (h : w.Stays w') : w'.assigned = w.assigned := by
  funext code
  obtain ⟨hmap, hchannel⟩ := h.located code
  simp only [World.assigned, hmap, hchannel, h.maps]

/-- Characters stay where they are. -/
theorem Stays.address (h : w.Stays w') : w'.address = w.address := by
  funext code
  obtain ⟨hmap, hchannel⟩ := h.located code
  simp only [World.address, h.assigned, hmap, hchannel]

/-- A world stays well formed, since this is about maps, channels and where characters are. -/
theorem Stays.wellFormed (h : w.Stays w') (hw : w.WellFormed) : w'.WellFormed := by
  constructor
  · intro mapKey mapinfo number id hmap hchannel
    rw [h.length]
    exact hw.entries mapKey mapinfo number id (h.maps ▸ hmap) hchannel
  · intro code hchannel
    rw [h.assigned]
    exact hw.located code ((h.located code).2 ▸ hchannel)

/-- The update of a channel begins it, or works off its requests. Both leave its number and its
map alone. -/
theorem updateChannel_stays (w : World) (id : Nat) :
    Outcome w.Stays (fun _ => True) (w.updateChannel id) := by
  unfold updateChannel
  split
  · exact .refl
  · rename_i channel hget
    split
    · exact Stays.of_base (f := Channel.BeginPlay) rfl
    · rename_i cm hcm
      exact (PrevTick_spec hget hcm).imp (fun w' h => .of_base h.2) fun _ _ => trivial

/-- The tick of a manager sends what waits for the members, and no more. -/
theorem tickManager_stays (w : World) (id : Nat) : Outcome w.Stays (fun _ => True) (w.tickManager id) := by
  unfold tickManager
  split
  · exact .refl
  · dsimp only
    split
    · trivial
    · have hbase : (w.onManager id fun cm => { cm with req_send_all := [] }).base =
          (w.onChannel id fun ch =>
            { ch with cm := ch.cm.map fun cm => { cm with req_send_all := [] } }).base := rfl
      exact .of_base hbase

end World

namespace Recorded

variable {s t : Recorded} {code : Int}

/-- The requests about a character, read in order: inserts and erases take turns,
starting with an insert, each erase goes where the insert before it went, and an insert
is left unmatched where the character is in a channel, which it went to. -/
def Bracketed (s : Recorded) (code : Int) : Prop :=
  (s.requests.filter fun r => r.code = code).foldlM bracket none = some (s.now.address code)

/-- A relocation keeps the requests of every character bracketed: it continues those of its own
character, and sends none about another one. -/
theorem Sent.bracketed (h : s.Sent code t) {other : Int} (hs : s.Bracketed other) : t.Bracketed other := by
  obtain ⟨sent, hsent, hcode, hbracket⟩ := h.requests
  rw [Bracketed, hsent, List.filter_append, List.foldlM_append, hs]
  change (sent.filter _).foldlM bracket (s.now.address other) = _
  by_cases hsame : other = code
  · subst hsame
    rw [List.filter_eq_self.mpr fun r hr => by simpa using hcode r hr]
    exact hbracket
  · rw [List.filter_eq_nil_iff.mpr fun r hr => by simpa [hcode r hr] using Ne.symm hsame, h.others other hsame]
    rfl

/-- What every step keeps. -/
structure Traced (s : Recorded) : Prop where
  wellFormed : s.now.WellFormed
  bracketed : ∀ code, s.Bracketed code

/-- A relocation that comes to an end keeps the whole record bracketed and the world well formed. -/
theorem Traced.sent (hs : s.Traced) {x : Except Fault Recorded} {y : Except Fault World}
    (hsent : Outcome (s.Sent code) (fun _ => True) x) (hnow : x.map now = y)
    (hmoved : Outcome World.WellFormed Fault.IsLookup y) : Outcome Traced (fun _ => True) x := by
  cases x with
  | error fault => trivial
  | ok t => exact ⟨(outcome_now hnow hmoved).ok rfl, fun other => (hsent.ok rfl).bracketed (hs.bracketed other)⟩

/-- The same for an update, which sends nothing. -/
theorem Traced.stays (hs : s.Traced) {x : Except Fault World} (hx : Outcome s.now.Stays (fun _ => True) x) :
    Outcome Traced (fun _ => True) (x >>= fun now => .ok { s with now }) := by
  refine hx.bind fun w hw => ⟨hw.wellFormed hs.wellFormed, fun code => ?_⟩
  rw [Bracketed, hw.address]
  exact hs.bracketed code

/-- Every move keeps the record bracketed, by what it sends. -/
theorem step_traced (hs : s.Traced) (m : Move) : Outcome Traced (fun _ => True) (s.step m) := by
  cases m with
  | SetMapKey code mapkey =>
    unfold step
    dsimp only
    split
    · refine hs.sent (SetMapKey_sent hs.wellFormed code mapkey) (now_SetMapKey s code mapkey) ?_
      exact (World.SetMapKey_spec hs.wellFormed code mapkey).imp (fun _ h => h.wellFormed) fun _ h => h
    · exact hs
  | SetChannel code number =>
    unfold step
    dsimp only
    split
    · refine hs.sent (SetChannel_sent hs.wellFormed code number) (now_SetChannel s code number) ?_
      exact (World.SetChannel_spec hs.wellFormed code number).imp (fun _ h => h.1.wellFormed) fun _ h => h
    · exact hs
  | destroyUser code =>
    unfold step
    dsimp only
    split
    · refine hs.sent (destroyUser_sent hs.wellFormed code) (now_destroyUser s code) ?_
      exact (World.destroyUser_spec hs.wellFormed code).imp (fun _ h => h.1) fun _ h => h
    · exact hs
  | updateChannel id => exact hs.stays (World.updateChannel_stays s.now id)
  | tickManager id => exact hs.stays (World.tickManager_stays s.now id)

/-- In every run the requests about each character are well bracketed. -/
theorem run_requests_bracketed {w : World} {moves : List Move} (hstart : w.Start)
    (hrun : Run (OfOption next) ⟨w, []⟩ moves s) (code : Int) : s.Bracketed code := by
  suffices h : s.Traced from h.bracketed code
  apply hrun.invariant
  · refine ⟨hstart.valid.toWellFormed, fun code => ?_⟩
    rw [Bracketed, address_of_channel_zero (hstart.outside code).1]
    rfl
  · intro a m b ha hnext
    exact (step_traced ha m).toOption hnext

/-- A character that moves from one map to another, leaves its channel, enters it again
and disconnects. -/
theorem run_moves_bracketed :
    ∃ moves s, World.twoMaps.Start ∧ Run (OfOption next) ⟨World.twoMaps, []⟩ moves s ∧
      s.requests.map (fun r => (r.insert, r.address)) =
        [(true, ⟨1, 1, 0⟩), (false, ⟨1, 1, 0⟩), (true, ⟨2, 1, 1⟩), (false, ⟨2, 1, 1⟩), (true, ⟨2, 1, 1⟩),
          (false, ⟨2, 1, 1⟩)] ∧ s.Bracketed 7 := by
  have hfold : ([.SetMapKey 7 1, .updateChannel 0, .updateChannel 0, .SetMapKey 7 2, .SetChannel 7 0,
      .SetChannel 7 1, .destroyUser 7, .SetChannel 7 1].foldlM next ⟨World.twoMaps, []⟩).map
      (fun s => s.requests.map fun r => (r.insert, r.address)) =
      some [(true, ⟨1, 1, 0⟩), (false, ⟨1, 1, 0⟩), (true, ⟨2, 1, 1⟩), (false, ⟨2, 1, 1⟩), (true, ⟨2, 1, 1⟩),
        (false, ⟨2, 1, 1⟩)] := by
    decide +kernel
  obtain ⟨s, hs, hrequests⟩ := Option.map_eq_some_iff.mp hfold
  have hrun := run_ofOption_iff.mpr hs
  exact ⟨_, s, World.twoMaps_start, hrun, hrequests, run_requests_bracketed World.twoMaps_start hrun 7⟩

end Recorded

end AsioGameServer.world

import AsioGameServer.Lib.Outcome
import AsioGameServer.Lib.Replica
import AsioGameServer.World.Observed

open Function Number Replica

namespace AsioGameServer.world

open flatbuffers (FlatBufferBuilder)

variable {F : Type} [Number F]

/-- A position without its height, which a `MOVING` packet sets without being reported. -/
def ground (position : Vector3 F) : F × F := (position.x, position.y)

/-- What a packet tells a client: where a character is, or that it has left. -/
def Packet.tells : Packet F → List (Int × Option (F × F))
  | .ENTER_NEW_CHARACTER_VECTOR fbb | .ENTER_NEW_CHARACTER fbb =>
    fbb.contents.filterMap fun table => table.position.map fun position => (table.code, some (ground position))
  | .LEAVE_CHARACTER fbb => fbb.contents.map fun table => (table.code, none)
  | .MOVING_VECTOR fbb | .CON_ESCAPE fbb =>
    fbb.contents.filterMap fun table => table.position.map fun position => (table.code, some (ground position))

section Packets

variable {t : Int × Option (F × F)}

/-- Who leaves is told to be gone. -/
theorem tells_leaving (key : Int) : (Packet.LEAVE_CHARACTER (leaving (F := F) key)).tells = [(key, none)] := by
  have hempty : ((FB.CharacterBuilder.new (F := F) .new).add_code key).fbb_.tables = [] := by
    simp [FB.CharacterBuilder.new, FB.CharacterBuilder.add_code, FlatBufferBuilder.new]
  unfold Packet.tells leaving FB.CharacterBuilder.Finish
  dsimp only
  rw [FlatBufferBuilder.contents_Finish_addTable (by simpa using hempty)]
  rfl

/-- Who escapes is told to be where it was put. -/
theorem tells_escaping (code : Int) (position : Vector3 F) :
    (Packet.CON_ESCAPE (escaping code position)).tells = [(code, some (ground position))] := by
  have hempty : (((movement.FB.MoveBuilder.new .new).add_code code).add_position position).fbb_.tables = [] := by
    simp [movement.FB.MoveBuilder.new, movement.FB.MoveBuilder.add_code, movement.FB.MoveBuilder.add_position,
      FlatBufferBuilder.new]
  unfold Packet.tells escaping movement.FB.MoveBuilder.Finish
  dsimp only
  rw [FlatBufferBuilder.contents_Finish_addTable (by simpa using hempty)]
  rfl

/-- Who enters is told to be where it is. -/
theorem tells_Make_Fbb_Character (ch : Shown F) :
    (Packet.ENTER_NEW_CHARACTER (Make_Fbb_Character ch)).tells = [(ch.code, some (ground ch.motion.position))] := by
  unfold Packet.tells Make_Fbb_Character FB.CharacterBuilder.Finish
  dsimp only
  rw [FlatBufferBuilder.contents_Finish_addTable]
  · rfl
  · simp only [FB.CharacterBuilder.new, FB.CharacterBuilder.add_code, FB.CharacterBuilder.add_type,
      FB.CharacterBuilder.add_hp, FB.CharacterBuilder.add_level, FB.CharacterBuilder.add_nick,
      FB.CharacterBuilder.add_power, FB.CharacterBuilder.add_speed, FB.CharacterBuilder.add_position,
      FB.CharacterBuilder.add_mapcode, FlatBufferBuilder.new, FlatBufferBuilder.tables_AddElement,
      FlatBufferBuilder.tables_AddOffset, FlatBufferBuilder.tables_AddStruct, FlatBufferBuilder.tables_EndTable,
      FlatBufferBuilder.tables_CreateString]

/-- What can be read of a character in a snapshot. -/
def infoOf (ch : Shown F) : FB.Character F :=
  ⟨ch.code, ch.profile.characterTypeCode, some ch.profile.nickname, some ch.motion.position, ch.profile.level,
    ch.profile.maxHP, ch.profile.power, ch.motion.maxSpeed, 0⟩

/-- A character is one table of a snapshot, with all that was put into it. -/
theorem adds_addCharacterInfo : flatbuffers.Slices.Adds (addCharacterInfo (F := F)) infoOf := by
  intro ch fbb
  constructor <;> simp only [addCharacterInfo, FB.CharacterBuilder.Finish, FlatBufferBuilder.addTable,
    FB.CharacterBuilder.new, FB.CharacterBuilder.add_code, FB.CharacterBuilder.add_type, FB.CharacterBuilder.add_hp,
    FB.CharacterBuilder.add_level, FB.CharacterBuilder.add_nick, FB.CharacterBuilder.add_power,
    FB.CharacterBuilder.add_speed, FB.CharacterBuilder.add_position, infoOf, FlatBufferBuilder.tables_AddElement,
    FlatBufferBuilder.tables_AddOffset, FlatBufferBuilder.tables_AddStruct, FlatBufferBuilder.tables_EndTable,
    FlatBufferBuilder.tables_CreateString]

/-- A snapshot tells where its characters are, and of nobody else. -/
theorem mem_tells_snapshot (characters : List (Shown F)) :
    t ∈ ((Make_FBB_All_CharacterInfo characters).2.map Packet.ENTER_NEW_CHARACTER_VECTOR).flatMap Packet.tells ↔
      ∃ ch ∈ characters, t = (ch.code, some (ground ch.motion.position)) := by
  have hslice : (1 : Int) ≤ 10 := by decide
  have hentries : (characters.map fun ch => (ch.code, some ch)).filterMap Prod.snd = characters := by
    rw [List.filterMap_map]
    exact List.filterMap_some
  have hlisted : ∀ table, (∃ b ∈ (Make_FBB_All_CharacterInfo characters).2, table ∈ b.contents) ↔
      table ∈ characters.map infoOf := by
    intro table
    rw [Make_FBB_All_CharacterInfo, flatbuffers.Slices.mem_contents_run adds_addCharacterInfo hslice, hentries]
  rw [List.flatMap_map]
  simp only [Packet.tells, List.mem_flatMap, List.mem_filterMap]
  constructor
  · rintro ⟨b, hb, table, htable, ht⟩
    obtain ⟨ch, hch, rfl⟩ := List.mem_map.mp ((hlisted table).mp ⟨b, hb, htable⟩)
    exact ⟨ch, hch, (Option.some.inj ht).symm⟩
  · rintro ⟨ch, hch, rfl⟩
    obtain ⟨b, hb, htable⟩ := (hlisted (infoOf ch)).mpr (List.mem_map_of_mem hch)
    exact ⟨b, hb, _, htable, rfl⟩

end Packets

namespace Observed

/-- What the client of a character knows from the packets since it was inserted. -/
def view (s : Observed F) (viewer : Int) : Int → Option (Option (F × F)) :=
  apply (fun _ => none) ((s.received viewer).flatMap Packet.tells)

/-- What waits in the manager of a channel. -/
def waiting (s : Observed F) (id : Nat) : List (Int × Option (F × F)) :=
  (s.escapes id).flatMap fun fbb => (Packet.CON_ESCAPE fbb).tells

/-- What the client of a character knows once it has got what waits. -/
def outlook (s : Observed F) (id : Nat) (viewer : Int) : Int → Option (Option (F × F)) :=
  apply (s.view viewer) (s.waiting id)

section Pushing

variable {s : Observed F} {id : Nat} {code viewer : Int} {packets : List (Packet F)} {p : Packet F}

omit [Number F] in
/-- Where no escapes wait, there is nothing more to be told. -/
theorem outlook_of_quiet (hquiet : s.escapes id = []) : s.outlook id viewer = s.view viewer := by
  rw [outlook, waiting, hquiet]
  rfl

omit [Number F] in
/-- What is sent changes nobody's session. -/
theorem watches_PushSend : (s.PushSend packets code).watches = s.watches := by
  unfold PushSend
  split <;> rfl

omit [Number F] in
/-- A packet is read by the client that it is pushed to, if this one has a session, and by no
other. -/
theorem view_PushSend (s : Observed F) (packets : List (Packet F)) (code viewer : Int) :
    (s.PushSend packets code).view viewer =
      if viewer = code ∧ s.watches code = true then apply (s.view viewer) (packets.flatMap Packet.tells)
      else s.view viewer := by
  unfold PushSend
  by_cases hwatches : s.watches code = true
  · rw [if_pos hwatches]
    by_cases hcode : viewer = code
    · subst hcode
      simp [view, hwatches, apply_append]
    · simp [view, hcode]
  · simp [hwatches]

omit [Number F] in
/-- Packets are pushed to sessions, and nothing else happens. -/
theorem exists_PushSend (s : Observed F) (packets : List (Packet F)) (code : Int) :
    ∃ received, s.PushSend packets code = { s with received } ∧
      ∀ c, c ≠ code → received c = s.received c := by
  unfold PushSend
  split
  · exact ⟨_, rfl, fun c hc => update_of_ne hc _ _⟩
  · exact ⟨_, rfl, fun _ _ => rfl⟩

omit [Number F] in
/-- A broadcast reaches the members of the channel only. -/
theorem exists_SendAllCharacter (id : Nat) (s : Observed F) (p : Packet F) :
    ∃ received, s.SendAllCharacter id p = { s with received } ∧
      ∀ c, c ∉ s.members id → received c = s.received c := by
  unfold SendAllCharacter
  generalize s.members id = codes
  induction codes generalizing s with
  | nil => exact ⟨s.received, rfl, fun _ _ => rfl⟩
  | cons code codes ih =>
    obtain ⟨received, hpush, hothers⟩ := exists_PushSend s [p] code
    obtain ⟨received', hrest, hothers'⟩ := ih (s.PushSend [p] code)
    rw [hpush] at hrest hothers'
    refine ⟨received', ?_, fun c hc => ?_⟩
    · rw [List.foldl_cons, hpush, hrest]
    · obtain ⟨hne, hc⟩ := not_or.mp (List.mem_cons.not.mp hc)
      exact (hothers' c hc).trans (hothers c hne)

omit [Number F] in
/-- A packet to all members is read by those who watch. -/
theorem view_SendAllCharacter (id : Nat) (s : Observed F) (p : Packet F) (viewer : Int) :
    (s.SendAllCharacter id p).view viewer =
      if viewer ∈ s.members id ∧ s.watches viewer = true then apply (s.view viewer) p.tells else s.view viewer := by
  unfold SendAllCharacter
  generalize s.members id = codes
  induction codes generalizing s with
  | nil => simp
  | cons code codes ih =>
    rw [List.foldl_cons, ih, view_PushSend, watches_PushSend, List.flatMap_singleton]
    by_cases hwatches : s.watches viewer = true
    · by_cases hcode : viewer = code
      · subst hcode
        by_cases hmore : viewer ∈ codes
        · simp [hwatches, hmore, apply_apply]
        · simp [hwatches, hmore]
      · simp [hcode]
    · have hcode : ¬ (viewer = code ∧ s.watches code = true) := by
        rintro ⟨rfl, h⟩
        exact hwatches h
      simp [hwatches, hcode]

omit [Number F] in
/-- Packets to all members, one after the other. -/
theorem exists_sendAll (id : Nat) (packets : List (Packet F)) (s : Observed F) :
    ∃ received, packets.foldl (SendAllCharacter id) s = { s with received } ∧
      (∀ c, c ∉ s.members id → received c = s.received c) ∧
      ∀ viewer, Observed.view { s with received } viewer =
        if viewer ∈ s.members id ∧ s.watches viewer = true then apply (s.view viewer) (packets.flatMap Packet.tells)
        else s.view viewer := by
  induction packets generalizing s with
  | nil =>
    refine ⟨s.received, rfl, fun _ _ => rfl, fun viewer => ?_⟩
    split <;> rfl
  | cons p packets ih =>
    obtain ⟨received, hsent, hothers⟩ := exists_SendAllCharacter id s p
    have hview := view_SendAllCharacter id s p
    rw [hsent] at hview
    obtain ⟨received', hrest, hothers', hview'⟩ := ih { s with received }
    refine ⟨received', ?_, fun c hc => (hothers' c hc).trans (hothers c hc), fun viewer => ?_⟩
    · rw [List.foldl_cons, hsent, hrest]
    · have hlater := hview' viewer
      rw [hview] at hlater
      rw [List.flatMap_cons, apply_append]
      refine hlater.trans ?_
      by_cases hmember : viewer ∈ s.members id ∧ s.watches viewer = true
      · rw [if_pos hmember, if_pos hmember]
        exact if_pos hmember
      · rw [if_neg hmember, if_neg hmember]
        exact if_neg hmember

end Pushing

section Announcing

variable {iterate : List Int → List Int} {profile : Int → Profile F} {s : Observed F} {id : Nat} {code viewer c : Int}

/-- A snapshot tells where its characters are, whatever was known before. -/
theorem apply_snapshot (horder : ∀ l, (iterate l).Perm l) (s : Observed F) (profile : Int → Profile F)
    (codes : List Int) (view : Int → Option (Option (F × F))) (c : Int) :
    apply view (((Make_FBB_All_CharacterInfo ((iterate codes).map (s.shown profile))).2.map
        Packet.ENTER_NEW_CHARACTER_VECTOR).flatMap Packet.tells) c =
      if c ∈ codes then some (some (ground (s.scene.motions c).position)) else view c := by
  have hsnapshot := fun t => mem_tells_snapshot (t := t) ((iterate codes).map (s.shown profile))
  rw [apply_eq]
  split
  · rename_i hc
    refine Option.or_eq_some_iff.mpr (.inl (last_eq_some ⟨_, (hsnapshot _).mpr ⟨s.shown profile c, ?_, rfl⟩, rfl⟩ ?_))
    · exact List.mem_map_of_mem ((horder _).mem_iff.mpr hc)
    · rintro _ ht rfl
      obtain ⟨_, hch, rfl⟩ := (hsnapshot _).mp ht
      obtain ⟨c, _, rfl⟩ := List.mem_map.mp hch
      rfl
  · rename_i hc
    rw [last_eq_none, Option.none_or]
    rintro _ ht rfl
    obtain ⟨_, hch, rfl⟩ := (hsnapshot _).mp ht
    obtain ⟨c, hmember, rfl⟩ := List.mem_map.mp hch
    exact hc ((horder _).mem_iff.mp hmember)

/-- A new member hears of all members, and they hear of it. -/
theorem view_announce (horder : ∀ l, (iterate l).Perm l) (profile : Int → Profile F) (c : Int)
    (hnew : s.watches code = true) (hviewer : viewer ∈ s.members id)
    (hwatches : s.watches viewer = true) :
    (s.announce iterate profile id code).view viewer c =
      if c = code then some (some (ground (s.scene.motions code).position))
      else if viewer = code then
        if c ∈ s.members id then some (some (ground (s.scene.motions c).position)) else none
      else s.view viewer c := by
  unfold announce
  dsimp only
  let s₂ : Observed F := { s with received := update s.received code [] }
  let fbbArray := (Make_FBB_All_CharacterInfo ((iterate (s₂.members id)).map (s₂.shown profile))).2
  obtain ⟨received, hpush, _⟩ := exists_PushSend s₂ (fbbArray.map .ENTER_NEW_CHARACTER_VECTOR) code
  change Observed.view (Observed.SendAllCharacter id (s₂.PushSend (fbbArray.map .ENTER_NEW_CHARACTER_VECTOR) code)
    (.ENTER_NEW_CHARACTER (Make_Fbb_Character
      (Observed.shown (s₂.PushSend (fbbArray.map .ENTER_NEW_CHARACTER_VECTOR) code) profile code)))) viewer c = _
  have hbefore := view_PushSend s₂ (fbbArray.map .ENTER_NEW_CHARACTER_VECTOR) code viewer
  rw [hpush] at hbefore ⊢
  rw [view_SendAllCharacter, if_pos ⟨hviewer, hwatches⟩, tells_Make_Fbb_Character, hbefore]
  change update _ code _ c = _
  rw [update_apply]
  refine if_congr Iff.rfl rfl ?_
  by_cases hself : viewer = code
  · subst hself
    rw [if_pos ⟨rfl, hnew⟩, if_pos rfl]
    have hnothing : s₂.view viewer = fun _ => none := by simp [view, s₂, apply]
    rw [hnothing]
    exact apply_snapshot horder s₂ profile _ _ c
  · rw [if_neg fun h => hself h.1, if_neg hself]
    simp [view, s₂, hself]

/-- The announcement of a new member reaches this one and the other members. -/
theorem exists_announce (iterate : List Int → List Int) (profile : Int → Profile F) (id : Nat) (s : Observed F)
    (code : Int) :
    ∃ received, s.announce iterate profile id code = { s with received } ∧
      ∀ c, c ≠ code → c ∉ s.members id → received c = s.received c := by
  unfold announce
  dsimp only
  let s₂ : Observed F := { s with received := update s.received code [] }
  let fbbArray := (Make_FBB_All_CharacterInfo ((iterate (s₂.members id)).map (s₂.shown profile))).2
  obtain ⟨received, hpush, hothers⟩ := exists_PushSend s₂ (fbbArray.map .ENTER_NEW_CHARACTER_VECTOR) code
  obtain ⟨received', hsent, hothers'⟩ := exists_SendAllCharacter id { s₂ with received }
    (.ENTER_NEW_CHARACTER (Make_Fbb_Character (Observed.shown { s₂ with received } profile code)))
  refine ⟨received', ?_, fun c hne hc => ?_⟩
  · change Observed.SendAllCharacter id (s₂.PushSend (fbbArray.map .ENTER_NEW_CHARACTER_VECTOR) code) _ = _
    rw [hpush, hsent]
  · exact (hothers' c hc).trans ((hothers c hne).trans (update_of_ne hne _ _))

end Announcing

section World

variable {s : Observed F} {id : Nat} {channel : Channel} {iterate : List Int → List Int} {profile : Int → Profile F}

/-- The world below does what it did without clients. -/
theorem now_EraseCharacter (held : List Int) (id : Nat) (s : Observed F) (key : Int) :
    (s.EraseCharacter held id key).map (·.scene.now) = s.scene.now.EraseCharacter held id key := by
  unfold EraseCharacter
  cases s.scene.now.EraseCharacter held id key with
  | error fault => rfl
  | ok now =>
    simp only [bind, Except.bind]
    split
    · obtain ⟨received, hsent, _⟩ := exists_SendAllCharacter id (s.onNow now) (.LEAVE_CHARACTER (leaving key))
      rw [hsent]
      rfl
    · rfl

/-- The same for an insert. -/
theorem now_InsertCharacter (s : Observed F) (code : Int) :
    (s.InsertCharacter iterate profile id code).map (·.scene.now) = s.scene.now.InsertCharacter id code := by
  unfold InsertCharacter
  cases s.scene.now.InsertCharacter id code with
  | error fault => rfl
  | ok now =>
    simp only [bind, Except.bind]
    split
    · rfl
    · obtain ⟨received, hannounce, _⟩ := exists_announce iterate profile id
        { s with scene := { s.scene.InsertCharacter code with now } } code
      rw [hannounce]
      rfl

/-- The same for an escape. -/
theorem now_Escape (mapCode : Int) (s : Observed F) (code : Int) :
    (s.Escape mapCode code).map (·.scene.now) = s.scene.now.Escape code := by
  unfold Escape World.Escape
  cases (s.scene.now.characters code).cm <;> rfl

/-- The tick of a channel does to the world what it does where nobody watches. -/
theorem now_updateChannel (iterate : List Int → List Int) (profile : Int → Profile F) (id : Nat) (s : Observed F) :
    (s.updateChannel iterate profile id).map (·.scene.now) = s.scene.now.updateChannel id := by
  unfold updateChannel World.updateChannel
  cases s.scene.now.channels[id]? with
  | none => rfl
  | some channel =>
    dsimp only
    cases channel.cm with
    | none => rfl
    | some cm =>
      have hprev : (s.PrevTick iterate profile id channel).map (·.scene.now) = s.scene.now.PrevTick id channel := by
        refine Except.map_bind (Except.map_foldlM (now_EraseCharacter _ id) _ _) fun s => ?_
        refine Except.map_bind (Except.map_foldlM (fun s code => now_InsertCharacter s code) _ _) fun s => ?_
        exact Except.map_foldlM (now_Escape _) _ _
      dsimp only
      rw [← hprev]
      cases s.PrevTick iterate profile id channel <;> rfl

end World

end Observed

end AsioGameServer.world

import AsioGameServer.Lib.Transition
import AsioGameServer.Channel.Broadcast

open Function Transition

namespace AsioGameServer.channel

open flatbuffers

/-- The codes that a packet lets a client add. -/
def Pushed.entered (p : Pushed) : List Int :=
  match p.symbol, p.payload with
  | .ENTER_NEW_CHARACTER, .characters fbb | .ENTER_NEW_CHARACTER_VECTOR, .characters fbb =>
    fbb.contents.map FB.Character.code
  | _, _ => []

variable {view codes : List Int} {packets : List Pushed} {code key : Int} {p : Pushed}

theorem applyPacket_of_ne_leave (h : p.symbol ≠ .LEAVE_CHARACTER) : applyPacket view p = view ++ p.entered := by
  unfold applyPacket Pushed.entered
  split <;> simp_all

/-- A client that is told of no departure knows what it knew and what has entered. -/
theorem mem_foldl_of_entering (h : ∀ p ∈ packets, p.symbol ≠ .LEAVE_CHARACTER) :
    code ∈ packets.foldl applyPacket view ↔ code ∈ view ∨ ∃ p ∈ packets, code ∈ p.entered := by
  induction packets generalizing view with
  | nil => simp
  | cons p packets ih =>
    rw [List.foldl_cons, ih fun q hq => h q (List.mem_cons_of_mem _ hq),
      applyPacket_of_ne_leave (h p List.mem_cons_self)]
    simp [or_assoc]

theorem contents_leaving (key : Int) : (Channel.leaving key).contents.map FB.Character.code = [key] := by
  have hempty : ((FB.CharacterBuilder.new .new).add_code key).fbb_.tables = [] := by
    simp [FB.CharacterBuilder.new, FB.CharacterBuilder.add_code, FlatBufferBuilder.new]
  unfold Channel.leaving FB.CharacterBuilder.Finish
  rw [FlatBufferBuilder.contents_Finish_addTable (by simpa using hempty)]
  rfl

theorem contents_Make_Fbb_Character (ch : CharacterStatus) :
    (Make_Fbb_Character ch).contents.map FB.Character.code = [ch.code] := by
  have hempty : (characterFields ch).fbb_.tables = [] := by
    simp [characterFields, FB.CharacterBuilder.new, FB.CharacterBuilder.add_code, FB.CharacterBuilder.add_type,
      FB.CharacterBuilder.add_hp, FB.CharacterBuilder.add_level, FB.CharacterBuilder.add_nick,
      FB.CharacterBuilder.add_power, FB.CharacterBuilder.add_speed, FB.CharacterBuilder.add_position,
      FB.CharacterBuilder.add_mapcode, FlatBufferBuilder.new]
  unfold Make_Fbb_Character FB.CharacterBuilder.Finish
  rw [FlatBufferBuilder.contents_Finish_addTable (by simpa using hempty)]
  rfl

/-- A client that is told once or more that a character has left knows what it knew
without it. -/
theorem mem_foldl_of_leaving {session : Nat} (h : ∀ p ∈ packets,
    p = ⟨session, .LEAVE_CHARACTER, .characters (Channel.leaving key)⟩) :
    code ∈ packets.foldl applyPacket view ↔ code ∈ view ∧ (packets ≠ [] → code ≠ key) := by
  induction packets generalizing view with
  | nil => simp
  | cons p packets ih =>
    have hleft : applyPacket view p = view.filter (· ∉ [key]) := by
      rw [h p List.mem_cons_self, ← contents_leaving key]
      rfl
    rw [List.foldl_cons, ih fun q hq => h q (List.mem_cons_of_mem _ hq), hleft]
    simp only [List.mem_singleton, List.mem_filter, decide_eq_true_eq, ne_eq, reduceCtorEq,
      not_false_eq_true, forall_const]
    tauto

namespace Channel

variable {s t : Channel}

/-- Packets pushed in a loop. -/
theorem foldl_PushSend {α : Type} (xs : List α) (session : α → Nat) (symbol : Packet_Symbal)
    (payload : α → Payload) (s : Channel) :
    xs.foldl (fun s x => s.PushSend (session x) symbol (payload x)) s =
      { s with pushed := s.pushed ++ xs.map fun x => ⟨session x, symbol, payload x⟩ } := by
  induction xs generalizing s with
  | nil => simp
  | cons x xs ih =>
    rw [List.foldl_cons, ih]
    simp [PushSend]

/-- The packets of a snapshot of some members. -/
def snapshot (session : Nat) (around : Surroundings) (members : List Member) : List Pushed :=
  (Make_FBB_All_Monster around.monsters 10).2.map
      (fun fbb => ⟨session, .RESPAWN_MONSTER_VEC, .monsters fbb⟩) ++
    (Make_FBB_All_CharacterInfo (members.map fun ch => (ch.code, some (around.statusOf ch.code))) 10).2.map
      fun fbb => ⟨session, .ENTER_NEW_CHARACTER_VECTOR, .characters fbb⟩

/-- The packets about one character to all members. -/
def broadcast (symbol : Packet_Symbal) (fbb : FlatBufferBuilder FB.Character) (members : List Member) :
    List Pushed :=
  members.map fun ch => ⟨ch.session, symbol, .characters fbb⟩

/-- The packets about a character that enters: the members to it, and it to the members. -/
def entering (character : Member) (around : Surroundings) (order : List Member) : List Pushed :=
  snapshot character.session around order ++
    broadcast .ENTER_NEW_CHARACTER (Make_Fbb_Character (around.statusOf character.code)) order

theorem InsertCharacter_eq {character : Member} {around : Surroundings} {order : List Member}
    (hnew : character.code ∉ s.codes) :
    s.InsertCharacter character around order =
      { characters := order
        inserted := update s.inserted character.code s.pushed.length
        pushed := s.pushed ++ entering character around order } := by
  rw [InsertCharacter, if_neg hnew, sendSnapshots, SendAllCharacter]
  simp only [foldl_PushSend, entering, snapshot, broadcast, List.append_assoc]

theorem EraseCharacter_eq (hmember : key ∈ s.codes) :
    s.EraseCharacter key =
      { s with
        characters := s.characters.filter (·.code ≠ key)
        pushed := s.pushed ++ broadcast .LEAVE_CHARACTER (leaving key) (s.characters.filter (·.code ≠ key)) } := by
  rw [EraseCharacter, if_pos hmember, SendAllCharacter]
  simp only [foldl_PushSend, broadcast]

section Packets

variable {session : Nat} {around : Surroundings} {members : List Member}

theorem symbol_snapshot (hp : p ∈ snapshot session around members) : p.symbol ≠ .LEAVE_CHARACTER := by
  rcases List.mem_append.mp hp with hp | hp
  all_goals
    obtain ⟨fbb, _, rfl⟩ := List.mem_map.mp hp
    simp

/-- A snapshot lists its members and nobody else. -/
theorem entered_snapshot_iff : (∃ p ∈ snapshot session around members, p.session = session ∧ code ∈ p.entered) ↔
    code ∈ members.map Member.code := by
  have hentries : (members.map fun ch => (ch.code, some (around.statusOf ch.code))).filterMap Prod.snd =
      members.map fun ch => around.statusOf ch.code := by
    rw [List.filterMap_map]
    exact List.filterMap_eq_map_iff_forall_eq_some.mpr fun _ _ => rfl
  have hslice : (1 : Int) ≤ 10 := by decide
  have hlisted : ∀ table, (∃ fbb ∈ (Make_FBB_All_CharacterInfo
      (members.map fun ch => (ch.code, some (around.statusOf ch.code))) 10).2, table ∈ fbb.contents) ↔
        table ∈ (members.map fun ch => around.statusOf ch.code).map CharacterStatus.info := by
    intro table
    rw [← hentries]
    exact Slices.mem_contents_run adds_characterInfo hslice _
  constructor
  · rintro ⟨p, hp, _, hcode⟩
    rcases List.mem_append.mp hp with hp | hp
    · obtain ⟨fbb, _, rfl⟩ := List.mem_map.mp hp
      simp [Pushed.entered] at hcode
    · obtain ⟨fbb, hfbb, rfl⟩ := List.mem_map.mp hp
      obtain ⟨table, htable, rfl⟩ := List.mem_map.mp hcode
      have hinfo := (hlisted table).mp ⟨fbb, hfbb, htable⟩
      rw [List.map_map] at hinfo
      obtain ⟨ch, hch, rfl⟩ := List.mem_map.mp hinfo
      exact List.mem_map.mpr ⟨ch, hch, rfl⟩
  · intro hcode
    obtain ⟨ch, hch, rfl⟩ := List.mem_map.mp hcode
    obtain ⟨fbb, hfbb, htable⟩ := (hlisted (around.statusOf ch.code).info).mpr
      (List.mem_map_of_mem (List.mem_map.mpr ⟨ch, hch, rfl⟩))
    exact ⟨_, List.mem_append_right _ (List.mem_map_of_mem hfbb), rfl, List.mem_map.mpr ⟨_, htable, rfl⟩⟩

variable {character : Member}

theorem entered_Make_Fbb_Character : Pushed.entered ⟨session, .ENTER_NEW_CHARACTER,
    .characters (Make_Fbb_Character (around.statusOf character.code))⟩ = [character.code] :=
  contents_Make_Fbb_Character (around.statusOf character.code)

theorem symbol_entering (hp : p ∈ entering character around members) : p.symbol ≠ .LEAVE_CHARACTER := by
  rcases List.mem_append.mp hp with hp | hp
  · exact symbol_snapshot hp
  · obtain ⟨ch, _, rfl⟩ := List.mem_map.mp hp
    simp

/-- A client that receives its share of the packets knows what it knew and what they name. -/
theorem mem_foldl_entering {ch : Member} : code ∈ ((entering character around members).filter
    (·.session = ch.session)).foldl applyPacket view ↔
      code ∈ view ∨ ∃ p ∈ entering character around members, p.session = ch.session ∧ code ∈ p.entered := by
  rw [mem_foldl_of_entering fun p hp => symbol_entering (List.mem_of_mem_filter hp)]
  simp only [List.mem_filter, decide_eq_true_eq, and_assoc]

/-- The packets about a character that enters are of members only. -/
theorem entered_entering (hcharacter : character ∈ members) (hp : p ∈ entering character around members)
    (hcode : code ∈ p.entered) : code ∈ members.map Member.code := by
  rcases List.mem_append.mp hp with hp | hp
  · have hsession : p.session = character.session := by
      rcases List.mem_append.mp hp with hp | hp
      all_goals
        obtain ⟨fbb, _, rfl⟩ := List.mem_map.mp hp
        rfl
    exact entered_snapshot_iff.mp ⟨p, hp, hsession, hcode⟩
  · obtain ⟨ch, _, rfl⟩ := List.mem_map.mp hp
    rw [entered_Make_Fbb_Character, List.mem_singleton] at hcode
    exact hcode ▸ List.mem_map_of_mem hcharacter

/-- Every member is told of the character that enters. -/
theorem told_entering {ch : Member} (hch : ch ∈ members) :
    ∃ p ∈ entering character around members, p.session = ch.session ∧ character.code ∈ p.entered := by
  refine ⟨_, List.mem_append_right _ (List.mem_map_of_mem hch), rfl, ?_⟩
  rw [entered_Make_Fbb_Character]
  exact List.mem_singleton_self _

/-- The character that enters is told of every member. -/
theorem told_members (hcode : code ∈ members.map Member.code) :
    ∃ p ∈ entering character around members, p.session = character.session ∧ code ∈ p.entered := by
  obtain ⟨p, hp, hsession, hcode⟩ := entered_snapshot_iff.mpr hcode
  exact ⟨p, List.mem_append_left _ hp, hsession, hcode⟩

end Packets

/-- Every member's client knows exactly the members. -/
structure Agreeing (s : Channel) : Prop where
  nodup : s.codes.Nodup
  since : ∀ ch ∈ s.characters, s.inserted ch.code ≤ s.pushed.length
  views : ∀ ch ∈ s.characters, ∀ code, code ∈ s.view ch ↔ code ∈ s.codes

/-- The packets pushed after a member's insertion continue its view. -/
theorem view_append {ch : Member} {sent : List Pushed} (hpushed : t.pushed = s.pushed ++ sent)
    (hinserted : t.inserted ch.code = s.inserted ch.code) (hsince : s.inserted ch.code ≤ s.pushed.length) :
    t.view ch = (sent.filter (·.session = ch.session)).foldl applyPacket (s.view ch) := by
  rw [view, hpushed, hinserted, List.drop_append_of_le_length hsince, List.filter_append, List.foldl_append]
  rfl

theorem Agreeing.insert {character : Member} {around : Surroundings} {order : List Member} (hs : s.Agreeing)
    (hnew : character.code ∉ s.codes) (horder : order.Perm (character :: s.characters)) :
    (s.InsertCharacter character around order).Agreeing := by
  let sent := entering character around order
  let t : Channel :=
    ⟨order, s.pushed ++ sent, update s.inserted character.code s.pushed.length⟩
  have ht : s.InsertCharacter character around order = t := InsertCharacter_eq hnew
  have hcodes : ∀ code, code ∈ t.codes ↔ code = character.code ∨ code ∈ s.codes := by
    intro code
    rw [codes, (horder.map Member.code).mem_iff, List.map_cons, List.mem_cons]
    rfl
  have hcharacter : character ∈ order := horder.mem_iff.mpr List.mem_cons_self
  have hmember : ∀ ch ∈ order, ch = character ∨ ch ∈ s.characters ∧ ch.code ≠ character.code := by
    intro ch hch
    refine (List.mem_cons.mp (horder.mem_iff.mp hch)).imp_right fun hold => ⟨hold, fun hsame => hnew ?_⟩
    exact hsame ▸ List.mem_map_of_mem hold
  rw [ht]
  refine ⟨?_, fun ch hch => ?_, fun ch hch code => ?_⟩
  · refine ((horder.map Member.code).nodup_iff).mpr ?_
    exact List.nodup_cons.mpr ⟨hnew, hs.nodup⟩
  · change update s.inserted character.code s.pushed.length ch.code ≤ (s.pushed ++ sent).length
    rw [List.length_append]
    rcases hmember ch hch with rfl | ⟨hold, hne⟩
    · rw [update_self]
      exact Nat.le_add_right _ _
    · rw [update_of_ne hne]
      exact Nat.le_trans (hs.since ch hold) (Nat.le_add_right _ _)
  · rcases hmember ch hch with rfl | ⟨hold, hne⟩
    · -- a new member starts from the snapshot
      have hnone : t.view ch = (sent.filter (·.session = ch.session)).foldl applyPacket [] := by
        simp [view, t]
      rw [hnone, mem_foldl_entering]
      constructor
      · rintro (hbefore | ⟨p, hp, _, hcode⟩)
        · simp at hbefore
        · exact entered_entering hcharacter hp hcode
      · exact fun hcode => Or.inr (told_members hcode)
    · rw [view_append rfl (update_of_ne hne _ _) (hs.since ch hold), mem_foldl_entering, hs.views ch hold]
      constructor
      · rintro (hbefore | ⟨p, hp, _, hcode⟩)
        · exact (hcodes code).mpr (Or.inr hbefore)
        · exact entered_entering hcharacter hp hcode
      · intro hcode
        rcases (hcodes code).mp hcode with rfl | hbefore
        · exact Or.inr (told_entering hch)
        · exact Or.inl hbefore

theorem Agreeing.erase (hs : s.Agreeing) (key : Int) : (s.EraseCharacter key).Agreeing := by
  by_cases hmember : key ∈ s.codes
  · rw [EraseCharacter_eq hmember]
    let remaining := s.characters.filter (·.code ≠ key)
    let sent := broadcast .LEAVE_CHARACTER (leaving key) remaining
    let t : Channel := ⟨remaining, s.pushed ++ sent, s.inserted⟩
    have hcodes : ∀ code, code ∈ t.codes ↔ code ∈ s.codes ∧ code ≠ key := by
      intro code
      simp only [codes, t, remaining, List.mem_map, List.mem_filter, decide_eq_true_eq]
      constructor
      · rintro ⟨ch, ⟨hch, hne⟩, rfl⟩
        exact ⟨⟨ch, hch, rfl⟩, hne⟩
      · rintro ⟨⟨ch, hch, rfl⟩, hne⟩
        exact ⟨ch, ⟨hch, hne⟩, rfl⟩
    refine ⟨?_, fun ch hch => ?_, fun ch hch code => ?_⟩
    · exact hs.nodup.sublist (List.filter_sublist.map _)
    · refine Nat.le_trans (hs.since ch (List.mem_of_mem_filter hch)) ?_
      rw [List.length_append]
      exact Nat.le_add_right _ _
    · have hold : ch ∈ s.characters := List.mem_of_mem_filter hch
      have hleaving : ∀ p ∈ sent.filter (·.session = ch.session),
          p = ⟨ch.session, .LEAVE_CHARACTER, .characters (leaving key)⟩ := by
        intro p hp
        obtain ⟨hp, hsession⟩ := List.mem_filter.mp hp
        obtain ⟨other, _, rfl⟩ := List.mem_map.mp hp
        have hsame : other.session = ch.session := by simpa using hsession
        rw [hsame]
      have htold : sent.filter (·.session = ch.session) ≠ [] := by
        have hsent : ⟨ch.session, .LEAVE_CHARACTER, .characters (leaving key)⟩ ∈ sent :=
          List.mem_map.mpr ⟨ch, hch, rfl⟩
        exact List.ne_nil_of_mem (List.mem_filter.mpr ⟨hsent, by simp⟩)
      have hview : t.view ch = (sent.filter (·.session = ch.session)).foldl applyPacket (s.view ch) :=
        view_append rfl rfl (hs.since ch hold)
      change code ∈ t.view ch ↔ code ∈ t.codes
      rw [hview, mem_foldl_of_leaving hleaving, hs.views ch hold, hcodes]
      exact and_congr_right fun _ => ⟨fun h => h htold, fun h _ => h⟩
  · rwa [EraseCharacter, if_neg hmember]

/-- In every run of insertions and erasures, the client of each member knows exactly the
members. -/
theorem run_views_agree {ops : List Operation} (hrun : Run (OfOption next) start ops s) {ch : Member}
    (hch : ch ∈ s.characters) (code : Int) : code ∈ s.view ch ↔ code ∈ s.codes := by
  suffices h : s.Agreeing from h.views ch hch code
  apply hrun.invariant
  · exact ⟨List.nodup_nil, by simp [start], by simp [start]⟩
  · intro a op b ha hnext
    cases op with
    | InsertCharacter character around order =>
      obtain ⟨hcond, hresult⟩ := Option.ite_none_right_eq_some.mp hnext
      obtain rfl := Option.some.inj hresult
      by_cases hnew : character.code ∈ a.codes
      · rwa [InsertCharacter, if_pos hnew]
      · exact ha.insert hnew (hcond.resolve_left hnew)
    | EraseCharacter key =>
      obtain rfl := Option.some.inj hnext
      exact ha.erase key

/-- Two characters enter, the first one again, and the first one leaves. -/
theorem run_two_characters_agree :
    ∃ ops s, Run (OfOption next) start ops s ∧ s.characters = [⟨8, 2⟩] ∧
      ∀ code, code ∈ s.view ⟨8, 2⟩ ↔ code ∈ s.codes := by
  let around : Surroundings := ⟨[], nameless⟩
  have hfold : ([.InsertCharacter ⟨7, 1⟩ around [⟨7, 1⟩], .InsertCharacter ⟨8, 2⟩ around [⟨8, 2⟩, ⟨7, 1⟩],
      .InsertCharacter ⟨7, 1⟩ around [], .EraseCharacter 7].foldlM next start).map Channel.characters =
      some [⟨8, 2⟩] := by
    decide +kernel
  obtain ⟨s, hs, hcharacters⟩ := Option.map_eq_some_iff.mp hfold
  have hrun := run_ofOption_iff.mpr hs
  exact ⟨_, s, hrun, hcharacters, run_views_agree hrun (hcharacters ▸ List.mem_singleton_self _)⟩

end Channel

end AsioGameServer.channel

import AsioGameServer.World.Staying
import AsioGameServer.World.Telling

open Function Number Replica

namespace AsioGameServer.world

open flatbuffers (FlatBufferBuilder)

variable {F : Type} [Number F]

namespace Motion

/-- A character that is not flagged is where it was, and was not flagged. -/
def Flags (m m' : Motion F) : Prop :=
  m'.bChangePosition = false → m.bChangePosition = false ∧ ground m'.position = ground m.position

variable {m m' m'' : Motion F}

omit [Number F] in
theorem Flags.refl (m : Motion F) : Flags m m := fun hflag => ⟨hflag, rfl⟩

omit [Number F] in
theorem Flags.trans (h : Flags m m') (h' : Flags m' m'') : Flags m m'' := by
  intro hflag
  obtain ⟨hflag', hground'⟩ := h' hflag
  obtain ⟨hflag, hground⟩ := h hflag'
  exact ⟨hflag, hground'.trans hground⟩

theorem flags_Moving (delta : F) (m : Motion F) : Flags m (m.Moving delta) := by
  intro hflag
  have hunflagged : ¬ ((m.Moving delta).position ≠ m.position ∨ m.bChangePosition = true) := by
    intro h
    have hflagged : ((movement.Character.mk 0 m).Moving delta).flagged = true := movement.Character.flagged_Moving h
    rw [movement.Character.flagged, movement.Character.Moving, hflag] at hflagged
    cases hflagged
  rw [not_or, not_not] at hunflagged
  exact ⟨by simpa using hunflagged.2, by rw [hunflagged.1]⟩

/-- A function sets the height only. -/
theorem flags_call (func : MovingFunction F) (m : Motion F) : Flags m (func.call m) := fun hflag => ⟨hflag, rfl⟩

end Motion

namespace Observed

open Motion (Flags)

variable {s s' s₀ : Observed F} {id : Nat} {code key : Int} {out : List Int}

/-- The clients of the members that are not going out know where those members are that are not
flagged, and of nobody who is no member, once they have got what waits. -/
structure Aware (s : Observed F) (id : Nat) (out : List Int) : Prop where
  known : ∀ viewer code, viewer ∈ s.members id → viewer ∉ out → s.watches viewer = true →
    code ∈ s.members id → code ∉ out → (s.scene.motions code).bChangePosition = false →
    s.outlook id viewer code = some (some (ground (s.scene.motions code).position))
  present : ∀ viewer code place, viewer ∈ s.members id → viewer ∉ out → s.watches viewer = true →
    s.outlook id viewer code = some (some place) → code ∈ s.members id

omit [Number F] in
/-- Where no client learns anything, all that happens to characters has to be flagged. -/
theorem Aware.transfer {out' : List Int} (h : s.Aware id out) (hmembers : ∀ c, c ∈ s'.members id ↔ c ∈ s.members id)
    (hout : ∀ c ∈ s.members id, c ∉ out' → c ∉ out)
    (hwatches : ∀ c, s'.watches c = true → s.watches c = true)
    (houtlook : ∀ c ∈ s.members id, c ∉ out' → s.watches c = true → s'.outlook id c = s.outlook id c)
    (hflags : ∀ c ∈ s.members id, c ∉ out' → Flags (s.scene.motions c) (s'.scene.motions c)) : s'.Aware id out' := by
  constructor
  · intro viewer code hviewer hstays hwatching hcode hkept hflag
    rw [hmembers] at hviewer hcode
    obtain ⟨hbefore, hground⟩ := hflags code hcode hkept hflag
    rw [houtlook viewer hviewer hstays (hwatches viewer hwatching), hground]
    exact h.known viewer code hviewer (hout viewer hviewer hstays) (hwatches viewer hwatching) hcode
      (hout code hcode hkept) hbefore
  · intro viewer code place hviewer hstays hwatching hplace
    rw [hmembers] at hviewer ⊢
    rw [houtlook viewer hviewer hstays (hwatches viewer hwatching)] at hplace
    exact h.present viewer code place hviewer (hout viewer hviewer hstays) (hwatches viewer hwatching) hplace

omit [Number F] in
theorem members_eq (s : Observed F) (id : Nat) : s.members id = s.scene.now.roster.members id := by
  cases hget : s.scene.now.channels[id]? with
  | none => simp [members, World.manager, World.roster, hget]
  | some channel => simp [members, World.manager, World.roster, Channel.members, hget]

omit [Number F] in
theorem watches_of_base {b : World} (hbase : s.scene.now.base = b) (c : Int) :
    s.watches c = ((b.characters c).user && (b.characters c).session) := by
  subst hbase
  rfl

/-- Where the tick of channel `id` stands: its roster so far, and nothing has happened to the
characters that are not near it. -/
structure Passing (nearby : Int → Prop) (id : Nat) (b : World) (s₀ : Observed F) (out : List Int) (r : Roster Int Nat)
    (s : Observed F) : Prop where
  ticking : World.Ticking id b r s.scene.now
  near : ∀ c ∈ r.members id, nearby c
  escapes : ∀ other, other ≠ id → s.escapes other = s₀.escapes other
  lists : s.lists = s₀.lists
  received : ∀ c, ¬ nearby c → s.received c = s₀.received c
  motions : ∀ c, ¬ nearby c → s.scene.motions c = s₀.scene.motions c
  aware : s.Aware id out

variable {nearby : Int → Prop} {b : World} {r : Roster Int Nat}

omit [Number F] in
theorem Passing.members (h : Passing nearby id b s₀ out r s) : s.members id = r.members id := by
  rw [members_eq, h.ticking.roster]

/-- A member that is erased was going out. -/
theorem Passing.erase (h : Passing nearby id b s₀ out r s) (hquiet : s.escapes id = []) (held : List Int)
    (hkey : key ∈ out) :
    Outcome (fun s' => Passing nearby id b s₀ out (Roster.erase (b.live held) id r key) s' ∧ s'.escapes id = [])
      (fun _ => True) (s.EraseCharacter held id key) := by
  obtain ⟨now, hnow, hticking⟩ := World.EraseCharacter_spec h.ticking held key
  have hless : ∀ c, c ∈ (Roster.erase (b.live held) id r key).members id ↔ c ∈ r.members id ∧ c ≠ key := by
    intro c
    rw [Roster.mem_members_erase]
    simp
  have hnear : ∀ c ∈ (Roster.erase (b.live held) id r key).members id, nearby c :=
    fun c hc => h.near c ((hless c).mp hc).1
  have hmembers : (s.onNow now).members id = (Roster.erase (b.live held) id r key).members id := by
    rw [members_eq]
    exact congrArg (·.members id) hticking.roster
  have hwatches : ∀ c, (s.onNow now).watches c = s.watches c := by
    intro c
    rw [watches_of_base h.ticking.base, watches_of_base (s := s.onNow now) hticking.base]
  unfold EraseCharacter
  rw [hnow]
  change Outcome _ _ (if key ∈ s.members id then _ else _)
  split
  · obtain ⟨received, hsent, hothers⟩ :=
      exists_SendAllCharacter id (s.onNow now) (.LEAVE_CHARACTER (leaving key))
    have hview := view_SendAllCharacter id (s.onNow now) (.LEAVE_CHARACTER (leaving key))
    rw [hsent] at hview
    have hlearns : ∀ viewer ∈ (Roster.erase (b.live held) id r key).members id, s.watches viewer = true → ∀ c,
        Observed.outlook { s.onNow now with received } id viewer c =
          if c = key then some none else s.outlook id viewer c := by
      intro viewer hviewer hwatching c
      rw [outlook_of_quiet hquiet, outlook_of_quiet (s := { s.onNow now with received }) hquiet, hview viewer,
        if_pos ⟨hmembers.symm ▸ hviewer, (hwatches viewer).trans hwatching⟩, tells_leaving]
      exact update_apply _ _ _ _
    rw [hsent]
    refine ⟨⟨hticking, hnear, h.escapes, h.lists, fun c hc => ?_, h.motions, ?_⟩, hquiet⟩
    · exact (hothers c fun hmember => hc (hnear c (hmembers ▸ hmember))).trans (h.received c hc)
    · constructor
      · intro viewer code hviewer hstays hwatching hcode hkept hflag
        have hviewer : viewer ∈ (Roster.erase (b.live held) id r key).members id := hmembers ▸ hviewer
        have hcode : code ∈ (Roster.erase (b.live held) id r key).members id := hmembers ▸ hcode
        have hwatching : s.watches viewer = true := (hwatches viewer).symm.trans hwatching
        rw [hlearns viewer hviewer hwatching, if_neg ((hless code).mp hcode).2]
        exact h.aware.known viewer code (h.members ▸ ((hless viewer).mp hviewer).1) hstays hwatching
          (h.members ▸ ((hless code).mp hcode).1) hkept hflag
      · intro viewer code place hviewer hstays hwatching hplace
        have hviewer : viewer ∈ (Roster.erase (b.live held) id r key).members id := hmembers ▸ hviewer
        have hwatching : s.watches viewer = true := (hwatches viewer).symm.trans hwatching
        rw [hlearns viewer hviewer hwatching] at hplace
        have hne : code ≠ key := by
          rintro rfl
          simp at hplace
        rw [if_neg hne] at hplace
        have hbefore := h.aware.present viewer code place (h.members ▸ ((hless viewer).mp hviewer).1) hstays hwatching
          hplace
        change code ∈ (s.onNow now).members id
        rw [hmembers]
        exact (hless code).mpr ⟨h.members ▸ hbefore, hne⟩
  · rename_i hmember
    have hsame : (s.onNow now).members id = s.members id := by
      rw [hmembers, h.members, Roster.erase, if_neg (h.members ▸ hmember)]
    refine ⟨⟨hticking, hnear, h.escapes, h.lists, h.received, h.motions, ?_⟩, hquiet⟩
    exact h.aware.transfer (fun c => by rw [hsame]) (fun _ _ hc => hc) (fun c hc => (hwatches c).symm.trans hc)
      (fun _ _ _ _ => rfl) fun c _ _ => .refl _

variable {iterate : List Int → List Int} {profile : Int → Profile F}

/-- A member that is inserted again has not moved since. -/
theorem Passing.insert (h : Passing nearby id b s₀ [] r s) (hquiet : s.escapes id = [])
    (hfresh : code ∈ r.members id → (s.scene.motions code).bChangePosition = false) (hnear : nearby code)
    (horder : ∀ l, (iterate l).Perm l) :
    Outcome (fun s' => Passing nearby id b s₀ [] (Roster.insert id r code) s' ∧ s'.escapes id = [] ∧
        (s'.scene.motions code).bChangePosition = false ∧
        ∀ c, c ≠ code → s'.scene.motions c = s.scene.motions c)
      (fun _ => True) (s.InsertCharacter iterate profile id code) := by
  unfold InsertCharacter
  cases hinsert : s.scene.now.InsertCharacter id code with
  | error fault => trivial
  | ok now =>
    have hticking : World.Ticking id b (Roster.insert id r code) now :=
      (World.InsertCharacter_spec h.ticking code).ok hinsert
    have hmore : ∀ c, c ∈ (Roster.insert id r code).members id ↔ c ∈ r.members id ∨ c = code := by
      intro c
      rw [Roster.mem_members_insert]
      simp
    have hnearby : ∀ c ∈ (Roster.insert id r code).members id, nearby c := by
      intro c hc
      obtain hc | rfl := (hmore c).mp hc
      · exact h.near c hc
      · exact hnear
    let s₁ : Observed F := { s with scene := { s.scene.InsertCharacter code with now } }
    have hmembers : s₁.members id = (Roster.insert id r code).members id := by
      rw [members_eq]
      exact congrArg (·.members id) hticking.roster
    have hwatches : ∀ c, s₁.watches c = s.watches c := by
      intro c
      rw [watches_of_base h.ticking.base, watches_of_base (s := s₁) hticking.base]
    have hothers : ∀ c, c ≠ code → s₁.scene.motions c = s.scene.motions c := fun c hc => update_of_ne hc _ _
    have hself : (s₁.scene.motions code).bChangePosition = false ∧
        ground (s₁.scene.motions code).position = ground (s.scene.motions code).position := by
      simp [s₁, Scene.InsertCharacter, Scene.onMotion, Motion.SetMoveCancel, Motion.SetWarpPosition]
    have hground : ∀ c, ground (s₁.scene.motions c).position = ground (s.scene.motions c).position := by
      intro c
      by_cases hc : c = code
      · rw [hc, hself.2]
      · rw [hothers c hc]
    have hmotions : ∀ c, ¬ nearby c → s₁.scene.motions c = s₀.scene.motions c := by
      intro c hc
      rw [hothers c fun heq => hc (heq ▸ hnear), h.motions c hc]
    change Outcome _ _ (if code ∈ s.members id then pure s₁ else pure (s₁.announce iterate profile id code))
    split
    · rename_i hmember
      rw [h.members] at hmember
      have hsame : s₁.members id = s.members id := by rw [hmembers, h.members, Roster.insert, if_pos hmember]
      refine ⟨⟨hticking, hnearby, h.escapes, h.lists, h.received, hmotions, ?_⟩, hquiet, hself.1, hothers⟩
      refine h.aware.transfer (fun c => by rw [hsame]) (fun _ _ hc => hc) (fun c hc => (hwatches c).symm.trans hc)
        (fun _ _ _ _ => rfl) fun c _ _ hflag => ⟨?_, hground c⟩
      by_cases hc : c = code
      · exact hc ▸ hfresh hmember
      · rwa [hothers c hc] at hflag
    · rename_i hnew
      have hopen := World.open_of_InsertCharacter hinsert (members_eq s id ▸ hnew)
      have hwatching : s₁.watches code = true := by
        rw [hwatches]
        exact Bool.and_eq_true_iff.mpr hopen
      obtain ⟨received, hannounce, hreceived⟩ := exists_announce iterate profile id s₁ code
      have hview : ∀ viewer ∈ s₁.members id, s₁.watches viewer = true → ∀ c, _ :=
        fun viewer hviewer hwatches c => view_announce horder profile c hwatching hviewer hwatches
      rw [hannounce] at hview ⊢
      refine ⟨⟨hticking, hnearby, h.escapes, h.lists, fun c hc => ?_, hmotions, ?_⟩, hquiet, hself.1, hothers⟩
      · have hne : c ≠ code := fun heq => hc (heq ▸ hnear)
        exact (hreceived c hne fun hmember => hc (hnearby c (hmembers ▸ hmember))).trans (h.received c hc)
      · have hold : ∀ c ∈ s₁.members id, c ≠ code → c ∈ s.members id := by
          intro c hc hne
          rw [hmembers] at hc
          exact h.members ▸ ((hmore c).mp hc).resolve_right hne
        constructor
        · intro viewer c hviewer _ hwatches' hc _ hflag
          rw [outlook_of_quiet (s := { s₁ with received }) hquiet, hview viewer hviewer hwatches']
          by_cases hcode : c = code
          · subst hcode
            rw [if_pos rfl]
          · rw [if_neg hcode]
            by_cases hviewer' : viewer = code
            · rw [if_pos hviewer']
              exact if_pos hc
            · have hflag : (s.scene.motions c).bChangePosition = false := hothers c hcode ▸ hflag
              have hknown := h.aware.known viewer c (hold viewer hviewer hviewer') (List.not_mem_nil)
                ((hwatches viewer).symm.trans hwatches') (hold c hc hcode) (List.not_mem_nil) hflag
              rw [outlook_of_quiet hquiet] at hknown
              rw [if_neg hviewer']
              exact hknown.trans (by rw [hothers c hcode])
        · intro viewer c place hviewer _ hwatches' hplace
          rw [outlook_of_quiet (s := { s₁ with received }) hquiet, hview viewer hviewer hwatches'] at hplace
          change c ∈ s₁.members id
          by_cases hcode : c = code
          · rw [hmembers]
            exact (hmore c).mpr (.inr hcode)
          · rw [if_neg hcode] at hplace
            by_cases hviewer' : viewer = code
            · rw [if_pos hviewer'] at hplace
              by_contra hc
              rw [if_neg hc] at hplace
              cases hplace
            · rw [if_neg hviewer'] at hplace
              have hpresent := h.aware.present viewer c place (hold viewer hviewer hviewer') (List.not_mem_nil)
                ((hwatches viewer).symm.trans hwatches')
              rw [outlook_of_quiet hquiet] at hpresent
              have hbefore := hpresent hplace
              rw [hmembers]
              exact (hmore c).mpr (.inl (h.members ▸ hbefore))

section Answering

variable {iterate : List Int → List Int} {profile : Int → Profile F}

/-- A list of the characters tells the client that asked for it where all members are. -/
theorem exists_answer (horder : ∀ l, (iterate l).Perm l) (profile : Int → Profile F) (id : Nat) (s : Observed F)
    (request : Int × Nat) :
    ∃ received, s.answer iterate profile id request = { s with received } ∧
      (∀ c, c ≠ request.1 → received c = s.received c) ∧
      ∀ viewer c, Observed.view { s with received } viewer c =
        if (viewer = request.1 ∧ s.watches request.1 = true) ∧ c ∈ s.members id then
          some (some (ground (s.scene.motions c).position))
        else s.view viewer c := by
  let s₁ := s.after id request.2
  let fbbArray := (Make_FBB_All_CharacterInfo ((iterate (s.members id)).map (s₁.shown profile))).2
  have hground : ∀ c, ground (s₁.scene.motions c).position = ground (s.scene.motions c).position := by
    intro c
    have hcalled : s₁.scene.motions c = (s.scene.motions c).calls _ := Scene.motions_calls _ s.scene
    rw [hcalled, Motion.calls_position]
    rfl
  obtain ⟨received, hpush, hothers⟩ := exists_PushSend s (fbbArray.map .ENTER_NEW_CHARACTER_VECTOR) request.1
  refine ⟨received, hpush, hothers, fun viewer c => ?_⟩
  rw [← hpush, view_PushSend]
  by_cases hviewer : viewer = request.1 ∧ s.watches request.1 = true
  · rw [if_pos hviewer, apply_snapshot horder s₁, hground]
    simp [hviewer]
  · rw [if_neg hviewer, if_neg fun h => hviewer h.1]

/-- After the lists of the characters a client knows what it knew, or where a member is. -/
theorem exists_answers (horder : ∀ l, (iterate l).Perm l) (profile : Int → Profile F) (id : Nat)
    (requests : List (Int × Nat)) (s : Observed F) :
    ∃ received, requests.foldl (answer iterate profile id) s = { s with received } ∧
      (∀ c, c ∉ requests.map Prod.fst → received c = s.received c) ∧
      ∀ viewer c, Observed.view { s with received } viewer c = s.view viewer c ∨
        viewer ∈ requests.map Prod.fst ∧ c ∈ s.members id ∧
          Observed.view { s with received } viewer c = some (some (ground (s.scene.motions c).position)) := by
  induction requests generalizing s with
  | nil => exact ⟨s.received, rfl, fun _ _ => rfl, fun _ _ => .inl rfl⟩
  | cons request requests ih =>
    obtain ⟨received, hanswer, hothers, hview⟩ := exists_answer horder profile id s request
    obtain ⟨received', hrest, hothers', hview'⟩ := ih { s with received }
    refine ⟨received', ?_, fun c hc => ?_, fun viewer c => ?_⟩
    · rw [List.foldl_cons, hanswer, hrest]
    · obtain ⟨hne, hc⟩ := not_or.mp (List.mem_cons.not.mp hc)
      exact (hothers' c hc).trans (hothers c hne)
    · obtain hsame | ⟨hviewer, hc, hknown⟩ := hview' viewer c
      · rw [hview] at hsame
        split at hsame
        · rename_i h
          exact .inr ⟨h.1.1 ▸ List.mem_cons_self, h.2, hsame⟩
        · exact .inl hsame
      · exact .inr ⟨List.mem_cons_of_mem _ hviewer, hc, hknown⟩

end Answering

section Reporting

omit [Number F] in
/-- What the loops leave in the characters that they pass. -/
theorem motions_store (codes : List Int) (g : Int → Motion F) (s : Observed F) :
    ∃ motions, (codes.map fun code => (code, some (movement.Character.mk code (g code)))).foldl store s =
        { s with scene := { s.scene with motions } } ∧
      ∀ c, motions c = if c ∈ codes then g c else s.scene.motions c := by
  induction codes generalizing s with
  | nil => exact ⟨s.scene.motions, rfl, fun _ => rfl⟩
  | cons code codes ih =>
    obtain ⟨motions, hrest, hmotions⟩ := ih (s.store (code, some ⟨code, g code⟩))
    refine ⟨motions, hrest, fun c => ?_⟩
    rw [hmotions]
    by_cases hc : c ∈ codes
    · simp [hc]
    · by_cases hcode : c = code
      · subst hcode
        simp [hc, store, Scene.onMotion]
      · simp [hc, hcode, store, Scene.onMotion]

variable {packets : List (FlatBufferBuilder (movement.FB.Move F))} {flagged : List Int}

omit [Number F] in
/-- What the reports of some characters tell. -/
theorem tells_reports (motions : Int → Motion F)
    (hpackets : packets.flatMap FlatBufferBuilder.contents =
      flagged.map fun code => movement.Character.move ⟨code, motions code⟩) :
    (packets.map Packet.MOVING_VECTOR).flatMap Packet.tells =
      flagged.map fun code => (code, some (ground (motions code).position)) := by
  have hall : (packets.map Packet.MOVING_VECTOR).flatMap Packet.tells =
      (packets.flatMap FlatBufferBuilder.contents).filterMap fun table =>
        table.position.map fun position => (table.code, some (ground position)) := by
    rw [List.flatMap_map, List.filterMap_flatMap]
    rfl
  rw [hall, hpackets, List.filterMap_map]
  exact List.filterMap_eq_map_iff_forall_eq_some.mpr fun _ _ => rfl

/-- Where the members of a channel are that are flagged. -/
def report (iterate : List Int → List Int) (id : Nat) (s : Observed F) : List (Int × Option (F × F)) :=
  ((iterate (s.members id)).filter fun code => (s.scene.motions code).bChangePosition).map
    fun code => (code, some (ground (s.scene.motions code).position))

/-- A manager reports the members that are flagged, and none of them is flagged then. -/
theorem exists_broadcast (iterate : List Int → List Int) (id : Nat) (s : Observed F) :
    ∃ saveTime received motions, s.broadcast iterate id =
        .ok { s with scene := { s.scene with motions }, saveTime, received } ∧
      (∀ c, motions c = if c ∈ iterate (s.members id) then { s.scene.motions c with bChangePosition := false }
        else s.scene.motions c) ∧
      (∀ c, c ∉ s.members id → received c = s.received c) ∧
      ∀ viewer, Observed.view { s with received } viewer =
        if viewer ∈ s.members id ∧ s.watches viewer = true then apply (s.view viewer) (s.report iterate id)
        else s.view viewer := by
  let codes := iterate (s.members id)
  have hlive : (s.reporter iterate id).characters = movement.Gathering.live
      (codes.map fun code => (code, (⟨code, s.scene.motions code⟩ : movement.Character F))) := by
    simp [reporter, movement.Gathering.live, codes]
  obtain ⟨cm, packets, hbroadcast, hsent, hreported⟩ := movement.CharacterManager.exists_broadcast hlive
  obtain ⟨motions, hstore, hmotions⟩ := motions_store codes
    (fun code => { s.scene.motions code with bChangePosition := false })
    { s with saveTime := update s.saveTime id cm.saveTime }
  have hafter : cm.characters = codes.map fun code =>
      (code, some (movement.Character.mk code { s.scene.motions code with bChangePosition := false })) := by
    rw [hreported.kept]
    simp [movement.Gathering.live, movement.Character.unflag]
  obtain ⟨received, hpushed, hothers, hview⟩ := exists_sendAll id (packets.map Packet.MOVING_VECTOR)
    { s with scene := { s.scene with motions }, saveTime := update s.saveTime id cm.saveTime }
  have hreport : (packets.map Packet.MOVING_VECTOR).flatMap Packet.tells = s.report iterate id := by
    refine tells_reports s.scene.motions (hreported.reported.trans ?_)
    rw [List.map_map, List.filter_map, List.map_map]
    rfl
  rw [hreport] at hview
  refine ⟨update s.saveTime id cm.saveTime, received, motions, ?_, hmotions, hothers, hview⟩
  unfold broadcast
  rw [hbroadcast]
  dsimp only
  rw [hafter, hstore, hsent, reporter, List.nil_append, List.foldl_map]
  rw [List.foldl_map] at hpushed
  exact congrArg _ hpushed

end Reporting

/-- An escape is reported where the character stays. -/
theorem Passing.escape (h : Passing nearby id b s₀ [] r s) (mapCode : Int)
    (howner : ∀ q, r.owner code = some q → q = id ∧ code ∈ r.members id) :
    Outcome (Passing nearby id b s₀ [] r) (fun _ => True) (s.Escape mapCode code) := by
  unfold Escape
  cases hescape : s.scene.now.Escape code with
  | error fault => trivial
  | ok now =>
    have hticking : World.Ticking id b r now := (World.Escape_spec h.ticking code).ok hescape
    have hroster : s.scene.now.roster.owner code = r.owner code := by rw [h.ticking.roster]
    simp only [bind, Except.bind]
    cases hcm : (s.scene.now.characters code).cm with
    | none => trivial
    | some channel =>
      obtain ⟨rfl, hmember⟩ := howner channel (hroster.symm.trans hcm)
      let s₁ : Observed F := { s with scene := { s.scene.Escape mapCode code with now } }
      let fbb := escaping code (s₁.scene.motions code).position
      let s₂ : Observed F := { s₁ with escapes := update s.escapes channel (s.escapes channel ++ [fbb]) }
      change Passing nearby channel b s₀ [] r s₂
      have hmembers : s₂.members channel = r.members channel := by
        rw [members_eq]
        exact congrArg (·.members channel) hticking.roster
      have hwatches : ∀ c, s₂.watches c = s.watches c := by
        intro c
        rw [watches_of_base h.ticking.base, watches_of_base (s := s₂) hticking.base]
      have hothers : ∀ c, c ≠ code → s₂.scene.motions c = s.scene.motions c := fun c hc => update_of_ne hc _ _
      have hwaiting : s₂.waiting channel =
          s.waiting channel ++ [(code, some (ground (s₂.scene.motions code).position))] := by
        rw [waiting, waiting]
        simp only [s₂, update_self, List.flatMap_append, List.flatMap_singleton, fbb, tells_escaping, s₁]
      have hlearns : ∀ viewer c, s₂.outlook channel viewer c =
          if c = code then some (some (ground (s₂.scene.motions code).position)) else s.outlook channel viewer c := by
        intro viewer c
        rw [outlook, hwaiting, apply_append]
        exact update_apply _ _ _ _
      refine ⟨hticking, h.near, fun other hother => ?_, h.lists, h.received, fun c hc => ?_, ?_⟩
      · exact (update_of_ne hother _ _).trans (h.escapes other hother)
      · rw [hothers c fun heq => hc (heq ▸ h.near code hmember), h.motions c hc]
      · constructor
        · intro viewer c hviewer _ hwatching hc _ hflag
          rw [hlearns]
          by_cases hcode : c = code
          · subst hcode
            rw [if_pos rfl]
          · rw [if_neg hcode, hothers c hcode]
            rw [hothers c hcode] at hflag
            exact h.aware.known viewer c (h.members ▸ hmembers ▸ hviewer) (List.not_mem_nil)
              ((hwatches viewer).symm.trans hwatching) (h.members ▸ hmembers ▸ hc) (List.not_mem_nil) hflag
        · intro viewer c place hviewer _ hwatching hplace
          rw [hmembers]
          rw [hlearns] at hplace
          by_cases hcode : c = code
          · exact hcode ▸ hmember
          · rw [if_neg hcode] at hplace
            exact h.members ▸ h.aware.present viewer c place (h.members ▸ hmembers ▸ hviewer) (List.not_mem_nil)
              ((hwatches viewer).symm.trans hwatching) hplace

end Observed

namespace Scene

variable {s s' : Scene F}

theorem flags_calls (funcs : List (MovingFunction F)) (m : Motion F) : Motion.Flags m (m.calls funcs) := by
  induction funcs generalizing m with
  | nil => exact .refl m
  | cons func funcs ih => exact (Motion.flags_call func m).trans (ih _)

theorem flags_moves (delta : F) (characters : List Int) (s : Scene F) (c : Int) :
    Motion.Flags (s.motions c)
      ((characters.foldl (fun s code => s.onMotion code (·.Moving delta)) s).motions c) := by
  induction characters generalizing s with
  | nil => exact .refl _
  | cons code characters ih =>
    refine Motion.Flags.trans ?_ (ih _)
    by_cases hc : c = code
    · subst hc
      have hself : (s.onMotion c (·.Moving delta)).motions c = (s.motions c).Moving delta := update_self _ _ _
      rw [hself]
      exact Motion.flags_Moving delta _
    · have hother : (s.onMotion code (·.Moving delta)).motions c = s.motions c := update_of_ne hc _ _
      rw [hother]
      exact .refl _

omit [Number F] in
theorem now_moves (f : Motion F → Motion F) (characters : List Int) (s : Scene F) :
    (characters.foldl (fun s code => s.onMotion code f) s).now = s.now := by
  induction characters generalizing s with
  | nil => rfl
  | cons code characters ih => exact ih _

omit [Number F] in
theorem now_calls (f : MovingFunction F → Motion F → Motion F) (funcs : List (MovingFunction F)) (s : Scene F) :
    (funcs.foldl (fun s func => s.onMotion func.character (f func)) s).now = s.now := by
  induction funcs generalizing s with
  | nil => rfl
  | cons func funcs ih => exact ih _

/-- The tick of a manager flags what it moves, and changes nothing else that matters. -/
theorem tickManager_flags {id : Nat} {delta : F} (htick : s.tickManager id delta = .ok s') :
    s'.now.roster = s.now.roster ∧ s'.now.base = s.now.base ∧ ∀ c, Motion.Flags (s.motions c) (s'.motions c) := by
  unfold tickManager at htick
  cases hcm : s.now.manager id with
  | none =>
    rw [hcm] at htick
    cases htick
    exact ⟨rfl, rfl, fun _ => .refl _⟩
  | some cm =>
    rw [hcm] at htick
    dsimp only at htick
    have hroster : (s.now.onManager id fun cm => { cm with req_send_all := [] }).roster = s.now.roster :=
      World.roster_onManager_same fun _ => rfl
    have hbase : (s.now.onManager id fun cm => { cm with req_send_all := [] }).base = s.now.base :=
      World.base_onChannel_cm
    have hcalled : ∀ (t : Scene F) (c : Int), t.motions = s.motions → Motion.Flags (s.motions c)
        (((s.functions id).foldl (fun t func => t.onMotion func.character func.call) t).motions c) := by
      intro t c ht
      rw [motions_calls, ht]
      exact flags_calls _ _
    split at htick
    · split at htick
      · cases htick
        rw [now_moves, now_calls]
        refine ⟨hroster, hbase, fun c => Motion.Flags.trans ?_ (flags_moves _ _ _ c)⟩
        exact hcalled _ c rfl
      · cases htick
    · cases htick
      rw [now_calls]
      exact ⟨hroster, hbase, fun c => hcalled _ c rfl⟩

end Scene

end AsioGameServer.world

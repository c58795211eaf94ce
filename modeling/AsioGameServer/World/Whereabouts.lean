import AsioGameServer.World.Awareness

open Function Number Transition Replica

namespace AsioGameServer.world

variable {F : Type} [Number F]

namespace World

variable {w : World} {id : Nat} {code : Int}

theorem Valid.connected_of_stays (hw : w.Valid) (hconsistent : w.roster.Consistent)
    (hstays : w.roster.Stays code id) : w.connected code := by
  have hassigned : w.assigned code = some id := hconsistent.assigned_of_stays hstays
  by_contra hgone
  rw [connected, Bool.not_eq_true] at hgone
  rw [assigned, if_pos (hw.departed code hgone)] at hassigned
  cases hassigned

end World

namespace Observed

open Motion (Flags)

variable {s s' : Observed F} {id : Nat} {code : Int}

/-- The requests, the members and the pointers of a world that is watched. -/
structure Settled (s : Observed F) : Prop where
  valid : s.scene.now.Valid
  consistent : s.scene.now.roster.Consistent
  pointing : Roster.Pointing s.scene.now.connected s.scene.now.roster
  renewed : s.scene.now.roster.Renewed
  asked : ∀ id, ∀ code ∈ s.scene.now.funcs id, code ∈ s.scene.now.roster.members id

section Tick

variable {channel : Channel} {cm : CharacterManager} {iterate : List Int → List Int} {profile : Int → Profile F}

/-- The characters that the tick of a channel has to do with. -/
def nearby (s : Observed F) (id : Nat) (c : Int) : Prop :=
  c ∈ s.scene.now.roster.members id ∨ c ∈ s.scene.now.roster.inserts id

/-- The tick of a channel leaves the clients of its members aware of each other. -/
theorem PrevTick_passing (hsettled : s.Settled) (hget : s.scene.now.channels[id]? = some channel)
    (hcm : channel.cm = some cm) (haware : s.Aware id (s.scene.now.roster.erases id)) (hquiet : s.escapes id = [])
    (horder : ∀ l, (iterate l).Perm l) :
    Outcome (Passing (s.nearby id) id (s.scene.now.onChannel id Channel.clear).base s []
        (s.scene.now.roster.tick (s.scene.now.alive id channel) id))
      (fun _ => True) (s.PrevTick iterate profile id channel) := by
  let held := channel.req_Insert_list ++ channel.req_func_list
  let w₁ := s.scene.now.onChannel id Channel.clear
  have halive : w₁.base.live held = s.scene.now.alive id channel := World.live_base
  have hstart : Passing (s.nearby id) id w₁.base s (s.scene.now.roster.erases id) (s.scene.now.roster.clear id)
      (s.onNow w₁) ∧ (s.onNow w₁).escapes id = [] := by
    have hticking : World.Ticking id w₁.base (s.scene.now.roster.clear id) w₁ :=
      ⟨World.roster_clear hget, rfl, cm, by
        simp [w₁, World.manager, World.onChannel, hget, Channel.clear, hcm]⟩
    have hmembers : (s.onNow w₁).members id = s.members id := by
      rw [members_eq, members_eq]
      exact congrArg (·.members id) hticking.roster
    refine ⟨⟨hticking, fun c hc => .inl hc, fun _ _ => rfl, rfl, fun _ _ => rfl, fun _ _ => rfl, ?_⟩, hquiet⟩
    exact haware.transfer (fun c => by rw [hmembers]) (fun _ _ hc => hc) (fun _ hc => hc)
      (fun _ _ _ _ => rfl) fun c _ _ => .refl _
  have herases : Outcome (fun s' => Passing (s.nearby id) id w₁.base s (s.scene.now.roster.erases id)
        (channel.req_erase_list.foldl (Roster.erase (s.scene.now.alive id channel) id) (s.scene.now.roster.clear id))
        s' ∧ s'.escapes id = [])
      (fun _ => True) (channel.req_erase_list.foldlM (EraseCharacter held id) (s.onNow w₁)) := by
    refine Outcome.foldlM (R := fun r s' => Passing (s.nearby id) id w₁.base s (s.scene.now.roster.erases id) r s' ∧
      s'.escapes id = []) hstart fun r s₁ key hkey h => ?_
    rw [← halive]
    exact h.1.erase h.2 held (World.roster_erases hget ▸ hkey)
  refine herases.bind fun s₁ hfirst => ?_
  obtain ⟨h₁, hquiet₁⟩ := hfirst
  have hleft : ∀ c ∈ s₁.members id, c ∈ s.scene.now.roster.members id ∧ c ∉ s.scene.now.roster.erases id := by
    intro c hc
    rw [h₁.members, Roster.mem_members_foldl_erase] at hc
    exact ⟨hc.1, World.roster_erases hget ▸ hc.2 rfl⟩
  have hkept : Passing (s.nearby id) id w₁.base s [] (channel.req_erase_list.foldl
      (Roster.erase (s.scene.now.alive id channel) id) (s.scene.now.roster.clear id)) s₁ := by
    refine ⟨h₁.ticking, h₁.near, h₁.escapes, h₁.lists, h₁.received, h₁.motions, ?_⟩
    exact h₁.aware.transfer (fun _ => .rfl) (fun c hc _ => (hleft c hc).2) (fun _ hc => hc) (fun _ _ _ _ => rfl)
      fun c _ _ => .refl _
  have hinserts : Outcome (fun s' => Passing (s.nearby id) id w₁.base s []
        (s.scene.now.roster.tick (s.scene.now.alive id channel) id) s' ∧ s'.escapes id = [] ∧
        ∀ c ∈ channel.req_Insert_list, c ∈ (s.scene.now.roster.tick (s.scene.now.alive id channel) id).members id →
          (s'.scene.motions c).bChangePosition = false)
      (fun _ => True) (channel.req_Insert_list.foldlM (InsertCharacter iterate profile id) s₁) := by
    rw [Roster.tick, World.roster_inserts hget, World.roster_erases hget]
    refine Outcome.foldlM (R := fun r s' => Passing (s.nearby id) id w₁.base s [] r s' ∧ s'.escapes id = [] ∧
      ∀ c ∈ channel.req_Insert_list, c ∈ r.members id → (s'.scene.motions c).bChangePosition = false)
      ⟨hkept, hquiet₁, fun c hc hmember => ?_⟩ fun r s₂ c hc hnow => ?_
    · obtain ⟨hbefore, herase⟩ := hleft c (h₁.members ▸ hmember)
      exact absurd (hsettled.renewed c id (World.roster_inserts hget ▸ hc) hbefore) herase
    · obtain ⟨h, hquiet, hfresh⟩ := hnow
      refine (h.insert hquiet (hfresh c hc) (.inr (World.roster_inserts hget ▸ hc)) horder).imp
        (fun s₃ hafter => ⟨hafter.1, hafter.2.1, fun d hd hmember => ?_⟩) fun _ h => h
      obtain ⟨_, _, hself, hothers⟩ := hafter
      by_cases hdc : d = c
      · exact hdc ▸ hself
      · rw [hothers d hdc]
        rw [Roster.mem_members_insert] at hmember
        exact hfresh d hd (hmember.resolve_right fun h => hdc h.2)
  refine hinserts.bind fun s₂ hsecond => ?_
  refine Outcome.foldlM_keeps hsecond.1 fun s₃ c hc h₃ => h₃.escape channel.mapCode fun q howner => ?_
  have hfunc : c ∈ s.scene.now.funcs id := by simpa [World.funcs, hget] using hc
  exact hsettled.pointing.owner_of_tick (fun d hd => hsettled.valid.connected_of_stays hsettled.consistent hd)
    (hsettled.asked id c hfunc) (World.alive_of_func hc) howner

end Tick

/-- The clients of the members of every channel are aware of each other. Between the tick of a
channel and that of its manager, none of its members stays elsewhere, nor does who has asked it for
a list, and only its manager has packets that wait. -/
structure Informed (s : Observed F) : Prop extends Settled s where
  aware : ∀ id, s.Aware id (s.scene.now.roster.erases id)
  alone : ∀ id, s.updated = some id → ∀ c other, s.scene.now.roster.Stays c other → other ≠ id →
    c ∉ s.scene.now.roster.members id
  quiet : ∀ id, s.escapes id ≠ [] → s.updated = some id
  listed : ∀ id, s.updated ≠ some id → ∀ c ∈ (s.lists id).map Prod.fst, c ∈ s.scene.now.roster.members id
  apart : ∀ id, s.updated = some id → ∀ c ∈ (s.lists id).map Prod.fst, ∀ other,
    s.scene.now.roster.Stays c other → other = id

namespace Informed

omit [Number F] in
theorem mem_members_iff (s : Observed F) (c : Int) : c ∈ s.members id ↔ c ∈ s.scene.now.roster.members id := by
  rw [members_eq]

omit [Number F] in
/-- The IO threads tell the clients nothing. -/
theorem between {scene : Scene F} (h : s.Informed) (hbetween : s.scene.Between scene) :
    Informed { s with scene } := by
  obtain ⟨mover, hmoves⟩ := hbetween.moves
  have hmembers : scene.now.roster.members = s.scene.now.roster.members := hmoves.members
  constructor
  · refine ⟨hbetween.valid, h.consistent.moves hmoves, ?_, h.renewed.moves h.consistent hmoves, fun id c hc => ?_⟩
    · exact (h.pointing.moves hmoves).mono hbetween.users
    · rw [hmembers]
      obtain hc | ⟨hconnected, howner⟩ := hbetween.funcs id c hc
      · exact h.asked id c hc
      · exact h.pointing.member c id hconnected howner
  · intro id
    refine (h.aware id).transfer (fun c => ?_) (fun c _ hc herase => hc (hmoves.erases_mono herase)) (fun c hc => ?_)
      (fun _ _ _ _ => rfl) fun c hc herase => ?_
    · rw [mem_members_iff, mem_members_iff, hmembers]
    · obtain ⟨huser, hsession⟩ := Bool.and_eq_true_iff.mp hc
      exact Bool.and_eq_true_iff.mpr ⟨hbetween.users c huser, hbetween.sessions c hsession⟩
    · have hstays : scene.now.roster.Stays c id := ⟨hmembers ▸ (mem_members_iff s c).mp hc, herase⟩
      rw [hbetween.motions c id hstays]
      exact .refl _
  · intro id hupdated c other hstays hne hmember
    exact h.alone id hupdated c other (hmoves.stays hstays) hne (hmembers ▸ hmember)
  · exact h.quiet
  · intro id hupdated c hc
    exact hmembers.symm ▸ h.listed id hupdated c hc
  · intro id hupdated c hc other hstays
    exact h.apart id hupdated c hc other (hmoves.stays hstays)

omit [Number F] in
/-- A channel that begins has no members yet. -/
theorem begin {channel : Channel} (h : s.Informed) (hget : s.scene.now.channels[id]? = some channel)
    (hnone : channel.cm = none) : Informed (s.onNow (s.scene.now.onChannel id Channel.BeginPlay)) := by
  have hroster : (s.scene.now.onChannel id Channel.BeginPlay).roster = s.scene.now.roster :=
    World.roster_BeginPlay hget hnone
  have hbase : (s.scene.now.onChannel id Channel.BeginPlay).base = s.scene.now.base := World.base_onChannel_cm
  have hfuncs : (s.scene.now.onChannel id Channel.BeginPlay).funcs = s.scene.now.funcs :=
    World.funcs_onChannel fun _ => rfl
  constructor
  · refine ⟨h.valid.of_base hbase, ?_, ?_, ?_, fun id c hc => ?_⟩
    · exact hroster.symm ▸ h.consistent
    · exact hroster.symm ▸ h.pointing
    · exact hroster.symm ▸ h.renewed
    · exact hroster.symm ▸ h.asked id c (hfuncs ▸ hc)
  · intro other
    have herases : (s.scene.now.onChannel id Channel.BeginPlay).roster.erases other =
        s.scene.now.roster.erases other := by rw [hroster]
    change Aware _ _ ((s.scene.now.onChannel id Channel.BeginPlay).roster.erases other)
    rw [herases]
    refine (h.aware other).transfer (fun c => ?_) (fun _ _ hc => hc) (fun _ hc => hc) (fun _ _ _ _ => rfl)
      fun _ _ _ => .refl _
    rw [mem_members_iff, mem_members_iff]
    exact hroster.symm ▸ .rfl
  · intro other hupdated c place hstays hne hmember
    exact h.alone other hupdated c place (hroster ▸ hstays) hne (hroster ▸ hmember)
  · exact h.quiet
  · intro other hupdated c hc
    exact hroster.symm ▸ h.listed other hupdated c hc
  · intro other hupdated c hc place hstays
    exact h.apart other hupdated c hc place (hroster ▸ hstays)

/-- The tick of a channel. -/
theorem updateChannel {iterate : List Int → List Int} {profile : Int → Profile F} (h : s.Informed)
    (hturn : s.updated = none) (horder : ∀ l, (iterate l).Perm l)
    (hkept : s.scene.now.PointersKept (.updateChannel id)) (hstep : s.updateChannel iterate profile id = .ok s') :
    Informed s' := by
  have hquiet : ∀ other, s.escapes other = [] := by
    intro other
    by_contra hwaiting
    rw [h.quiet other hwaiting] at hturn
    cases hturn
  unfold Observed.updateChannel at hstep
  cases hget : s.scene.now.channels[id]? with
  | none =>
    rw [hget] at hstep
    cases hstep
    exact h
  | some channel =>
    cases hcm : channel.cm with
    | none =>
      simp only [hget, hcm] at hstep
      cases hstep
      exact h.begin hget hcm
    | some cm =>
      simp only [hget, hcm] at hstep
      obtain ⟨s₁, hprev, hdone⟩ := Outcome.bind_eq_ok_iff.mp hstep
      cases hdone
      have hbegun : s.scene.now.manager id ≠ none := by simp [World.manager, hget, hcm]
      obtain ⟨hcurrent, hunclobbered⟩ := hkept hbegun
      have hpassing := (PrevTick_passing h.toSettled hget hcm (h.aware id) (hquiet id) horder).ok hprev
      have hroster := hpassing.ticking.roster
      have hbase := hpassing.ticking.base
      have hcleared : (s.scene.now.onChannel id Channel.clear).Valid :=
        ⟨h.valid.relocate rfl World.onChannel_length (fun _ _ => rfl) (h.valid.located 0), h.valid.departed⟩
      have hcharacter := World.user_session_of_base hbase
      have hconsistent : s₁.scene.now.roster.Consistent := by
        rw [hroster]
        exact h.consistent.tick_iff.mpr hcurrent
      have hmembers : ∀ other, other ≠ id → ∀ c, c ∈ s₁.members other ↔ c ∈ s.members other := by
        intro other hne c
        rw [mem_members_iff, mem_members_iff, hroster, Roster.mem_members_tick]
        simp [hne]
      have herases : s₁.scene.now.roster.erases = update s.scene.now.roster.erases id [] := by
        rw [hroster, Roster.erases_tick]
      have hfar : ∀ other, other ≠ id → ∀ c ∈ s.members other, c ∉ s.scene.now.roster.erases other →
          ¬ s.nearby id c := by
        intro other hne c hc herase hnear
        have hstays : s.scene.now.roster.Stays c other := ⟨(mem_members_iff s c).mp hc, herase⟩
        obtain ⟨hmember, hinsert⟩ := h.consistent.untouched h.pointing hcurrent hunclobbered
          (h.valid.connected_of_stays h.consistent hstays) hstays hne
        exact hnear.elim hmember hinsert
      constructor
      · refine ⟨hcleared.of_base hbase, hconsistent, ?_, ?_, fun other c hc => ?_⟩
        · refine Roster.Pointing.mono ?_ fun c hc => (hcharacter c).1.symm.trans hc
          rw [hroster]
          exact (h.pointing.tick_iff h.consistent hcurrent fun _ => World.alive_of_user).mpr hunclobbered
        · exact hroster.symm ▸ h.renewed.tick
        · have hfuncs : s₁.scene.now.funcs = update s.scene.now.funcs id [] := by
            have hsame : s₁.scene.now.funcs = (s.scene.now.onChannel id Channel.clear).funcs := by
              rw [← World.funcs_base, hbase, World.funcs_base]
            exact hsame.trans (World.elim_onChannel hget Channel.clear Channel.req_func_list)
          have hc : c ∈ update s.scene.now.funcs id [] other := hfuncs ▸ hc
          by_cases hother : other = id
          · rw [hother, update_self] at hc
            cases hc
          · rw [update_of_ne hother] at hc
            exact (mem_members_iff s₁ c).mp ((hmembers other hother c).mpr
              ((mem_members_iff s c).mpr (h.asked other c hc)))
      · intro other
        change Aware _ _ (s₁.scene.now.roster.erases other)
        rw [herases]
        by_cases hother : other = id
        · rw [hother, update_self]
          exact ⟨hpassing.aware.known, hpassing.aware.present⟩
        · rw [update_of_ne hother]
          refine (h.aware other).transfer (hmembers other hother) (fun _ _ hc => hc) (fun c hc => ?_)
            (fun c hc herase _ => ?_) fun c hc herase => ?_
          · obtain ⟨huser, hsession⟩ := Bool.and_eq_true_iff.mp hc
            exact Bool.and_eq_true_iff.mpr ⟨(hcharacter c).1.symm.trans huser, (hcharacter c).2.symm.trans hsession⟩
          · have hreceived := hpassing.received c (hfar other hother c hc herase)
            simp only [outlook, view, waiting, hreceived, hpassing.escapes other hother]
          · have hsame := hpassing.motions c (hfar other hother c hc herase)
            change Flags _ (s₁.scene.motions c)
            rw [hsame]
            exact .refl _
      · intro other hupdated c place hstays hne hmember
        obtain rfl : id = other := Option.some.inj hupdated
        refine hne (hconsistent.stays_unique hstays ⟨hmember, ?_⟩)
        rw [herases, update_self]
        exact List.not_mem_nil
      · intro other hwaiting
        by_cases hother : other = id
        · rw [hother]
        · exact absurd ((hpassing.escapes other hother).trans (hquiet other)) hwaiting
      · intro other hupdated c hc
        have hother : other ≠ id := fun heq => hupdated (heq ▸ rfl)
        have hc : c ∈ (s.lists other).map Prod.fst := hpassing.lists ▸ hc
        have hmember := h.listed other (by simp [hturn]) c hc
        exact (mem_members_iff s₁ c).mp ((hmembers other hother c).mpr ((mem_members_iff s c).mpr hmember))
      · intro other hupdated c hc place hstays
        obtain rfl : id = other := Option.some.inj hupdated
        have hc : c ∈ (s.lists id).map Prod.fst := hpassing.lists ▸ hc
        by_contra hplace
        have hbefore : s.scene.now.roster.Stays c place := by
          refine ⟨(mem_members_iff s c).mp ((hmembers place hplace c).mp ((mem_members_iff s₁ c).mpr hstays.1)), ?_⟩
          have herase : c ∉ s₁.scene.now.roster.erases place := hstays.2
          rwa [herases, update_of_ne hplace] at herase
        exact (h.consistent.untouched h.pointing hcurrent hunclobbered
          (h.valid.connected_of_stays h.consistent hbefore) hbefore hplace).1 (h.listed id (by simp [hturn]) c hc)

omit [Number F] in
/-- A request for the list of the characters comes from a member. -/
theorem request_list (h : s.Informed) (code : Int) : (s.REQ_CHARACTER_LIST code).Informed := by
  unfold REQ_CHARACTER_LIST
  split
  · rename_i hopen
    split
    · exact h
    · rename_i id howner
      have hmember : code ∈ s.scene.now.roster.members id := h.pointing.member code id hopen.2 howner
      have hlists : ∀ other c, c ∈ (update s.lists id (s.lists id ++ [(code, (s.scene.functions id).length)]) other).map
          Prod.fst → c ∈ (s.lists other).map Prod.fst ∨ c = code ∧ other = id := by
        intro other c hc
        by_cases hother : other = id
        · subst hother
          rw [update_self, List.map_append, List.mem_append, List.map_singleton, List.mem_singleton] at hc
          exact hc.imp_right fun hc => ⟨hc, rfl⟩
        · rw [update_of_ne hother] at hc
          exact .inl hc
      refine ⟨⟨h.valid, h.consistent, h.pointing, h.renewed, h.asked⟩,
        fun id => ⟨(h.aware id).known, (h.aware id).present⟩,
        h.alone, h.quiet, fun other hupdated c hc => ?_, fun other hupdated c hc place hstays => ?_⟩
      · obtain hc | ⟨rfl, rfl⟩ := hlists other c hc
        · exact h.listed other hupdated c hc
        · exact hmember
      · obtain hc | ⟨rfl, rfl⟩ := hlists other c hc
        · exact h.apart other hupdated c hc place hstays
        · by_contra hplace
          exact h.alone other hupdated c place hstays hplace hmember
  · exact h

omit [Number F] in
/-- The tick of a manager sends what waits, and its clients have nothing left to get. -/
theorem sendWaiting (h : s.Informed) (hturn : s.updated = some id) :
    ∃ received, s.sendWaiting id = { s with escapes := fun _ => [], received } ∧
      Informed { s with escapes := fun _ => [], received } := by
  obtain ⟨received, hsent, hothers, hview⟩ := exists_sendAll id ((s.escapes id).map .CON_ESCAPE)
    { s with escapes := update s.escapes id [] }
  have hwaiting : ((s.escapes id).map Packet.CON_ESCAPE).flatMap Packet.tells = s.waiting id :=
    List.flatMap_map ..
  rw [hwaiting] at hview
  rw [List.foldl_map] at hsent
  have hquiet : update s.escapes id [] = fun _ => [] := by
    funext other
    by_cases hother : other = id
    · rw [hother, update_self]
    · rw [update_of_ne hother]
      by_contra hwaits
      have hupdated := h.quiet other hwaits
      rw [hturn] at hupdated
      exact hother (Option.some.inj hupdated).symm
  rw [hquiet] at hsent
  refine ⟨received, ?_, ?_⟩
  · unfold Observed.sendWaiting
    rw [hquiet, hsent]
  constructor
  · exact ⟨h.valid, h.consistent, h.pointing, h.renewed, h.asked⟩
  · intro other
    refine (h.aware other).transfer (fun _ => .rfl) (fun _ _ hc => hc) (fun _ hc => hc)
      (fun c hc herase hwatching => ?_) fun _ _ _ => .refl _
    rw [outlook_of_quiet rfl]
    refine Eq.trans (hview c) ?_
    by_cases hother : other = id
    · subst hother
      exact if_pos ⟨hc, hwatching⟩
    · have hgone : c ∉ s.members id := fun hmember => h.alone id hturn c other
        ⟨(mem_members_iff s c).mp hc, herase⟩ hother ((mem_members_iff s c).mp hmember)
      have hsilent : s.escapes other = [] := (update_of_ne hother _ _).symm.trans (congrFun hquiet other)
      rw [outlook_of_quiet hsilent]
      exact if_neg fun hmember => hgone hmember.1
  · exact h.alone
  · exact fun _ hwaits => absurd rfl hwaits
  · exact h.listed
  · exact h.apart

/-- The lists of the characters go to clients that are in no other channel. -/
theorem answers {iterate : List Int → List Int} (h : s.Informed) (hturn : s.updated = some id)
    (hquiet : ∀ other, s.escapes other = []) (horder : ∀ l, (iterate l).Perm l) (profile : Int → Profile F) :
    ∃ received, (s.lists id).foldl (answer iterate profile id) s = { s with received } ∧
      Informed { s with received } := by
  obtain ⟨received, hanswers, hothers, hview⟩ := exists_answers horder profile id (s.lists id) s
  refine ⟨received, hanswers, ⟨h.valid, h.consistent, h.pointing, h.renewed, h.asked⟩, fun other => ?_, h.alone,
    h.quiet, h.listed, h.apart⟩
  have hlearns : ∀ viewer c, viewer ∈ s.members other → viewer ∉ s.scene.now.roster.erases other →
      Observed.outlook { s with received } other viewer c = s.outlook other viewer c ∨
      c ∈ s.members other ∧ Observed.outlook { s with received } other viewer c =
        some (some (ground (s.scene.motions c).position)) := by
    intro viewer c hviewer hstays
    rw [outlook_of_quiet (hquiet other), outlook_of_quiet (s := { s with received }) (hquiet other)]
    refine (hview viewer c).imp_right fun hlist => ?_
    obtain ⟨hasked, hc, hknown⟩ := hlist
    refine ⟨?_, hknown⟩
    obtain rfl := h.apart id hturn viewer hasked other ⟨(mem_members_iff s viewer).mp hviewer, hstays⟩
    exact hc
  constructor
  · intro viewer code hviewer hstays hwatching hcode hkept hflag
    obtain hsame | ⟨_, hknown⟩ := hlearns viewer code hviewer hstays
    · rw [hsame]
      exact (h.aware other).known viewer code hviewer hstays hwatching hcode hkept hflag
    · exact hknown
  · intro viewer code place hviewer hstays hwatching hplace
    obtain hsame | ⟨hcode, _⟩ := hlearns viewer code hviewer hstays
    · rw [hsame] at hplace
      exact (h.aware other).present viewer code place hviewer hstays hwatching hplace
    · exact hcode

/-- The functions and the movements of a manager. -/
theorem ticked {scene : Scene F} {delta : F} (h : s.Informed) (hturn : s.updated = some id)
    (hquiet : ∀ other, s.escapes other = []) (htick : s.scene.tickManager id delta = .ok scene) :
    Informed { s with scene, lists := update s.lists id [], updated := none } := by
  obtain ⟨hroster, hbase, hflags⟩ := Scene.tickManager_flags htick
  have hwatches : ∀ c, ((scene.now.characters c).user && (scene.now.characters c).session) = s.watches c :=
    fun c => (watches_of_base (s := s) hbase.symm c).symm
  constructor
  · have hfuncs : scene.now.funcs = s.scene.now.funcs := by rw [← World.funcs_base, hbase, World.funcs_base]
    refine ⟨h.valid.of_base hbase, hroster.symm ▸ h.consistent, ?_, hroster.symm ▸ h.renewed, fun other c hc => ?_⟩
    · rw [hroster]
      exact h.pointing.mono fun c hc => (World.user_session_of_base hbase c).1.symm.trans hc
    · exact hroster.symm ▸ h.asked other c (hfuncs ▸ hc)
  · intro other
    change Aware _ _ (scene.now.roster.erases other)
    rw [hroster]
    refine (h.aware other).transfer (fun c => ?_) (fun _ _ hc => hc) (fun c hc => (hwatches c).symm.trans hc)
      (fun _ _ _ _ => rfl) fun c _ _ => hflags c
    rw [mem_members_iff, mem_members_iff]
    exact hroster ▸ .rfl
  · exact fun _ hupdated => nomatch hupdated
  · exact fun other hwaits => absurd (hquiet other) hwaits
  · intro other _ c hc
    have hc : c ∈ (update s.lists id [] other).map Prod.fst := hc
    by_cases hother : other = id
    · rw [hother, update_self] at hc
      cases hc
    · rw [update_of_ne hother] at hc
      refine hroster.symm ▸ h.listed other (fun hupdated => ?_) c hc
      rw [hturn] at hupdated
      exact hother (Option.some.inj hupdated).symm
  · exact fun _ hupdated => nomatch hupdated

/-- A report of the movements leaves no member of the channel flagged. -/
theorem broadcast {iterate : List Int → List Int} (h : s.Informed) (hquiet : ∀ other, s.escapes other = [])
    (halone : ∀ c other, s.scene.now.roster.Stays c other → other ≠ id → c ∉ s.scene.now.roster.members id)
    (horder : ∀ l, (iterate l).Perm l) (hstep : s.broadcast iterate id = .ok s') :
    Informed s' ∧ s'.escapes = s.escapes ∧ s'.scene.now = s.scene.now ∧
      ∀ c ∈ s.members id, (s'.scene.motions c).bChangePosition = false := by
  obtain ⟨saveTime, received, motions, hbroadcast, hmotions, _, hview⟩ := exists_broadcast iterate id s
  have hafter : { s with scene := { s.scene with motions }, saveTime, received } = s' :=
    Except.ok.inj (hbroadcast.symm.trans hstep)
  have hnow : s'.scene.now = s.scene.now := hafter ▸ rfl
  have hescapes : s'.escapes = s.escapes := hafter ▸ rfl
  have hupdated : s'.updated = s.updated := hafter ▸ rfl
  have hlists : s'.lists = s.lists := hafter ▸ rfl
  have hview : ∀ viewer, s'.view viewer =
      if viewer ∈ s.members id ∧ s.watches viewer = true then apply (s.view viewer) (s.report iterate id)
      else s.view viewer := hafter ▸ hview
  have hmembers : ∀ other, s'.members other = s.members other := fun other => by rw [members_eq, members_eq, hnow]
  have hwatches : s'.watches = s.watches := by
    funext c
    rw [watches, watches, hnow]
  have hunflagged : ∀ c ∈ s.members id, s'.scene.motions c = { s.scene.motions c with bChangePosition := false } := by
    intro c hc
    rw [← hafter]
    exact (hmotions c).trans (if_pos ((horder _).mem_iff.mpr hc))
  have hothers : ∀ c, c ∉ s.members id → s'.scene.motions c = s.scene.motions c := by
    intro c hc
    rw [← hafter]
    exact (hmotions c).trans (if_neg fun hmember => hc ((horder _).mem_iff.mp hmember))
  have hsilent : ∀ other, s'.escapes other = [] := fun other => hescapes ▸ hquiet other
  have hreport : ∀ t, t ∈ s.report iterate id ↔ ∃ c ∈ s.members id, (s.scene.motions c).bChangePosition = true ∧
      (c, some (ground (s.scene.motions c).position)) = t := by
    intro t
    simp only [report, List.mem_map, List.mem_filter, (horder _).mem_iff, and_assoc]
  refine ⟨?_, hescapes, hnow, fun c hc => by rw [hunflagged c hc]⟩
  constructor
  · constructor <;> rw [hnow]
    · exact h.valid
    · exact h.consistent
    · exact h.pointing
    · exact h.renewed
    · exact h.asked
  · intro other
    rw [hnow]
    by_cases hother : other = id
    · subst hother
      have hknows : ∀ viewer ∈ s.members other, s.watches viewer = true →
          s'.outlook other viewer = apply (s.outlook other viewer) (s.report iterate other) := by
        intro viewer hviewer hwatching
        rw [outlook_of_quiet (hsilent other), outlook_of_quiet (hquiet other), hview, if_pos ⟨hviewer, hwatching⟩]
      constructor
      · intro viewer code hviewer hstays hwatching hcode hkept _
        rw [hmembers] at hviewer hcode
        rw [hwatches] at hwatching
        rw [hknows viewer hviewer hwatching, apply_eq, hunflagged code hcode]
        cases hflag : (s.scene.motions code).bChangePosition with
        | true =>
          have hlast : last (s.report iterate other) code = some (some (ground (s.scene.motions code).position)) := by
            refine last_eq_some ⟨_, (hreport _).mpr ⟨code, hcode, hflag, rfl⟩, rfl⟩ ?_
            rintro _ ht rfl
            obtain ⟨c, _, _, rfl⟩ := (hreport _).mp ht
            rfl
          rw [hlast, Option.some_or]
        | false =>
          have hlast : last (s.report iterate other) code = none := by
            refine last_eq_none ?_
            rintro _ ht rfl
            obtain ⟨c, _, hmoved, rfl⟩ := (hreport _).mp ht
            rw [hflag] at hmoved
            cases hmoved
          rw [hlast, Option.none_or]
          exact (h.aware other).known viewer code hviewer hstays hwatching hcode hkept hflag
      · intro viewer code place hviewer hstays hwatching hplace
        rw [hmembers] at hviewer ⊢
        rw [hwatches] at hwatching
        by_contra hgone
        have hlast : last (s.report iterate other) code = none := by
          refine last_eq_none ?_
          rintro _ ht rfl
          obtain ⟨c, hmember, _, rfl⟩ := (hreport _).mp ht
          exact hgone hmember
        rw [hknows viewer hviewer hwatching, apply_eq, hlast, Option.none_or] at hplace
        exact hgone ((h.aware other).present viewer code place hviewer hstays hwatching hplace)
    · have hgone : ∀ c ∈ s.members other, c ∉ s.scene.now.roster.erases other → c ∉ s.members id :=
        fun c hc herase hmember => halone c other ⟨(mem_members_iff s c).mp hc, herase⟩ hother
          ((mem_members_iff s c).mp hmember)
      refine (h.aware other).transfer (fun c => by rw [hmembers]) (fun _ _ hc => hc) (fun c hc => hwatches ▸ hc)
        (fun c hc herase _ => ?_) fun c hc herase => ?_
      · rw [outlook_of_quiet (hsilent other), outlook_of_quiet (hquiet other), hview,
          if_neg fun hmember => hgone c hc herase hmember.1]
      · rw [hothers c (hgone c hc herase)]
        exact .refl _
  · intro other hticks
    rw [hnow]
    exact h.alone other (hupdated.symm.trans hticks)
  · intro other hwaits
    exact absurd (hsilent other) hwaits
  · intro other hticks
    rw [hnow, hlists]
    exact h.listed other (hupdated ▸ hticks)
  · intro other hticks
    rw [hnow, hlists]
    exact h.apart other (hupdated.symm.trans hticks)

omit [Number F] in
/-- The clients do not know the time. -/
theorem withTime (h : s.Informed) (saveTime : Nat → F) : Informed { s with saveTime } :=
  ⟨⟨h.valid, h.consistent, h.pointing, h.renewed, h.asked⟩, fun id => ⟨(h.aware id).known, (h.aware id).present⟩,
    h.alone, h.quiet, h.listed, h.apart⟩

/-- The tick of a manager. One that reports leaves no member of its channel flagged. -/
theorem tickManager {iterate : List Int → List Int} {profile : Int → Profile F} {delta : F} (h : s.Informed)
    (hturn : s.updated = some id) (horder : ∀ l, (iterate l).Perm l)
    (hstep : s.tickManager iterate profile id delta = .ok s') :
    Informed s' ∧ (∀ other, s'.escapes other = []) ∧
      (s.due id delta → ∀ c ∈ s'.members id, (s'.scene.motions c).bChangePosition = false) := by
  unfold Observed.tickManager at hstep
  obtain ⟨scene, htick, hstep⟩ := Outcome.bind_eq_ok_iff.mp hstep
  obtain ⟨sent, hsent, hwaited⟩ := h.sendWaiting hturn
  have hquiet : ∀ other, Observed.escapes { s with escapes := fun _ => [], received := sent } other = [] := fun _ => rfl
  obtain ⟨received, hanswers, hanswered⟩ := hwaited.answers hturn hquiet horder profile
  have hinformed := hanswered.ticked hturn hquiet htick
  obtain ⟨hroster, _, _⟩ := Scene.tickManager_flags htick
  rw [hsent, hanswers] at hstep
  by_cases hmovable : (s.scene.now.manager id).any CharacterManager.bMovable = true
  · rw [if_pos hmovable] at hstep
    dsimp only at hstep
    split at hstep
    · have halone : ∀ c other, scene.now.roster.Stays c other → other ≠ id → c ∉ scene.now.roster.members id := by
        rw [hroster]
        exact h.alone id hturn
      obtain ⟨hafter, hescapes, hnow, hunflagged⟩ :=
        (hinformed.withTime (update s.saveTime id (s.saveTime id + delta))).broadcast hquiet halone horder hstep
      refine ⟨hafter, fun other => (congrFun hescapes other).trans (hquiet other), fun _ c hc => hunflagged c ?_⟩
      rw [members_eq, hnow] at hc
      exact (mem_members_iff _ c).mpr hc
    · rename_i hearly
      rw [update_self] at hearly
      cases hstep
      exact ⟨hinformed.withTime _, hquiet, fun hdue => absurd hdue.2 hearly⟩
  · rw [if_neg hmovable] at hstep
    cases hstep
    exact ⟨hinformed, hquiet, fun hdue => absurd hdue.1 hmovable⟩

end Informed

/-- The server has started: nothing waits to be sent. -/
structure Start (s : Observed F) : Prop where
  start : s.scene.now.Start
  silent : ∀ id, s.escapes id = []
  unasked : ∀ id, s.lists id = []
  updated : s.updated = none

/-- A channel that ticks applies current requests and resets no back pointer that it should not,
and the characters of a manager are iterated in some order. -/
def Ordered (s : Observed F) : Event F → Prop
  | .updateChannel id iterate _ => s.scene.now.PointersKept (.updateChannel id) ∧ ∀ l, (iterate l).Perm l
  | .tickManager _ iterate _ _ => ∀ l, (iterate l).Perm l
  | _ => True

variable {s₀ : Observed F} {e : Event F} {events : List (Event F)}

omit [Number F] in
theorem Start.informed (h : s₀.Start) : s₀.Informed := by
  have hnobody : ∀ id, s₀.members id = [] := fun id => by rw [members_eq, (h.start.no_requests id).2.2]
  constructor
  · refine ⟨h.start.valid, h.start.consistent, h.start.pointing, fun c id hinsert => ?_, fun id c hc => ?_⟩
    · rw [(h.start.no_requests id).1] at hinsert
      cases hinsert
    · simp [World.funcs, h.start.no_channels] at hc
  · intro id
    constructor <;> intro viewer _
    · intro hviewer
      rw [hnobody] at hviewer
      cases hviewer
    · intro _ hviewer
      rw [hnobody] at hviewer
      cases hviewer
  · intro id hupdated
    rw [h.updated] at hupdated
    cases hupdated
  · exact fun id hwaits => absurd (h.silent id) hwaits
  · intro id _ c hc
    rw [h.unasked] at hc
    cases hc
  · intro id _ c hc
    rw [h.unasked] at hc
    cases hc

/-- Every step keeps the clients informed. -/
theorem Informed.next (h : s.Informed) (horder : s.Ordered e) (hnext : s.next e = some s') : s'.Informed := by
  unfold Observed.next at hnext
  split at hnext
  · rename_i hturn
    have hstep := Outcome.toOption_eq_some_iff.mp hnext
    have honScene : ∀ e, (∀ scene, s.scene.step e = .ok scene → s.scene.Between scene) → s.onScene e = .ok s' →
        s'.Informed := by
      intro e hbetween honScene
      obtain ⟨scene, hscene, hdone⟩ := Outcome.bind_eq_ok_iff.mp honScene
      cases hdone
      exact h.between (hbetween scene hscene)
    cases e with
    | request code request => exact honScene _ (fun _ => Scene.between_request h.valid h.consistent) hstep
    | REQ_CHARACTER_LIST code =>
      cases hstep
      exact h.request_list code
    | MOVING code position forward speed moving => exact honScene _ (fun _ => Scene.between_MOVING h.valid) hstep
    | closeSession code => exact honScene _ (fun _ => Scene.between_closeSession h.valid) hstep
    | disconnect code => exact honScene _ (fun _ => Scene.between_disconnect h.valid) hstep
    | updateChannel id iterate profile =>
      exact h.updateChannel (of_decide_eq_true hturn) horder.2 horder.1 hstep
    | tickManager id iterate profile delta =>
      exact (h.tickManager (of_decide_eq_true hturn) horder hstep).1
  · cases hnext

/-- In every reachable state the client of a member knows where the other members are that have
not moved since the last report, once it has got the packets that wait, and of nobody who is no
member. After a report it knows where all members are. -/
theorem clients_know_positions (hstart : s₀.Start) (hrun : Run (Guarded Ordered (OfOption next)) s₀ events s) :
    (∀ id viewer code, s.scene.now.roster.Stays viewer id → s.watches viewer = true →
      (s.scene.now.roster.Stays code id → (s.scene.motions code).bChangePosition = false →
        s.outlook id viewer code = some (some (ground (s.scene.motions code).position))) ∧
      ∀ place, s.outlook id viewer code = some (some place) → code ∈ s.members id) ∧
    ∀ id iterate profile delta s', s.due id delta → s.Ordered (.tickManager id iterate profile delta) →
      s.next (.tickManager id iterate profile delta) = some s' →
      ∀ viewer code, s'.scene.now.roster.Stays viewer id → s'.watches viewer = true →
        s'.scene.now.roster.Stays code id →
        s'.view viewer code = some (some (ground (s'.scene.motions code).position)) := by
  have hinformed : s.Informed := hrun.invariant hstart.informed fun _ _ _ h hstep => h.next hstep.1 hstep.2
  constructor
  · intro id viewer code hviewer hwatching
    have hmember := (Informed.mem_members_iff s viewer).mpr hviewer.1
    constructor
    · intro hcode hflag
      exact (hinformed.aware id).known viewer code hmember hviewer.2 hwatching
        ((Informed.mem_members_iff s code).mpr hcode.1) hcode.2 hflag
    · intro place hplace
      exact (hinformed.aware id).present viewer code place hmember hviewer.2 hwatching hplace
  · intro id iterate profile delta s' hdue horder hnext viewer code hviewer hwatching hcode
    have hturn : s.inTurn (.tickManager id iterate profile delta) = true := by
      by_contra hturn
      rw [Observed.next, if_neg hturn] at hnext
      cases hnext
    rw [Observed.next, if_pos hturn] at hnext
    obtain ⟨hafter, hquiet, hunflagged⟩ := hinformed.tickManager (of_decide_eq_true hturn) horder
      (Outcome.toOption_eq_some_iff.mp hnext)
    have hmember := (Informed.mem_members_iff s' code).mpr hcode.1
    rw [← outlook_of_quiet (hquiet id)]
    exact (hafter.aware id).known viewer code ((Informed.mem_members_iff s' viewer).mpr hviewer.1) hviewer.2
      hwatching hmember hcode.2 (hunflagged hdue code hmember)

section Example

/-- Two maps, and nobody in them. -/
def twoMaps : Observed Int where
  scene := { Scene.twoMaps with now := World.twoMaps }
  saveTime _ := 0
  escapes _ := []
  lists _ := []
  received _ := []
  updated := none

def plain (_ : Int) : Profile Int := ⟨1, "nick", 1, 100, 10⟩

/-- Two characters enter the first map, and one of them moves. -/
def meeting : List (Event Int) :=
  [.request 7 (.REQ_ENTER_MAP 1), .updateChannel 0 (fun l => l) plain, .request 8 (.REQ_ENTER_MAP 1),
    .updateChannel 0 (fun l => l) plain, .tickManager 0 (fun l => l) plain 1, .REQ_CHARACTER_LIST 8,
    .MOVING 7 ⟨3, 0, 0⟩ ⟨1, 0, 0⟩ 5 true, .updateChannel 0 (fun l => l) plain]

theorem clients_know_positions_meeting :
    ∃ s s' : Observed Int, Run (Guarded Ordered (OfOption next)) twoMaps meeting s ∧
      s.next (.tickManager 0 (fun l => l) plain 1) = some s' ∧ s'.view 8 7 = some (some (5, 0)) := by
  have hstart : twoMaps.Start := ⟨World.twoMaps_start, fun _ => rfl, fun _ => rfl, rfl⟩
  have hrun : ∃ s s' : Observed Int, Run (Guarded Ordered (OfOption next)) twoMaps meeting s ∧ s.due 0 1 ∧
      s.next (.tickManager 0 (fun l => l) plain 1) = some s' ∧ s'.scene.now.roster.Stays 8 0 ∧ s'.watches 8 = true ∧
      s'.scene.now.roster.Stays 7 0 ∧ (s'.scene.motions 7).position = ⟨5, 0, 0⟩ := by
    refine ⟨_, _, .cons ⟨trivial, rfl⟩ <| .cons ⟨⟨by decide, fun l => .refl l⟩, rfl⟩ <| .cons ⟨trivial, rfl⟩ <|
      .cons ⟨⟨by decide, fun l => .refl l⟩, rfl⟩ <| .cons ⟨fun l => .refl l, rfl⟩ <| .cons ⟨trivial, rfl⟩ <|
      .cons ⟨trivial, rfl⟩ <| .cons ⟨⟨by decide, fun l => .refl l⟩, rfl⟩ <| .nil _, ⟨rfl, by decide⟩, rfl, ?_, rfl, ?_,
      rfl⟩
    · exact ⟨by decide +kernel, by decide +kernel⟩
    · exact ⟨by decide +kernel, by decide +kernel⟩
  obtain ⟨s, s', hrun, hdue, hnext, hviewer, hwatching, hcode, hposition⟩ := hrun
  have hknown := (clients_know_positions hstart hrun).2 0 (fun l => l) plain 1 s' hdue
    (fun l => .refl l) hnext 8 7 hviewer
    hwatching hcode
  rw [hposition] at hknown
  exact ⟨s, s', hrun, hnext, hknown⟩

/-- Both go to the second map, whose channel ticks before that of the first. -/
def overtaking : List (Event Int) :=
  [.request 7 (.REQ_ENTER_MAP 2), .updateChannel 1 (fun l => l) plain, .request 8 (.REQ_ENTER_MAP 2),
    .updateChannel 1 (fun l => l) plain, .tickManager 1 (fun l => l) plain 1, .updateChannel 0 (fun l => l) plain]

/-- The client of one is told at last that the other has left, which is where it is. -/
example : ((meeting ++ .tickManager 0 (fun l => l) plain 1 :: overtaking).foldlM next twoMaps).map
    (fun s : Observed Int => (s.members 1, s.watches 8, s.view 8 7)) = some ([7, 8], true, some none) := by
  decide +kernel

end Example

end Observed

end AsioGameServer.world

import AsioGameServer.Login.Players
import AsioGameServer.World.Bracketing

open Function

namespace AsioGameServer.login

namespace Players

variable {s t : Players} {w : world.World} {key code : Int}

/-- A user has the character, or had it last. -/
def Current (s : Players) (code : Int) : Prop := ∃ key, s.character key = some code

/-- The world is in order, and the characters that are no user's, or whose user is gone,
have left their channels; the former are in no manager. -/
structure Placed (s : Players) : Prop where
  valid : s.now.Valid
  consistent : s.now.roster.Consistent
  current : ∀ key code, s.character key = some code → s.user code = some key
  away : ∀ code, ¬ s.Current code → (s.now.characters code).channel = 0 ∧ ∀ id, code ∉ s.now.roster.members id
  gone : ∀ code key, s.user code = some key → key ∉ s.server.userKeys → (s.now.characters code).channel = 0

theorem Start.placed (h : s.Start) : s.Placed := by
  refine ⟨h.now.valid, h.now.consistent, fun key code hcharacter => ?_, fun code _ => ⟨?_, fun id => ?_⟩,
    fun code key huser => ?_⟩
  · rw [(h.unloaded key).1] at hcharacter
    cases hcharacter
  · exact (h.now.outside code).1
  · rw [(h.now.no_requests id).2.2]
    exact List.not_mem_nil
  · rw [(h.unloaded code).2] at huser
    cases huser

theorem Placed.server (h : s.Placed) {server : asio.Server Load}
    (husers : ∀ key ∈ s.server.userKeys, key ∈ server.userKeys) : { s with server }.Placed :=
  ⟨h.valid, h.consistent, h.current, h.away,
    fun code key huser hkey => h.gone code key huser fun hin => hkey (husers key hin)⟩

theorem Placed.answer (h : s.Placed) {query : Nat} {result : Bool}
    (hanswer : s.answer query result = some t) : t.Placed := by
  unfold Players.answer at hanswer
  split at hanswer
  · cases hanswer
  · obtain rfl := Option.some.inj hanswer
    cases result <;> exact ⟨h.valid, h.consistent, h.current, h.away, h.gone⟩

/-- A request moves the character that its user has. -/
theorem Placed.moved (h : s.Placed) (hcharacter : s.character key = some code)
    (hkey : key ∈ s.server.userKeys) (hvalid : w.Valid) (hmoves : s.now.roster.Moves code w.roster)
    (hothers : ∀ other, other ≠ code → w.characters other = s.now.characters other) :
    { s with now := w }.Placed := by
  refine ⟨hvalid, h.consistent.moves hmoves, h.current, fun other hother => ?_,
    fun other user huser hgone => ?_⟩
  · have hne : other ≠ code := fun hsame => hother ⟨key, hsame ▸ hcharacter⟩
    dsimp only
    rw [hothers other hne, hmoves.members]
    exact h.away other hother
  · have hne : other ≠ code := by
      rintro rfl
      have hsame := (h.current key other hcharacter).symm.trans huser
      exact hgone (Option.some.inj hsame ▸ hkey)
    dsimp only
    rw [hothers other hne]
    exact h.gone other user huser hgone

/-- A tick moves no character, and takes in none that has left. -/
theorem Placed.ticked (h : s.Placed) (hvalid : w.Valid) (hconsistent : w.roster.Consistent)
    (hstays : s.now.Stays w) (hmembers : ∀ code id, (s.now.characters code).channel = 0 →
      code ∈ w.roster.members id → code ∈ s.now.roster.members id) : { s with now := w }.Placed := by
  refine ⟨hvalid, hconsistent, h.current, fun other hother => ?_, fun other user huser hgone => ?_⟩
  · obtain ⟨hchannel, hnone⟩ := h.away other hother
    exact ⟨(hstays.located other).2.trans hchannel, fun id hmember => hnone id (hmembers other id hchannel hmember)⟩
  · exact (hstays.located other).2.trans (h.gone other user huser hgone)

/-- A load changes no other character. -/
theorem load_characters {session : Nat} {mapKey other : Int} (hne : other ≠ code) :
    ((s.LoadCharacterInfo key code mapKey).SetState session .InGame).now.characters other =
      s.now.characters other := by
  change (s.now.onCharacter code fun _ => ⟨mapKey, 0, none, true, true⟩).characters other = _
  exact world.World.onCharacter_of_ne hne

/-- A character that only a load makes no user's is the one that the user had. -/
theorem Current.replaced {session : Nat} {mapKey other : Int} (h : s.Current other)
    (hnot : ¬ ((s.LoadCharacterInfo key code mapKey).SetState session .InGame).Current other) :
    s.character key = some other := by
  obtain ⟨user, huser⟩ := h
  by_cases hsame : user = key
  · rwa [← hsame]
  · exact absurd ⟨user, (update_of_ne hsame _ _).trans huser⟩ hnot

/-- After a load of a character that was no user's, the users still agree with their
characters. -/
theorem Placed.current_load (h : s.Placed) (hnot : ¬ s.Current code) {user other : Int}
    (hcharacter : update s.character key (some code) user = some other) :
    update s.user code (some key) other = some user := by
  by_cases huser : user = key
  · subst huser
    rw [update_self, Option.some.injEq] at hcharacter
    rw [← hcharacter, update_self]
  · rw [update_of_ne huser] at hcharacter
    have hne : other ≠ code := by
      rintro rfl
      exact hnot ⟨user, hcharacter⟩
    rw [update_of_ne hne]
    exact h.current user other hcharacter

/-- The function that loads a character gives its user a character that is in no channel, in
place of one that has left. -/
theorem Placed.load (h : s.Placed) (mapKey : Int) {func : Load} (hfresh : s.user func.code = none)
    (hleft : ∀ key ∈ s.GetUser func.session, ∀ code ∈ s.character key,
      (s.now.characters code).channel = 0 ∧ ∀ ch ∈ s.now.channels, code ∉ ch.members) :
    (s.load mapKey func).Placed := by
  unfold Players.load
  split
  · exact h
  · rename_i key hkey
    have hnot : ¬ s.Current func.code := by
      rintro ⟨other, hother⟩
      have huser := h.current other func.code hother
      rw [hfresh] at huser
      cases huser
    obtain ⟨hvalid, hconsistent⟩ := h.valid.renew h.consistent (h.away func.code hnot).1 mapKey
    have halive : key ∈ s.server.userKeys := by
      simpa using (Option.filter_eq_some_iff.mp hkey).2
    refine ⟨hvalid, hconsistent, fun _ _ => h.current_load hnot, fun code hcode => ?_,
      fun code user huser hgone => ?_⟩
    · have hne : code ≠ func.code := by
        rintro rfl
        exact hcode ⟨key, update_self _ _ _⟩
      rw [load_characters hne]
      by_cases hold : s.Current code
      · obtain ⟨hzero, hmembers⟩ := hleft key hkey code (hold.replaced hcode)
        refine ⟨hzero, fun id hmember => ?_⟩
        obtain ⟨cm, hcm, hin⟩ := world.World.mem_members_iff.mp hmember
        obtain ⟨ch, hget, hch⟩ := world.World.exists_channel_of_manager hcm
        exact hmembers ch (List.mem_of_getElem? hget) (by simpa [world.Channel.members, hch] using hin)
      · exact h.away code hold
    · change update s.user func.code (some key) code = some user at huser
      have hne : code ≠ func.code := by
        rintro rfl
        rw [update_self, Option.some.injEq] at huser
        exact hgone (huser ▸ halive)
      rw [update_of_ne hne] at huser
      rw [load_characters hne]
      exact h.gone code user huser hgone

/-- A user whose characters have all left their channels may expire. -/
theorem Placed.expireUser (h : s.Placed) {server : asio.Server Load}
    (hserver : ∀ user ∈ s.server.userKeys, user ≠ key → user ∈ server.userKeys)
    (hgone : ∀ code, s.user code = some key → (s.now.characters code).channel = 0) :
    ({ s with server }.expireUser key).Placed := by
  have hcharacters : ∀ code,
      ((({ s with server } : Players).expireUser key).now.characters code).mapKey =
        (s.now.characters code).mapKey ∧
      ((({ s with server } : Players).expireUser key).now.characters code).channel =
        (s.now.characters code).channel ∧
      ((({ s with server } : Players).expireUser key).now.characters code).cm =
        (s.now.characters code).cm ∧
      ((({ s with server } : Players).expireUser key).now.characters code).user =
        (s.now.characters code).user := by
    intro code
    dsimp only [Players.expireUser]
    split <;> exact ⟨rfl, rfl, rfl, rfl⟩
  have hroster : (({ s with server } : Players).expireUser key).now.roster = s.now.roster :=
    world.World.roster_congr rfl rfl fun code =>
      ⟨(hcharacters code).1, (hcharacters code).2.1, (hcharacters code).2.2.1⟩
  refine ⟨⟨⟨h.valid.entries, fun code hcode => ?_⟩, fun code huser => ?_⟩, hroster ▸ h.consistent, h.current,
    fun code hcode => ?_, fun code user huser hout => ?_⟩
  · rw [(hcharacters code).2.1] at hcode
    obtain ⟨id, hassigned⟩ := h.valid.located code hcode
    exact ⟨id, (congrFun (congrArg Roster.assigned hroster) code).trans hassigned⟩
  · rw [(hcharacters code).2.2.2] at huser
    rw [(hcharacters code).2.1]
    exact h.valid.departed code huser
  · rw [(hcharacters code).2.1, hroster]
    exact h.away code hcode
  · rw [(hcharacters code).2.1]
    by_cases hsame : user = key
    · exact hgone code (hsame ▸ huser)
    · exact h.gone code user huser fun hin => hout (hserver user hin hsame)

/-- A user that is destroyed takes its character out of its channel. -/
theorem Placed.destroyUser (h : s.Placed) (hkey : key ∈ s.server.userKeys) {server : asio.Server Load}
    (hserver : ∀ user ∈ s.server.userKeys, user ≠ key → user ∈ server.userKeys)
    (hdestroy : { s with server }.destroyUser key = some t) : t.Placed := by
  have hothers : ∀ code, s.user code = some key → s.character key ≠ some code →
      (s.now.characters code).channel = 0 := by
    intro code huser hother
    refine (h.away code ?_).1
    rintro ⟨user, hcharacter⟩
    have hsame := huser.symm.trans (h.current user code hcharacter)
    exact hother (Option.some.inj hsame ▸ hcharacter)
  unfold Players.destroyUser at hdestroy
  dsimp only at hdestroy
  split at hdestroy
  · rename_i hnone
    obtain rfl := Option.some.inj hdestroy
    exact h.expireUser hserver fun code huser => hothers code huser (by simp [hnone])
  · rename_i code hcharacter
    rw [Option.bind_eq_bind, Option.bind_eq_some_iff] at hdestroy
    obtain ⟨w, hw, ht⟩ := hdestroy
    obtain rfl := Option.some.inj ht
    obtain ⟨hformed, hmoves, hkept, hzero, hgone, _⟩ :=
      (world.World.destroyUser_spec h.valid.toWellFormed code).toOption hw
    have hvalid : w.Valid := by
      refine ⟨hformed, fun other hother => ?_⟩
      by_cases hsame : other = code
      · rw [hsame, hzero]
      · rw [hkept other hsame] at hother ⊢
        exact h.valid.departed other hother
    have hmoved := h.moved hcharacter hkey hvalid hmoves hkept
    refine hmoved.expireUser hserver fun other huser => ?_
    by_cases hsame : other = code
    · rw [hsame]
      exact hzero
    · dsimp only
      rw [hkept other hsame]
      exact hothers other huser fun hother => hsame (Option.some.inj (hother.symm.trans hcharacter))

end Players

end AsioGameServer.login

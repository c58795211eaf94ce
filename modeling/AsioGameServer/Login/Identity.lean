import AsioGameServer.Login.Registration

open Function Transition

namespace AsioGameServer

namespace asio.Server

variable {τ : Type} {s t u : Server τ} {session length : Nat}

/-- The key of the user that a session refers to, whether the user is still in its map. -/
def userOf (s : Server τ) (session : Nat) : Option Int := (s.created[session]?).bind Session.user

/-- A session that has a user stays with it. -/
def Stays (s t : Server τ) : Prop := ∀ session key, s.userOf session = some key → t.userOf session = some key

theorem Stays.of_created (hcreated : t.created = s.created) : s.Stays t := by
  intro session key huser
  rwa [userOf, hcreated]

theorem Stays.trans (h : s.Stays t) (h' : t.Stays u) : s.Stays u :=
  fun session key huser => h' session key (h session key huser)

/-- What is done to a session leaves the users, if it leaves that of this session. -/
theorem onSession_stays (s : Server τ) (session : Nat) (f : Session → Session)
    (huser : ∀ ss key, s.created[session]? = some ss → ss.user = some key → (f ss).user = some key) :
    s.Stays (s.onSession session f) := by
  intro other key hother
  obtain ⟨ss, hss, hkey⟩ := Option.bind_eq_some_iff.mp hother
  rw [userOf, onSession, List.getElem?_modify, hss]
  by_cases hsame : session = other
  · simpa [hsame] using huser ss key (hsame ▸ hss) hkey
  · simpa [hsame] using hkey

theorem read_stays (hread : s.read session length = some t) : s.Stays t := by
  unfold read at hread
  split at hread
  · cases hread
  · split at hread
    · cases hread
    · have hsession : s.Stays (s.onSession session fun ss => { ss with reads := ss.reads - 1 }) :=
        onSession_stays s session _ fun _ _ _ huser => huser
      dsimp only at hread
      split at hread
      · obtain rfl := Option.some.inj hread
        exact hsession.trans (.of_created rfl)
      · obtain rfl := Option.some.inj hread
        exact hsession.trans (onSession_stays _ session _ fun _ _ _ huser => huser)

/-- A new session is the only one that `NewUser` gives a user. -/
theorem NewUser_stays (s : Server τ) : Outcome s.Stays (fun _ => True) s.NewUser := by
  have hcreated : ∀ s : Server τ, s.Stays (s.CreateSession s.key).2 ∧
      ∀ i, (s.CreateSession s.key).1 = some i → ∀ ss key, (s.CreateSession s.key).2.created[i]? = some ss →
        ss.user = some key → False := by
    intro s
    unfold CreateSession
    split
    · refine ⟨.of_created rfl, ?_⟩
      rintro _ ⟨⟩
    · refine ⟨fun session key huser => ?_, ?_⟩
      · obtain ⟨ss, hss, hkey⟩ := Option.bind_eq_some_iff.mp huser
        have hlt : session < s.created.length := (List.getElem?_eq_some_iff.mp hss).1
        rw [userOf, List.getElem?_append_left hlt, hss]
        exact hkey
      · rintro i ⟨⟩ ss key hss hkey
        rw [List.getElem?_concat_length] at hss
        obtain rfl := Option.some.inj hss
        cases hkey
  obtain ⟨hsession, hfresh⟩ := hcreated s
  unfold NewUser
  generalize s.CreateSession s.key = created at hsession hfresh
  obtain ⟨session, s₁⟩ := created
  dsimp only at hsession hfresh
  have huser : (s₁.CreateUser s₁.key).2.created = s₁.created := by
    unfold CreateUser
    split <;> rfl
  dsimp only
  generalize s₁.CreateUser s₁.key = created at huser
  obtain ⟨user, s₂⟩ := created
  dsimp only at huser ⊢
  split
  · trivial
  · trivial
  · rename_i user session
    split
    · have hset : s.Stays (s₂.SetSession user (some session)) := hsession.trans (.of_created huser)
      refine Stays.trans
        (u := { (s₂.SetSession user (some session)).onSession session ({ · with user := some user }) with
        key := _ }) hset ?_
      refine (onSession_stays (s₂.SetSession user (some session)) session ({ · with user := some user })
        fun ss key hss hkey => ?_).trans (.of_created rfl)
      exact (hfresh session rfl ss key (huser ▸ hss) hkey).elim
    · trivial

theorem perform_stays (s : Server τ) (task : Task τ) : Outcome s.Stays (fun _ => True) (s.perform task) := by
  cases task with
  | NewUser => exact NewUser_stays s
  | Close session =>
    change Outcome _ _ (s.close session)
    unfold close
    split
    · trivial
    · rename_i key _
      have hsocket : (s.RemoveSocket key).2.created = s.created := by
        unfold RemoveSocket
        split <;> rfl
      have huser : ∀ s : Server τ, (s.RemoveUser key).2.created = s.created := by
        intro s
        unfold RemoveUser
        split <;> rfl
      exact Stays.of_created ((huser _).trans hsocket)
  | EraseUser key => exact Stays.of_created rfl
  | other func => exact Stays.of_created rfl

end asio.Server

namespace login.Players

variable {s t : Players} {session : Nat} {key code : Int}

theorem GetUser_eq_some_iff :
    s.GetUser session = some key ↔ s.server.userOf session = some key ∧ key ∈ s.server.userKeys := by
  unfold GetUser
  rw [Option.filter_eq_some_iff, decide_eq_true_eq]
  rfl

/-- Who plays has a character, and a character is that of the user it refers to. -/
structure Identified (s : Players) : Prop where
  numbered : s.Numbered
  playing : ∀ session, s.states session = .InGame →
    ∃ key code, s.server.userOf session = some key ∧ s.character key = some code
  own : ∀ key code, s.character key = some code → s.user code = some key

namespace Identified

theorem start (h : s.Start) : s.Identified := by
  refine ⟨h.numbered, fun session hplaying => ?_, fun key code hcharacter => ?_⟩
  · rw [h.states session] at hplaying
    cases hplaying
  · rw [(h.unloaded key).1] at hcharacter
    cases hcharacter

/-- The sessions stay with their users, and nothing else changes. -/
theorem congr (h : s.Identified) (hnumbered : t.Numbered) (hserver : s.server.Stays t.server)
    (hstates : t.states = s.states) (hcharacter : t.character = s.character) (huser : t.user = s.user) :
    t.Identified := by
  refine ⟨hnumbered, fun session hplaying => ?_, fun key code hloaded => ?_⟩
  · rw [hstates] at hplaying
    obtain ⟨key, code, hkey, hcode⟩ := h.playing session hplaying
    exact ⟨key, code, hserver session key hkey, hcharacter ▸ hcode⟩
  · rw [huser]
    exact h.own key code (hcharacter ▸ hloaded)

/-- A character that is loaded was no one's before. -/
theorem load (h : s.Identified) {func : Load} {rest : List (asio.Task Load)}
    (hhead : s.server.strand = .other func :: rest) (mapKey : Int) :
    ({ s with server := { s.server with strand := rest } }.load mapKey func).Identified := by
  have hnumbered := h.numbered.load hhead mapKey
  have hfresh : s.user func.code = none := by
    refine (h.numbered.fresh func.code ?_).2
    simp [pending, asio.Server.funcs, hhead, asio.Task.func]
  unfold Players.load at hnumbered ⊢
  split
  · rename_i hnone
    rw [hnone] at hnumbered
    exact h.congr hnumbered (.of_created rfl) rfl rfl rfl
  · rename_i key hkey
    rw [hkey] at hnumbered
    refine ⟨hnumbered, fun session hplaying => ?_, fun other code hloaded => ?_⟩
    · by_cases hsession : session = func.session
      · refine ⟨key, func.code, ?_, update_self _ _ _⟩
        rw [hsession]
        exact (GetUser_eq_some_iff.mp hkey).1
      · have hbefore : s.states session = .InGame := (update_of_ne hsession _ _).symm.trans hplaying
        obtain ⟨user, code, huser, hcode⟩ := h.playing session hbefore
        by_cases hsame : user = key
        · exact ⟨user, func.code, huser, hsame ▸ update_self _ _ _⟩
        · exact ⟨user, code, huser, (update_of_ne hsame _ _).trans hcode⟩
    · have hloaded : update s.character key (some func.code) other = some code := hloaded
      change update s.user func.code (some key) code = some other
      by_cases hother : other = key
      · rw [hother, update_self] at hloaded
        obtain rfl := Option.some.inj hloaded
        rw [update_self, hother]
      · rw [update_of_ne hother] at hloaded
        have hown := h.own other code hloaded
        have hne : code ≠ func.code := fun heq => by
          rw [heq, hfresh] at hown
          cases hown
        rw [update_of_ne hne, hown]

theorem run (h : s.Identified) {mapKey : Int} (hrun : s.run mapKey = some t) : t.Identified := by
  unfold Players.run at hrun
  split at hrun
  · cases hrun
  · rename_i task rest hhead
    rw [Option.bind_eq_bind, Option.bind_eq_some_iff] at hrun
    obtain ⟨server, hserver, ht⟩ := hrun
    dsimp only at ht
    have hstrand : s.server.Stays { s.server with strand := rest } := .of_created rfl
    have hstays : s.server.Stays server :=
      hstrand.trans ((asio.Server.perform_stays { s.server with strand := rest } task).toOption hserver)
    have hquiet : task.func = none → (∀ key, task ≠ .EraseUser key) → { s with server }.Numbered := by
      intro hfunc herase
      have hperformed := (asio.Server.perform_keeps { s.server with strand := rest } herase).toOption hserver
      refine h.numbered.server ⟨hperformed.users, hperformed.funcs.trans ?_⟩
      simp [asio.Server.funcs, hhead, hfunc]
    cases task with
    | NewUser =>
      obtain rfl := Option.some.inj ht
      exact h.congr (hquiet rfl (by simp)) hstays rfl rfl rfl
    | Close session =>
      obtain rfl := Option.some.inj ht
      exact h.congr (hquiet rfl (by simp)) hstays rfl rfl rfl
    | other func =>
      obtain rfl := Option.some.inj hserver
      obtain rfl := Option.some.inj ht
      exact h.load hhead mapKey
    | EraseUser key =>
      obtain rfl := Option.some.inj hserver
      dsimp only at ht
      have hnumbered : ({ s with
          server := asio.Server.eraseUser key { s.server with strand := rest } } : Players).Numbered := by
        refine h.numbered.congr ?_ rfl rfl
        simp only [pending, asio.Server.funcs, asio.Server.eraseUser, hhead]
        rw [List.filterMap_cons_none rfl]
      split at ht
      · have hkept := hnumbered.destroyUser ht
        unfold Players.destroyUser at ht
        split at ht
        · obtain rfl := Option.some.inj ht
          exact h.congr hkept hstays rfl rfl rfl
        · rw [Option.bind_eq_bind, Option.bind_eq_some_iff] at ht
          obtain ⟨w, _, ht⟩ := ht
          obtain rfl := Option.some.inj ht
          exact h.congr hkept hstays rfl rfl rfl
      · obtain rfl := Option.some.inj ht
        exact h.congr hnumbered hstays rfl rfl rfl

theorem On_Read (h : s.Identified) {packet : Packet} (hread : s.On_Read session packet = some t) : t.Identified := by
  unfold Players.On_Read at hread
  split at hread
  · have hnumbered := h.numbered.loginOn_Read hread
    unfold Players.loginOn_Read at hread
    split at hread
    · cases hread
    · obtain rfl := Option.some.inj hread
      exact h.congr hnumbered (.of_created rfl) rfl rfl rfl
  · unfold Players.inGameOn_Read at hread
    split at hread
    · obtain rfl := Option.some.inj hread
      exact h
    · split at hread
      · cases hread
      · rw [Option.bind_eq_bind, Option.bind_eq_some_iff] at hread
        obtain ⟨w, _, ht⟩ := hread
        obtain rfl := Option.some.inj ht
        exact h.congr (h.numbered.now w) (.of_created rfl) rfl rfl rfl
  · obtain rfl := Option.some.inj hread
    exact h

theorem next (h : s.Identified) {e : Event} (hnext : OfOption Players.next s e t) : t.Identified := by
  unfold OfOption at hnext
  cases e with
  | accept =>
    obtain rfl := Option.some.inj hnext
    have hkept := asio.Server.PostFuction_keeps s.server .NewUser rfl
    exact h.congr (h.numbered.server hkept) (.of_created rfl) rfl rfl rfl
  | read session packet =>
    simp only [Players.next, Option.bind_eq_bind, Option.bind_eq_some_iff] at hnext
    obtain ⟨server, hserver, hread⟩ := hnext
    have hnumbered := h.numbered.server (asio.Server.read_keeps hserver)
    have hbefore : { s with server }.Identified := h.congr hnumbered (asio.Server.read_stays hserver) rfl rfl rfl
    exact hbefore.On_Read hread
  | disconnect session =>
    simp only [Players.next, Option.bind_eq_bind, Option.bind_eq_some_iff] at hnext
    obtain ⟨server, hserver, ht⟩ := hnext
    obtain rfl := Option.some.inj ht
    have hnumbered := h.numbered.server (asio.Server.read_keeps hserver)
    exact h.congr hnumbered (asio.Server.read_stays hserver) rfl rfl rfl
  | answer query result =>
    have hnumbered := h.numbered.answer hnext
    change s.answer query result = some t at hnext
    unfold Players.answer at hnext
    split at hnext
    · cases hnext
    · obtain rfl := Option.some.inj hnext
      cases result with
      | false => exact h.congr hnumbered (.of_created rfl) rfl rfl rfl
      | true => exact h.congr hnumbered (.of_created rfl) rfl rfl rfl
  | run mapKey => exact h.run hnext
  | updateChannel id =>
    simp only [Players.next, Option.bind_eq_bind, Option.bind_eq_some_iff] at hnext
    obtain ⟨w, _, ht⟩ := hnext
    obtain rfl := Option.some.inj ht
    exact h.congr (h.numbered.now w) (.of_created rfl) rfl rfl rfl
  | tickManager id =>
    simp only [Players.next, Option.bind_eq_bind, Option.bind_eq_some_iff] at hnext
    obtain ⟨w, _, ht⟩ := hnext
    obtain rfl := Option.some.inj ht
    exact h.congr (h.numbered.now w) (.of_created rfl) rfl rfl rfl

end Identified

/-- However logins, answers, packets and ends of connections follow each other, a session that
plays has a character, which is its user's and no other's, so that a packet of the game is
handled for it wherever the world handles it. -/
theorem sessions_play_own_characters {s₀ : Players} {events : List Event} (hstart : s₀.Start)
    (hrun : Run (OfOption next) s₀ events s) (hplaying : s.states session = .InGame)
    (huser : s.GetUser session = some key) :
    ∃ code, s.character key = some code ∧ s.user code = some key ∧
      (∀ other, s.character other = some code → other = key) ∧
      ∀ request, s.On_Read session (.inGame request) =
        (s.now.On_Read code request).toOption.map fun w => { s with now := w } := by
  have hidentified : s.Identified := by
    apply hrun.invariant (Identified.start hstart)
    exact fun a e b ha hnext => ha.next hnext
  obtain ⟨user, code, hsession, hcode⟩ := hidentified.playing session hplaying
  obtain rfl : user = key := Option.some.inj (hsession.symm.trans (GetUser_eq_some_iff.mp huser).1)
  have hown := hidentified.own user code hcode
  refine ⟨code, hcode, hown, fun other hother => ?_, fun request => ?_⟩
  · exact Option.some.inj ((hidentified.own other code hother).symm.trans hown)
  · unfold On_Read
    rw [hplaying]
    unfold inGameOn_Read
    rw [huser]
    dsimp only
    rw [hcode]
    dsimp only
    cases (s.now.On_Read code request).toOption <;> rfl

/-- The second of two connections logs in. -/
theorem sessions_play_own_characters_second :
    ∃ s : Players, Run (OfOption next) emptyServer
        [.accept, .accept, .run 0, .run 0, .read 1 .REQ_DUMMIY_CHARACTER, .answer 0 true, .run 1] s ∧
      ∃ code, s.character 1 = some code ∧ s.user code = some 1 ∧
        ∀ other, s.character other = some code → other = 1 := by
  have hrun : ∃ s : Players, Run (OfOption next) emptyServer
        [.accept, .accept, .run 0, .run 0, .read 1 .REQ_DUMMIY_CHARACTER, .answer 0 true, .run 1] s ∧
      s.states 1 = .InGame ∧ s.GetUser 1 = some 1 :=
    ⟨_, .cons rfl (.cons rfl (.cons rfl (.cons rfl (.cons rfl (.cons rfl (.cons rfl (.nil _))))))), rfl, rfl⟩
  obtain ⟨s, hrun, hplaying, huser⟩ := hrun
  obtain ⟨code, hcode, hown, honly, _⟩ := sessions_play_own_characters emptyServer_start hrun hplaying huser
  exact ⟨s, hrun, code, hcode, hown, honly⟩

end login.Players

end AsioGameServer

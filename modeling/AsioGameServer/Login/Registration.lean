import AsioGameServer.Login.Codes
import AsioGameServer.Login.Placement
import AsioGameServer.World.Shape

open Transition

namespace AsioGameServer.login

namespace Players

variable {s t : Players}

/-- A channel applies current inserts, and the character that a user has is replaced only
when it has left its channel and is in no manager. -/
def Settled (s : Players) : Event → Prop
  | .updateChannel id => s.now.InsertsCurrent (.updateChannel id)
  | .run _ =>
    ∀ task ∈ s.server.strand.head?, ∀ func ∈ task.func, ∀ key ∈ s.GetUser func.session,
      ∀ code ∈ s.character key, (s.now.characters code).channel = 0 ∧
        ∀ ch ∈ s.now.channels, code ∉ ch.members
  | _ => True

instance : ∀ s e, Decidable (Settled s e)
  | s, .updateChannel id => inferInstanceAs (Decidable (s.now.InsertsCurrent (.updateChannel id)))
  | s, .run _ =>
    inferInstanceAs (Decidable (∀ task ∈ s.server.strand.head?, ∀ func ∈ task.func,
      ∀ key ∈ s.GetUser func.session, ∀ code ∈ s.character key,
        (s.now.characters code).channel = 0 ∧ ∀ ch ∈ s.now.channels, code ∉ ch.members))
  | _, .accept | _, .read .. | _, .disconnect _ | _, .answer .. | _, .tickManager _ => isTrue trivial

/-- The strand runs its next function. -/
theorem run_kept (hnumbered : s.Numbered) (hplaced : s.Placed) {mapKey : Int}
    (hsettled : s.Settled (.run mapKey)) (hrun : s.run mapKey = some t) : t.Numbered ∧ t.Placed := by
  unfold Players.run at hrun
  split at hrun
  · cases hrun
  · rename_i task rest hhead
    rw [Option.bind_eq_bind, Option.bind_eq_some_iff] at hrun
    obtain ⟨server, hserver, ht⟩ := hrun
    dsimp only at ht
    have hkeeps : task.func = none → (∀ key, task ≠ .EraseUser key) → s.server.Keeps server := by
      intro hfunc herase
      have hperformed := (asio.Server.perform_keeps { s.server with strand := rest } herase).toOption hserver
      refine ⟨hperformed.users, hperformed.funcs.trans ?_⟩
      simp [asio.Server.funcs, hhead, hfunc]
    cases task with
    | NewUser =>
      obtain rfl := Option.some.inj ht
      have hkept := hkeeps rfl (by simp)
      exact ⟨hnumbered.server hkept, hplaced.server hkept.users⟩
    | Close session =>
      obtain rfl := Option.some.inj ht
      have hkept := hkeeps rfl (by simp)
      exact ⟨hnumbered.server hkept, hplaced.server hkept.users⟩
    | other func =>
      obtain rfl := Option.some.inj hserver
      obtain rfl := Option.some.inj ht
      have hstrand : ({ s with server := { s.server with strand := rest } } : Players).Placed :=
        hplaced.server fun _ h => h
      refine ⟨hnumbered.load hhead mapKey, hstrand.load mapKey ?_ ?_⟩
      · refine (hnumbered.fresh func.code ?_).2
        simp [pending, asio.Server.funcs, hhead, asio.Task.func]
      · exact hsettled (.other func) (by simp [hhead]) func rfl
    | EraseUser key =>
      obtain rfl := Option.some.inj hserver
      dsimp only at ht
      have hnumbered' : ({ s with
          server := asio.Server.eraseUser key { s.server with strand := rest } } : Players).Numbered := by
        refine hnumbered.congr ?_ rfl rfl
        simp only [pending, asio.Server.funcs, asio.Server.eraseUser, hhead]
        rw [List.filterMap_cons_none rfl]
      have husers : ∀ user ∈ s.server.userKeys, user ≠ key →
          user ∈ (asio.Server.eraseUser key { s.server with strand := rest }).userKeys := by
        intro user huser hne
        simp only [asio.Server.userKeys, asio.Server.eraseUser, List.mem_map, List.mem_filter,
          decide_eq_true_eq] at huser ⊢
        obtain ⟨entry, hentry, rfl⟩ := huser
        exact ⟨entry, ⟨hentry, hne⟩, rfl⟩
      split at ht
      · rename_i hkey
        exact ⟨hnumbered'.destroyUser ht, hplaced.destroyUser hkey husers ht⟩
      · rename_i hkey
        obtain rfl := Option.some.inj ht
        refine ⟨hnumbered', hplaced.server fun user huser => husers user huser ?_⟩
        rintro rfl
        exact hkey huser

/-- A session reads a packet. -/
theorem On_Read_kept (hnumbered : s.Numbered) (hplaced : s.Placed) {session : Nat} {packet : Packet}
    (hread : s.On_Read session packet = some t) : t.Numbered ∧ t.Placed := by
  unfold Players.On_Read at hread
  split at hread
  · refine ⟨hnumbered.loginOn_Read hread, ?_⟩
    unfold Players.loginOn_Read at hread
    split at hread
    · cases hread
    · obtain rfl := Option.some.inj hread
      exact ⟨hplaced.valid, hplaced.consistent, hplaced.current, hplaced.away, hplaced.gone⟩
  · rename_i request _
    unfold Players.inGameOn_Read at hread
    split at hread
    · obtain rfl := Option.some.inj hread
      exact ⟨hnumbered, hplaced⟩
    · rename_i key hkey
      split at hread
      · cases hread
      · rename_i code hcharacter
        rw [Option.bind_eq_bind, Option.bind_eq_some_iff] at hread
        obtain ⟨w, hw, ht⟩ := hread
        obtain rfl := Option.some.inj ht
        refine ⟨hnumbered.now w, ?_⟩
        have hmoved := (world.World.On_Read_moved hplaced.valid.toWellFormed request).toOption hw
        have hstepped := (world.World.step_spec hplaced.valid (.request code request)).toOption hw
        have halive : key ∈ s.server.userKeys := by
          simpa using (Option.filter_eq_some_iff.mp hkey).2
        exact hplaced.moved hcharacter halive hstepped.valid hmoved.roster hmoved.others
  · obtain rfl := Option.some.inj hread
    exact ⟨hnumbered, hplaced⟩

/-- Every settled step keeps the characters in their places. -/
theorem next_kept (hnumbered : s.Numbered) (hplaced : s.Placed) {e : Event} (hsettled : s.Settled e)
    (hnext : OfOption next s e t) : t.Numbered ∧ t.Placed := by
  unfold OfOption at hnext
  cases e with
  | accept =>
    obtain rfl := Option.some.inj hnext
    have hkept := asio.Server.PostFuction_keeps s.server .NewUser rfl
    exact ⟨hnumbered.server hkept, hplaced.server hkept.users⟩
  | read session packet =>
    simp only [next, Option.bind_eq_bind, Option.bind_eq_some_iff] at hnext
    obtain ⟨server, hserver, hread⟩ := hnext
    have hkept := asio.Server.read_keeps hserver
    exact On_Read_kept (hnumbered.server hkept) (hplaced.server hkept.users) hread
  | disconnect session =>
    simp only [next, Option.bind_eq_bind, Option.bind_eq_some_iff] at hnext
    obtain ⟨server, hserver, ht⟩ := hnext
    obtain rfl := Option.some.inj ht
    have hkept := asio.Server.read_keeps hserver
    exact ⟨hnumbered.server hkept, hplaced.server hkept.users⟩
  | answer query result => exact ⟨hnumbered.answer hnext, hplaced.answer hnext⟩
  | run mapKey => exact run_kept hnumbered hplaced hsettled hnext
  | updateChannel id =>
    simp only [next, Option.bind_eq_bind, Option.bind_eq_some_iff] at hnext
    obtain ⟨w, hw, ht⟩ := hnext
    obtain rfl := Option.some.inj ht
    have hstepped := (world.World.step_spec hplaced.valid (.updateChannel id)).toOption hw
    refine ⟨hnumbered.now w, ?_⟩
    exact hplaced.ticked hstepped.valid (hstepped.consistent hsettled hplaced.consistent)
      ((world.World.updateChannel_stays s.now id).toOption hw)
      ((world.World.updateChannel_members hsettled).toOption hw)
  | tickManager id =>
    simp only [next, Option.bind_eq_bind, Option.bind_eq_some_iff] at hnext
    obtain ⟨w, hw, ht⟩ := hnext
    obtain rfl := Option.some.inj ht
    have hstepped := (world.World.step_spec hplaced.valid (.tickManager id)).toOption hw
    refine ⟨hnumbered.now w, ?_⟩
    refine hplaced.ticked hstepped.valid (hstepped.consistent trivial hplaced.consistent)
      ((world.World.tickManager_stays s.now id).toOption hw) fun code other _ hmember => ?_
    rwa [((world.World.tickManager_same s.now id).toOption hw).2] at hmember

/-- In a run in which no channel applies an outdated insert, and a user's character is
replaced only when it has left the channels, a user never has two characters in managers,
and once a user is destroyed and all request lists are empty it has none there. -/
theorem run_leaves_no_ghost {s₀ : Players} {events : List Event} (hstart : s₀.Start)
    (hrun : Run (Guarded Settled (OfOption next)) s₀ events s) :
    (∀ key code other, s.user code = some key → s.user other = some key → s.Registered code →
      s.Registered other → code = other) ∧
      (s.now.Drained → ∀ key code, s.user code = some key → key ∉ s.server.userKeys →
        ¬ s.Registered code) := by
  obtain ⟨_, hplaced⟩ : s.Numbered ∧ s.Placed := by
    apply hrun.invariant ⟨hstart.numbered, hstart.placed⟩
    intro a e b ⟨hnumbered, hplaced⟩ ⟨hsettled, hnext⟩
    exact next_kept hnumbered hplaced hsettled hnext
  have hcurrent : ∀ key code, s.user code = some key → s.Registered code → s.character key = some code := by
    rintro key code huser ⟨id, hmember⟩
    by_contra hother
    refine (hplaced.away code ?_).2 id (world.World.mem_members_iff.mpr hmember)
    rintro ⟨user, hcharacter⟩
    have hsame := huser.symm.trans (hplaced.current user code hcharacter)
    exact hother (Option.some.inj hsame ▸ hcharacter)
  constructor
  · intro key code other huser huser' hcode hother
    exact Option.some.inj ((hcurrent key code huser hcode).symm.trans (hcurrent key other huser' hother))
  · rintro hdrained key code huser hgone ⟨id, hmember⟩
    have hassigned : s.now.roster.assigned code = none := if_pos (hplaced.gone code key huser hgone)
    have hin := (hplaced.consistent.mem_members_iff (fun id => (hdrained.no_requests id).1)
      fun id => (hdrained.no_requests id).2).mp (world.World.mem_members_iff.mpr hmember)
    rw [hassigned] at hin
    cases hin

/-- A server with two maps, before the first connection. -/
def emptyServer : Players :=
  ⟨.start, fun _ => .Login, 0, [], world.World.twoMaps, fun _ => none, fun _ => none⟩

theorem emptyServer_start : emptyServer.Start :=
  ⟨rfl, fun _ => rfl, rfl, rfl, world.World.twoMaps_start, fun _ => ⟨rfl, rfl⟩⟩

/-- Two logins of a session, both answered before its character enters a map. -/
theorem run_second_load_first :
    ∃ events s, Run (OfOption next) emptyServer events s ∧ s.user (-1) = some 0 ∧ s.user (-2) = some 0 ∧
      s.now.Drained ∧ 0 ∉ s.server.userKeys ∧ ¬ s.Registered (-1) ∧ ¬ s.Registered (-2) := by
  have hfold : ([.accept, .run 0, .read 0 .REQ_DUMMIY_CHARACTER, .read 0 .REQ_DUMMIY_CHARACTER,
      .answer 0 true, .answer 0 true, .run 1, .run 1, .read 0 (.inGame (.REQ_ENTER_MAP 1)),
      .updateChannel 0, .updateChannel 0, .disconnect 0, .run 0, .run 0, .updateChannel 0].foldlM
        (fun s e => if Settled s e then s.next e else none) emptyServer).map
      (fun s => (s.user (-1), s.user (-2), s.server.userKeys, decide s.now.Drained)) =
        some (some 0, some 0, [], true) := by
    decide +kernel
  obtain ⟨s, hs, hseen⟩ := Option.map_eq_some_iff.mp hfold
  simp only [Prod.mk.injEq, decide_eq_true_eq] at hseen
  obtain ⟨hfirst, hsecond, husers, hdrained⟩ := hseen
  have hrun := run_guarded_ofOption_iff.mpr hs
  have hgone : 0 ∉ s.server.userKeys := by simp [husers]
  have hnone := (run_leaves_no_ghost emptyServer_start hrun).2 hdrained
  exact ⟨_, s, hrun.of_guarded, hfirst, hsecond, hdrained, hgone, hnone 0 (-1) hfirst hgone,
    hnone 0 (-2) hsecond hgone⟩

/-- A session whose second login is answered when its first character is in a channel has two
characters there, and leaves the first one behind. -/
theorem second_load_leaves_ghost :
    ∃ events more later s t u, emptyServer.Start ∧ Run (OfOption next) emptyServer events s ∧
      Run (OfOption next) s more t ∧ Run (OfOption next) s later u ∧
      t.user (-1) = some 0 ∧ t.user (-2) = some 0 ∧ t.Registered (-1) ∧ t.Registered (-2) ∧
      u.user (-1) = some 0 ∧ 0 ∉ u.server.userKeys ∧ u.now.Drained ∧ u.Registered (-1) := by
  have hfold : ([.accept, .run 0, .read 0 .REQ_DUMMIY_CHARACTER, .read 0 .REQ_DUMMIY_CHARACTER,
      .answer 0 true, .answer 0 true, .run 1, .read 0 (.inGame (.REQ_ENTER_MAP 1)), .updateChannel 0,
      .updateChannel 0, .run 1].foldlM next emptyServer).map (fun s =>
        (([.read 0 (.inGame (.REQ_ENTER_MAP 1)), .updateChannel 0].foldlM next s).any fun t =>
          decide (t.user (-1) = some 0 ∧ t.user (-2) = some 0 ∧ t.now.roster.members 0 = [-1, -2]),
        ([.disconnect 0, .run 0, .run 0, .updateChannel 0].foldlM next s).any fun u =>
          decide (u.user (-1) = some 0 ∧ u.server.userKeys = [] ∧ u.now.Drained ∧
            u.now.roster.members 0 = [-1]))) = some (true, true) := by
    decide +kernel
  obtain ⟨s, hs, hseen⟩ := Option.map_eq_some_iff.mp hfold
  obtain ⟨htwo, hghost⟩ := Prod.mk.inj hseen
  obtain ⟨t, ht, htwo⟩ := (Option.any_eq_true _ _).mp htwo
  obtain ⟨u, hu, hghost⟩ := (Option.any_eq_true _ _).mp hghost
  obtain ⟨hfirst, hsecond, hmembers⟩ := of_decide_eq_true htwo
  obtain ⟨huser, husers, hdrained, hleft⟩ := of_decide_eq_true hghost
  refine ⟨_, _, _, s, t, u, emptyServer_start, run_ofOption_iff.mpr hs, run_ofOption_iff.mpr ht,
    run_ofOption_iff.mpr hu, hfirst, hsecond, ⟨0, ?_⟩, ⟨0, ?_⟩, huser, by simp [husers], hdrained, ⟨0, ?_⟩⟩
  all_goals
    rw [← world.World.mem_members_iff]
    simp [hmembers, hleft]

end Players

end AsioGameServer.login

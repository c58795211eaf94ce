import AsioGameServer.Asio.Users
import AsioGameServer.Login.Players

open Function Transition

namespace AsioGameServer.login

namespace Players

variable {s t : Players} {key : Int}

/-- The codes that were given out and have no character yet. -/
def pending (s : Players) : List Int := (s.queries ++ s.server.funcs).map Load.code

/-- The codes are given out once, downwards. -/
structure Numbered (s : Players) : Prop where
  once : s.pending.Nodup
  fresh : ∀ code ∈ s.pending, s.charcode ≤ code ∧ s.user code = none
  loaded : ∀ code, s.user code ≠ none → s.charcode ≤ code

theorem Numbered.congr (h : s.Numbered) (hpending : t.pending.Sublist s.pending) (huser : t.user = s.user)
    (hcharcode : t.charcode = s.charcode) : t.Numbered := by
  refine ⟨hpending.nodup h.once, fun code hcode => ?_, fun code hcode => ?_⟩
  · rw [hcharcode, huser]
    exact h.fresh code (hpending.subset hcode)
  · rw [hcharcode]
    exact h.loaded code (huser ▸ hcode)

theorem Numbered.server (h : s.Numbered) {server : asio.Server Load} (hkeeps : s.server.Keeps server) :
    { s with server }.Numbered := by
  refine h.congr ?_ rfl rfl
  rw [pending, pending, hkeeps.funcs]

theorem Numbered.now (h : s.Numbered) (w : world.World) : { s with now := w }.Numbered :=
  ⟨h.once, h.fresh, h.loaded⟩

/-- A login request gives out the next code. -/
theorem Numbered.loginOn_Read (h : s.Numbered) {session : Nat} (hlogin : s.loginOn_Read session = some t) :
    t.Numbered := by
  unfold Players.loginOn_Read at hlogin
  split at hlogin
  · cases hlogin
  · obtain rfl := Option.some.inj hlogin
    have hperm : ({ s with
        charcode := s.charcode - 1
        queries := s.queries ++ [⟨session, s.charcode - 1⟩] } : Players).pending.Perm
        ((s.charcode - 1) :: s.pending) := by
      simp only [pending, List.map_append, List.map_cons, List.append_assoc, List.singleton_append]
      exact List.perm_middle
    have hnew : s.charcode - 1 ∉ s.pending := fun hmem => by
      have hle := (h.fresh _ hmem).1
      omega
    refine ⟨hperm.nodup_iff.mpr (List.nodup_cons.mpr ⟨hnew, h.once⟩), fun code hcode => ?_, fun code hcode => ?_⟩
    · obtain rfl | hold := List.mem_cons.mp (hperm.mem_iff.mp hcode)
      · refine ⟨Int.le_refl _, ?_⟩
        by_contra hloaded
        have hle := h.loaded _ hloaded
        omega
      · obtain ⟨hle, hnone⟩ := h.fresh code hold
        exact ⟨by dsimp only; omega, hnone⟩
    · have hle := h.loaded code hcode
      dsimp only
      omega

/-- The answer to a query takes it from the ones that are asked, and may post its function. -/
theorem Numbered.answer (h : s.Numbered) {query : Nat} {result : Bool}
    (hanswer : s.answer query result = some t) : t.Numbered := by
  unfold Players.answer at hanswer
  split at hanswer
  · cases hanswer
  · rename_i func hfunc
    obtain ⟨before, after, hqueries, herased, _⟩ := split_of_getElem? hfunc
    dsimp only at hanswer
    obtain rfl := Option.some.inj hanswer
    have hpending : s.pending = (before ++ func :: (after ++ s.server.funcs)).map Load.code := by
      rw [pending, hqueries, List.append_assoc, List.cons_append]
    cases result with
    | false =>
      refine h.congr ?_ rfl rfl
      simp only [Bool.false_eq_true, if_false]
      rw [hpending, pending, herased, List.append_assoc]
      exact ((List.Sublist.refl _).append (List.sublist_cons_self _ _)).map _
    | true =>
      have hperm : ({ s with
          server := s.server.PostFuction (.other func)
          queries := s.queries.eraseIdx query } : Players).pending.Perm s.pending := by
        simp only [pending, asio.Server.funcs_PostFuction, asio.Task.func, herased]
        rw [hqueries]
        refine List.Perm.map _ ?_
        simp only [Option.toList_some, List.append_assoc, List.cons_append]
        refine List.Perm.append_left _ ?_
        rw [← List.append_assoc]
        exact List.perm_append_singleton _ _
      refine ⟨hperm.nodup_iff.mpr h.once, fun code hcode => h.fresh code (hperm.mem_iff.mp hcode), h.loaded⟩

/-- The function that loads a character takes its code from the ones that have none. -/
theorem Numbered.load (h : s.Numbered) {func : Load} {rest : List (asio.Task Load)}
    (hhead : s.server.strand = .other func :: rest) (mapKey : Int) :
    ({ s with server := { s.server with strand := rest } }.load mapKey func).Numbered := by
  have hpending : s.pending = s.queries.map Load.code ++ func.code ::
      (rest.filterMap asio.Task.func).map Load.code := by
    simp [pending, asio.Server.funcs, hhead, asio.Task.func]
  have hrest : ({ s with server := { s.server with strand := rest } } : Players).pending =
      s.queries.map Load.code ++ (rest.filterMap asio.Task.func).map Load.code := by
    simp [pending, asio.Server.funcs]
  have hsub : ({ s with server := { s.server with strand := rest } } : Players).pending.Sublist s.pending := by
    rw [hpending, hrest]
    exact (List.Sublist.refl _).append (List.sublist_cons_self _ _)
  have hmem : func.code ∈ s.pending := by simp [hpending]
  have hnot : func.code ∉ ({ s with server := { s.server with strand := rest } } : Players).pending := by
    have honce := h.once
    rw [hpending, List.perm_middle.nodup_iff, List.nodup_cons] at honce
    rw [hrest]
    exact honce.1
  unfold Players.load
  split
  · exact h.congr hsub rfl rfl
  · rename_i key _
    refine ⟨hsub.nodup h.once, fun code hcode => ?_, fun code hcode => ?_⟩
    · have hne : code ≠ func.code := by
        rintro rfl
        exact hnot hcode
      obtain ⟨hle, hnone⟩ := h.fresh code (hsub.subset hcode)
      exact ⟨hle, (update_of_ne hne _ _).trans hnone⟩
    · by_cases hsame : code = func.code
      · rw [hsame]
        exact (h.fresh func.code hmem).1
      · exact h.loaded code fun hnone => hcode ((update_of_ne hsame _ _).trans hnone)

theorem Numbered.destroyUser (h : s.Numbered) (hdestroy : s.destroyUser key = some t) : t.Numbered := by
  unfold Players.destroyUser at hdestroy
  split at hdestroy
  · obtain rfl := Option.some.inj hdestroy
    exact ⟨h.once, h.fresh, h.loaded⟩
  · rw [Option.bind_eq_bind, Option.bind_eq_some_iff] at hdestroy
    obtain ⟨w, _, ht⟩ := hdestroy
    obtain rfl := Option.some.inj ht
    exact ⟨h.once, h.fresh, h.loaded⟩

theorem Start.numbered (h : s.Start) : s.Numbered := by
  have hpending : s.pending = [] := by
    rw [pending, h.queries, h.server]
    rfl
  refine ⟨by simp [hpending], by simp [hpending], fun code hcode => ?_⟩
  exact absurd (h.unloaded code).2 hcode

end Players

end AsioGameServer.login

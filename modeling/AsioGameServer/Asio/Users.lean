import AsioGameServer.Lib.Outcome
import AsioGameServer.Asio.Server

open Function

namespace AsioGameServer.asio


variable {τ : Type}

/-- The function that a task was posted with. -/
def Task.func : Task τ → Option τ
  | .other func => some func
  | _ => none

namespace Server

variable {s t u : Server τ} {key : Int} {session length : Nat}

/-- The functions on the strand that were posted from elsewhere. -/
def funcs (s : Server τ) : List τ := s.strand.filterMap Task.func

/-- A posted task comes last on the strand. Only one that was posted from elsewhere counts among
the functions. -/
theorem funcs_PostFuction (s : Server τ) (task : Task τ) :
    (s.PostFuction task).funcs = s.funcs ++ task.func.toList := by
  cases task <;> simp [funcs, PostFuction, Task.func]

/-- What a step does that erases no user: the users stay in their map, and the functions
that were posted from elsewhere on the strand. -/
structure Keeps (s t : Server τ) : Prop where
  users : ∀ key ∈ s.userKeys, key ∈ t.userKeys
  funcs : t.funcs = s.funcs

theorem Keeps.trans (h : s.Keeps t) (h' : t.Keeps u) : s.Keeps u :=
  ⟨fun key hkey => h'.users key (h.users key hkey), h'.funcs.trans h.funcs⟩

/-- A step that leaves the map of the users and the strand alone keeps both. -/
theorem Keeps.of_eq (husers : t.users = s.users) (hstrand : t.strand = s.strand) : s.Keeps t := by
  refine ⟨fun key hkey => ?_, by rw [Server.funcs, Server.funcs, hstrand]⟩
  rwa [userKeys, husers]

/-- The server posts tasks of its own to its strand, which are none of the functions from
elsewhere. -/
theorem PostFuction_keeps (s : Server τ) (task : Task τ) (htask : task.func = none) :
    s.Keeps (s.PostFuction task) :=
  ⟨fun _ h => h, by simp [funcs_PostFuction, htask]⟩

/-- A read of length 0 posts the closing of its session, and any other read changes the session
only. -/
theorem read_keeps (hread : s.read session length = some t) : s.Keeps t := by
  unfold read at hread
  split at hread
  · cases hread
  · split at hread
    · cases hread
    · dsimp only at hread
      split at hread
      · obtain rfl := Option.some.inj hread
        have hsession : s.Keeps (s.onSession session fun ss => { ss with reads := ss.reads - 1 }) :=
          .of_eq rfl rfl
        exact hsession.trans (PostFuction_keeps _ _ rfl)
      · obtain rfl := Option.some.inj hread
        exact .of_eq rfl rfl

/-- A new session is entered in the map of the sessions, whether or not the key is free, and no
user is concerned. -/
theorem CreateSession_keeps (s : Server τ) (key : Int) : s.Keeps (s.CreateSession key).2 := by
  unfold CreateSession
  split <;> exact .of_eq rfl rfl

/-- A new user comes after the others in their map. Where the key is taken, none is created. -/
theorem CreateUser_keeps (s : Server τ) (key : Int) : s.Keeps (s.CreateUser key).2 := by
  unfold CreateUser
  split
  · exact .of_eq rfl rfl
  · refine ⟨fun other hother => ?_, rfl⟩
    rw [userKeys, List.map_append]
    exact List.mem_append_left _ hother

/-- A user that is given a session keeps its place and its key. -/
theorem SetSession_keeps (s : Server τ) (key : Int) (session : Option Nat) :
    s.Keeps (s.SetSession key session) := by
  have hkeys : (s.SetSession key session).userKeys = s.userKeys := by
    rw [userKeys, userKeys, SetSession, List.map_map]
    refine List.map_congr_left fun entry _ => ?_
    simp only [comp_apply]
    split <;> rfl
  exact ⟨fun _ h => hkeys ▸ h, rfl⟩

/-- `NewUser` creates a session and a user and joins the two, and takes no user out. It has no
result where one of the two could not be created. -/
theorem NewUser_keeps (s : Server τ) : Outcome s.Keeps (fun _ => True) s.NewUser := by
  have hsession := CreateSession_keeps s s.key
  unfold NewUser
  generalize s.CreateSession s.key = created at hsession
  obtain ⟨session, s₁⟩ := created
  have huser := hsession.trans (CreateUser_keeps s₁ s₁.key)
  dsimp only
  generalize s₁.CreateUser s₁.key = created at huser
  obtain ⟨user, s₂⟩ := created
  dsimp only
  split
  · trivial
  · trivial
  · rename_i user session
    split
    · refine (huser.trans (SetSession_keeps s₂ user (some session))).trans ?_
      exact .of_eq rfl rfl
    · trivial

/-- A session that is closed leaves the map of the sessions at once. Its user stays until a second
task, which the closing only posts. -/
theorem close_keeps (s : Server τ) (session : Nat) : Outcome s.Keeps (fun _ => True) (s.close session) := by
  unfold close
  split
  · trivial
  · rename_i key _
    have hsocket : s.Keeps (s.RemoveSocket key).2 := by
      unfold RemoveSocket
      split <;> exact .of_eq rfl rfl
    have huser : ∀ s : Server τ, s.Keeps (s.RemoveUser key).2 := by
      intro s
      unfold RemoveUser
      split
      · exact .of_eq rfl rfl
      · exact PostFuction_keeps s _ rfl
    exact hsocket.trans (huser _)

/-- Only its erasure takes a user from the map. -/
theorem perform_keeps (s : Server τ) {task : Task τ} (htask : ∀ key, task ≠ .EraseUser key) :
    Outcome s.Keeps (fun _ => True) (s.perform task) := by
  cases task with
  | NewUser => exact NewUser_keeps s
  | Close session => exact close_keeps s session
  | EraseUser key => exact absurd rfl (htask key)
  | other func => exact .of_eq rfl rfl

end Server

end AsioGameServer.asio

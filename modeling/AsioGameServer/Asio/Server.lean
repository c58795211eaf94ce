import Mathlib.Data.List.Basic
import AsioGameServer.Lib.Transition

namespace AsioGameServer.asio

/-- A `Session`: its key, which only `CreateSession` sets, the key of the user it
refers to, and the calls of `do_read` whose handler has not run. -/
structure Session where
  key : Option Int
  user : Option Int
  reads : Nat
deriving DecidableEq, Repr

/-- A `User`: the session it refers to. -/
structure User where
  session : Option Nat
deriving DecidableEq, Repr

/-- The functions posted to the strand of the IO group: `NewUser` for an accepted
connection, the function a read that ends a session posts, the one `RemoveUser`
posts, and others, which leave both maps alone. -/
inductive Task (τ : Type) where
  | NewUser
  | Close (session : Nat)
  | EraseUser (key : Int)
  | other (func : τ)
deriving DecidableEq, Repr

/-- The state of the IO group: the static `key` of `server::NewUser`, every session
that was created, `SessionManager::sessions`, `UserManager::users` and the functions
on the strand. A session is referred to by its position in `created`. -/
structure Server (τ : Type) where
  key : Int
  created : List Session
  sessions : List (Int × Nat)
  users : List (Int × User)
  strand : List (Task τ)
deriving DecidableEq, Repr

/-- The null pointers and the uninitialised key that the tasks use, and the increment
of the largest `int`. -/
inductive Fault where
  | nullUser | nullSession | uninitialisedKey | keyOverflow
deriving DecidableEq, Repr

/-- A connection is accepted, the handler of a session's read runs, a function is
posted from elsewhere, and the strand runs its next function. -/
inductive Event (τ : Type) where
  | accept
  | read (session length : Nat)
  | post (func : τ)
  | run
deriving DecidableEq, Repr

/-- The constructor of `Session`. -/
def Session.new : Session := ⟨none, none, 0⟩

/-- `Session::do_read` leaves one more read to its handler. -/
def Session.do_read (ss : Session) : Session := { ss with reads := ss.reads + 1 }

def Session.start (ss : Session) : Session := ss.do_read

namespace Server

variable {τ : Type}

def PostFuction (s : Server τ) (func : Task τ) : Server τ := { s with strand := s.strand ++ [func] }

def onSession (s : Server τ) (session : Nat) (f : Session → Session) : Server τ :=
  { s with created := s.created.modify session f }

/-- `SessionManager::CreateSession`. The key is set once reading has started. -/
def CreateSession (key : Int) (s : Server τ) : Option Nat × Server τ :=
  match s.sessions.lookup key with
  | some _ => (none, s)
  | none =>
    (some s.created.length, { s with
      created := s.created ++ [{ Session.new.start with key := some key }]
      sessions := s.sessions ++ [(key, s.created.length)] })

/-- `UserManager::CreateUser`. A user is referred to by its key. -/
def CreateUser (key : Int) (s : Server τ) : Option Int × Server τ :=
  match s.users.lookup key with
  | some _ => (none, s)
  | none => (some key, { s with users := s.users ++ [(key, ⟨none⟩)] })

/-- `User::SetSession` of a user in the map. -/
def SetSession (user : Int) (session : Option Nat) (s : Server τ) : Server τ :=
  { s with users := s.users.map fun entry => if entry.1 = user then (entry.1, ⟨session⟩) else entry }

/-- `server::NewUser`. -/
def NewUser (s : Server τ) : Except Fault (Server τ) :=
  let (session, s) := s.CreateSession s.key
  let (user, s) := s.CreateUser s.key
  match user, session with
  | none, _ => .error .nullUser
  | some _, none => .error .nullSession
  | some user, some session =>
    let s := s.SetSession user (some session)
    let s := s.onSession session ({ · with user := some user })
    if s.key < 2147483647 then .ok { s with key := s.key + 1 } else .error .keyOverflow

/-- `SessionManager::RemoveSocket`. -/
def RemoveSocket (key : Int) (s : Server τ) : Bool × Server τ :=
  match s.sessions.lookup key with
  | none => (false, s)
  | some _ => (true, { s with sessions := s.sessions.filter (·.1 ≠ key) })

/-- `UserManager::RemoveUser`. The user is erased by a task of its own. -/
def RemoveUser (key : Int) (s : Server τ) : Bool × Server τ :=
  match s.users.lookup key with
  | none => (false, s)
  | some _ => (true, s.PostFuction (.EraseUser key))

/-- The function that a read of length 0 posts. -/
def close (session : Nat) (s : Server τ) : Except Fault (Server τ) :=
  match (s.created[session]?).bind Session.key with
  | none => .error .uninitialisedKey
  | some key =>
    let (_, s) := s.RemoveSocket key
    let (_, s) := s.RemoveUser key
    .ok s

def eraseUser (key : Int) (s : Server τ) : Server τ :=
  { s with users := s.users.filter (·.1 ≠ key) }

def perform (s : Server τ) : Task τ → Except Fault (Server τ)
  | .NewUser => s.NewUser
  | .Close session => s.close session
  | .EraseUser key => .ok (s.eraseUser key)
  | .other _ => .ok s

/-- The handler of a session's read. A read of length 0 posts the closing and is the
last one; after any other the handler reads on. -/
def read (session length : Nat) (s : Server τ) : Option (Server τ) :=
  match s.created[session]? with
  | none => none
  | some ss =>
    if ss.reads = 0 then none
    else
      let s := s.onSession session fun ss => { ss with reads := ss.reads - 1 }
      if length = 0 then some (s.PostFuction (.Close session))
      else some (s.onSession session Session.do_read)

/-- The steps that are possible and have a defined result. -/
def next (s : Server τ) : Event τ → Option (Server τ)
  | .accept => some (s.PostFuction .NewUser)
  | .read session length => s.read session length
  | .post func => some (s.PostFuction (.other func))
  | .run =>
    match s.strand with
    | [] => none
    | task :: rest => (perform { s with strand := rest } task).toOption

/-- The server before the first connection. -/
def start : Server τ := ⟨0, [], [], [], []⟩

/-- The keys of `SessionManager::sessions`. -/
def sessionKeys (s : Server τ) : List Int := s.sessions.map Prod.fst

/-- The keys of `UserManager::users`. -/
def userKeys (s : Server τ) : List Int := s.users.map Prod.fst

/-- The keys given to the sessions, in the order of their creation. -/
def assignedKeys (s : Server τ) : List Int := s.created.filterMap Session.key

end Server

end AsioGameServer.asio

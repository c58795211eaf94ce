import AsioGameServer.Asio.Server
import AsioGameServer.World.Membership

open Function Transition

namespace AsioGameServer.login

inductive ESessionState where
  | Login | InGame
deriving DecidableEq, Repr

/-- What a login request captures for the function that loads its character. -/
structure Load where
  session : Nat
  code : Int
deriving DecidableEq, Repr

/-- A packet that the state of a session may handle. -/
inductive Packet where
  | REQ_DUMMIY_CHARACTER
  | inGame (request : world.World.Request)
deriving DecidableEq, Repr

/-- The IO group and the world together: the state that each session is in, the static
`charcode` of `LoginState::On_Read`, the queries that have no answer, `User::character` by
the key of the user, and `Character::user` by the code of the character. -/
structure Players where
  server : asio.Server Load
  states : Nat → ESessionState
  charcode : Int
  queries : List Load
  now : world.World
  character : Int → Option Int
  user : Int → Option Int

/-- A connection is accepted, a session reads a packet or its end, a query is answered, the
strand runs its next function, for which the database may have the map of a character, and
a channel and its manager update. -/
inductive Event where
  | accept
  | read (session : Nat) (packet : Packet)
  | disconnect (session : Nat)
  | answer (query : Nat) (result : Bool)
  | run (mapKey : Int)
  | updateChannel (id : Nat)
  | tickManager (id : Nat)
deriving DecidableEq, Repr

namespace Players

/-- `Session::GetUser`, if the user is still there. -/
def GetUser (s : Players) (session : Nat) : Option Int :=
  ((s.server.created[session]?).bind asio.Session.user).filter (· ∈ s.server.userKeys)

def SetState (session : Nat) (state : ESessionState) (s : Players) : Players :=
  { s with states := update s.states session state }

/-- `LoginState::On_Read`. The query is asked in the background. -/
def loginOn_Read (session : Nat) (s : Players) : Option Players :=
  if s.charcode = -2147483648 then none
  else
    some { s with
      charcode := s.charcode - 1
      queries := s.queries ++ [⟨session, s.charcode - 1⟩] }

/-- `InGameState::On_Read`, which uses the character of the session's user. -/
def inGameOn_Read (session : Nat) (request : world.World.Request) (s : Players) : Option Players :=
  match s.GetUser session with
  | none => some s
  | some key =>
    match s.character key with
    | none => none
    | some code => do
      let w ← (s.now.On_Read code request).toOption
      some { s with now := w }

/-- `Session::On_Read` of the state that the session is in. -/
def On_Read (session : Nat) (packet : Packet) (s : Players) : Option Players :=
  match s.states session, packet with
  | .Login, .REQ_DUMMIY_CHARACTER => s.loginOn_Read session
  | .InGame, .inGame request => s.inGameOn_Read session request
  | _, _ => some s

/-- `User::LoadCharacterInfo`. The map is set before `Init`, so no event is called. A
character that the user had before is held by the events of its own. -/
def LoadCharacterInfo (key characterCode mapKey : Int) (s : Players) : Players :=
  { s with
    now := s.now.onCharacter characterCode fun _ => ⟨mapKey, 0, none, true, true⟩
    character := update s.character key (some characterCode)
    user := update s.user characterCode (some key) }

/-- The function that the answer to a query posts. -/
def load (mapKey : Int) (func : Load) (s : Players) : Players :=
  match s.GetUser func.session with
  | none => s
  | some key => (s.LoadCharacterInfo key func.code mapKey).SetState func.session .InGame

/-- The characters that refer to a user lose it, and their session with it. -/
def expireUser (key : Int) (s : Players) : Players :=
  { s with
    now := { s.now with
      characters := fun code =>
        if s.user code = some key then { s.now.characters code with session := false }
        else s.now.characters code } }

/-- `User::~User`. -/
def destroyUser (key : Int) (s : Players) : Option Players :=
  match s.character key with
  | none => some (s.expireUser key)
  | some code => do
    let w ← (s.now.destroyUser code).toOption
    some ({ s with now := w }.expireUser key)

/-- The answer to a query posts the function that loads the character. -/
def answer (query : Nat) (result : Bool) (s : Players) : Option Players :=
  match s.queries[query]? with
  | none => none
  | some func =>
    let s := { s with queries := s.queries.eraseIdx query }
    some (if result then { s with server := s.server.PostFuction (.other func) } else s)

/-- The next function of the strand. A user that its map loses is destroyed. -/
def run (mapKey : Int) (s : Players) : Option Players :=
  match s.server.strand with
  | [] => none
  | task :: rest => do
    let server ← (asio.Server.perform { s.server with strand := rest } task).toOption
    let t := { s with server }
    match task with
    | .other func => some (t.load mapKey func)
    | .EraseUser key => if key ∈ s.server.userKeys then t.destroyUser key else some t
    | .NewUser | .Close _ => some t

/-- The steps that are possible and follow no null or expired pointer. -/
def next (s : Players) : Event → Option Players
  | .accept => do
    let server ← s.server.next .accept
    some { s with server }
  | .read session packet => do
    let server ← s.server.read session 1
    { s with server }.On_Read session packet
  | .disconnect session => do
    let server ← s.server.read session 0
    some { s with server }
  | .answer query result => s.answer query result
  | .run mapKey => s.run mapKey
  | .updateChannel id => do
    let w ← (s.now.updateChannel id).toOption
    some { s with now := w }
  | .tickManager id => do
    let w ← (s.now.tickManager id).toOption
    some { s with now := w }

/-- No connection was accepted and no character loaded. -/
structure Start (s : Players) : Prop where
  server : s.server = .start
  states : ∀ session, s.states session = .Login
  charcode : s.charcode = 0
  queries : s.queries = []
  now : s.now.Start
  unloaded : ∀ key, s.character key = none ∧ s.user key = none

/-- A character is in some manager. -/
def Registered (s : Players) (code : Int) : Prop := ∃ id, s.now.InManager id code

end Players

end AsioGameServer.login

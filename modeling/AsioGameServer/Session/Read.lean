import AsioGameServer.Lib.WhileLoop
import AsioGameServer.Lib.Transition
import AsioGameServer.Packet

open ByteMemory

namespace AsioGameServer.session

/-- A range of byte offsets, given by its start and its length. -/
structure Extent where
  start : Nat
  length : Nat
deriving DecidableEq, Repr

/-- One call of `currentState->On_Read`, with the payload its pointer leads to. -/
structure OnRead where
  symbol : Nat
  payload : List UInt8
  size : Nat
deriving DecidableEq, Repr

/-- A `memcpy` out of the receive buffer made by a handler, with the number of
bytes received for the packet it handles. -/
structure Copy where
  range : Extent
  received : Nat
deriving DecidableEq, Repr

/-- What the read chain of a session does next: wait for `async_read_some`,
evaluate the guard of the drain loop, move what is behind the packet that was
handed over, or nothing any more. -/
inductive Phase where
  | reading | draining | moving | closed
deriving DecidableEq, Repr

/-- The fields of `Session` its read chain works on. `character` tells whether
the user and its character are present, and the two logs record what the
handlers were given and what they copied. `unread` is how many bytes at the
front of the buffer came from the socket and belong to no packet handed over. -/
structure ReadSide where
  recv_buffer : Memory
  com_recvSize : Nat
  currentState : ESessionState
  character : Bool
  phase : Phase
  calls : List OnRead
  copies : List Copy
  unread : Nat

/-- The part of the receive buffer `InGameState::On_Read` copies for a packet.
The payload pointer is offset 4 of the buffer. -/
def InGameState.copied (symbol : Nat) (character : Bool) (size : Nat) : Option Extent :=
  match Packet_Symbal.ofCode symbol with
  | some .REQ_DAMAGE => if character then some ⟨4, size⟩ else none
  | some .REQ_DAMAGE_VECTOR => if character then some ⟨4, size⟩ else none
  | some .PING_TEST => some ⟨4, size⟩
  | _ => none

namespace ReadSide

/-- `recv_buffer.packet.size`. -/
def packet_size (s : ReadSide) : Nat := read16 s.recv_buffer 0

/-- `recv_buffer.packet.symbol`. -/
def packet_symbol (s : ReadSide) : Nat := read16 s.recv_buffer 2

/-- The bytes the session believes it has buffered. -/
def buffered (s : ReadSide) : List UInt8 := read s.recv_buffer 0 s.com_recvSize

/-- The range of `recv_buffer` handed to `async_read_some`. -/
def target (s : ReadSide) : Extent := ⟨s.com_recvSize, BUFSIZE⟩

/-- The copy the handler of the packet at the front of the buffer makes.
`LoginState::On_Read` copies nothing. -/
def copied (s : ReadSide) : Option Extent :=
  match s.currentState with
  | .InGame => InGameState.copied s.packet_symbol s.character s.packet_size
  | _ => none

/-- How many bytes of the packet at the front of the buffer were received. -/
def packet_received (s : ReadSide) : Nat := min s.packet_size s.unread

/-- `currentState->On_Read(packet.symbol, &packet.buffer, packet.size)`. -/
def On_Read (s : ReadSide) : ReadSide :=
  { s with
    calls := s.calls ++ [⟨s.packet_symbol, read s.recv_buffer 4 (s.packet_size - 4), s.packet_size⟩]
    copies := s.copies ++ s.copied.toList.map (⟨·, s.packet_received⟩) }

/-- The socket stores `data` behind the bytes that are counted. Where the count
runs past the received bytes, a gap stays between them and `data`. -/
def async_read_some (s : ReadSide) (data : List UInt8) : ReadSide :=
  { s with
    recv_buffer := write s.recv_buffer s.com_recvSize data
    unread := if s.com_recvSize ≤ s.unread then s.com_recvSize + data.length else s.unread }

/-- `Session::RecvResult`; `com_recvSize` is an `unsigned short`. -/
def RecvResult (s : ReadSide) (length : Nat) : EResult × ReadSide :=
  let s := { s with com_recvSize := (s.com_recvSize + length) % 65536 }
  if s.com_recvSize < 2 then (.LOW, s)
  else if s.packet_size = s.com_recvSize then (.COMPLETE, s)
  else if s.packet_size > s.com_recvSize then (.LOW, s)
  else (.OVER, s)

/-- The read callback of `Session::do_read` up to the drain loop. The socket has
stored `data` behind the buffered bytes; a store that leaves the buffer is
undefined behaviour and has no result. An empty read closes the session. -/
def do_read (s : ReadSide) (data : List UInt8) : Option ReadSide :=
  if s.phase ≠ .reading then none
  else if data.length = 0 then some { s with phase := .closed }
  else if BUFSIZE < s.com_recvSize + data.length then none
  else
    match (s.async_read_some data).RecvResult data.length with
    | (.COMPLETE, s) => some { s.On_Read with com_recvSize := 0, unread := 0 }
    | (.OVER, s) => some { s with phase := .draining }
    | (_, s) => some s

/-- The guard of the drain loop, `com_recvSize > recv_buffer.packet.size`. -/
def drain_guard (s : ReadSide) : Prop := s.packet_size < s.com_recvSize

instance (s : ReadSide) : Decidable s.drain_guard := inferInstanceAs (Decidable (_ < _))

/-- The range of `recv_buffer` the `memmove` of the drain loop fills. -/
def destination (s : ReadSide) : Extent := ⟨0, s.com_recvSize - s.packet_size⟩

/-- The state behind the `memmove` of the drain loop. -/
def memmove (s : ReadSide) : ReadSide :=
  { s with
    recv_buffer := ByteMemory.memmove s.recv_buffer 0 s.packet_size (s.com_recvSize - s.packet_size)
    unread := min s.unread s.com_recvSize - s.packet_size }

/-- What follows `On_Read` in the body of the drain loop. The size that is
subtracted is read after the `memmove`, from the bytes that are then at the front
of the buffer. A `memmove` from behind the buffer is undefined behaviour and has
no result. -/
def move (s : ReadSide) : Option ReadSide :=
  if BUFSIZE < s.com_recvSize then none
  else
    let s := s.memmove
    some { s with com_recvSize := (s.com_recvSize + 65536 - s.packet_size) % 65536 }

/-- The body of the drain loop. -/
def drain_body (s : ReadSide) : Option ReadSide := s.On_Read.move

/-- A whole read callback: it returns in `t`, the drain loop included. -/
def Callback (s : ReadSide) (data : List UInt8) (t : ReadSide) : Prop :=
  ∃ u, s.do_read data = some u ∧
    (u.phase ≠ .draining ∧ t = u ∨
      u.phase = .draining ∧ ∃ v, WhileLoop.Exits drain_guard drain_body u v ∧
        t = { v with phase := .reading })

/-- Runs a read callback with at most `fuel` evaluations of the drain loop's guard. -/
def callback (fuel : Nat) (s : ReadSide) (data : List UInt8) : Option ReadSide :=
  (s.do_read data).bind fun u =>
    if u.phase = .draining then
      (WhileLoop.exec drain_guard drain_body fuel u).map fun v => { v with phase := .reading }
    else some u

/-- The steps other threads can observe: a read callback up to the drain loop,
one evaluation of the loop's guard with the `On_Read` it admits, the rest of that
iteration, a state change of the session, and the user's character appearing or
going away. -/
inductive Event where
  | read (data : List UInt8)
  | drain | move
  | SetState (state : ESessionState)
  | SetCharacter (present : Bool)
deriving DecidableEq, Repr

/-- `Session::SetState`; there is no case for `ESessionState::None`. -/
def SetState (s : ReadSide) : ESessionState → ReadSide
  | .Login => { s with currentState := .Login }
  | .InGame => { s with currentState := .InGame }
  | .None => s

def step (s : ReadSide) : Event → Option ReadSide
  | .read data => s.do_read data
  | .drain =>
    if s.phase ≠ .draining then none
    else if s.drain_guard then some { s.On_Read with phase := .moving }
    else some { s with phase := .reading }
  | .move => if s.phase ≠ .moving then none else s.move.map ({ · with phase := .draining })
  | .SetState state => some (s.SetState state)
  | .SetCharacter present => some { s with character := present }

/-- The bytes the socket delivered along a sequence of events. -/
def received (events : List Event) : List UInt8 :=
  events.flatMap fun
    | .read data => data
    | _ => []

/-- `Session::Init`, whatever the buffer of the new session holds. -/
def Init (recv_buffer : Memory) : ReadSide :=
  ⟨recv_buffer, 0, .Login, false, .reading, [], [], 0⟩

/-- A session that has just started to read. -/
structure Fresh (s : ReadSide) : Prop where
  empty : s.com_recvSize = 0
  login : s.currentState = .Login
  reading : s.phase = .reading
  no_calls : s.calls = []
  no_copies : s.copies = []

/-- A session that was just made has received nothing. -/
theorem fresh_Init (recv_buffer : Memory) : (Init recv_buffer).Fresh := ⟨rfl, rfl, rfl, rfl, rfl⟩

variable {s t t' : ReadSide} {data : List UInt8}

/-- An execution with enough fuel is a callback in the sense of the loop's rules. -/
theorem callback_of_exec {fuel : Nat} (h : callback fuel s data = some t) : Callback s data t := by
  rw [callback, Option.bind_eq_some_iff] at h
  obtain ⟨u, hread, h⟩ := h
  refine ⟨u, hread, ?_⟩
  by_cases hphase : u.phase = .draining
  · rw [if_pos hphase, Option.map_eq_some_iff] at h
    obtain ⟨v, hexec, rfl⟩ := h
    exact Or.inr ⟨hphase, v, WhileLoop.exits_of_exec hexec, rfl⟩
  · rw [if_neg hphase] at h
    exact Or.inl ⟨hphase, (Option.some.inj h).symm⟩

/-- A read callback has at most one outcome. -/
theorem Callback.unique (h : Callback s data t) (h' : Callback s data t') : t = t' := by
  obtain ⟨u, hread, hcase⟩ := h
  obtain ⟨u', hread', hcase'⟩ := h'
  obtain rfl : u = u' := Option.some.inj (hread.symm.trans hread')
  rcases hcase with ⟨hphase, rfl⟩ | ⟨hphase, v, hexit, rfl⟩
  · rcases hcase' with ⟨_, rfl⟩ | ⟨hdraining, _⟩
    · rfl
    · exact absurd hdraining hphase
  · rcases hcase' with ⟨hwaiting, _⟩ | ⟨_, v', hexit', rfl⟩
    · exact absurd hphase hwaiting
    · rw [hexit.unique hexit']

/-- As many bytes are buffered as the session counts. -/
@[simp] theorem length_buffered : s.buffered.length = s.com_recvSize := length_read

/-- What was received over two runs. -/
theorem received_append (past future : List Event) :
    received (past ++ future) = received past ++ received future :=
  List.flatMap_append

/-- One read receives its own data. -/
@[simp] theorem received_read (data : List UInt8) : received [.read data] = data := by
  simp [received]

/-- The size of a packet is 16 bits wide. -/
theorem packet_size_lt : s.packet_size < 65536 := read16_lt

/-- The state with a read stored behind the buffered bytes and counted. -/
def store (s : ReadSide) (data : List UInt8) : ReadSide :=
  { s.async_read_some data with com_recvSize := s.com_recvSize + data.length }

/-- A read puts its data behind what is buffered. -/
@[simp] theorem buffered_store : (s.store data).buffered = s.buffered ++ data :=
  read_write_append

/-- `RecvResult` counts what was stored, and compares the count with the size field. -/
theorem RecvResult_store (hfit : s.com_recvSize + data.length ≤ BUFSIZE) :
    (s.async_read_some data).RecvResult data.length =
      (if (s.store data).com_recvSize < 2 then .LOW
        else if (s.store data).packet_size = (s.store data).com_recvSize then .COMPLETE
        else if (s.store data).packet_size > (s.store data).com_recvSize then .LOW
        else .OVER, s.store data) := by
  have hcount : ((s.async_read_some data).com_recvSize + data.length) % 65536 = (s.store data).com_recvSize := by
    change (s.com_recvSize + data.length) % 65536 = s.com_recvSize + data.length
    simp only [BUFSIZE] at hfit
    omega
  have hstore : { s.async_read_some data with com_recvSize := (s.store data).com_recvSize } = s.store data := rfl
  simp only [RecvResult, hcount, hstore]
  split_ifs <;> rfl

/-- What a non-empty read that fits the buffer does, case by case of `RecvResult`. -/
theorem do_read_eq (hphase : s.phase = .reading) (hne : data ≠ [])
    (hfit : s.com_recvSize + data.length ≤ BUFSIZE) :
    s.do_read data = some (
      if (s.store data).com_recvSize < 2 then s.store data
      else if (s.store data).packet_size = (s.store data).com_recvSize then
        { (s.store data).On_Read with com_recvSize := 0, unread := 0 }
      else if (s.store data).packet_size > (s.store data).com_recvSize then s.store data
      else { s.store data with phase := .draining }) := by
  have hlen : data.length ≠ 0 := by simpa using hne
  simp only [do_read, RecvResult_store hfit, hphase, ne_eq, not_true_eq_false, if_false, hlen,
    show ¬ BUFSIZE < s.com_recvSize + data.length by omega]
  split_ifs <;> rfl

/-- Only a waiting session reads, and what it reads is empty or fits the buffer. -/
theorem do_read_enabled {t : ReadSide} (h : s.do_read data = some t) :
    s.phase = .reading ∧ (data = [] ∧ t = { s with phase := .closed } ∨
      data ≠ [] ∧ s.com_recvSize + data.length ≤ BUFSIZE) := by
  unfold do_read at h
  split at h
  · cases h
  · rename_i hphase
    refine ⟨by simpa using hphase, ?_⟩
    split at h
    · rename_i hlen
      exact Or.inl ⟨by simpa using hlen, (Option.some.inj h).symm⟩
    · rename_i hlen
      refine Or.inr ⟨by simpa using hlen, ?_⟩
      split at h
      · cases h
      · omega

/-- The state behind one iteration of the drain loop. -/
def drained (s : ReadSide) : ReadSide :=
  { s.On_Read.memmove with
    com_recvSize := (s.com_recvSize + 65536 - s.memmove.packet_size) % 65536 }

/-- The count after an iteration, which is 16 bits wide and wraps where the packet is longer than
what was received. -/
@[simp] theorem drained_com_recvSize :
    s.drained.com_recvSize = (s.com_recvSize + 65536 - s.memmove.packet_size) % 65536 := rfl

/-- The bytes after an iteration are those that `memmove` leaves. -/
@[simp] theorem drained_recv_buffer : s.drained.recv_buffer = s.memmove.recv_buffer := rfl

/-- The size of the next packet is read once the bytes have moved. -/
@[simp] theorem drained_packet_size : s.drained.packet_size = s.memmove.packet_size := by
  rw [packet_size, packet_size, drained_recv_buffer]

/-- The iteration calls the handler once, before the bytes move. -/
@[simp] theorem drained_calls : s.drained.calls = s.On_Read.calls := rfl

/-- The loop goes on until its guard fails. -/
@[simp] theorem drained_phase : s.drained.phase = s.phase := rfl

/-- The body of the drain loop on a count that stays inside the buffer. -/
theorem drain_body_eq (hfit : s.com_recvSize ≤ BUFSIZE) : s.drain_body = some s.drained := by
  have hcount : s.On_Read.com_recvSize = s.com_recvSize := rfl
  simp only [drain_body, move, hcount, show ¬ BUFSIZE < s.com_recvSize by omega, if_false]
  rfl

/-- `memmove` has a result only where the session counts no more bytes than the buffer has. -/
theorem move_fits {t : ReadSide} (h : s.move = some t) : s.com_recvSize ≤ BUFSIZE := by
  unfold move at h
  split at h
  · cases h
  · omega

/-- The same for a whole iteration. -/
theorem drain_body_fits {t : ReadSide} (h : s.drain_body = some t) : s.com_recvSize ≤ BUFSIZE :=
  move_fits (s := s.On_Read) h

/-- The two steps of an iteration, one after the other, are the body of the loop. -/
theorem step_drain_move (hphase : s.phase = .draining) (hguard : s.drain_guard) :
    (s.step .drain).bind (step · .move) = s.drain_body := by
  have hdrain : s.step .drain = some { s.On_Read with phase := .moving } := by
    simp [step, hphase, hguard]
  have hcount : s.On_Read.com_recvSize = s.com_recvSize := rfl
  rw [hdrain, Option.bind_some]
  simp only [step, ne_eq, not_true_eq_false, if_false, move, drain_body, hcount]
  split
  · rfl
  · rw [Option.map_some, ← hphase]
    rfl

end ReadSide

end AsioGameServer.session

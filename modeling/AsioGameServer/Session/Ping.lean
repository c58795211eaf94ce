import AsioGameServer.Session.Read
import AsioGameServer.Session.Write

open ByteMemory Transition

namespace AsioGameServer.session

/-- The packet at the front of the buffer, if `InGameState::On_Read` takes it for a
`PING_TEST`. -/
def ReadSide.ping (s : ReadSide) : Option OnRead :=
  if s.currentState = .InGame ∧ Packet_Symbal.ofCode s.packet_symbol = some .PING_TEST then
    some ⟨s.packet_symbol, read s.recv_buffer 4 (s.packet_size - 4), s.packet_size⟩
  else none

/-- Where the read callback is: between two packets, in the drain loop after `On_Read`, or
after the `memmove`. -/
inductive Point where
  | between | handled | moved
deriving DecidableEq, Repr

/-- A session whose clients send `PING_TEST`. `tasks` are the calls of `PushSend` that wait on
the strand, with the packets they are for. The task of a call has the pointer
`recv_buffer.packet.buffer`, and the size of the packet. `pings` and `enqueued` record the
packets, and what the tasks put into `send_buffers`. -/
structure PingSide where
  side : ReadSide
  point : Point
  tasks : List OnRead
  pings : List OnRead
  enqueued : List (OnRead × SendBuffer)

namespace PingSide

def start (side : ReadSide) : PingSide := ⟨side, .between, [], [], []⟩

/-- `currentState->On_Read`. In the case `PING_TEST` it posts
`PushSend(PS::PING_TEST, recv_data, size)`. -/
def On_Read (s : PingSide) : PingSide :=
  { s with
    side := s.side.On_Read
    tasks := s.tasks ++ s.side.ping.toList
    pings := s.pings ++ s.side.ping.toList }

/-- The read callback up to the drain loop, as in `ReadSide.do_read`. -/
def do_read (s : PingSide) (data : List UInt8) : Option PingSide :=
  if s.point ≠ .between ∨ s.side.phase ≠ .reading then none
  else if data.length = 0 then some { s with side := { s.side with phase := .closed } }
  else if BUFSIZE < s.side.com_recvSize + data.length then none
  else
    match (s.side.async_read_some data).RecvResult data.length with
    | (.COMPLETE, side) =>
      let s := { s with side }.On_Read
      some { s with side := { s.side with com_recvSize := 0, unread := 0 } }
    | (.OVER, side) => some { s with side := { side with phase := .draining } }
    | (_, side) => some { s with side }

/-- The guard of the drain loop, and `On_Read` where it holds. -/
def guard (s : PingSide) : Option PingSide :=
  if s.point ≠ .between ∨ s.side.phase ≠ .draining then none
  else if s.side.drain_guard then some { s.On_Read with point := .handled }
  else some { s with side := { s.side with phase := .reading } }

/-- The `memmove` of the drain loop. -/
def memmove (s : PingSide) : Option PingSide :=
  if s.point ≠ .handled ∨ BUFSIZE < s.side.com_recvSize then none
  else some { s with side := s.side.memmove, point := .moved }

/-- `com_recvSize -= recv_buffer.packet.size`. -/
def subtract (s : PingSide) : Option PingSide :=
  if s.point ≠ .moved then none
  else some { s with
    side := { s.side with com_recvSize := (s.side.com_recvSize + 65536 - s.side.packet_size) % 65536 }
    point := .between }

/-- The strand runs the first task: a `SendBuffer` is built from the bytes that are behind the
pointer now. More than `data_buffer` holds has no result. -/
def run (s : PingSide) : Option PingSide :=
  match s.tasks with
  | [] => none
  | packet :: tasks =>
    if h : packet.size ≤ BUFSIZE then
      let sb : SendBuffer := {
        symbol := UInt16.ofNat Packet_Symbal.PING_TEST.code
        data_buffer := read s.side.recv_buffer 4 packet.size
        fits := by simpa using h }
      some { s with tasks, enqueued := s.enqueued ++ [(packet, sb)] }
    else none

/-- The statements of the read callback, the strand, and what else changes a session. -/
inductive Event where
  | read (data : List UInt8)
  | guard | memmove | subtract
  | run
  | SetState (state : ESessionState)
  | SetCharacter (present : Bool)
deriving DecidableEq, Repr

def next (s : PingSide) : Event → Option PingSide
  | .read data => s.do_read data
  | .guard => s.guard
  | .memmove => s.memmove
  | .subtract => s.subtract
  | .run => s.run
  | .SetState state => some { s with side := s.side.SetState state }
  | .SetCharacter present => some { s with side := { s.side with character := present } }

variable {s t : PingSide} {side : ReadSide} {data : List UInt8} {events : List Event}

section Refinement

/-- The read callback is that of the session's read chain. -/
theorem side_do_read (hbetween : s.point = .between) : (s.do_read data).map PingSide.side = s.side.do_read data := by
  unfold do_read ReadSide.do_read
  by_cases hphase : s.side.phase = .reading
  · simp only [hbetween, hphase, ne_eq, not_true_eq_false, or_self, if_false]
    split
    · rfl
    · split
      · rfl
      · generalize ReadSide.RecvResult _ data.length = result
        obtain ⟨retval, side⟩ := result
        cases retval <;> rfl
  · simp [hphase]

/-- The statements of the drain loop, one after the other, are an iteration of it. -/
theorem side_drain (hbetween : s.point = .between) (hphase : s.side.phase = .draining) (hguard : s.side.drain_guard) :
    ((s.guard.bind memmove).bind subtract).map PingSide.side = s.side.drain_body := by
  have hhandled : s.guard = some { s.On_Read with point := .handled } := by
    simp [guard, hbetween, hphase, hguard]
  have hcount : s.On_Read.side.com_recvSize = s.side.com_recvSize := rfl
  have hcount' : s.side.On_Read.com_recvSize = s.side.com_recvSize := rfl
  rw [hhandled, Option.bind_some, memmove, ReadSide.drain_body, ReadSide.move]
  by_cases hfit : BUFSIZE < s.side.com_recvSize
  · simp [hcount, hcount', hfit]
  · simp only [hcount, hcount', hfit, ne_eq, not_true_eq_false, or_self, if_false, Option.bind_some, subtract,
      Option.map_some]
    rfl

end Refinement

/-- The buffer is the packet again: its symbol, its payload and its size. -/
structure Echoes (packet : OnRead) (sb : SendBuffer) : Prop where
  symbol : sb.symbol.toNat = Packet_Symbal.PING_TEST.code
  payload : sb.data_buffer = packet.payload
  size : sb.size = packet.size

/-- Every packet has a task that waits, or something in `send_buffers`, in this order, where
the header is counted twice. -/
structure Pushed (s : PingSide) : Prop where
  pings : s.pings = s.enqueued.map Prod.fst ++ s.tasks
  symbol : ∀ entry ∈ s.enqueued, entry.2.symbol.toNat = Packet_Symbal.PING_TEST.code
  size : ∀ entry ∈ s.enqueued, entry.2.size = entry.1.size + 4

theorem Pushed.of_side (h : s.Pushed) (side : ReadSide) (point : Point) : Pushed { s with side, point } :=
  ⟨h.pings, h.symbol, h.size⟩

theorem Pushed.On_Read (h : s.Pushed) : s.On_Read.Pushed := by
  refine ⟨?_, h.symbol, h.size⟩
  change s.pings ++ s.side.ping.toList = s.enqueued.map Prod.fst ++ (s.tasks ++ s.side.ping.toList)
  rw [h.pings, List.append_assoc]

theorem Pushed.do_read (h : s.Pushed) (hread : s.do_read data = some t) : t.Pushed := by
  unfold PingSide.do_read at hread
  split at hread
  · cases hread
  · split at hread
    · cases hread
      exact h.of_side _ _
    · split at hread
      · cases hread
      · dsimp only at hread
        split at hread <;> cases hread
        · exact (h.of_side _ s.point).On_Read.of_side _ _
        · exact h.of_side _ _
        · exact h.of_side _ _

theorem Pushed.run (h : s.Pushed) (hrun : s.run = some t) : t.Pushed := by
  unfold PingSide.run at hrun
  split at hrun
  · cases hrun
  · rename_i packet tasks htasks
    split at hrun
    · cases hrun
      refine ⟨?_, fun entry hentry => ?_, fun entry hentry => ?_⟩
      · have hpings := h.pings
        rw [htasks] at hpings
        simpa using hpings
      · obtain hold | hnew := List.mem_append.mp hentry
        · exact h.symbol entry hold
        · rw [List.mem_singleton.mp hnew]
          rfl
      · obtain hold | hnew := List.mem_append.mp hentry
        · exact h.size entry hold
        · rw [List.mem_singleton.mp hnew]
          simp [SendBuffer.size]
    · cases hrun

theorem Pushed.next {event : Event} (h : s.Pushed) (hnext : s.next event = some t) : t.Pushed := by
  cases event with
  | read data => exact h.do_read hnext
  | guard =>
    simp only [PingSide.next, PingSide.guard] at hnext
    split at hnext
    · cases hnext
    · split at hnext <;> cases hnext
      · exact h.On_Read.of_side _ _
      · exact h.of_side _ _
  | memmove =>
    simp only [PingSide.next, PingSide.memmove] at hnext
    split at hnext <;> cases hnext
    exact h.of_side _ _
  | subtract =>
    simp only [PingSide.next, PingSide.subtract] at hnext
    split at hnext <;> cases hnext
    exact h.of_side _ _
  | run => exact h.run hnext
  | SetState _ | SetCharacter _ =>
    cases hnext
    exact h.of_side _ _

theorem pushed_of_run (hrun : Run (OfOption next) (start side) events s) : s.Pushed :=
  hrun.invariant ⟨rfl, by simp [start], by simp [start]⟩ fun _ _ _ h hnext => h.next hnext

theorem Pushed.not_echoes (h : s.Pushed) : ∀ entry ∈ s.enqueued, ¬ Echoes entry.1 entry.2 := by
  intro entry hentry hechoes
  have hsize := h.size entry hentry
  rw [hechoes.size] at hsize
  omega

/-- No ping is echoed, whenever its task runs: each one that `InGameState` gets is answered in
turn, with a packet that is four bytes too long. A task of a packet that the buffer can hold
always runs. -/
theorem ping_not_echoed (hrun : Run (OfOption next) (start side) events s) :
    s.pings = s.enqueued.map Prod.fst ++ s.tasks ∧
      (∀ packet tasks, s.tasks = packet :: tasks → packet.size ≤ BUFSIZE → ∃ t sb, s.next .run = some t ∧
        t.enqueued = s.enqueued ++ [(packet, sb)]) ∧
      ∀ entry ∈ s.enqueued, ¬ Echoes entry.1 entry.2 ∧ entry.2.symbol.toNat = Packet_Symbal.PING_TEST.code ∧
        entry.2.data_buffer.length = entry.1.size ∧ entry.2.size = entry.1.size + 4 := by
  have hpushed := pushed_of_run hrun
  refine ⟨hpushed.pings, fun packet tasks htasks hfits => ?_, fun entry hentry => ?_⟩
  · simp only [PingSide.next, PingSide.run, htasks, hfits, dif_pos]
    exact ⟨_, _, rfl, rfl⟩
  · have hsize := hpushed.size entry hentry
    refine ⟨hpushed.not_echoes entry hentry, hpushed.symbol entry hentry, ?_, hsize⟩
    unfold SendBuffer.size at hsize
    omega

section Payload

/-- A task that runs before the buffer changes has the payload, and four bytes from behind the
packet. -/
theorem run_payload (hsize : 4 ≤ s.side.packet_size) (hfits : s.side.packet_size ≤ BUFSIZE)
    (hempty : s.tasks = []) {packet : OnRead} (hping : s.side.ping = some packet) :
    ∃ t sb, s.On_Read.run = some t ∧ t.enqueued = s.enqueued ++ [(packet, sb)] ∧
      sb.data_buffer = packet.payload ++ read s.side.recv_buffer s.side.packet_size 4 := by
  have hpacket : packet = ⟨s.side.packet_symbol, read s.side.recv_buffer 4 (s.side.packet_size - 4),
      s.side.packet_size⟩ := by
    obtain ⟨_, heq⟩ := Option.ite_none_right_eq_some.mp hping
    exact (Option.some.inj heq).symm
  have htasks : s.On_Read.tasks = [packet] := by simp [On_Read, hempty, hping]
  have hsame : packet.size = s.side.packet_size := by rw [hpacket]
  have hfits' : packet.size ≤ BUFSIZE := hsame ▸ hfits
  simp only [run, htasks, hfits', dif_pos]
  refine ⟨_, _, rfl, rfl, ?_⟩
  change read s.side.recv_buffer 4 packet.size = _
  have hsplit : packet.size = s.side.packet_size - 4 + 4 := by omega
  rw [hsplit, read_add, hpacket]
  congr 2
  omega

end Payload

section Example

/-- A session of a player whose buffer is empty. -/
def player : ReadSide := ⟨fun _ => 0, 0, .InGame, true, .reading, [], [], 0⟩

/-- A ping with one byte. -/
theorem ping_not_echoed_player :
    ∃ s, Run (OfOption next) (start player) [.read [5, 0, 7, 0, 42], .run] s ∧
      s.enqueued.map Prod.fst = [⟨7, [42], 5⟩] ∧ ∀ entry ∈ s.enqueued, ¬ Echoes entry.1 entry.2 := by
  have hrun : ∃ s, Run (OfOption next) (start player) [.read [5, 0, 7, 0, 42], .run] s ∧
      s.enqueued.map Prod.fst = [⟨7, [42], 5⟩] := by
    simp only [run_ofOption_iff]
    exact ⟨_, rfl, rfl⟩
  obtain ⟨s, hrun, hpackets⟩ := hrun
  exact ⟨s, hrun, hpackets, fun entry hentry => ((ping_not_echoed hrun).2.2 entry hentry).1⟩

/-- Of two pings in one read the first is answered with the second, where its task runs after
the `memmove`. -/
theorem not_ping_echoed :
    (∃ s, Run (OfOption next) (start player) [.read [5, 0, 7, 0, 42], .run] s ∧
      s.enqueued.map (fun entry => (entry.1, entry.2.size, entry.2.data_buffer)) =
        [(⟨7, [42], 5⟩, 9, [42, 0, 0, 0, 0])] ∧ ∀ entry ∈ s.enqueued, ¬ Echoes entry.1 entry.2) ∧
      ∃ s, Run (OfOption next) (start player) [.read [5, 0, 7, 0, 42, 6, 0, 7, 0, 8, 9], .guard, .memmove, .run] s ∧
        s.enqueued.map (fun entry => (entry.1, entry.2.size, entry.2.data_buffer)) =
          [(⟨7, [42], 5⟩, 9, [8, 9, 0, 7, 0])] ∧ ∀ entry ∈ s.enqueued, ¬ Echoes entry.1 entry.2 := by
  have halone : ∃ s, Run (OfOption next) (start player) [.read [5, 0, 7, 0, 42], .run] s ∧
      s.enqueued.map (fun entry => (entry.1, entry.2.size, entry.2.data_buffer)) =
        [(⟨7, [42], 5⟩, 9, [42, 0, 0, 0, 0])] := by
    simp only [run_ofOption_iff]
    exact ⟨_, rfl, by decide⟩
  have htogether : ∃ s, Run (OfOption next) (start player)
      [.read [5, 0, 7, 0, 42, 6, 0, 7, 0, 8, 9], .guard, .memmove, .run] s ∧
      s.enqueued.map (fun entry => (entry.1, entry.2.size, entry.2.data_buffer)) =
        [(⟨7, [42], 5⟩, 9, [8, 9, 0, 7, 0])] := by
    simp only [run_ofOption_iff]
    exact ⟨_, rfl, by decide⟩
  obtain ⟨s, hrun, hsent⟩ := halone
  obtain ⟨t, hrun', hsent'⟩ := htogether
  exact ⟨⟨s, hrun, hsent, (pushed_of_run hrun).not_echoes⟩, t, hrun', hsent', (pushed_of_run hrun').not_echoes⟩

end Example

end PingSide

end AsioGameServer.session

import AsioGameServer.Lib.Transition
import AsioGameServer.Packet

open ByteMemory

namespace AsioGameServer.session

/-- A `SendBuffer`. Its payload fits `data_buffer`, so the `unsigned short` size
field does not wrap. -/
structure SendBuffer where
  symbol : UInt16
  data_buffer : List UInt8
  fits : data_buffer.length ≤ BUFSIZE
deriving DecidableEq, Repr

/-- `buffer.packet.size`, the header included. -/
def SendBuffer.size (sb : SendBuffer) : Nat := sb.data_buffer.length + 4

/-- The bytes from `start_pointer` on that belong to the packet. -/
def SendBuffer.bytes (sb : SendBuffer) : List UInt8 :=
  bytes16 sb.size ++ bytes16 sb.symbol.toNat ++ sb.data_buffer

/-- A buffer is sent with its header: as many bytes as its size says. -/
@[simp] theorem SendBuffer.length_bytes (sb : SendBuffer) : sb.bytes.length = sb.size := by
  simp only [bytes, size, List.length_append, length_bytes16]
  omega

/-- The header alone has four bytes. -/
theorem SendBuffer.four_le_size (sb : SendBuffer) : 4 ≤ sb.size := by simp [size]

/-- An element of `send_buffers`, or its copy in a write: a buffer and how much
of it is complete. `id` counts the `PushSend` call it stems from. -/
structure Outgoing where
  id : Nat
  sb : SendBuffer
  complete : Nat
deriving DecidableEq, Repr

/-- How many bytes a write of this element asks for. -/
def Outgoing.requested (o : Outgoing) : Nat := o.sb.size - o.complete

/-- The bytes that are still to be sent. -/
def Outgoing.rest (o : Outgoing) : List UInt8 := o.sb.bytes.drop o.complete

/-- The element after `length` more of its bytes. -/
def Outgoing.advance (o : Outgoing) (length : Nat) : Outgoing :=
  { o with complete := o.complete + length }

/-- Progress leaves alone which push a buffer came from. -/
@[simp] theorem Outgoing.advance_id (o : Outgoing) (length : Nat) : (o.advance length).id = o.id := rfl

/-- Progress leaves the bytes of a buffer alone. -/
@[simp] theorem Outgoing.advance_sb (o : Outgoing) (length : Nat) : (o.advance length).sb = o.sb := rfl

/-- Progress adds up. -/
@[simp] theorem Outgoing.advance_complete (o : Outgoing) (length : Nat) :
    (o.advance length).complete = o.complete + length := rfl

/-- A task posted to the session's strand. -/
inductive Task where
  | push_send (id : Nat) (sb : Option SendBuffer)
  | push_rest (rest : Outgoing)
  | do_write
deriving DecidableEq, Repr

/-- A completion handler of a write that has to run, or that has posted the
remainder of its buffer and has yet to call `do_write`. -/
inductive Handler where
  | written (o : Outgoing) (length : Nat)
  | reposted
deriving DecidableEq, Repr

/-- A range of bytes of a pushed buffer that a write transmitted. -/
structure Span where
  id : Nat
  start : Nat
  stop : Nat
deriving DecidableEq, Repr

/-- The write chain of a session: the strand's task queue, `send_buffers`, the
writes started and not yet transmitted, in the order they were started, and the
handlers of the others. The last three fields record the bytes put on the wire,
the ranges they came from and the arguments of `PushSend`. -/
structure WriteSide where
  strand : List Task
  send_buffers : List Outgoing
  sending : List Outgoing
  handlers : List Handler
  wire : List UInt8
  spans : List Span
  pushed : List (Option SendBuffer)

namespace WriteSide

/-- A session that has sent nothing. -/
def Init : WriteSide := ⟨[], [], [], [], [], [], []⟩

/-- A task comes last on the strand. -/
def post (s : WriteSide) (task : Task) : WriteSide := { s with strand := s.strand ++ [task] }

/-- `Session::do_write` posts one attempt to start a write. -/
def do_write (s : WriteSide) : WriteSide := s.post .do_write

/-- `Session::PushSend`. The overloads that build the buffer in the task push the
buffer they build. -/
def PushSend (s : WriteSide) (sb : Option SendBuffer) : WriteSide :=
  { s.post (.push_send s.pushed.length sb) with pushed := s.pushed ++ [sb] }

/-- `Session::SendResult`, with the element whose `current_complete_length` it
updates. -/
def SendResult (o : Outgoing) (length : Nat) : EResult × Outgoing :=
  let o := o.advance length
  if o.complete < 2 then (.LOW, o)
  else if o.sb.size = o.complete then (.COMPLETE, o)
  else (.LOW, o)

/-- What a task does when the strand runs it. -/
def execute (s : WriteSide) : Task → WriteSide
  | .push_send _ none => s
  | .push_send id (some sb) => do_write { s with send_buffers := s.send_buffers ++ [⟨id, sb, 0⟩] }
  | .push_rest rest => { s with send_buffers := s.send_buffers ++ [rest] }
  | .do_write =>
    match s.send_buffers with
    | [] => s
    | o :: queue => { s with send_buffers := queue, sending := s.sending ++ [o] }

/-- The completion handler of a write, up to its call of `do_write` where it has
posted a remainder before. -/
def complete (s : WriteSide) (i : Nat) (o : Outgoing) (length : Nat) : WriteSide :=
  let (retval, o) := SendResult o length
  if length = 0 then { s with handlers := s.handlers.eraseIdx i }
  else match retval with
    | .LOW => post { s with handlers := s.handlers.set i .reposted } (.push_rest o)
    | .COMPLETE => do_write { s with handlers := s.handlers.eraseIdx i }
    | _ => { s with handlers := s.handlers.eraseIdx i }

/-- The steps that interleave: a call of `PushSend`, the strand running its first
task, the socket transmitting a part of the oldest write, the handler of a write
running, and a handler that has posted a remainder calling `do_write`. -/
inductive Event where
  | PushSend (sb : Option SendBuffer)
  | run
  | transmit (length : Nat)
  | complete (i : Nat)
  | resume (i : Nat)
deriving DecidableEq, Repr

def step (s : WriteSide) : Event → Option WriteSide
  | .PushSend sb => some (s.PushSend sb)
  | .run =>
    match s.strand with
    | [] => none
    | task :: strand => some (execute { s with strand } task)
  | .transmit length =>
    match s.sending with
    | [] => none
    | o :: sending =>
      if length ≤ o.requested then
        some { s with
          sending
          handlers := s.handlers ++ [.written o length]
          wire := s.wire ++ o.rest.take length
          spans := s.spans ++ [⟨o.id, o.complete, o.complete + length⟩] }
      else none
  | .complete i =>
    match s.handlers[i]? with
    | some (.written o length) => some (s.complete i o length)
    | _ => none
  | .resume i =>
    match s.handlers[i]? with
    | some .reposted => some (do_write { s with handlers := s.handlers.eraseIdx i })
    | _ => none

/-- Every write transfers at least one byte. -/
def Transfers (_ : WriteSide) : Event → Prop
  | .transmit length => 1 ≤ length
  | _ => True

instance (s : WriteSide) : (e : Event) → Decidable (s.Transfers e)
  | .transmit length => inferInstanceAs (Decidable (1 ≤ length))
  | .PushSend _ | .run | .complete _ | .resume _ => inferInstanceAs (Decidable True)

/-- The bytes of the buffers pushed so far, in the order of the `PushSend` calls. -/
def stream (s : WriteSide) : List UInt8 := s.pushed.reduceOption.flatMap SendBuffer.bytes

/-- The ranges written from the buffer of one `PushSend` call, in order. -/
def spansOf (s : WriteSide) (id : Nat) : List (Nat × Nat) :=
  (s.spans.filter (·.id = id)).map fun span => (span.start, span.stop)

/-- A buffer has at least the four bytes of its header, so a count below two is
never all of it. -/
theorem SendResult_eq (o : Outgoing) (length : Nat) :
    SendResult o length =
      (if o.complete + length = o.sb.size then .COMPLETE else .LOW, o.advance length) := by
  have hfour := o.sb.four_le_size
  simp only [SendResult]
  by_cases hall : o.complete + length = o.sb.size
  · have hlong : ¬ (o.advance length).complete < 2 := by
      simp only [Outgoing.advance_complete]
      omega
    have hcomplete : (o.advance length).sb.size = (o.advance length).complete := hall.symm
    rw [if_neg hlong, if_pos hcomplete, if_pos hall]
  · have hless : ¬ (o.advance length).sb.size = (o.advance length).complete := Ne.symm hall
    rw [if_neg hless, ite_self, if_neg hall]

/-- What a step does, branch by branch. -/
inductive Moves (s : WriteSide) : Event → WriteSide → Prop where
  | push (sb : Option SendBuffer) :
      Moves s (.PushSend sb)
        { s with strand := s.strand ++ [.push_send s.pushed.length sb], pushed := s.pushed ++ [sb] }
  | run_null {id strand} (hhead : s.strand = .push_send id none :: strand) :
      Moves s .run { s with strand }
  | run_push {id sb strand} (hhead : s.strand = .push_send id (some sb) :: strand) :
      Moves s .run
        { s with strand := strand ++ [.do_write], send_buffers := s.send_buffers ++ [⟨id, sb, 0⟩] }
  | run_rest {rest strand} (hhead : s.strand = .push_rest rest :: strand) :
      Moves s .run { s with strand, send_buffers := s.send_buffers ++ [rest] }
  | run_idle {strand} (hhead : s.strand = .do_write :: strand) (hempty : s.send_buffers = []) :
      Moves s .run { s with strand }
  | run_start {strand o queue} (hhead : s.strand = .do_write :: strand)
      (hfront : s.send_buffers = o :: queue) :
      Moves s .run { s with strand, send_buffers := queue, sending := s.sending ++ [o] }
  | transmit {o sending length} (holdest : s.sending = o :: sending) (hlength : length ≤ o.requested) :
      Moves s (.transmit length)
        { s with
          sending
          handlers := s.handlers ++ [.written o length]
          wire := s.wire ++ o.rest.take length
          spans := s.spans ++ [⟨o.id, o.complete, o.complete + length⟩] }
  | failed {i o before after} (hhandler : s.handlers = before ++ .written o 0 :: after) :
      Moves s (.complete i) { s with handlers := before ++ after }
  | low {i o length before after} (hhandler : s.handlers = before ++ .written o length :: after)
      (hlength : length ≠ 0) (hrest : o.complete + length ≠ o.sb.size) :
      Moves s (.complete i)
        { s with
          handlers := before ++ .reposted :: after
          strand := s.strand ++ [.push_rest (o.advance length)] }
  | finished {i o length before after} (hhandler : s.handlers = before ++ .written o length :: after)
      (hlength : length ≠ 0) (hall : o.complete + length = o.sb.size) :
      Moves s (.complete i)
        { s with handlers := before ++ after, strand := s.strand ++ [.do_write] }
  | resume {i before after} (hhandler : s.handlers = before ++ .reposted :: after) :
      Moves s (.resume i) { s with handlers := before ++ after, strand := s.strand ++ [.do_write] }

variable {s t : WriteSide} {e : Event}

/-- What the completion of a write does, as one of the moves. -/
theorem moves_of_complete {i length : Nat} {o : Outgoing}
    (hget : s.handlers[i]? = some (.written o length)) :
    Moves s (.complete i) (s.complete i o length) := by
  obtain ⟨before, after, hsplit, herase, hset⟩ := Transition.split_of_getElem? hget
  simp only [complete, SendResult_eq, herase, hset]
  by_cases hzero : length = 0
  · subst hzero
    exact .failed hsplit
  · rw [if_neg hzero]
    by_cases hall : o.complete + length = o.sb.size
    · simp only [hall, if_true]
      exact .finished hsplit hzero hall
    · simp only [hall, if_false]
      exact .low hsplit hzero hall

/-- Every step is one of the moves, so that an invariant is proved for the moves only. -/
theorem moves_of_step (hstep : s.step e = some t) : Moves s e t := by
  cases e with
  | PushSend sb =>
    obtain rfl := Option.some.inj hstep
    exact .push sb
  | run =>
    rcases hhead : s.strand with _ | ⟨task, strand⟩
    · simp [step, hhead] at hstep
    · simp only [step, hhead, Option.some.injEq] at hstep
      subst hstep
      match task with
      | .push_send _ none => exact .run_null hhead
      | .push_send _ (some _) => exact .run_push hhead
      | .push_rest _ => exact .run_rest hhead
      | .do_write =>
        rcases hfront : s.send_buffers with _ | ⟨o, queue⟩
        · simp only [execute]
          rw [← hfront]
          exact .run_idle hhead hfront
        · simp only [execute]
          exact .run_start hhead hfront
  | transmit length =>
    rcases holdest : s.sending with _ | ⟨o, sending⟩
    · simp [step, holdest] at hstep
    · simp only [step, holdest, Option.ite_none_right_eq_some, Option.some.injEq] at hstep
      obtain ⟨hlength, rfl⟩ := hstep
      exact .transmit holdest hlength
  | complete i =>
    rcases hget : s.handlers[i]? with _ | ⟨o, length⟩ | _ <;> simp only [step, hget] at hstep
    · cases hstep
    · obtain rfl := Option.some.inj hstep
      exact moves_of_complete hget
    · cases hstep
  | resume i =>
    rcases hget : s.handlers[i]? with _ | _ | _ <;> simp only [step, hget] at hstep
    · cases hstep
    · cases hstep
    · obtain rfl := Option.some.inj hstep
      obtain ⟨before, after, hsplit, herase, _⟩ := Transition.split_of_getElem? hget
      rw [herase]
      exact .resume hsplit

/-- Every handler has a write to report that transferred something. -/
def Transferred (s : WriteSide) : Prop := ∀ o length, .written o length ∈ s.handlers → length ≠ 0

/-- What was transferred is kept by every move in which the socket takes at least a byte. -/
theorem Transferred.moves (h : s.Transferred) (hpos : s.Transfers e) (hmove : Moves s e t) :
    t.Transferred := by
  cases hmove with
  | @transmit o sending length holdest hlength =>
    intro o' length' hmem
    rcases List.mem_append.mp hmem with hmem | hmem
    · exact h o' length' hmem
    · obtain ⟨rfl, rfl⟩ := Handler.written.inj (List.mem_singleton.mp hmem)
      exact Nat.one_le_iff_ne_zero.mp hpos
  | failed hhandler | finished hhandler | resume hhandler | low hhandler =>
    intro o' length' hmem
    apply h o' length'
    rw [hhandler]
    simp only [List.mem_append, List.mem_cons, reduceCtorEq, false_or] at hmem ⊢
    tauto
  | push | run_null | run_push | run_rest | run_idle | run_start => exact h

/-- What holds of every state such a run reaches follows from what a step whose
handlers have transferred something preserves. -/
theorem run_transfers_invariant {ok : WriteSide → Event → Prop} {Inv : WriteSide → Prop}
    {events : List Event} (hok : ∀ s e, ok s e → s.Transfers e)
    (hrun : Transition.Run (Transition.Guarded ok (Transition.OfOption step)) Init events t)
    (hinit : Inv Init)
    (hmoves : ∀ s e t, Inv s → s.Transferred → ok s e → Moves s e t → Inv t) : Inv t := by
  suffices h : Inv t ∧ t.Transferred from h.1
  apply hrun.invariant ⟨hinit, by simp [Transferred, Init]⟩
  intro a e b ⟨ha, htransferred⟩ ⟨hstepOk, hstep⟩
  have hmove := moves_of_step hstep
  exact ⟨hmoves a e b ha htransferred hstepOk hmove, htransferred.moves (hok a e hstepOk) hmove⟩

end WriteSide

end AsioGameServer.session

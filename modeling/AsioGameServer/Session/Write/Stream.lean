import Mathlib.Data.List.ReduceOption
import AsioGameServer.Session.Write

open Transition

namespace AsioGameServer.session

/-- What is left of the buffer of a write whose handler has to run. -/
def Handler.remainder : Handler → List Outgoing
  | .written o length => if o.complete + length = o.sb.size then [] else [o.advance length]
  | .reposted => []

/-- The remainder a task puts back into the queue. -/
def Task.remainder : Task → List Outgoing
  | .push_rest rest => [rest]
  | _ => []

/-- The bytes a task is going to append to the queue for the first time. -/
def Task.pushing : Task → List UInt8
  | .push_send _ (some sb) => sb.bytes
  | _ => []

/-- An element and what is left of it after a write, as bytes. -/
theorem Outgoing.rest_eq (o : Outgoing) (length : Nat) :
    o.rest = o.rest.take length ++ (o.advance length).rest := by
  rw [rest, rest, advance_complete, advance_sb, ← List.drop_drop, List.take_append_drop]

theorem SendBuffer.bytes_ne (sb : SendBuffer) : sb.bytes ≠ [] := by
  rw [← List.length_pos_iff, length_bytes]
  exact Nat.lt_of_lt_of_le (by decide) sb.four_le_size

@[simp] theorem Outgoing.rest_zero (id : Nat) (sb : SendBuffer) : (Outgoing.mk id sb 0).rest = sb.bytes := rfl

namespace WriteSide

variable {s t : WriteSide} {e : Event}

/-- The parts of buffers that were written in part and are not back in the queue. -/
def remainders (s : WriteSide) : List Outgoing :=
  s.handlers.flatMap Handler.remainder ++ s.strand.flatMap Task.remainder

/-- The condition on a step. A write is short only if nothing is queued and no
other write is started behind it, and no task appends a new buffer to the queue
while a remainder is outside of it. -/
def KeepsOrder (s : WriteSide) : Event → Prop
  | .transmit length => ∀ o ∈ s.sending.head?, length < o.requested →
      s.sending.tail = [] ∧ s.send_buffers = []
  | .run => ∀ task ∈ s.strand.head?, task.pushing ≠ [] → s.remainders = []
  | _ => True

instance (s : WriteSide) : (e : Event) → Decidable (s.KeepsOrder e)
  | .transmit length => inferInstanceAs (Decidable (∀ o ∈ s.sending.head?, length < o.requested → _))
  | .run => inferInstanceAs (Decidable (∀ task ∈ s.strand.head?, task.pushing ≠ [] → _))
  | .PushSend _ | .complete _ | .resume _ => inferInstanceAs (Decidable True)

/-- Everything pushed is on the wire, in a remainder, in a write, in the queue or
in a task of the strand, in this order; there is at most one remainder, and while
there is one nothing is started or queued. -/
structure Ordered (s : WriteSide) : Prop where
  stream : s.stream = s.wire ++ ((s.remainders ++ s.sending ++ s.send_buffers).flatMap Outgoing.rest ++
    s.strand.flatMap Task.pushing)
  single : s.remainders.length ≤ 1
  alone : s.remainders ≠ [] → s.sending = [] ∧ s.send_buffers = []

theorem Ordered.init : Ordered Init := ⟨rfl, by decide, fun h => absurd rfl h⟩

/-- A step that moves no bytes. -/
theorem Ordered.congr (h : Ordered s) (hpushed : t.pushed = s.pushed) (hwire : t.wire = s.wire)
    (hrest : t.remainders = s.remainders) (hsending : t.sending = s.sending)
    (hqueue : t.send_buffers = s.send_buffers)
    (hpushing : t.strand.flatMap Task.pushing = s.strand.flatMap Task.pushing) : Ordered t := by
  refine ⟨?_, hrest ▸ h.single, ?_⟩
  · rw [WriteSide.stream, hpushed, hwire, hrest, hsending, hqueue, hpushing]
    exact h.stream
  · rw [hrest, hsending, hqueue]
    exact h.alone

/-- A remainder is the only one there is. -/
theorem Ordered.only {rest : Outgoing} {before after : List Outgoing} (h : Ordered s)
    (hsplit : s.remainders = before ++ rest :: after) :
    before = [] ∧ after = [] ∧ s.sending = [] ∧ s.send_buffers = [] := by
  have hsingle := h.single
  rw [hsplit, List.length_append, List.length_cons] at hsingle
  obtain ⟨hsending, hqueue⟩ := h.alone (by simp [hsplit])
  exact ⟨List.eq_nil_of_length_eq_zero (by omega), List.eq_nil_of_length_eq_zero (by omega),
    hsending, hqueue⟩

/-- While a write is started or queued there is no remainder. -/
theorem Ordered.no_remainder (h : Ordered s) (hbusy : s.sending ≠ [] ∨ s.send_buffers ≠ []) :
    s.remainders = [] := by
  by_contra hne
  obtain ⟨hsending, hqueue⟩ := h.alone hne
  rcases hbusy with hbusy | hbusy
  · exact hbusy hsending
  · exact hbusy hqueue

theorem Ordered.transmit {o : Outgoing} {sending : List Outgoing} {length : Nat} (h : Ordered s)
    (holdest : s.sending = o :: sending) (hlength : length ≤ o.requested) (hpos : 1 ≤ length)
    (hok : length < o.requested → sending = [] ∧ s.send_buffers = []) :
    Ordered { s with
      sending
      handlers := s.handlers ++ [.written o length]
      wire := s.wire ++ o.rest.take length
      spans := s.spans ++ [⟨o.id, o.complete, o.complete + length⟩] } := by
  have hnone := h.no_remainder (Or.inl (by simp [holdest]))
  obtain ⟨hhandlers, hstrand⟩ := List.append_eq_nil_iff.mp hnone
  have hstream := h.stream
  rw [hnone, holdest, List.nil_append, List.cons_append, List.flatMap_cons, o.rest_eq length] at hstream
  simp only [Outgoing.requested] at hlength hok
  by_cases hall : o.complete + length = o.sb.size
  · -- The write is complete and leaves nothing to send of its buffer.
    have hdone : (o.advance length).rest = [] := by simp [Outgoing.rest, hall]
    refine ⟨?_, ?_, ?_⟩ <;> simp [remainders, hhandlers, hstrand, Handler.remainder, hall]
    simpa [WriteSide.stream, hdone] using hstream
  · obtain ⟨rfl, hqueue⟩ := hok (by omega)
    refine ⟨?_, ?_, ?_⟩ <;> simp [remainders, hhandlers, hstrand, Handler.remainder, hall, hqueue]
    simpa [WriteSide.stream, hqueue] using hstream

/-- A handler that finds its write short posts what is left of the buffer. -/
theorem Ordered.low {o : Outgoing} {length : Nat} {before after : List Handler} (h : Ordered s)
    (hhandler : s.handlers = before ++ .written o length :: after)
    (hrest : o.complete + length ≠ o.sb.size) :
    Ordered { s with
      handlers := before ++ .reposted :: after
      strand := s.strand ++ [.push_rest (o.advance length)] } := by
  have hsplit : s.remainders = before.flatMap Handler.remainder ++ o.advance length ::
      (after.flatMap Handler.remainder ++ s.strand.flatMap Task.remainder) := by
    simp [remainders, hhandler, Handler.remainder, hrest]
  obtain ⟨hbefore, hafter, hsending, hqueue⟩ := h.only hsplit
  obtain ⟨hafter, hstrand⟩ := List.append_eq_nil_iff.mp hafter
  have hsame : s.remainders = [o.advance length] := by rw [hsplit, hbefore, hafter, hstrand]; rfl
  have hstream := h.stream
  refine ⟨?_, ?_, fun _ => ⟨hsending, hqueue⟩⟩
  · rw [hsame] at hstream
    simpa [remainders, hbefore, hafter, hstrand, Handler.remainder, Task.remainder, Task.pushing,
      WriteSide.stream] using hstream
  · simp [remainders, hbefore, hafter, hstrand, Handler.remainder, Task.remainder]

/-- Appending a buffer or a remainder to the queue where its bytes are next. -/
theorem ordered_enqueue {o : Outgoing} {strand : List Task}
    (hstream : s.stream = s.wire ++
      ((s.sending ++ s.send_buffers ++ [o]).flatMap Outgoing.rest ++ strand.flatMap Task.pushing))
    (hhandlers : s.handlers.flatMap Handler.remainder = []) (hstrand : strand.flatMap Task.remainder = []) :
    Ordered { s with strand, send_buffers := s.send_buffers ++ [o] } := by
  refine ⟨?_, ?_, ?_⟩ <;> simp [remainders, hhandlers, hstrand]
  simpa [WriteSide.stream] using hstream

theorem Ordered.moves (h : Ordered s) (htransferred : s.Transferred) (hpos : s.Transfers e)
    (hok : s.KeepsOrder e) (hmove : Moves s e t) : Ordered t := by
  have hstream := h.stream
  cases hmove with
  | push sb =>
    refine ⟨?_, by simpa [remainders, Task.remainder] using h.single,
      by simpa [remainders, Task.remainder] using h.alone⟩
    rw [WriteSide.stream] at hstream ⊢
    cases sb <;> simp [List.reduceOption_append, hstream, remainders, Task.remainder, Task.pushing]
  | run_null hhead =>
    apply h.congr <;> simp [remainders, hhead, Task.remainder, Task.pushing]
  | run_push hhead =>
    have hnone : s.remainders = [] := by
      simpa [KeepsOrder, hhead, Task.pushing, SendBuffer.bytes_ne] using hok
    rw [hnone] at hstream
    simp only [remainders, hhead, List.flatMap_cons, Task.remainder, List.nil_append,
      List.append_eq_nil_iff] at hnone
    apply ordered_enqueue _ hnone.1 (by simp [hnone.2, Task.remainder])
    simpa [hhead, Task.pushing] using hstream
  | @run_rest rest strand hhead =>
    have hsplit : s.remainders =
        s.handlers.flatMap Handler.remainder ++ rest :: strand.flatMap Task.remainder := by
      rw [remainders, hhead, List.flatMap_cons, Task.remainder, List.singleton_append]
    obtain ⟨hhandlers, hstrand, hsending, hqueue⟩ := h.only hsplit
    apply ordered_enqueue _ hhandlers hstrand
    rw [hsplit, hhandlers, hstrand] at hstream
    simpa [hhead, hsending, hqueue, Task.pushing] using hstream
  | run_idle hhead hempty =>
    apply h.congr <;> simp [remainders, hhead, Task.remainder, Task.pushing]
  | run_start hhead hfront =>
    have hnone := h.no_remainder (Or.inr (by simp [hfront]))
    rw [hnone] at hstream
    simp only [remainders, hhead, List.flatMap_cons, Task.remainder, List.nil_append] at hnone
    refine ⟨?_, ?_, ?_⟩ <;> simp [remainders, hnone]
    simpa [hhead, hfront, Task.pushing, WriteSide.stream] using hstream
  | transmit holdest hlength =>
    exact h.transmit holdest hlength hpos (by simpa [KeepsOrder, holdest] using hok)
  | @failed i o before after hhandler =>
    exact absurd rfl (htransferred o 0 (by simp [hhandler]))
  | low hhandler hlength hrest => exact h.low hhandler hrest
  | finished hhandler hlength hall =>
    apply h.congr <;> simp [remainders, hhandler, Handler.remainder, Task.remainder, Task.pushing, hall]
  | resume hhandler =>
    apply h.congr <;> simp [remainders, hhandler, Handler.remainder, Task.remainder, Task.pushing]

/-- The bytes on the wire are at every moment a prefix of the buffers in the order
in which they were pushed, in every run in which no write is short while others
wait behind it and no buffer enters the queue while a remainder is outside of it. -/
theorem run_sends_in_push_order (events : List Event) (t : WriteSide)
    (hrun : Run (Guarded (fun s e => Transfers s e ∧ KeepsOrder s e) (OfOption step)) Init events t) :
    t.wire <+: t.stream := by
  have hordered : Ordered t :=
    run_transfers_invariant (fun _ _ hok => hok.1) hrun .init
      (fun _ _ _ ha htransferred hok hmove => ha.moves htransferred hok.1 hok.2 hmove)
  rw [hordered.stream]
  exact List.prefix_append _ _

/-- A buffer of the header only. -/
def bare (symbol : UInt16) : SendBuffer := ⟨symbol, [], by decide⟩

/-- A short write of the only buffer there is, whose remainder is sent before a
buffer that is pushed later. -/
theorem run_sends_remainder_first :
    ∃ t, Run (Guarded (fun s e => Transfers s e ∧ KeepsOrder s e) (OfOption step)) Init
        [.PushSend (some (bare 0)), .run, .run, .transmit 1, .complete 0, .resume 0,
          .PushSend (some (bare 1)), .run, .run, .run, .transmit 3, .complete 0, .run] t ∧
      t.wire = (bare 0).bytes ∧ t.wire <+: t.stream := by
  have hexec : ([.PushSend (some (bare 0)), .run, .run, .transmit 1, .complete 0, .resume 0,
      .PushSend (some (bare 1)), .run, .run, .run, .transmit 3, .complete 0, .run].foldlM
      (fun s e => if Transfers s e ∧ KeepsOrder s e then step s e else none) Init).map WriteSide.wire =
        some (bare 0).bytes := by decide +kernel
  obtain ⟨t, hfold, hwire⟩ := Option.map_eq_some_iff.mp hexec
  rw [← run_guarded_ofOption_iff] at hfold
  exact ⟨t, hfold, hwire, run_sends_in_push_order _ t hfold⟩

/-- Two buffers are pushed and both writes are started. The first one transmits a
single byte, and the whole second buffer follows it. -/
theorem two_writes_overtake :
    ∃ events t, Run (Guarded Transfers (OfOption step)) Init events t ∧ ¬ t.wire <+: t.stream := by
  have hexec : ([.PushSend (some (bare 0)), .PushSend (some (bare 1)), .run, .run, .run, .run,
      .transmit 1, .transmit 4].foldlM (fun s e => if Transfers s e then step s e else none) Init).map
      (fun t => (t.wire, t.stream)) = some ([4, 4, 0, 1, 0], (bare 0).bytes ++ (bare 1).bytes) := by
    decide +kernel
  obtain ⟨t, hfold, ht⟩ := Option.map_eq_some_iff.mp hexec
  obtain ⟨hwire, hstream⟩ := Prod.mk.inj ht
  rw [← run_guarded_ofOption_iff] at hfold
  refine ⟨_, t, hfold, ?_⟩
  rw [hwire, hstream]
  decide

end WriteSide

end AsioGameServer.session

import Mathlib.Data.List.Induction
import AsioGameServer.Session.Read.Framing

open ByteMemory WhileLoop Transition

namespace AsioGameServer.session

/-- Bytes from which a read callback stays in step with the stream: they do not
run past the first packet, or all packets they touch announce one size. -/
def StaysAligned (b : List UInt8) : Prop :=
  b.length < 2 ∨ b.length ≤ declared b ∨
    ∃ size packets rest, packets ≠ [] ∧ EqualSized size packets rest b

/-- Bytes after which moreover no whole packet is left in the buffer. -/
def StopsInside (b : List UInt8) : Prop :=
  b.length < 2 ∨ b.length ≤ declared b ∨
    ∃ size packets rest, packets ≠ [] ∧ EqualSized size packets rest b ∧ rest.length < size

/-- A stream of packets starts with the size field of its first packet. -/
theorem take_two_of_wire {p : Packet} {todo : List Packet} {b : List UInt8}
    (h : b <+: wire (p :: todo)) : b.take 2 <+: bytes16 p.size := by
  obtain ⟨tail, htail⟩ := h
  have htake : (wire (p :: todo)).take 2 = bytes16 p.size := by
    simp only [wire_cons, Packet.bytes, List.append_assoc]
    rw [List.take_append_of_le_length (by simp), List.take_of_length_le (by simp)]
  rw [← htake, ← htail, List.take_append]
  exact List.prefix_append _ _

namespace ReadSide

variable {s t : ReadSide} {done todo ps : List Packet} {bytes data : List UInt8}

/-- The session has handed over the packets `done`, and its buffer holds the
received bytes behind them. -/
structure InSync (done todo : List Packet) (bytes : List UInt8) (s : ReadSide) : Prop where
  calls : s.calls = done.map delivery
  split : bytes = wire done ++ s.buffered
  ahead : s.buffered <+: wire todo

/-- The position in the stream is one of the calls, the buffer and the count alone. -/
theorem InSync.congr (h : InSync done todo bytes s) (hcalls : t.calls = s.calls)
    (hbuffer : t.recv_buffer = s.recv_buffer) (hcount : t.com_recvSize = s.com_recvSize) :
    InSync done todo bytes t := by
  have hbuffered : t.buffered = s.buffered := by rw [buffered, hbuffer, hcount, buffered]
  exact ⟨hcalls.trans h.calls, hbuffered ▸ h.split, hbuffered ▸ h.ahead⟩

theorem AtHead.congr {size : Nat} {packets : List Packet} {rest : List UInt8} (h : AtHead size packets rest s)
    (hbuffer : t.recv_buffer = s.recv_buffer) (hcount : t.com_recvSize = s.com_recvSize) :
    AtHead size packets rest t := by
  have hbuffered : t.buffered = s.buffered := by rw [buffered, hbuffer, hcount, buffered]
  refine ⟨hbuffered ▸ h.window, ?_, hcount ▸ h.fits⟩
  rw [packet_size, hbuffer]
  exact h.size_field

/-- No whole packet waits in the buffer. -/
def Settled (todo : List Packet) (s : ReadSide) : Prop :=
  ∀ p ∈ todo.head?, s.com_recvSize < p.size

theorem size_field_of_take_two {n : Nat} (hn : n < 65536) (hcount : 2 ≤ s.com_recvSize)
    (h : s.buffered.take 2 <+: bytes16 n) : s.packet_size = n := by
  rw [buffered, take_read, show min 2 s.com_recvSize = 2 by omega] at h
  exact read16_of_read hn (h.eq_of_length (by simp))

theorem InSync.size_field {p : Packet} (h : InSync done (p :: todo) bytes s)
    (hcount : 2 ≤ s.com_recvSize) : s.packet_size = p.size :=
  size_field_of_take_two p.size_lt hcount (take_two_of_wire h.ahead)

theorem InSync.todo_ne (h : InSync done todo bytes s) (hcount : 0 < s.com_recvSize) : todo ≠ [] := by
  rintro rfl
  have := h.ahead.length_le
  simp at this
  omega

theorem InSync.store (h : InSync done todo bytes s) (hcut : bytes ++ data <+: wire (done ++ todo)) :
    InSync done todo (bytes ++ data) (s.store data) := by
  refine ⟨h.calls, by simp [h.split], ?_⟩
  rw [h.split, wire_append, List.append_assoc, List.prefix_append_right_inj] at hcut
  simpa using hcut

/-- Handing over the packet that fills the buffer exactly. -/
theorem InSync.complete {p : Packet} (h : InSync done (p :: todo) bytes s)
    (hcount : s.com_recvSize = p.size) :
    InSync (done ++ [p]) todo bytes { s.On_Read with com_recvSize := 0, unread := 0 } := by
  have hpre : s.buffered <+: p.bytes :=
    List.prefix_of_prefix_length_le h.ahead (List.prefix_append _ _) (by simp [hcount])
  have hbuffered : s.buffered = p.bytes := hpre.eq_of_length (by simp [hcount])
  have hfront : read s.recv_buffer 0 p.size = p.bytes := by rw [← hcount]; exact hbuffered
  obtain ⟨hsize, hsymbol, hpayload⟩ := packet_at_front hfront
  refine ⟨?_, ?_, by simp [buffered]⟩
  · simp [On_Read, packet_size, packet_symbol, delivery, hsize, hsymbol, hpayload, h.calls]
  · rw [h.split, hbuffered]
    simp [buffered]

/-- A non-empty read that fits the buffer and continues the stream either leaves
the session waiting with no whole packet in its buffer, or enters the drain loop
because the buffer runs past its first packet. -/
theorem do_read_inSync (hphase : s.phase = .reading) (hne : data ≠ [])
    (hfit : s.com_recvSize + data.length ≤ BUFSIZE) (hsync : InSync done todo bytes s)
    (hcut : bytes ++ data <+: wire (done ++ todo)) :
    ∃ u, s.do_read data = some u ∧
      (u.phase = .reading ∧ (∃ done' todo', done ++ todo = done' ++ todo' ∧
          InSync done' todo' (bytes ++ data) u ∧ Settled todo' u) ∨
        u.phase = .draining ∧ InSync done todo (bytes ++ data) u ∧ u.com_recvSize ≤ BUFSIZE ∧
          u.buffered = s.buffered ++ data ∧ 2 ≤ u.buffered.length ∧
          declared u.buffered < u.buffered.length) := by
  refine ⟨_, do_read_eq hphase hne hfit, ?_⟩
  have hstore := hsync.store hcut
  by_cases hshort : (s.store data).com_recvSize < 2
  · rw [if_pos hshort]
    refine Or.inl ⟨hphase, done, todo, rfl, hstore, ?_⟩
    intro p _
    have := p.four_le_size
    omega
  · rw [if_neg hshort]
    obtain ⟨p, todo, rfl⟩ := List.exists_cons_of_ne_nil (hstore.todo_ne (by omega))
    have hsize := hstore.size_field (by omega)
    by_cases hcomplete : (s.store data).packet_size = (s.store data).com_recvSize
    · rw [if_pos hcomplete]
      refine Or.inl ⟨hphase, done ++ [p], todo, by simp, hstore.complete (by omega), ?_⟩
      intro q _
      have := q.four_le_size
      simp only
      omega
    · rw [if_neg hcomplete]
      by_cases hlow : (s.store data).packet_size > (s.store data).com_recvSize
      · rw [if_pos hlow]
        refine Or.inl ⟨hphase, done, p :: todo, rfl, hstore, ?_⟩
        intro q hq
        simp only [List.head?_cons, Option.mem_def, Option.some.injEq] at hq
        subst hq
        omega
      · rw [if_neg hlow]
        have hdeclared : (s.store data).packet_size = _ := packet_size_eq_declared (by omega)
        refine Or.inr ⟨rfl, ⟨hstore.calls, hstore.split, hstore.ahead⟩, hfit, buffered_store, ?_, ?_⟩
        · rw [length_buffered]
          exact Nat.le_of_not_lt hshort
        · change declared (s.store data).buffered < (s.store data).buffered.length
          rw [← hdeclared, length_buffered]
          omega

/-- A window of packets of one size is a loop head of the drain loop. -/
theorem atHead_of_equalSized {size : Nat} {packets : List Packet} {rest : List UInt8}
    (hequal : EqualSized size packets rest s.buffered) (hpackets : packets ≠ [])
    (hfit : s.com_recvSize ≤ BUFSIZE) : AtHead size packets rest s := by
  obtain ⟨q, qs, rfl⟩ := List.exists_cons_of_ne_nil hpackets
  have hsize : q.size = size := hequal.sizes q (by simp)
  refine ⟨hequal, ?_, hfit⟩
  apply size_field_of_take_two (hsize ▸ q.size_lt) _ hequal.take_two
  have hlen := congrArg List.length hequal.bytes
  have hfour := q.four_le_size
  simp at hlen
  omega

/-- One iteration of the drain loop over packets of one size hands over the next
packet of the stream. -/
theorem InSync.drained {size : Nat} {q : Packet} {packets : List Packet} {rest : List UInt8}
    (h : InSync done todo bytes s) (hhead : AtHead size (q :: packets) rest s) :
    ∃ todo', todo = q :: todo' ∧ InSync (done ++ [q]) todo' bytes s.drained := by
  have hahead := h.ahead
  have hbytes := hhead.window.bytes
  have hnext := hhead.drained.window.bytes
  rw [wire_cons, List.append_assoc, ← hnext] at hbytes
  rw [hbytes] at hahead
  obtain ⟨todo', rfl, hrest⟩ := packets_of_wire_append
    (show wire [q] ++ s.drained.buffered <+: wire todo by simpa using hahead)
  refine ⟨todo', rfl, ?_, ?_, hrest⟩
  · rw [hhead.drained_calls, h.calls, List.map_append]
    rfl
  · rw [h.split, hbytes, wire_append]
    simp

/-- The calls made so far cover every packet that lies inside the received bytes. -/
def Covers (ps : List Packet) (bytes : List UInt8) (s : ReadSide) : Prop :=
  ∀ k, (wire (ps.take k)).length ≤ bytes.length → (ps.take k).map delivery <+: s.calls

theorem InSync.covers (h : InSync done todo bytes s) (hsettled : Settled todo s) :
    Covers (done ++ todo) bytes s := by
  intro k hk
  rw [h.calls]
  apply List.IsPrefix.map
  by_cases hdone : k ≤ done.length
  · rw [List.take_append_of_le_length hdone]
    exact List.take_prefix _ _
  · rw [List.take_append, List.take_of_length_le (by omega)] at hk ⊢
    cases todo with
    | nil => simp
    | cons p todo =>
      have hless : s.com_recvSize < p.size := hsettled p (by simp)
      obtain ⟨m, hm⟩ : ∃ m, k - done.length = m + 1 := ⟨k - done.length - 1, by omega⟩
      rw [h.split, hm] at hk
      simp at hk
      omega

/-- The drain loop over packets of one size is left in step with the stream. -/
theorem drain_inSync {size : Nat} {packets : List Packet} {rest : List UInt8}
    (h : InSync done todo bytes s) (hhead : AtHead size packets rest s) :
    ∃ t todo', Exits drain_guard drain_body s t ∧ todo = packets ++ todo' ∧
      InSync (done ++ packets) todo' bytes t ∧ AtHead size [] rest t := by
  induction packets generalizing s done todo with
  | nil => exact ⟨s, todo, exits_of_not_guard hhead.not_guard, rfl, by simpa using h, hhead⟩
  | cons q packets ih =>
    obtain ⟨todo, rfl, hnext⟩ := h.drained hhead
    obtain ⟨t, todo', hexit, rfl, hsync, hlast⟩ := ih hnext hhead.drained
    exact ⟨t, todo', Iterates.exits ⟨hhead.guard, drain_body_eq hhead.fits⟩ hexit, rfl,
      by simpa using hsync, hlast⟩

/-- A part of a packet that is shorter than the packets before it, and announces
their size as far as it has arrived, is no whole packet. -/
theorem InSync.settled {size : Nat} {rest : List UInt8} (h : InSync done todo bytes s)
    (hhead : AtHead size [] rest s) (hless : rest.length < size) : Settled todo s := by
  intro p hp
  obtain ⟨todo, rfl⟩ : ∃ tail, todo = p :: tail := by
    cases todo with
    | nil => simp at hp
    | cons q tail => exact ⟨tail, by simpa using hp⟩
  have hcount := hhead.count
  have hfour := p.four_le_size
  simp only [wire_nil, List.length_nil] at hcount
  by_cases hshort : s.com_recvSize < 2
  · omega
  · have := h.size_field (by omega)
    have := hhead.size_field
    omega

/-- A read callback that stops inside a packet returns with every whole packet
handed over. -/
theorem callback_settles (hphase : s.phase = .reading) (hne : data ≠ [])
    (hfit : s.com_recvSize + data.length ≤ BUFSIZE) (hsync : InSync done todo bytes s)
    (hcut : bytes ++ data <+: wire (done ++ todo)) (hstops : StopsInside (s.buffered ++ data)) :
    ∃ t done' todo', Callback s data t ∧ t.phase = .reading ∧ done ++ todo = done' ++ todo' ∧
      InSync done' todo' (bytes ++ data) t ∧ Settled todo' t := by
  obtain ⟨u, hread, hwait | hdrain⟩ := do_read_inSync hphase hne hfit hsync hcut
  · obtain ⟨hreading, done', todo', heq, hnext, hsettled⟩ := hwait
    exact ⟨u, done', todo', ⟨u, hread, Or.inl ⟨by simp [hreading], rfl⟩⟩, hreading, heq, hnext, hsettled⟩
  · obtain ⟨hdraining, hnext, hcount, hbuffered, htwo, hlong⟩ := hdrain
    rw [← hbuffered] at hstops
    obtain hshort | hinside | ⟨size, packets, rest, hpackets, hequal, hless⟩ := hstops
    · omega
    · omega
    · have hhead := atHead_of_equalSized hequal hpackets hcount
      obtain ⟨v, todo', hexit, rfl, hlast, hend⟩ := drain_inSync hnext hhead
      exact ⟨{ v with phase := .reading }, done ++ packets, todo',
        ⟨u, hread, Or.inr ⟨hdraining, v, hexit, rfl⟩⟩, rfl, by simp,
        hlast.congr rfl rfl rfl, hlast.settled hend hless⟩

theorem Fresh.inSync (h : s.Fresh) : InSync [] ps [] s :=
  ⟨h.no_calls, by simp [buffered, h.empty], by simp [buffered, h.empty]⟩

/-- A cut of a packet stream into non-empty reads of a new session, each of which
fits behind the bytes the session has buffered when it arrives. -/
structure Cut (ps : List Packet) (reads : List (List UInt8)) (s₀ : ReadSide) : Prop where
  fresh : s₀.Fresh
  stream : reads.flatten <+: wire ps
  nonempty : ∀ r ∈ reads, r ≠ []
  fits : ∀ past r future, reads = past ++ r :: future → ∀ s, Run Callback s₀ past s →
    s.com_recvSize + r.length ≤ BUFSIZE

/-- Every read callback returns with all packets received whole handed over. -/
def Complete (ps : List Packet) (reads : List (List UInt8)) (s₀ : ReadSide) : Prop :=
  ∀ past, past <+: reads → ∃ s, Run Callback s₀ past s ∧ Covers ps past.flatten s

/-- Receive framing is complete for every cut of a packet stream in which each
read stops inside the packet it is filling, at its end, or strictly inside a
further packet of the size of all packets it completes. -/
theorem reads_deliver_complete_packets (ps : List Packet) (reads : List (List UInt8))
    (s₀ : ReadSide) (hcut : Cut ps reads s₀)
    (hstops : ∀ past r future, reads = past ++ r :: future → ∀ s, Run Callback s₀ past s →
      StopsInside (s.buffered ++ r)) :
    Complete ps reads s₀ := by
  suffices h : ∀ past, past <+: reads → ∃ s, Run Callback s₀ past s ∧ s.phase = .reading ∧
      ∃ done todo, ps = done ++ todo ∧ InSync done todo past.flatten s ∧ Settled todo s by
    intro past hpast
    obtain ⟨s, hrun, _, done, todo, rfl, hsync, hsettled⟩ := h past hpast
    exact ⟨s, hrun, hsync.covers hsettled⟩
  intro past
  induction past using List.reverseRecOn with
  | nil =>
    intro _
    refine ⟨s₀, .nil s₀, hcut.fresh.reading, [], ps, rfl, hcut.fresh.inSync, ?_⟩
    intro p _
    have := p.four_le_size
    have := hcut.fresh.empty
    omega
  | append_singleton past r ih =>
    rintro ⟨future, hreads⟩
    have hsplit : reads = past ++ r :: future := by simpa using hreads.symm
    obtain ⟨s, hrun, hphase, done, todo, rfl, hsync, _⟩ := ih ⟨r :: future, hsplit.symm⟩
    have hbytes : past.flatten ++ r <+: wire (done ++ todo) := by
      refine List.IsPrefix.trans ⟨future.flatten, ?_⟩ hcut.stream
      simp [hsplit]
    have hne : r ≠ [] := hcut.nonempty r (by simp [hsplit])
    obtain ⟨t, done', todo', hcall, hreading, heq, hnext, hsettled⟩ :=
      callback_settles hphase hne (hcut.fits past r future hsplit s hrun) hsync hbytes
        (hstops past r future hsplit s hrun)
    refine ⟨t, run_concat_iff.mpr ⟨s, hrun, hcall⟩, hreading, done', todo', heq, ?_, hsettled⟩
    simpa using hnext

/-- A packet without payload, four bytes on the wire. -/
def bare : Packet := ⟨0, [], by decide⟩

private theorem append_cons_eq_singleton {α : Type} {past future : List α} {r x : α}
    (h : [x] = past ++ r :: future) : past = [] ∧ r = x := by
  cases past with
  | nil => simp_all
  | cons y past => simp at h

/-- A single read of two packets and half of a third one of the same size. -/
theorem reads_deliver_two_of_three_packets :
    Complete [bare, bare, bare] [[4, 0, 0, 0, 4, 0, 0, 0, 4, 0]] (Init fun _ => 0) := by
  apply reads_deliver_complete_packets
  · refine ⟨fresh_Init _, ⟨[0, 0], rfl⟩, by simp, ?_⟩
    intro past r future hreads s hrun
    obtain ⟨rfl, rfl⟩ := append_cons_eq_singleton hreads
    cases hrun
    decide
  · intro past r future hreads s hrun
    obtain ⟨rfl, rfl⟩ := append_cons_eq_singleton hreads
    cases hrun
    exact Or.inr (Or.inr ⟨4, [bare, bare], [4, 0], by simp,
      ⟨rfl, by simp [bare, Packet.size], ⟨[], rfl⟩, by simp, by simp⟩, by simp⟩)

/-- Two packets of four bytes that arrive in one read: the drain loop hands over
the first one, and its strict guard leaves the second one in the buffer. -/
theorem two_packets_in_one_read_incomplete :
    ∃ ps reads s₀, Cut ps reads s₀ ∧ reads.flatten = wire ps ∧ ¬ Complete ps reads s₀ := by
  refine ⟨[bare, bare], [wire [bare, bare]], Init fun _ => 0, ⟨fresh_Init _, ?_, ?_, ?_⟩, by simp, ?_⟩
  · simp
  · decide
  · intro past r future hreads s hrun
    obtain ⟨rfl, rfl⟩ := append_cons_eq_singleton hreads
    cases hrun
    decide
  · intro hcomplete
    obtain ⟨s, hrun, hcovers⟩ := hcomplete _ List.prefix_rfl
    have hcall : Callback (Init fun _ => 0) (wire [bare, bare]) s := run_singleton_iff.mp hrun
    have hexec : callback 3 (Init fun _ => 0) (wire [bare, bare]) = some _ := rfl
    obtain rfl := hcall.unique (callback_of_exec hexec)
    have hlen := (hcovers 2 (by decide)).length_le
    revert hlen
    decide

/-- Where a session stands in a packet stream whose bytes so far are `bytes`. Before the
`memmove` of an iteration the packet that was handed over is still in the buffer, so the
buffer is that of a session with one call less. -/
inductive Tracks (ps : List Packet) (bytes : List UInt8) (s : ReadSide) : Prop where
  | reading {done todo : List Packet} (hphase : s.phase = .reading) (hps : ps = done ++ todo)
      (hsync : InSync done todo bytes s)
  | draining {done todo packets : List Packet} {size : Nat} {rest : List UInt8}
      (hphase : s.phase = .draining) (hps : ps = done ++ todo)
      (hsync : InSync done todo bytes s) (hhead : AtHead size packets rest s)
  | moving {done todo packets : List Packet} {q : Packet} {size : Nat} {rest : List UInt8}
      (hphase : s.phase = .moving) (hps : ps = done ++ todo)
      (hsync : InSync done todo bytes { s with calls := done.map delivery })
      (hhead : AtHead size (q :: packets) rest s) (hcalls : s.calls = done.map delivery ++ [delivery q])
  | closed (hphase : s.phase = .closed) (hcalls : s.calls <+: ps.map delivery)

theorem Tracks.calls (h : Tracks ps bytes s) : s.calls <+: ps.map delivery := by
  cases h with
  | reading _ hps hsync => simp [hps, hsync.calls]
  | draining _ hps hsync => simp [hps, hsync.calls]
  | moving _ hps hsync hhead hcalls =>
    obtain ⟨todo', rfl, _⟩ := hsync.drained (hhead.congr rfl rfl)
    simp [hps, hcalls]
  | closed _ hcalls => exact hcalls

/-- The condition on a read: the bytes in the buffer with it run past their first
packet only if all packets they touch announce one size. -/
def Aligned (s : ReadSide) : Event → Prop
  | .read data => StaysAligned (s.buffered ++ data)
  | _ => True

/-- The condition is one on reads alone. -/
theorem run_aligned_of_no_read {events : List Event} (hno : ∀ data, .read data ∉ events)
    (hrun : Run (OfOption step) s events t) : Run (Guarded Aligned (OfOption step)) s events t := by
  induction hrun with
  | nil => exact .nil _
  | @cons _ _ _ e _ hstep _ ih =>
    refine .cons ⟨?_, hstep⟩ (ih fun data hin => hno data (List.mem_cons_of_mem _ hin))
    cases e with
    | read data => exact absurd List.mem_cons_self (hno data)
    | drain | move | SetState _ | SetCharacter _ => trivial

theorem Tracks.read (h : Tracks ps bytes s) (haligned : StaysAligned (s.buffered ++ data))
    (hcut : bytes ++ data <+: wire ps) (hread : s.do_read data = some t) :
    Tracks ps (bytes ++ data) t := by
  obtain ⟨hphase, ⟨_, rfl⟩ | ⟨hne, hfit⟩⟩ := do_read_enabled hread
  · exact .closed rfl h.calls
  · cases h with
    | draining hdraining => simp [hphase] at hdraining
    | moving hmoving => simp [hphase] at hmoving
    | closed hclosed => simp [hphase] at hclosed
    | reading _ hps hsync =>
      subst hps
      obtain ⟨u, hu, hwait | hdrain⟩ := do_read_inSync hphase hne hfit hsync hcut
      · obtain ⟨hreading, done', todo', heq, hnext, _⟩ := hwait
        obtain rfl : u = t := Option.some.inj (hu.symm.trans hread)
        exact .reading hreading heq hnext
      · obtain ⟨hdraining, hnext, hcount, hbuffered, htwo, hlong⟩ := hdrain
        obtain rfl : u = t := Option.some.inj (hu.symm.trans hread)
        rw [← hbuffered] at haligned
        obtain hshort | hinside | ⟨size, packets, rest, hpackets, hequal⟩ := haligned
        · omega
        · omega
        · exact .draining hdraining rfl hnext (atHead_of_equalSized hequal hpackets hcount)

theorem Tracks.drain (h : Tracks ps bytes s) (hdrain : s.step .drain = some t) :
    Tracks ps bytes t := by
  have hphase : s.phase = .draining := by
    by_contra hnot
    simp [step, hnot] at hdrain
  cases h with
  | reading hreading => simp [hphase] at hreading
  | moving hmoving => simp [hphase] at hmoving
  | closed hclosed => simp [hphase] at hclosed
  | @draining done todo packets size rest _ hps hsync hhead =>
    cases packets with
    | nil =>
      simp only [step, hphase, ne_eq, not_true_eq_false, if_false, hhead.not_guard,
        Option.some.injEq] at hdrain
      subst hdrain
      exact .reading rfl hps (hsync.congr rfl rfl rfl)
    | cons q packets =>
      simp only [step, hphase, ne_eq, not_true_eq_false, if_false, hhead.guard, if_true,
        Option.some.injEq] at hdrain
      subst hdrain
      refine .moving rfl hps (hsync.congr hsync.calls.symm rfl rfl) (hhead.congr rfl rfl) ?_
      change s.drained.calls = _
      rw [hhead.drained_calls, hsync.calls]

theorem Tracks.move (h : Tracks ps bytes s) (hmove : s.step .move = some t) : Tracks ps bytes t := by
  have hphase : s.phase = .moving := by
    by_contra hnot
    simp [ReadSide.step, hnot] at hmove
  cases h with
  | reading hreading => simp [hphase] at hreading
  | draining hdraining => simp [hphase] at hdraining
  | closed hclosed => simp [hphase] at hclosed
  | @moving done todo packets q size rest _ hps hsync hhead hcalls =>
    simp only [ReadSide.step, hphase, ne_eq, not_true_eq_false, if_false, ReadSide.move,
      show ¬ BUFSIZE < s.com_recvSize by have := hhead.fits; omega, Option.map_some, Option.some.injEq] at hmove
    obtain ⟨todo', rfl, hnext⟩ := hsync.drained (hhead.congr rfl rfl)
    have hsame : t.calls = (done ++ [q]).map delivery := by
      rw [← hmove, List.map_append]
      exact hcalls
    refine .draining (by rw [← hmove]) (by simp [hps]) (hnext.congr (hsame.trans hnext.calls.symm) ?_ ?_)
      (hhead.drained.congr ?_ ?_)
    all_goals rw [← hmove]; rfl

/-- Changes made by other threads leave the stream position alone. -/
theorem Tracks.congr (h : Tracks ps bytes s) (hbuffer : t.recv_buffer = s.recv_buffer)
    (hcount : t.com_recvSize = s.com_recvSize) (hphase : t.phase = s.phase)
    (hcalls : t.calls = s.calls) : Tracks ps bytes t := by
  cases h with
  | reading h hps hsync => exact .reading (hphase.trans h) hps (hsync.congr hcalls hbuffer hcount)
  | draining h hps hsync hhead =>
    exact .draining (hphase.trans h) hps (hsync.congr hcalls hbuffer hcount) (hhead.congr hbuffer hcount)
  | moving h hps hsync hhead hcalls' =>
    exact .moving (hphase.trans h) hps (hsync.congr rfl hbuffer hcount) (hhead.congr hbuffer hcount)
      (hcalls.trans hcalls')
  | closed h hcalls' => exact .closed (hphase.trans h) (hcalls ▸ hcalls')

theorem Tracks.step {past : List Event} {e : Event} (h : Tracks ps (received past) s)
    (haligned : Aligned s e) (hstep : s.step e = some t)
    (hcut : received (past ++ [e]) <+: wire ps) : Tracks ps (received (past ++ [e])) t := by
  rw [received_append] at hcut ⊢
  cases e with
  | read data =>
    rw [received_read] at hcut ⊢
    exact h.read haligned hcut hstep
  | drain => simpa [received] using h.drain hstep
  | move => simpa [received] using h.move hstep
  | SetState state =>
    obtain rfl := Option.some.inj hstep
    have hsame : Tracks ps (received past) (s.SetState state) := by
      cases state <;> exact h.congr rfl rfl rfl rfl
    simpa [received] using hsame
  | SetCharacter present =>
    obtain rfl := Option.some.inj hstep
    have hsame : Tracks ps (received past) { s with character := present } := h.congr rfl rfl rfl rfl
    simpa [received] using hsame

/-- Receive framing is sound in every run whose reads run past the first
buffered packet only if all packets they touch announce one size: at every
moment, those inside an iteration of the drain loop included, the `On_Read` calls
made so far are the first packets of the stream, in order and unaltered. -/
theorem run_delivers_packets_in_order (ps : List Packet) (s₀ t : ReadSide) (events : List Event)
    (hfresh : s₀.Fresh) (hcut : received events <+: wire ps)
    (hrun : Run (Guarded Aligned (OfOption step)) s₀ events t) :
    t.calls <+: ps.map delivery := by
  suffices h : received events <+: wire ps → Tracks ps (received events) t from (h hcut).calls
  apply hrun.invariant_trace fun past s => received past <+: wire ps → Tracks ps (received past) s
  · exact fun _ => .reading hfresh.reading rfl hfresh.inSync
  · rintro past a e b ih ⟨haligned, hstep⟩ hnext
    have hpast : received past <+: wire ps := by
      rw [received_append] at hnext
      exact List.IsPrefix.trans (List.prefix_append _ _) hnext
    exact (ih hpast).step haligned hstep hnext

/-- Two packets in one read and the start of a third, drained one by one. -/
theorem run_delivers_two_packets_in_order :
    ∃ t, Run (Guarded Aligned (OfOption step)) (Init fun _ => 0)
        [.read [4, 0, 0, 0, 4, 0, 0, 0, 4, 0], .drain, .move, .drain, .move, .drain] t ∧
      t.calls = [delivery bare, delivery bare] ∧ t.calls <+: [bare, bare, bare].map delivery := by
  have hexec : ([.read [4, 0, 0, 0, 4, 0, 0, 0, 4, 0], .drain, .move, .drain, .move, .drain].foldlM step
      (Init fun _ => 0)).map ReadSide.calls = some [delivery bare, delivery bare] := by decide +kernel
  obtain ⟨t, hfold, hcalls⟩ := Option.map_eq_some_iff.mp hexec
  obtain _ | ⟨hread, hrest⟩ := run_ofOption_iff.mpr hfold
  have haligned : Aligned (Init fun _ => 0) (.read [4, 0, 0, 0, 4, 0, 0, 0, 4, 0]) :=
    Or.inr (Or.inr ⟨4, [bare, bare], [4, 0], by simp,
      ⟨rfl, by simp [bare, Packet.size], ⟨[], rfl⟩, by simp, by simp⟩⟩)
  have hrun : Run (Guarded Aligned (OfOption step)) (Init fun _ => 0)
      [.read [4, 0, 0, 0, 4, 0, 0, 0, 4, 0], .drain, .move, .drain, .move, .drain] t :=
    .cons ⟨haligned, hread⟩ (run_aligned_of_no_read (by simp) hrest)
  exact ⟨t, hrun, hcalls, run_delivers_packets_in_order [bare, bare, bare] _ t _ (fresh_Init _)
    ⟨[0, 0], rfl⟩ hrun⟩

/-- A packet of five bytes and one of four in a single read: the count is reduced
by the size of the second packet when the first one is dropped, so a stale byte
is read as the header of a third packet nobody sent. -/
theorem two_sizes_in_one_read_phantom :
    ∃ (ps : List Packet) (events : List Event) (t : ReadSide),
      received events = wire ps ∧ Run (OfOption step) (Init fun _ => 0) events t ∧
      ¬ t.calls <+: ps.map delivery := by
  have hexec : ([.read [5, 0, 0, 0, 1, 4, 0, 0, 0], .drain, .move, .drain, .move, .drain].foldlM step
      (Init fun _ => 0)).map ReadSide.calls = some [⟨0, [1], 5⟩, ⟨0, [], 4⟩, ⟨0, [], 1⟩] := by
    decide +kernel
  obtain ⟨t, hfold, hcalls⟩ := Option.map_eq_some_iff.mp hexec
  refine ⟨[⟨0, [1], by decide⟩, bare], _, t, rfl, run_ofOption_iff.mpr hfold, ?_⟩
  rw [hcalls]
  decide

end ReadSide

end AsioGameServer.session

import AsioGameServer.Session.Read

open ByteMemory WhileLoop

namespace AsioGameServer.session

/-- The `On_Read` call a packet is meant to cause. -/
def delivery (p : Packet) : OnRead := ⟨p.symbol.toNat, p.payload, p.size⟩

/-- The size field at the front of a byte sequence. -/
def declared (b : List UInt8) : Nat := (b.getD 0 0).toNat + 256 * (b.getD 1 0).toNat

/-- Bytes that are a run of whole packets of one size, followed by a non-empty
part of a further packet of that size. -/
structure EqualSized (size : Nat) (packets : List Packet) (rest b : List UInt8) : Prop where
  bytes : b = wire packets ++ rest
  sizes : ∀ q ∈ packets, q.size = size
  header : rest.take 2 <+: bytes16 size
  rest_ne : rest ≠ []
  rest_le : rest.length ≤ size

namespace EqualSized

variable {size : Nat} {q : Packet} {packets : List Packet} {rest b : List UInt8}

theorem tail (h : EqualSized size (q :: packets) rest b) :
    EqualSized size packets rest (b.drop size) := by
  have hq : q.size = size := h.sizes q (by simp)
  refine ⟨?_, fun p hp => h.sizes p (by simp [hp]), h.header, h.rest_ne, h.rest_le⟩
  simp [h.bytes, ← hq, List.append_assoc]

/-- The bytes left behind a packet start with its size field, or with the part
of it that has arrived. -/
theorem take_two (h : EqualSized size packets rest b) :
    b.take 2 <+: bytes16 size := by
  rw [h.bytes]
  cases packets with
  | nil => simpa using h.header
  | cons p packets =>
    have hp : p.size = size := h.sizes p (by simp)
    have htake : (wire (p :: packets) ++ rest).take 2 = bytes16 size := by
      simp only [wire_cons, Packet.bytes, hp, List.append_assoc]
      rw [List.take_append_of_le_length (by simp), List.take_of_length_le (by simp)]
    exact htake ▸ List.prefix_rfl

end EqualSized

/-- A packet that lies at the start of a memory is read back field by field. -/
theorem packet_at_front {m : Memory} {q : Packet} (h : read m 0 q.size = q.bytes) :
    read16 m 0 = q.size ∧ read16 m 2 = q.symbol.toNat ∧ read m 4 (q.size - 4) = q.payload := by
  have hfour := q.four_le_size
  have hbytes : q.bytes = bytes16 q.size ++ (bytes16 q.symbol.toNat ++ q.payload) := by
    simp [Packet.bytes]
  rw [hbytes, show q.size = 2 + (2 + (q.size - 4)) by omega, read_add, read_add] at h
  obtain ⟨hsize, htail⟩ := List.append_inj h (by simp)
  obtain ⟨hsymbol, hpayload⟩ := List.append_inj htail (by simp)
  refine ⟨?_, read16_of_read q.symbol.toNat_lt hsymbol, hpayload⟩
  rw [← show q.size = 2 + (2 + (q.size - 4)) by omega] at hsize
  exact read16_of_read q.size_lt hsize

namespace ReadSide

variable {s : ReadSide} {size : Nat} {q : Packet} {packets : List Packet} {rest : List UInt8}

/-- The size that the session read is the one that the buffered bytes declare, once two of them
are there. -/
theorem packet_size_eq_declared (h : 2 ≤ s.com_recvSize) : s.packet_size = declared s.buffered := by
  have h0 : 0 < s.com_recvSize := by omega
  have h1 : 1 < s.com_recvSize := by omega
  simp [packet_size, read16, declared, List.getD_eq_getElem?_getD, buffered, h0, h1]

/-- The loop head while packets of one size are drained. The size field holds
even where only one byte of the next header is left: the other one is still the
byte of the packet before it. -/
structure AtHead (size : Nat) (packets : List Packet) (rest : List UInt8) (s : ReadSide) : Prop where
  window : EqualSized size packets rest s.buffered
  size_field : s.packet_size = size
  fits : s.com_recvSize ≤ BUFSIZE

/-- The session counts the bytes of the packets and of what follows them. -/
theorem AtHead.count (h : AtHead size packets rest s) :
    s.com_recvSize = (wire packets).length + rest.length := by
  have := congrArg List.length h.window.bytes
  simpa using this

/-- The packet at the front of the window lies at the front of the buffer. -/
theorem AtHead.front (h : AtHead size (q :: packets) rest s) :
    read s.recv_buffer 0 q.size = q.bytes := by
  have hcount := h.count
  have hbytes := congrArg (List.take q.size) h.window.bytes
  simp only [wire_cons, List.length_append, Packet.length_bytes] at hcount
  rw [buffered, take_read, show min q.size s.com_recvSize = q.size by omega] at hbytes
  simpa [List.take_append_of_le_length] using hbytes

/-- The loop goes on while a whole packet is in front, since there are bytes behind the packets. -/
theorem AtHead.guard (h : AtHead size (q :: packets) rest s) : s.drain_guard := by
  have hcount := h.count
  have hq : q.size = size := h.window.sizes q (by simp)
  have hrest := List.length_pos_iff.mpr h.window.rest_ne
  simp only [wire_cons, List.length_append, Packet.length_bytes] at hcount
  simp only [drain_guard, h.size_field]
  omega

/-- The loop ends with the packets, whatever the bytes behind them are. -/
theorem AtHead.not_guard (h : AtHead size [] rest s) : ¬ s.drain_guard := by
  have hcount := h.count
  have hrest := h.window.rest_le
  simp only [wire_nil, List.length_nil] at hcount
  simp only [drain_guard, h.size_field]
  omega

/-- One iteration of the drain loop hands over the first packet, moves the
others to the front, and finds the same size there. -/
theorem AtHead.drained (h : AtHead size (q :: packets) rest s) : AtHead size packets rest s.drained := by
  have hq : q.size = size := h.window.sizes q (by simp)
  have hguard := h.guard
  have hsize := h.size_field
  have hlt : size < 65536 := hsize ▸ packet_size_lt
  simp only [drain_guard, hsize] at hguard
  have hheader : read s.recv_buffer 0 2 = bytes16 size := by
    have htake := congrArg (List.take 2) h.front
    have hfour := q.four_le_size
    rw [take_read, show min 2 q.size = 2 by omega] at htake
    rw [htake, Packet.bytes, hq, List.append_assoc, List.take_append_of_le_length (by simp),
      List.take_of_length_le (by simp)]
  have hnext : s.memmove.packet_size = size := by
    apply read16_memmove_of_agree hlt (by omega) hheader
    have htail := h.window.tail.take_two
    rw [hsize]
    rwa [buffered, drop_read, Nat.zero_add] at htail
  have hcount : s.drained.com_recvSize = s.com_recvSize - size := by
    have hfits := h.fits
    simp only [BUFSIZE] at hfits
    rw [drained_com_recvSize, hnext]
    omega
  have hwindow : s.drained.buffered = s.buffered.drop size := by
    rw [buffered, hcount, buffered, drop_read, drained_recv_buffer, memmove, hsize, Nat.zero_add]
    exact read_memmove (Nat.le_refl _)
  refine ⟨?_, drained_packet_size.trans hnext, ?_⟩
  · rw [hwindow]
    exact h.window.tail
  · rw [hcount]
    exact Nat.le_trans (Nat.sub_le _ _) h.fits

/-- One iteration hands the packet in front to `On_Read`. -/
theorem AtHead.drained_calls (h : AtHead size (q :: packets) rest s) :
    s.drained.calls = s.calls ++ [delivery q] := by
  obtain ⟨hsize, hsymbol, hpayload⟩ := packet_at_front h.front
  simp [On_Read, packet_size, packet_symbol, delivery, hsize, hsymbol, hpayload]

end ReadSide

end AsioGameServer.session

import AsioGameServer.Session.Read

open ByteMemory WhileLoop

namespace AsioGameServer.session.ReadSide

variable {s t : ReadSide}

/-- The state of the drain loop from which an iteration makes progress: the
count lies inside the buffer and the size field is not zero. -/
def Drainable (s : ReadSide) : Prop :=
  s.com_recvSize ≤ BUFSIZE ∧ s.packet_size ≠ 0

/-- A zero size field moves nothing and is read again, so it stays zero and the
count is never reduced. -/
theorem drain_body_zero (hzero : s.packet_size = 0) (hbody : s.drain_body = some t) :
    t.packet_size = 0 ∧ t.com_recvSize = s.com_recvSize := by
  have hfit := drain_body_fits hbody
  have hsame : s.memmove.packet_size = 0 := by
    simp only [memmove, hzero]
    simpa [packet_size] using hzero
  have ht : t = s.drained := Option.some.inj (hbody.symm.trans (drain_body_eq hfit))
  subst ht
  simp only [BUFSIZE] at hfit
  refine ⟨drained_packet_size.trans hsame, ?_⟩
  rw [drained_com_recvSize, hsame]
  omega

theorem drain_not_terminates_of_zero (hzero : s.packet_size = 0) (hguard : s.drain_guard) :
    ¬ Terminates drain_guard drain_body s := by
  apply not_terminates_of_invariant fun a => a.packet_size = 0 ∧ a.drain_guard
  · exact ⟨hzero, hguard⟩
  · exact fun a ha => ha.2
  · intro a b ⟨haz, hag⟩ hbody
    obtain ⟨hbz, hcount⟩ := drain_body_zero haz hbody
    refine ⟨hbz, ?_⟩
    simp only [drain_guard] at hag ⊢
    omega

/-- A count beyond the buffer makes the next `memmove` read behind it, which is
no way of leaving the loop. -/
theorem drain_not_terminates_of_overrun (hover : BUFSIZE < s.com_recvSize) (hguard : s.drain_guard) :
    ¬ Terminates drain_guard drain_body s := by
  apply not_terminates_of_invariant fun a => BUFSIZE < a.com_recvSize ∧ a.drain_guard
  · exact ⟨hover, hguard⟩
  · exact fun a ha => ha.2
  · intro a b ⟨hover, _⟩ hbody
    have := drain_body_fits hbody
    omega

/-- Between two states that make progress the count shrinks: the size that is
subtracted is the one the second state holds, and a wrapped count would not lie
inside the buffer. -/
theorem drain_body_decreases (hdrain : s.Drainable) :
    ∃ t, s.drain_body = some t ∧
      (t.drain_guard → t.Drainable → t.com_recvSize < s.com_recvSize) := by
  refine ⟨s.drained, drain_body_eq hdrain.1, ?_⟩
  intro hguard hnext
  obtain ⟨hcount, _⟩ := hdrain
  obtain ⟨hnextCount, hnextSize⟩ := hnext
  have hlt : s.memmove.packet_size < 65536 := packet_size_lt
  simp only [drain_guard, drained_packet_size, drained_com_recvSize] at *
  simp only [BUFSIZE] at hcount hnextCount
  omega

/-- The drain loop is left after finitely many iterations exactly when every
evaluation of its guard that admits an iteration finds a count inside the buffer
and a size field that is not zero. Nothing is assumed of the buffer's content or
of the count, so this covers every state in which `RecvResult` returns `OVER`. -/
theorem drain_terminates_iff (s : ReadSide) :
    Terminates drain_guard drain_body s ↔
      ∀ t, Reaches drain_guard drain_body s t → t.drain_guard →
        t.com_recvSize ≤ BUFSIZE ∧ t.packet_size ≠ 0 := by
  apply terminates_iff_forall_reaches Drainable ReadSide.com_recvSize
  · exact fun a _ hgood => drain_body_decreases hgood
  · intro a hguard hbad
    by_cases hzero : a.packet_size = 0
    · exact drain_not_terminates_of_zero hzero hguard
    · apply drain_not_terminates_of_overrun _ hguard
      by_contra hfit
      exact hbad ⟨by omega, hzero⟩

/-- Five zero bytes are read as packets of size zero and keep the session's
thread in the drain loop forever. -/
theorem drain_zero_bytes_never_ends :
    ∃ (s : ReadSide) (length : Nat), s.Fresh ∧ (s.RecvResult length).1 = .OVER ∧
      ¬ Terminates drain_guard drain_body (s.RecvResult length).2 := by
  refine ⟨⟨fun _ => 0, 0, .Login, false, .reading, [], [], 0⟩, 5, ⟨rfl, rfl, rfl, rfl, rfl⟩, by decide, ?_⟩
  exact drain_not_terminates_of_zero (by decide) (by decide)

end AsioGameServer.session.ReadSide

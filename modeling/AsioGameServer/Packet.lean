import AsioGameServer.Lib.ByteMemory

open ByteMemory

namespace AsioGameServer

/-- Size in bytes of the receive buffer and of a `SendBuffer`'s payload. -/
def BUFSIZE : Nat := 2048

/-- `Packet_Symbal`, abbreviated `PS`, in the order of its underlying
`unsigned short` values. -/
inductive Packet_Symbal where
  | REQ_SELECT_CHARACTER | CON_SELECT_CHARACTER
  | REQ_DUMMIY_CHARACTER
  | REQ_ENTER_MAP | CON_ENTER_MAP
  | REQ_ENTER_CHANNEL | CON_ENTER_CHANNEL
  | PING_TEST
  | CHATTING_ALL | CHATTING_WHISPER
  | REQ_CHARACTER_LIST | REQ_MONSTER_LIST
  | ENTER_NEW_CHARACTER | ENTER_NEW_CHARACTER_VECTOR
  | LEAVE_CHARACTER | LEAVE_CHARACTER_VECTOR
  | MOVING | MOVING_VECTOR
  | CHANGE_STATUS | CHANGE_EXP | LEVEL_UP
  | RESPAWN_MONSTER | RESPAWN_MONSTER_VEC
  | MONSTER_MOVING_VECTOR
  | ATTACK | MONSTER_ATTACK | REQ_DAMAGE | CON_DAMAGE
  | REQ_SKILL | CON_SKILL
  | DIE
  | REQ_DAMAGE_VECTOR | CON_DAMAGE_VECTOR
  | REQ_PORTAL | CON_PORTAL
  | REQ_CHARACTER_SELECT_SCREEN | CON_CHARACTER_SELECT_SCREEN
  | REQ_LOGOUT | CON_LOGOUT
  | REQ_ESCAPE | CON_ESCAPE
  | TEST
deriving DecidableEq, Repr

namespace Packet_Symbal

/-- The enumerators in declaration order. -/
def all : List Packet_Symbal :=
  [REQ_SELECT_CHARACTER, CON_SELECT_CHARACTER, REQ_DUMMIY_CHARACTER, REQ_ENTER_MAP, CON_ENTER_MAP,
    REQ_ENTER_CHANNEL, CON_ENTER_CHANNEL, PING_TEST, CHATTING_ALL, CHATTING_WHISPER,
    REQ_CHARACTER_LIST, REQ_MONSTER_LIST, ENTER_NEW_CHARACTER, ENTER_NEW_CHARACTER_VECTOR,
    LEAVE_CHARACTER, LEAVE_CHARACTER_VECTOR, MOVING, MOVING_VECTOR, CHANGE_STATUS, CHANGE_EXP,
    LEVEL_UP, RESPAWN_MONSTER, RESPAWN_MONSTER_VEC, MONSTER_MOVING_VECTOR, ATTACK, MONSTER_ATTACK,
    REQ_DAMAGE, CON_DAMAGE, REQ_SKILL, CON_SKILL, DIE, REQ_DAMAGE_VECTOR, CON_DAMAGE_VECTOR,
    REQ_PORTAL, CON_PORTAL, REQ_CHARACTER_SELECT_SCREEN, CON_CHARACTER_SELECT_SCREEN, REQ_LOGOUT,
    CON_LOGOUT, REQ_ESCAPE, CON_ESCAPE, TEST]

/-- The enumerator with a given underlying value. A received symbol field may
hold a value no enumerator has. -/
def ofCode (code : Nat) : Option Packet_Symbal := all[code]?

def code (symbol : Packet_Symbal) : Nat := all.idxOf symbol

@[simp] theorem ofCode_code (symbol : Packet_Symbal) : ofCode symbol.code = some symbol := by
  cases symbol <;> rfl

end Packet_Symbal

inductive EResult where
  | LOW | COMPLETE | OVER | None
deriving DecidableEq, Repr

inductive ESessionState where
  | Login | InGame | None
deriving DecidableEq, Repr

/-- A well-formed packet of the wire format: total size, symbol and payload,
where the whole packet fits the receive buffer. -/
structure Packet where
  symbol : UInt16
  payload : List UInt8
  fits : payload.length + 4 ≤ BUFSIZE

namespace Packet

/-- The total size the header declares. -/
def size (p : Packet) : Nat := p.payload.length + 4

def bytes (p : Packet) : List UInt8 :=
  bytes16 p.size ++ bytes16 p.symbol.toNat ++ p.payload

variable {p q : Packet} {rest rest' : List UInt8}

@[simp] theorem length_bytes : p.bytes.length = p.size := by
  simp [bytes, size]
  omega

theorem four_le_size : 4 ≤ p.size := by
  simp [size]

theorem size_lt : p.size < 65536 := by
  have := p.fits
  simp only [size, BUFSIZE] at *
  omega

theorem bytes16_injective {a b : Nat} (ha : a < 65536) (hb : b < 65536)
    (h : bytes16 a = bytes16 b) : a = b := by
  simp only [bytes16, List.cons.injEq, and_true, ← UInt8.toNat_inj, UInt8.toNat_ofNat'] at h
  omega

/-- The header announces where a packet ends, so two streams that agree start
with the same packet. -/
theorem eq_of_bytes_append (h : p.bytes ++ rest = q.bytes ++ rest') : p = q ∧ rest = rest' := by
  have hsize : p.size = q.size := by
    simp only [bytes, List.append_assoc] at h
    exact bytes16_injective size_lt size_lt (List.append_inj_left h rfl)
  obtain ⟨hbytes, hrest⟩ := List.append_inj h (by simpa using hsize)
  refine ⟨?_, hrest⟩
  simp only [bytes, List.append_assoc] at hbytes
  obtain ⟨hsymbol, hpayload⟩ := List.append_inj (List.append_inj_right hbytes rfl) rfl
  have hsym := bytes16_injective p.symbol.toNat_lt q.symbol.toNat_lt hsymbol
  cases p
  cases q
  simp_all [UInt16.toNat_inj]

end Packet

/-- The byte stream of a packet list. -/
def wire (ps : List Packet) : List UInt8 := ps.flatMap Packet.bytes

@[simp] theorem wire_nil : wire [] = [] := rfl

@[simp] theorem wire_cons (p : Packet) (ps : List Packet) : wire (p :: ps) = p.bytes ++ wire ps := rfl

@[simp] theorem wire_append (ps qs : List Packet) : wire (ps ++ qs) = wire ps ++ wire qs :=
  List.flatMap_append

/-- Framing is unambiguous: packets that fill the front of a stream are the
first packets of that stream. -/
theorem packets_of_wire_append {qs ps : List Packet} {rest : List UInt8}
    (h : wire qs ++ rest <+: wire ps) : ∃ todo, ps = qs ++ todo ∧ rest <+: wire todo := by
  induction qs generalizing ps with
  | nil => exact ⟨ps, rfl, by simpa using h⟩
  | cons q qs ih =>
    cases ps with
    | nil =>
      have hlen := h.length_le
      have := q.four_le_size
      simp at hlen
      omega
    | cons p ps =>
      obtain ⟨tail, htail⟩ := h
      simp only [wire_cons, List.append_assoc] at htail
      obtain ⟨rfl, hrest⟩ := Packet.eq_of_bytes_append htail
      obtain ⟨todo, rfl, htodo⟩ := ih ⟨tail, by simpa using hrest⟩
      exact ⟨todo, rfl, htodo⟩

end AsioGameServer

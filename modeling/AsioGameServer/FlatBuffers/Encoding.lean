import AsioGameServer.FlatBuffers.Sizes
import AsioGameServer.Session.Write

open ByteMemory

namespace AsioGameServer.flatbuffers

/-- `SendBuffer::SendPacket::Packet`, as it lies in memory. -/
structure SendPacket where
  size : UInt16
  symbol : UInt16
  data_buffer : List UInt8

/-- The constructor of `SendBuffer` from the bytes of a finished builder, over what the
new buffer's memory held before. The size is stored in 16 bits, and `memcpy` is
defined only within `data_buffer`. -/
def SendPacket.new (memory : List UInt8) (symbol : UInt16) (bytes : List UInt8) : Option SendPacket :=
  if bytes.length ≤ BUFSIZE then
    some ⟨.ofNat (bytes.length + 4), symbol, bytes ++ memory.drop bytes.length⟩
  else none

/-- The bytes that `do_write` sends of a packet: `packet.size` of them from
`start_pointer` on. -/
def SendPacket.sent (p : SendPacket) : List UInt8 :=
  (bytes16 p.size.toNat ++ bytes16 p.symbol.toNat ++ p.data_buffer).take p.size.toNat

/-- A finished builder is encoded faithfully, whatever its bytes: the packet's size is
not truncated, the bytes are copied within the packet, and the header and the bytes
are what is sent. -/
def Faithful {τ : Type} (fbb : FlatBufferBuilder τ) : Prop :=
  ∀ memory symbol, ∀ bytes : List UInt8, bytes.length = fbb.GetSize →
    ∃ p, SendPacket.new memory symbol bytes = some p ∧ p.size.toNat = fbb.GetSize + 4 ∧
      ∃ fits, p.sent = session.SendBuffer.bytes ⟨symbol, bytes, fits⟩

/-- The case `CHATTING_ALL` of `InGameState::On_Read`: the name of the sender and the
message of the packet, if it has one. -/
def chattingAll (nickname : List UInt8) (message : Option (List UInt8)) : FlatBufferBuilder FB.Chat :=
  let fbb := FlatBufferBuilder.new.CreateString nickname.length
  let fbb := message.elim fbb fun message => fbb.CreateString message.length
  let (fbb, chat) := (FB.ChatBuilder.new fbb |>.add_nick nickname |>.add_message message).Finish
  fbb.Finish [chat]

/-- The name and the fields of a character in `Character::Make_Fbb_Character`. -/
def characterFields (ch : CharacterStatus) : FB.CharacterBuilder :=
  FB.CharacterBuilder.new (FlatBufferBuilder.new.CreateString ch.nickname.length)
    |>.add_code ch.code
    |>.add_type ch.characterTypeCode
    |>.add_nick ch.nickname
    |>.add_level ch.level
    |>.add_position ch.position
    |>.add_hp ch.maxHP
    |>.add_power ch.power
    |>.add_speed ch.maxSpeed
    |>.add_mapcode ch.mapKey

/-- `Character::Make_Fbb_Character`. -/
def Make_Fbb_Character (ch : CharacterStatus) : FlatBufferBuilder FB.Character :=
  let (fbb, offsetchar) := (characterFields ch).Finish
  fbb.Finish [offsetchar]

/-- The size of a chat packet's buffer by the lengths of its strings. -/
def chatLength (nickname : Nat) : Option Nat → Nat
  | some message => up (nickname + 1) + up (message + 1) + 32
  | none => up (nickname + 1) + 24

/-- The size of the buffer of one character. -/
def characterLength (ch : CharacterStatus) : Nat :=
  up (ch.nickname.length + 1) + ch.fieldBytes + stored (ch.mapKey == 0) 4 +
    up (max ch.lastField (stored (ch.mapKey == 0) 22) + 2) + 28

variable {τ : Type} {fbb : FlatBufferBuilder τ}

/-- A buffer is encoded faithfully exactly where `data_buffer` has room for it. -/
theorem faithful_iff : Faithful fbb ↔ fbb.GetSize ≤ BUFSIZE := by
  constructor
  · intro h
    obtain ⟨_, hnew, _⟩ := h [] 0 (List.replicate fbb.GetSize 0) List.length_replicate
    obtain ⟨hroom, _⟩ := Option.ite_none_right_eq_some.mp hnew
    rwa [List.length_replicate] at hroom
  · intro hroom memory symbol bytes hbytes
    have hfits : bytes.length ≤ BUFSIZE := hbytes ▸ hroom
    have hsize : (UInt16.ofNat (bytes.length + 4)).toNat = bytes.length + 4 := by
      rw [UInt16.toNat_ofNat']
      apply Nat.mod_eq_of_lt
      have hbufsize : BUFSIZE = 2048 := rfl
      omega
    refine ⟨_, if_pos hfits, by rw [hsize, hbytes], hfits, ?_⟩
    have hheader : (bytes16 (bytes.length + 4) ++ bytes16 symbol.toNat ++ bytes).length = bytes.length + 4 := by
      simp
      omega
    rw [SendPacket.sent]
    dsimp only
    rw [hsize, ← List.append_assoc, List.take_left' hheader]
    rfl

open FlatBufferBuilder

/-- A buffer whose root is its only table. -/
theorem size_Finish_table {b : FlatBufferBuilder τ} {last : Nat} (start : Nat) (table : τ) (root : List Nat)
    (hminalign : b.minalign_ = 4) (hscratch : b.scratch = []) (hlast : b.max_voffset_ = last) (hwide : 2 ≤ last) :
    (((b.EndTable start).addTable table).1.Finish root).GetSize = up b.size + up (last + 2) + 8 := by
  obtain ⟨hsize, _⟩ := EndTable_of_fields start hscratch hlast hwide rfl
  have hmin : ((b.EndTable start).addTable table).1.minalign_ = 4 := by
    simp [addTable, hminalign]
  have htable : ((b.EndTable start).addTable table).1.size = up b.size + 4 + (last + 2) := hsize
  rw [Finish_eq hmin, htable]
  have haligned := up_mod b.size
  simp only [GetSize]
  rw [Nat.add_comm _ (last + 2), up_add (by omega)]
  omega

/-- The fields of a chat packet, after its strings. -/
theorem chat_fields {b : FlatBufferBuilder FB.Chat} (h : b.size % 4 = 0) (hminalign : b.minalign_ = 4)
    (hfields : b.max_voffset_ = 0) (hscratch : b.scratch = []) (nickname : List UInt8)
    (message : Option (List UInt8)) (root : List Nat) :
    (((FB.ChatBuilder.new b |>.add_nick nickname |>.add_message message).Finish).1.Finish root).GetSize =
      b.size + stored message.isNone 4 + 20 := by
  let chat := FB.ChatBuilder.new b |>.add_nick nickname |>.add_message message
  have hsize : up chat.fbb_.size = b.size + stored message.isNone 4 + 4 := by
    simp only [chat, FB.ChatBuilder.new, FB.ChatBuilder.add_nick, FB.ChatBuilder.add_message]
    rw [up_AddOffset, up_AddOffset, up_eq_self h, stored, if_neg Bool.false_ne_true]
    omega
  have hlast : chat.fbb_.max_voffset_ = max 4 (stored message.isNone 6) := by
    simp [chat, FB.ChatBuilder.new, FB.ChatBuilder.add_nick, FB.ChatBuilder.add_message, hfields, stored]
  have hvtable : up (max 4 (stored message.isNone 6) + 2) = 8 := by
    generalize message.isNone = isDefault
    revert isDefault
    decide
  have hfinish := size_Finish_table chat.start_ chat.table root (b := chat.fbb_)
    (by simp [chat, FB.ChatBuilder.new, FB.ChatBuilder.add_nick, FB.ChatBuilder.add_message, hminalign,
      max_stored])
    (by simp [chat, FB.ChatBuilder.new, FB.ChatBuilder.add_nick, FB.ChatBuilder.add_message, hscratch])
    hlast (by omega)
  rw [hsize, hvtable] at hfinish
  exact hfinish

theorem chattingAll_size (nickname : List UInt8) (message : Option (List UInt8)) :
    (chattingAll nickname message).GetSize = chatLength nickname.length (message.map List.length) := by
  have hnick : (new.CreateString nickname.length : FlatBufferBuilder FB.Chat).size =
      up (nickname.length + 1) + 4 := by
    rw [size_CreateString rfl]
    exact Nat.add_right_cancel_iff.mpr (Nat.zero_add _)
  have haligned := up_mod (nickname.length + 1)
  cases message with
  | none =>
    have hchat := chat_fields (b := new.CreateString nickname.length) (by omega) (by simp [new]) rfl rfl
      nickname none [0]
    rw [hnick] at hchat
    exact hchat
  | some message =>
    have hmessage : ((new.CreateString nickname.length).CreateString message.length :
        FlatBufferBuilder FB.Chat).size = up (nickname.length + 1) + 4 + up (message.length + 1) + 4 := by
      rw [size_CreateString (by omega), hnick]
    have hrest := up_mod (message.length + 1)
    have hchat := chat_fields (b := (new.CreateString nickname.length).CreateString message.length)
      (by omega) (by simp [new]) rfl rfl nickname (some message) [0]
    rw [hmessage] at hchat
    refine hchat.trans ?_
    simp only [chatLength, Option.map_some, stored, Option.isNone_some, Bool.false_eq_true, ↓reduceIte]
    omega

/-- The fields of a character packet, after its name. -/
theorem characterFields_fields (ch : CharacterStatus) :
    up (characterFields ch).fbb_.size =
        up (ch.nickname.length + 1) + ch.fieldBytes + stored (ch.mapKey == 0) 4 + 20 ∧
      (characterFields ch).fbb_.minalign_ = 4 ∧
      (characterFields ch).fbb_.max_voffset_ = max ch.lastField (stored (ch.mapKey == 0) 22) ∧
      (characterFields ch).fbb_.scratch = [] := by
  have hstring : (new.CreateString ch.nickname.length : FlatBufferBuilder FB.Character).size =
      up (ch.nickname.length + 1) + 4 := by
    rw [size_CreateString rfl]
    exact Nat.add_right_cancel_iff.mpr (Nat.zero_add _)
  have hrest : (new.CreateString ch.nickname.length : FlatBufferBuilder FB.Character).size % 4 = 0 := by
    have := up_mod (ch.nickname.length + 1)
    omega
  have hcode : ((new.CreateString ch.nickname.length : FlatBufferBuilder FB.Character).AddElement 4 4
      (ch.code == 0)).size % 4 = 0 := aligned_AddElement_four hrest
  have hfields : (new : FlatBufferBuilder FB.Character).max_voffset_ = 0 := rfl
  simp only [characterFields, FB.CharacterBuilder.new, FB.CharacterBuilder.add_code,
    FB.CharacterBuilder.add_type, FB.CharacterBuilder.add_hp, FB.CharacterBuilder.add_level,
    FB.CharacterBuilder.add_nick, FB.CharacterBuilder.add_power, FB.CharacterBuilder.add_speed,
    FB.CharacterBuilder.add_position, FB.CharacterBuilder.add_mapcode]
  refine ⟨?_, ?_, ?_, ?_⟩
  · rw [up_AddElement_four, up_AddElement_four, up_AddElement_four, up_AddElement_four, up_AddStruct,
      up_AddElement_four, up_AddOffset, up_AddElement_one hcode, up_AddElement_four, up_eq_self hrest, hstring]
    simp only [CharacterStatus.fieldBytes, stored, Bool.false_eq_true, ↓reduceIte]
    omega
  · simp [max_stored, new]
  · simp only [max_voffset_AddStruct, max_voffset_AddElement, max_voffset_AddOffset,
      max_voffset_CreateString, hfields, CharacterStatus.lastField]
    generalize (ch.code == 0) = code, (ch.characterTypeCode == 0) = type, ch.maxHP.isZero = hp,
      (ch.level == 0) = level, ch.power.isZero = power, ch.maxSpeed.isZero = speed, (ch.mapKey == 0) = mapcode
    revert code type hp level power speed mapcode
    decide
  · simp [new]

theorem Make_Fbb_Character_size (ch : CharacterStatus) :
    (Make_Fbb_Character ch).GetSize = characterLength ch := by
  obtain ⟨hsize, hminalign, hlast, hscratch⟩ := characterFields_fields ch
  have hwide : 10 ≤ ch.lastField := Nat.le_max_left _ _
  have hfinish := size_Finish_table (characterFields ch).start_ (characterFields ch).table [0] hminalign
    hscratch hlast (by omega)
  refine hfinish.trans ?_
  rw [hsize, characterLength]
  omega

/-- The packets that carry a name, a message or a slice of a snapshot are encoded
faithfully exactly where their buffers, whose sizes follow from the lengths of these,
fit in `data_buffer`. Nothing else limits them. -/
theorem packets_faithful_iff {slice : Int} (hslice : 1 ≤ slice) (nickname : List UInt8)
    (message : Option (List UInt8)) (ch : CharacterStatus) (characters : List (Int × Option CharacterStatus)) :
    (Faithful (chattingAll nickname message) ↔
      chatLength nickname.length (message.map List.length) ≤ BUFSIZE) ∧
    (Faithful (Make_Fbb_Character ch) ↔ characterLength ch ≤ BUFSIZE) ∧
    ((∀ fbb ∈ (Make_FBB_All_CharacterInfo characters slice).2, Faithful fbb) ↔
      ∀ k, snapshotLength (Slices.nthSlice slice (characters.filterMap Prod.snd) k) ≤ BUFSIZE) := by
  refine ⟨by rw [faithful_iff, chattingAll_size], by rw [faithful_iff, Make_Fbb_Character_size], ?_⟩
  obtain ⟨slices, _, _, hnth, hrun⟩ := Slices.run_spec addCharacterInfo hslice characters
  rw [Make_FBB_All_CharacterInfo, hrun]
  have hbuilt : ∀ c, Faithful (Slices.built addCharacterInfo c).1 ↔ snapshotLength c ≤ BUFSIZE := by
    intro c
    rw [faithful_iff, GetSize, (built_size c).1]
  constructor
  · intro h k
    rw [← hnth]
    cases hget : slices[k]? with
    | none => exact Nat.zero_le _
    | some c =>
      by_cases hempty : c = []
      · subst hempty
        exact Nat.zero_le _
      · refine (hbuilt c).mp (h _ ?_)
        refine List.mem_flatMap.mpr ⟨c, List.mem_of_getElem? hget, ?_⟩
        exact List.mem_replicate.mpr ⟨fun hzero => hempty (List.eq_nil_of_length_eq_zero hzero), rfl⟩
  · intro h fbb hfbb
    obtain ⟨c, hc, hfbb⟩ := List.mem_flatMap.mp hfbb
    obtain ⟨k, hget⟩ := List.mem_iff_getElem?.mp hc
    have hfits := h k
    rw [← hnth, hget, Option.getD_some] at hfits
    rw [List.eq_of_mem_replicate hfbb]
    exact (hbuilt c).mpr hfits

/-- A name and a message of one byte, one character and a snapshot of it are encoded
faithfully. -/
theorem short_packets_faithful :
    (1 : Int) ≤ 10 ∧ Faithful (chattingAll [97] (some [98])) ∧ Faithful (Make_Fbb_Character (nameless 7)) ∧
      ∀ fbb ∈ (Make_FBB_All_CharacterInfo [(7, some (nameless 7))] 10).2, Faithful fbb := by
  have hslice : (1 : Int) ≤ 10 := by decide
  obtain ⟨hchat, hcharacter, hslices⟩ := packets_faithful_iff hslice [97] (some [98]) (nameless 7)
    [(7, some (nameless 7))]
  refine ⟨hslice, hchat.mpr (by decide), hcharacter.mpr (by decide), hslices.mpr fun k => ?_⟩
  cases k with
  | zero => decide
  | succ k =>
    have hbeyond : (k + 1) * Int.toNat 10 ≥ 1 := Nat.le_trans (by decide) (Nat.le_mul_of_pos_left _ k.succ_pos)
    rw [Slices.nthSlice, List.drop_of_length_le hbeyond, List.take_nil]
    exact Nat.zero_le _

/-- A message of 2000 bytes, which a client can send in a packet of no more than
`BUFSIZE` bytes, is copied beyond the end of `data_buffer` once the name of its sender,
of 20 bytes, is added. -/
theorem long_message_overflows :
    let message : List UInt8 := List.replicate 2000 97
    let request := (FB.ChatBuilder.new (FlatBufferBuilder.new.CreateString message.length)
      |>.add_message (some message)).Finish
    (request.1.Finish [request.2]).GetSize + 4 ≤ BUFSIZE ∧
      (∀ memory symbol, ∀ bytes : List UInt8,
        bytes.length = (chattingAll (List.replicate 20 98) (some message)).GetSize →
        SendPacket.new memory symbol bytes = none) ∧
      ¬ Faithful (chattingAll (List.replicate 20 98) (some message)) := by
  have hsize : (chattingAll (List.replicate 20 98) (some (List.replicate 2000 97))).GetSize = 2060 := by
    rw [chattingAll_size, List.length_replicate, Option.map_some, List.length_replicate]
    rfl
  have hoverflow : ¬ 2060 ≤ BUFSIZE := by decide
  refine ⟨by decide +kernel, fun memory symbol bytes hbytes => ?_, fun h => ?_⟩
  · rw [hsize] at hbytes
    exact if_neg (hbytes ▸ hoverflow)
  · rw [faithful_iff, hsize] at h
    exact hoverflow h

end AsioGameServer.flatbuffers

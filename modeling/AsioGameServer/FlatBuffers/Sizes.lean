import Mathlib.Tactic.Ring
import AsioGameServer.FlatBuffers.Partition

namespace AsioGameServer.flatbuffers

/-- A size rounded up to a multiple of 4. -/
def up (n : Nat) : Nat := (n + 3) / 4 * 4

/-- The padding brings a size to the next multiple of four. -/
theorem add_PaddingBytes_four (n : Nat) : n + PaddingBytes n 4 = up n := by
  unfold PaddingBytes up
  omega

/-- A size that was rounded up is a multiple of four. -/
theorem up_mod (n : Nat) : up n % 4 = 0 := by
  unfold up
  omega

/-- A multiple of four stays as it is. -/
theorem up_eq_self {n : Nat} (h : n % 4 = 0) : up n = n := by
  unfold up
  omega

/-- A multiple of four can be taken out of what is rounded. -/
theorem up_add {m n : Nat} (h : n % 4 = 0) : up (m + n) = up m + n := by
  unfold up
  omega

/-- The bytes a field takes that is stored unless it has its default value. -/
def stored (isDefault : Bool) (bytes : Nat) : Nat := if isDefault then 0 else bytes

/-- A field takes no more than its width. -/
theorem stored_le (n : Nat) (isDefault : Bool) : stored isDefault n ≤ n := by
  unfold stored
  split <;> omega

theorem max_stored {m n : Nat} {isDefault : Bool} (h : n ≤ m) : max m (stored isDefault n) = m :=
  Nat.max_eq_left (Nat.le_trans (stored_le n isDefault) h)

namespace FlatBufferBuilder

variable {τ : Type} {b : FlatBufferBuilder τ} {field start len : Nat} {isDefault : Bool}

/-- A builder between two objects that has room for no vtable it has seen, none of
whose elements is wider than 4 bytes. -/
structure Resting (b : FlatBufferBuilder τ) : Prop where
  aligned : b.size % 4 = 0
  minalign : b.minalign_ ≤ 4
  fields : b.max_voffset_ = 0
  scratch : b.scratch = []

theorem resting_new : (new : FlatBufferBuilder τ).Resting := ⟨rfl, Nat.le_of_ble_eq_true rfl, rfl, rfl⟩

section Elements

/-- An element of four bytes is aligned first. -/
theorem size_PushElement : (b.PushElement 4).size = up b.size + 4 := by
  rw [← add_PaddingBytes_four]
  rfl

/-- An offset takes the same place as an element of four bytes: to align twice is to align once. -/
theorem size_PushOffset : b.PushOffset.size = up b.size + 4 := by
  rw [PushOffset, size_PushElement, Nat.add_right_cancel_iff, ← up_eq_self (up_mod b.size),
    ← add_PaddingBytes_four b.size]
  rfl

/-- What a field of 4 bytes adds, padding apart. -/
theorem up_AddElement_four :
    up (b.AddElement field 4 isDefault).size = up b.size + stored isDefault 4 := by
  unfold AddElement
  cases isDefault with
  | true => rfl
  | false =>
    have hsize : ((b.PushElement 4).TrackField field (b.PushElement 4).GetSize).size = up b.size + 4 :=
      size_PushElement
    rw [if_neg Bool.false_ne_true, hsize, stored, if_neg Bool.false_ne_true]
    exact up_eq_self (by rw [Nat.add_mod_right, up_mod])

/-- A field of four bytes leaves the buffer aligned, also where it is skipped. -/
theorem aligned_AddElement_four (h : b.size % 4 = 0) : (b.AddElement field 4 isDefault).size % 4 = 0 := by
  unfold AddElement
  split
  · exact h
  · have hsize : ((b.PushElement 4).TrackField field (b.PushElement 4).GetSize).size = up b.size + 4 :=
      size_PushElement
    rw [hsize, Nat.add_mod_right, up_mod]

/-- A field of 1 byte takes 4 with the padding after it. -/
theorem up_AddElement_one (h : b.size % 4 = 0) :
    up (b.AddElement field 1 isDefault).size = up b.size + stored isDefault 4 := by
  unfold AddElement
  cases isDefault with
  | true => rfl
  | false =>
    have hsize : ((b.PushElement 1).TrackField field (b.PushElement 1).GetSize).size = b.size + 1 := by
      simp [PushElement, TrackField, Align, fill, TrackMinAlign, PaddingBytes, Nat.mod_one]
    rw [if_neg Bool.false_ne_true, hsize, stored, if_neg Bool.false_ne_true]
    unfold up at *
    omega

/-- What an offset adds to the rounded size. -/
theorem up_AddOffset : up (b.AddOffset field isDefault).size = up b.size + stored isDefault 4 := by
  unfold AddOffset
  cases isDefault with
  | true => rfl
  | false =>
    have halign : (b.Align 4).size = up b.size := add_PaddingBytes_four b.size
    rw [if_neg Bool.false_ne_true, up_AddElement_four, halign, up_eq_self (up_mod b.size)]

/-- What a struct of three floats adds to the rounded size. -/
theorem up_AddStruct : up (b.AddStruct field 12 4).size = up b.size + 12 := by
  have hsize : (b.AddStruct field 12 4).size = up b.size + 12 := by
    rw [← add_PaddingBytes_four]
    rfl
  rw [hsize]
  exact up_eq_self (by have := up_mod b.size; omega)

@[simp] theorem max_voffset_AddElement {width : Nat} :
    (b.AddElement field width isDefault).max_voffset_ = max b.max_voffset_ (stored isDefault field) := by
  unfold AddElement stored
  cases isDefault <;> simp [TrackField, PushElement, Align, fill, TrackMinAlign]

@[simp] theorem max_voffset_AddOffset :
    (b.AddOffset field isDefault).max_voffset_ = max b.max_voffset_ (stored isDefault field) := by
  unfold AddOffset
  cases isDefault with
  | true => simp [stored]
  | false =>
    rw [if_neg Bool.false_ne_true, max_voffset_AddElement]
    rfl

@[simp] theorem max_voffset_AddStruct {bytes alignment : Nat} :
    (b.AddStruct field bytes alignment).max_voffset_ = max b.max_voffset_ field := rfl

@[simp] theorem minalign_AddElement {width : Nat} :
    (b.AddElement field width isDefault).minalign_ = max b.minalign_ (stored isDefault width) := by
  unfold AddElement stored
  cases isDefault <;> simp [TrackField, PushElement, Align, fill, TrackMinAlign]

@[simp] theorem minalign_AddOffset :
    (b.AddOffset field isDefault).minalign_ = max b.minalign_ (stored isDefault 4) := by
  unfold AddOffset
  cases isDefault with
  | true => simp [stored]
  | false =>
    rw [if_neg Bool.false_ne_true, minalign_AddElement, stored, if_neg Bool.false_ne_true]
    simp [Align, fill, TrackMinAlign]

@[simp] theorem minalign_AddStruct {bytes alignment : Nat} :
    (b.AddStruct field bytes alignment).minalign_ = max b.minalign_ alignment := rfl

@[simp] theorem scratch_AddElement {width : Nat} :
    (b.AddElement field width isDefault).scratch = b.scratch := by
  unfold AddElement
  split <;> rfl

@[simp] theorem scratch_AddOffset : (b.AddOffset field isDefault).scratch = b.scratch := by
  unfold AddOffset
  split
  · rfl
  · rw [scratch_AddElement]
    rfl

@[simp] theorem scratch_AddStruct {bytes alignment : Nat} :
    (b.AddStruct field bytes alignment).scratch = b.scratch := rfl

end Elements

section Objects

/-- The end of a table whose vtable has a size of its own. -/
theorem EndTable_of_new (start : Nat) (hnew : ∀ vt ∈ b.scratch, vt.head? ≠ some b.vtableSize) :
    (b.EndTable start).size = up b.size + 4 + b.vtableSize ∧
      ∃ vt, vt.head? = some b.vtableSize ∧ (b.EndTable start).scratch = b.scratch ++ [vt] := by
  have hnot : (b.PushElement 4).vtable start (b.PushElement 4).GetSize ∉ (b.PushElement 4).scratch :=
    fun hmem => hnew _ hmem rfl
  unfold EndTable
  simp only [hnot, ↓reduceIte]
  refine ⟨?_, _, rfl, rfl⟩
  rw [← size_PushElement]
  rfl

@[simp] theorem max_voffset_EndTable : (b.EndTable start).max_voffset_ = 0 := rfl

@[simp] theorem minalign_EndTable : (b.EndTable start).minalign_ = max b.minalign_ 4 := by
  unfold EndTable
  dsimp only
  split <;> rfl

/-- A string takes its bytes and a terminator, rounded up, and four bytes for its length. -/
theorem size_CreateString (h : b.size % 4 = 0) : (b.CreateString len).size = b.size + up (len + 1) + 4 := by
  have hpadded : (((b.PreAlign (len + 1) 4).fill 1).fill len).size = up (b.size + (len + 1)) := by
    rw [← add_PaddingBytes_four]
    simp only [PreAlign, fill, TrackMinAlign]
    omega
  rw [CreateString, size_PushElement, hpadded, up_eq_self (up_mod _), Nat.add_comm b.size, up_add h,
    Nat.add_comm b.size]

@[simp] theorem minalign_CreateString : (b.CreateString len).minalign_ = max b.minalign_ 4 := by
  simp [CreateString, PreAlign, fill, TrackMinAlign, PushElement, Align]

@[simp] theorem max_voffset_CreateString : (b.CreateString len).max_voffset_ = b.max_voffset_ := rfl

@[simp] theorem scratch_CreateString : (b.CreateString len).scratch = b.scratch := rfl

/-- The offsets of a vector leave everything but the size alone. -/
theorem repeat_PushOffset {b : FlatBufferBuilder τ} (h : b.size % 4 = 0) (hminalign : b.minalign_ = 4)
    (len : Nat) :
    Nat.repeat PushOffset len b = { b with size := b.size + 4 * len } := by
  induction len with
  | zero => rfl
  | succ len ih =>
    have hsize : ({ b with size := b.size + 4 * len } : FlatBufferBuilder τ).PushOffset.size =
        b.size + 4 * (len + 1) := by
      rw [size_PushOffset, up_eq_self (by dsimp only; omega), Nat.mul_succ, ← Nat.add_assoc]
    rw [Nat.repeat, ih, ← hsize]
    simp [PushOffset, PushElement, Align, fill, TrackMinAlign, hminalign]

/-- A vector takes four bytes for each offset and four for its length. The two alignments before
it are one. -/
theorem CreateVector_eq (hminalign : b.minalign_ = 4) :
    b.CreateVector len = { b with size := up b.size + 4 * len + 4 } := by
  have hpadded : (b.PreAlign (len * 4) 4).PreAlign (len * 4) 4 = { b with size := up b.size } := by
    have hsize : b.size + PaddingBytes (b.size + len * 4) 4 +
        PaddingBytes (b.size + PaddingBytes (b.size + len * 4) 4 + len * 4) 4 = up b.size := by
      unfold PaddingBytes up
      omega
    rw [← hsize]
    simp [PreAlign, fill, TrackMinAlign, hminalign]
  have hvector : Nat.repeat PushOffset len ({ b with size := up b.size } : FlatBufferBuilder τ) =
      { b with size := up b.size + 4 * len } :=
    repeat_PushOffset (b := { b with size := up b.size }) (up_mod b.size) hminalign len
  have hlength : (({ b with size := up b.size + 4 * len } : FlatBufferBuilder τ).PushElement 4).size =
      up b.size + 4 * len + 4 := by
    rw [size_PushElement, up_eq_self]
    have := up_mod b.size
    dsimp only
    omega
  rw [CreateVector, hpadded, hvector, ← hlength]
  simp [PushElement, Align, fill, TrackMinAlign, hminalign]

/-- `Finish` writes the offset of the root, and forgets the vtables. -/
theorem Finish_eq (hminalign : b.minalign_ = 4) (root : List Nat) :
    b.Finish root = { b with size := up b.size + 4, scratch := [], root } := by
  have hsize : (({ b with scratch := [] } : FlatBufferBuilder τ).PreAlign 4 b.minalign_).size = up b.size := by
    rw [hminalign]
    simp only [PreAlign, fill, TrackMinAlign, PaddingBytes, up]
    omega
  have hfinished : (({ b with scratch := [] } : FlatBufferBuilder τ).PreAlign 4 b.minalign_).PushOffset.size =
      up b.size + 4 := by
    rw [size_PushOffset, hsize, up_eq_self (up_mod _)]
  rw [Finish, ← hfinished]
  simp [PreAlign, PushOffset, PushElement, Align, fill, TrackMinAlign, hminalign]

end Objects

/-- A table of some fields, after a string, in a builder that knows no vtable. -/
theorem EndTable_of_fields {last bytes : Nat} (start : Nat) (hscratch : b.scratch = []) (hlast : b.max_voffset_ = last)
    (hwide : 2 ≤ last) (hsize : up b.size = bytes) :
    (b.EndTable start).size = bytes + 4 + (last + 2) ∧
      ∃ vt, vt.head? = some (last + 2) ∧ (b.EndTable start).scratch = [vt] := by
  have hvtable : b.vtableSize = last + 2 := by
    rw [vtableSize, hlast]
    omega
  have hend := EndTable_of_new (b := b) start (by simp [hscratch])
  rwa [hvtable, hsize, hscratch] at hend

end FlatBufferBuilder

/-- The bytes of a character's fields, apart from the name and the position, which are
always stored. -/
def CharacterStatus.fieldBytes (ch : CharacterStatus) : Nat :=
  stored (ch.code == 0) 4 + stored (ch.characterTypeCode == 0) 4 + stored ch.maxHP.isZero 4 +
    stored (ch.level == 0) 4 + stored ch.power.isZero 4 + stored ch.maxSpeed.isZero 4

theorem CharacterStatus.fieldBytes_mod (ch : CharacterStatus) : ch.fieldBytes % 4 = 0 := by
  have hword : ∀ isDefault, 4 ∣ stored isDefault 4 := by decide
  apply Nat.mod_eq_zero_of_dvd
  unfold fieldBytes
  iterate 5 refine Nat.dvd_add ?_ (hword _)
  exact hword _

/-- The last field of a character that is stored. -/
def CharacterStatus.lastField (ch : CharacterStatus) : Nat :=
  max 10 (max (stored (ch.level == 0) 12) (max (stored ch.maxHP.isZero 14)
    (max (stored ch.power.isZero 16) (stored ch.maxSpeed.isZero 20))))

/-- What one character adds to the buffer of its slice, apart from the offsets of the
vector. -/
def CharacterStatus.snapshotBytes (ch : CharacterStatus) : Nat :=
  up (ch.nickname.length + 1) + ch.fieldBytes + up (ch.lastField + 2) + 48

/-- The size of the finished buffer of a slice. The buffer is finished after each
member, each time with a vector of all members so far. -/
def snapshotLength (members : List CharacterStatus) : Nat :=
  (members.map CharacterStatus.snapshotBytes).sum + 2 * members.length * (members.length + 1)

open FlatBufferBuilder

/-- The fields of a character in a builder that knows no vtable. -/
theorem characterInfo_fields {b : FlatBufferBuilder FB.Character} (h : b.Resting) (ch : CharacterStatus) :
    up (characterInfo ch b).fbb_.size =
        b.size + up (ch.nickname.length + 1) + ch.fieldBytes + 20 ∧
      (characterInfo ch b).fbb_.minalign_ = 4 ∧ (characterInfo ch b).fbb_.max_voffset_ = ch.lastField ∧
      (characterInfo ch b).fbb_.scratch = [] := by
  obtain ⟨haligned, hminalign, hfields, hscratch⟩ := h
  have hstring : (b.CreateString ch.nickname.length).size = b.size + up (ch.nickname.length + 1) + 4 :=
    size_CreateString haligned
  have hrest : (b.CreateString ch.nickname.length).size % 4 = 0 := by
    have := up_mod (ch.nickname.length + 1)
    omega
  have hcode : ((b.CreateString ch.nickname.length).AddElement 4 4 (ch.code == 0)).size % 4 = 0 :=
    aligned_AddElement_four hrest
  simp only [characterInfo, FB.CharacterBuilder.new, FB.CharacterBuilder.add_code,
    FB.CharacterBuilder.add_type, FB.CharacterBuilder.add_hp, FB.CharacterBuilder.add_level,
    FB.CharacterBuilder.add_nick, FB.CharacterBuilder.add_power, FB.CharacterBuilder.add_speed,
    FB.CharacterBuilder.add_position]
  refine ⟨?_, ?_, ?_, ?_⟩
  · rw [up_AddStruct, up_AddElement_four, up_AddElement_four, up_AddOffset, up_AddElement_four,
      up_AddElement_four, up_AddElement_one hcode, up_AddElement_four, up_eq_self hrest, hstring]
    simp only [CharacterStatus.fieldBytes, stored, Bool.false_eq_true, ↓reduceIte]
    omega
  · simp [Nat.max_eq_right hminalign, max_stored]
  · simp only [max_voffset_AddStruct, max_voffset_AddElement, max_voffset_AddOffset,
      max_voffset_CreateString, hfields, CharacterStatus.lastField]
    generalize (ch.code == 0) = code, (ch.characterTypeCode == 0) = type, ch.maxHP.isZero = hp,
      (ch.level == 0) = level, ch.power.isZero = power, ch.maxSpeed.isZero = speed
    revert code type hp level power speed
    decide
  · simp [hscratch]

/-- The vector of a slice becomes the root of its builder, whose only vtable is larger
than that of the vector's table. -/
theorem finish_size {τ : Type} {b : FlatBufferBuilder τ} {vt : List Nat} {large : Nat}
    (hminalign : b.minalign_ = 4) (hfields : b.max_voffset_ = 0) (hscratch : b.scratch = [vt])
    (hvt : vt.head? = some large) (hlarge : 6 < large) (vec : List Nat) :
    (Slices.finish b vec).size = up b.size + 4 * vec.length + 24 ∧ (Slices.finish b vec).Resting := by
  let vector : FlatBufferBuilder τ := { b with size := up b.size + 4 * vec.length + 4 }
  have hvector : b.CreateVector vec.length = vector := CreateVector_eq hminalign
  have hvtable : (vector.AddOffset 4 false).vtableSize = 6 := by
    simp [vtableSize, vector, hfields, stored]
  have hnew : ∀ known ∈ (vector.AddOffset 4 false).scratch,
      known.head? ≠ some (vector.AddOffset 4 false).vtableSize := by
    intro known hknown
    rw [scratch_AddOffset] at hknown
    have hsame : known = vt := by simpa [vector, hscratch] using hknown
    rw [hvtable, hsame, hvt, ne_eq, Option.some.injEq]
    omega
  obtain ⟨hsize, _⟩ := EndTable_of_new vector.GetSize hnew
  have hmin : (FB.CreateVec vector).minalign_ = 4 := by
    simp [FB.CreateVec, vector, hminalign, stored]
  have hroot : up (FB.CreateVec vector).size + 4 = up b.size + 4 * vec.length + 24 := by
    have haligned := up_mod b.size
    have hvec : up vector.size = up b.size + 4 * vec.length + 4 := up_eq_self (by dsimp only [vector]; omega)
    have hsix : (FB.CreateVec vector).size = up vector.size + 4 + 4 + 6 := by
      rw [FB.CreateVec, hsize, up_AddOffset, hvtable, stored, if_neg Bool.false_ne_true]
    rw [hsix, hvec]
    unfold up at *
    omega
  rw [Slices.finish, hvector, Finish_eq hmin, hroot]
  refine ⟨rfl, ?_, Nat.le_of_eq hmin, rfl, rfl⟩
  have haligned := up_mod b.size
  dsimp only
  omega

/-- The size of the finished buffer of a slice. -/
theorem built_size (members : List CharacterStatus) :
    (Slices.built addCharacterInfo members).1.size = snapshotLength members ∧
      (Slices.built addCharacterInfo members).1.Resting := by
  suffices h : (Slices.built addCharacterInfo members).1.size = snapshotLength members ∧
      (Slices.built addCharacterInfo members).1.Resting ∧
      (Slices.built addCharacterInfo members).2.length = members.length from ⟨h.1, h.2.1⟩
  induction members using List.reverseRecOn with
  | nil => exact ⟨rfl, resting_new, rfl⟩
  | append_singleton members ch ih =>
    obtain ⟨hsize, hresting, hlength⟩ := ih
    obtain ⟨hbytes, hminalign, hlast, hscratch⟩ := characterInfo_fields hresting ch
    have hwide : 10 ≤ ch.lastField := Nat.le_max_left _ _
    obtain ⟨hend, vt, hvt, hknown⟩ := EndTable_of_fields
      (characterInfo ch (Slices.built addCharacterInfo members).1).start_ hscratch hlast (by omega) hbytes
    rw [Slices.built_concat]
    have hfinish := finish_size (b := (addCharacterInfo ch (Slices.built addCharacterInfo members).1).1)
      (by simp [addCharacterInfo, FB.CharacterBuilder.Finish, addTable, hminalign]) rfl hknown hvt (by omega)
      ((Slices.built addCharacterInfo members).2 ++
        [(addCharacterInfo ch (Slices.built addCharacterInfo members).1).2])
    have htable : (addCharacterInfo ch (Slices.built addCharacterInfo members).1).1.size =
        ((characterInfo ch (Slices.built addCharacterInfo members).1).fbb_.EndTable
          (characterInfo ch (Slices.built addCharacterInfo members).1).start_).size := rfl
    refine ⟨?_, hfinish.2, by simp [hlength]⟩
    rw [hfinish.1, htable, hend, hsize, List.length_append, hlength, List.length_singleton]
    have haligned : snapshotLength members % 4 = 0 := hsize ▸ hresting.aligned
    have hfields := ch.fieldBytes_mod
    have hnick := up_mod (ch.nickname.length + 1)
    have hround : up (snapshotLength members + up (ch.nickname.length + 1) + ch.fieldBytes + 20 + 4 +
        (ch.lastField + 2)) =
        snapshotLength members + up (ch.nickname.length + 1) + ch.fieldBytes + 24 + up (ch.lastField + 2) := by
      rw [Nat.add_comm _ (ch.lastField + 2), up_add (by omega)]
      omega
    have hoffsets : 2 * (members.length + 1) * (members.length + 1 + 1) =
        2 * members.length * (members.length + 1) + 4 * (members.length + 1) := by ring
    rw [hround]
    simp only [snapshotLength, List.map_append, List.map_singleton, List.sum_append, List.sum_singleton,
      List.length_append, List.length_singleton, hoffsets, CharacterStatus.snapshotBytes]
    omega

end AsioGameServer.flatbuffers

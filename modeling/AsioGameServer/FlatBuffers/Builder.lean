import Mathlib.Data.List.Basic
import Mathlib.Tactic.Common

namespace AsioGameServer.flatbuffers

/-- A 32-bit `float` by its bits. -/
abbrev float := UInt32

/-- `x == 0.0f`, which holds of both zeros. -/
def float.isZero (x : float) : Bool := x &&& 0x7FFFFFFF == 0

/-- The value that is read from a field a `float` was added to: a zero is not stored. -/
def float.stored (x : float) : float := if x.isZero then 0 else x

/-- The zero bytes that align a buffer of `buf_size` bytes to `scalar_size`. -/
def PaddingBytes (buf_size scalar_size : Nat) : Nat := (scalar_size - buf_size % scalar_size) % scalar_size

/-- Where a field of the table under construction was stored. -/
structure FieldLoc where
  off : Nat
  id : Nat
deriving DecidableEq, Repr

/-- A `FlatBufferBuilder` whose buffer is given by its size and by what can be read
from it: the tables that were added and the ones that the last `Finish` made
reachable from the root. An offset is the position of a table. The scratch area
holds the vtables written since the last `Finish`. -/
structure FlatBufferBuilder (τ : Type) where
  size : Nat
  minalign_ : Nat
  max_voffset_ : Nat
  field_locs : List FieldLoc
  scratch : List (List Nat)
  tables : List τ
  root : List Nat

namespace FlatBufferBuilder

variable {τ : Type}

/-- The constructor. Its initial capacity has no influence on the contents. -/
def new : FlatBufferBuilder τ := ⟨0, 1, 0, [], [], [], []⟩

/-- The bytes written so far. What is written last lies in front, so that this is also the
position of the next object from the end of the buffer. -/
def GetSize (b : FlatBufferBuilder τ) : Nat := b.size

/-- The tables found from the root of the finished buffer, in order. -/
def contents (b : FlatBufferBuilder τ) : List τ := b.root.filterMap (b.tables[·]?)

/-- The largest alignment that anything in the buffer asked for. `Finish` aligns the whole buffer
to it. -/
def TrackMinAlign (b : FlatBufferBuilder τ) (elem_size : Nat) : FlatBufferBuilder τ :=
  { b with minalign_ := max b.minalign_ elem_size }

/-- Writes bytes in front of the ones that are there. -/
def fill (b : FlatBufferBuilder τ) (bytes : Nat) : FlatBufferBuilder τ := { b with size := b.size + bytes }

/-- `Align`, which pads the buffer before an element of `elem_size` bytes is written. -/
def Align (b : FlatBufferBuilder τ) (elem_size : Nat) : FlatBufferBuilder τ :=
  (b.TrackMinAlign elem_size).fill (PaddingBytes b.size elem_size)

/-- `PreAlign`, which pads the buffer so that it is aligned once `len` more bytes were written. -/
def PreAlign (b : FlatBufferBuilder τ) (len alignment : Nat) : FlatBufferBuilder τ :=
  (b.TrackMinAlign alignment).fill (PaddingBytes (b.size + len) alignment)

/-- `PushElement` of a scalar of `width` bytes. -/
def PushElement (b : FlatBufferBuilder τ) (width : Nat) : FlatBufferBuilder τ := (b.Align width).fill width

/-- `PushElement` of an offset: `ReferTo` aligns before it computes the distance. -/
def PushOffset (b : FlatBufferBuilder τ) : FlatBufferBuilder τ := (b.Align 4).PushElement 4

/-- Where a field of the open table is, for the vtable that `EndTable` writes. -/
def TrackField (b : FlatBufferBuilder τ) (field off : Nat) : FlatBufferBuilder τ :=
  { b with field_locs := b.field_locs ++ [⟨off, field⟩], max_voffset_ := max b.max_voffset_ field }

/-- `AddElement`, which skips a field that has its default value. -/
def AddElement (field width : Nat) (isDefault : Bool) (b : FlatBufferBuilder τ) : FlatBufferBuilder τ :=
  if isDefault then b
  else
    let b := b.PushElement width
    b.TrackField field b.GetSize

/-- `AddOffset`, which skips a null offset. The distance it stores is never 0. -/
def AddOffset (field : Nat) (isNull : Bool) (b : FlatBufferBuilder τ) : FlatBufferBuilder τ :=
  if isNull then b else (b.Align 4).AddElement field 4 false

/-- `AddStruct` of a struct of `bytes` bytes. -/
def AddStruct (field bytes alignment : Nat) (b : FlatBufferBuilder τ) : FlatBufferBuilder τ :=
  let b := (b.Align alignment).fill bytes
  b.TrackField field b.GetSize

/-- The size of the vtable: the largest field is the last one in it. -/
def vtableSize (b : FlatBufferBuilder τ) : Nat := max (b.max_voffset_ + 2) 4

/-- The vtable of a table that ends at `vtableoffsetloc`: its own size, the size of
the table and the position of each field, 0 for one that was not stored. -/
def vtable (b : FlatBufferBuilder τ) (start vtableoffsetloc : Nat) : List Nat :=
  b.vtableSize :: (vtableoffsetloc - start) :: (List.range (b.vtableSize / 2 - 2)).map fun i =>
    ((b.field_locs.find? (·.id == 2 * i + 4)).map (vtableoffsetloc - ·.off)).getD 0

/-- `EndTable` of a table that began at size `start`. A vtable that the scratch area
knows is not written again. -/
def EndTable (b : FlatBufferBuilder τ) (start : Nat) : FlatBufferBuilder τ :=
  let b := b.PushElement 4
  let vt := b.vtable start b.GetSize
  let written := if vt ∈ b.scratch then b else { b.fill b.vtableSize with scratch := b.scratch ++ [vt] }
  { written with field_locs := [], max_voffset_ := 0 }

/-- A string of `len` bytes with its terminator and length. -/
def CreateString (b : FlatBufferBuilder τ) (len : Nat) : FlatBufferBuilder τ :=
  (((b.PreAlign (len + 1) 4).fill 1).fill len).PushElement 4

/-- A vector of `len` offsets with its length. -/
def CreateVector (b : FlatBufferBuilder τ) (len : Nat) : FlatBufferBuilder τ :=
  (Nat.repeat PushOffset len ((b.PreAlign (len * 4) 4).PreAlign (len * 4) 4)).PushElement 4

/-- `Finish`, after which the given tables are found from the root. -/
def Finish (b : FlatBufferBuilder τ) (root : List Nat) : FlatBufferBuilder τ :=
  { (({ b with scratch := [] }).PreAlign 4 b.minalign_).PushOffset with root }

/-- The table that the last `EndTable` ended, and its offset. -/
def addTable (b : FlatBufferBuilder τ) (table : τ) : FlatBufferBuilder τ × Nat :=
  ({ b with tables := b.tables ++ [table] }, b.tables.length)

section Tables

variable {b : FlatBufferBuilder τ}

/-- Only `addTable` adds tables. The lemmas of this section say so of each of the other
operations, so that what is read from a buffer follows from the calls of `addTable` alone. -/
@[simp] theorem tables_PushElement (width : Nat) : (b.PushElement width).tables = b.tables := rfl

/-- A field is part of the open table, whether it is stored or skipped as a default. -/
@[simp] theorem tables_AddElement {field width : Nat} {isDefault : Bool} :
    (b.AddElement field width isDefault).tables = b.tables := by
  unfold AddElement
  split <;> rfl

/-- The offset of a nested object is a field like any other. -/
@[simp] theorem tables_AddOffset {field : Nat} {isNull : Bool} :
    (b.AddOffset field isNull).tables = b.tables := by
  unfold AddOffset
  split
  · rfl
  · rw [tables_AddElement]
    rfl

@[simp] theorem tables_AddStruct {field bytes alignment : Nat} :
    (b.AddStruct field bytes alignment).tables = b.tables := rfl

/-- `EndTable` writes a vtable or reuses one. Which table it ended is said by `addTable`. -/
@[simp] theorem tables_EndTable {start : Nat} : (b.EndTable start).tables = b.tables := by
  unfold EndTable
  dsimp only
  split <;> rfl

@[simp] theorem tables_CreateString {len : Nat} : (b.CreateString len).tables = b.tables := rfl

/-- The loop over the elements of a vector of offsets, by induction on their number. -/
theorem tables_repeat_PushOffset (len : Nat) : (Nat.repeat PushOffset len b).tables = b.tables := by
  induction len with
  | zero => rfl
  | succ len ih => exact ih

@[simp] theorem tables_CreateVector {len : Nat} : (b.CreateVector len).tables = b.tables := by
  rw [CreateVector, tables_PushElement, tables_repeat_PushOffset]
  rfl

@[simp] theorem tables_Finish {root : List Nat} : (b.Finish root).tables = b.tables := rfl

/-- A buffer whose root is its only table. -/
theorem contents_Finish_addTable (hempty : b.tables = []) (table : τ) :
    ((b.addTable table).1.Finish [(b.addTable table).2]).contents = [table] := by
  have hroot : ((b.addTable table).1.Finish [(b.addTable table).2]).root = [b.tables.length] := rfl
  have htables : ((b.addTable table).1.Finish [(b.addTable table).2]).tables = b.tables ++ [table] := rfl
  rw [contents, hroot, htables, hempty]
  rfl

end Tables

end FlatBufferBuilder

end AsioGameServer.flatbuffers

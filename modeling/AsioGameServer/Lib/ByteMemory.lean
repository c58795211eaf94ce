import Mathlib.Data.List.Basic
import Mathlib.Tactic.Common

namespace ByteMemory

/-- A flat memory, addressed from the start of the object it describes. -/
abbrev Memory := Nat → UInt8

/-- The `len` bytes from offset `off` on. -/
def read (m : Memory) (off len : Nat) : List UInt8 :=
  (List.range len).map fun i => m (off + i)

/-- Stores `bytes` from offset `off` on. -/
def write (m : Memory) (off : Nat) (bytes : List UInt8) : Memory := fun i =>
  if off ≤ i ∧ i < off + bytes.length then bytes.getD (i - off) 0 else m i

/-- The C `memmove`: the source range is read before the target is written. -/
def memmove (m : Memory) (dst src len : Nat) : Memory := fun i =>
  if dst ≤ i ∧ i < dst + len then m (src + (i - dst)) else m i

/-- The little-endian 16-bit number stored at offset `off`. -/
def read16 (m : Memory) (off : Nat) : Nat :=
  (m off).toNat + 256 * (m (off + 1)).toNat

/-- The two bytes of a 16-bit number, low byte first. -/
def bytes16 (n : Nat) : List UInt8 :=
  [UInt8.ofNat n, UInt8.ofNat (n / 256)]

variable {m m' : Memory} {off dst src len k : Nat} {bytes : List UInt8}

@[simp] theorem length_read : (read m off len).length = len := by
  simp [read]

@[simp] theorem length_bytes16 (n : Nat) : (bytes16 n).length = 2 := rfl

@[simp] theorem getElem_read (i : Nat) (h : i < (read m off len).length) :
    (read m off len)[i] = m (off + i) := by
  simp [read]

@[simp] theorem read_zero : read m off 0 = [] := rfl

/-- A range can be read in two parts. -/
theorem read_add (a b : Nat) : read m off (a + b) = read m off a ++ read m (off + a) b := by
  simp [read, List.range_add, Nat.add_assoc, Function.comp_def]

/-- What is dropped in front moves the start of the range. -/
theorem drop_read : (read m off len).drop k = read m (off + k) (len - k) := by
  apply List.ext_getElem
  · simp
  · intro i _ _
    simp [Nat.add_assoc]

/-- What is taken in front shortens the range. -/
theorem take_read : (read m off len).take k = read m off (min k len) := by
  apply List.ext_getElem
  · simp
  · intro i _ _
    simp

/-- Reading depends only on the bytes of the range. -/
theorem read_congr (h : ∀ i, off ≤ i → i < off + len → m i = m' i) :
    read m off len = read m' off len := by
  apply List.ext_getElem
  · simp
  · intro i hi _
    simp only [length_read] at hi
    simpa using h (off + i) (by omega) (by omega)

@[simp] theorem read_write_self : read (write m off bytes) off bytes.length = bytes := by
  apply List.ext_getElem
  · simp
  · intro i _ hi
    simp [write, hi]

/-- A write does not reach what lies in front of it. -/
theorem read_write_before (h : dst + len ≤ off) :
    read (write m off bytes) dst len = read m dst len := by
  apply read_congr
  intro i _ hi
  simp only [write]
  rw [if_neg (by omega)]

/-- Appending to a buffer extends what has been read from its start. -/
theorem read_write_append :
    read (write m off bytes) 0 (off + bytes.length) = read m 0 off ++ bytes := by
  rw [read_add, Nat.zero_add, read_write_self, read_write_before (by omega)]

/-- The bytes that were moved, also where the ranges overlap. -/
theorem read_memmove (h : k ≤ len) : read (memmove m dst src len) dst k = read m src k := by
  apply List.ext_getElem
  · simp
  · intro i hi _
    simp only [length_read] at hi
    simp [memmove, show i < len by omega]

/-- A move does not reach what lies behind its destination. -/
theorem memmove_of_le (h : dst + len ≤ k) : memmove m dst src len k = m k := by
  simp only [memmove]
  rw [if_neg (by omega)]

@[simp] theorem memmove_self : memmove m off off len = m := by
  funext i
  simp only [memmove]
  split
  · congr 1
    omega
  · rfl

/-- Two bytes hold a number below 65536. -/
theorem read16_lt : read16 m off < 65536 := by
  have hlo := (m off).toNat_lt
  have hhi := (m (off + 1)).toNat_lt
  simp only [read16]
  omega

/-- A number depends on its two bytes. -/
theorem read16_congr (hlo : m off = m' off) (hhi : m (off + 1) = m' (off + 1)) :
    read16 m off = read16 m' off := by
  simp only [read16, hlo, hhi]

/-- A stored 16-bit number is read back. -/
theorem read16_of_read {n : Nat} (hn : n < 65536) (h : read m off 2 = bytes16 n) :
    read16 m off = n := by
  simp only [read, bytes16, List.range_succ, List.range_zero, List.nil_append, List.map_cons,
    List.map_nil, List.cons_append, Nat.add_zero, List.cons.injEq] at h
  obtain ⟨hlo, hhi, _⟩ := h
  simp only [read16, hlo, hhi, UInt8.toNat_ofNat']
  omega

@[simp] theorem read_one : read m off 1 = [m off] := by
  simp [read]

/-- Moving bytes that agree with a stored 16-bit number to the front of it leaves
the number unchanged, even when only its low byte is moved. -/
theorem read16_memmove_of_agree {n : Nat} (hn : n < 65536) (hlen : 0 < len)
    (hstored : read m 0 2 = bytes16 n) (hmoved : (read m src len).take 2 <+: bytes16 n) :
    read16 (memmove m 0 src len) 0 = n := by
  rw [take_read] at hmoved
  by_cases hone : len = 1
  · subst hone
    have hlow : m src = m 0 := by
      have hread : read m 0 1 = (bytes16 n).take 1 := by rw [← hstored, take_read]; rfl
      simp only [read_one, bytes16, List.take_succ_cons, List.take_zero, List.cons.injEq,
        and_true] at hread
      obtain ⟨tail, htail⟩ := hmoved
      simp only [show min 2 1 = 1 by rfl, read_one, bytes16, List.cons_append,
        List.cons.injEq] at htail
      exact htail.1.trans hread.symm
    rw [← read16_of_read hn hstored]
    apply read16_congr
    · simpa [memmove] using hlow
    · exact memmove_of_le (by omega)
  · have htwo : min 2 len = 2 := by omega
    rw [htwo] at hmoved
    have heq : read m src 2 = bytes16 n := hmoved.eq_of_length (by simp)
    apply read16_of_read hn
    rw [read_memmove (by omega), heq]

end ByteMemory

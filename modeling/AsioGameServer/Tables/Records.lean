import AsioGameServer.Monster.Manager
import AsioGameServer.Tables.Cells

open Function Rows

namespace AsioGameServer.tables

open monster (Damage Range)
open status (StatusInfo)

variable {F β : Type} (fmt : Format F)

/-- The loop that writes floats over the members of a record of some size, one after the other. -/
def overlay (size : Nat) : (i : Nat) → Row → (Nat → F) → Except Fault (Nat → F)
  | _, [], temp => .ok temp
  | i, (_, text) :: cells, temp =>
    match fmt.stof text with
    | none => .error .thrown
    | some x => if i < size then overlay size (i + 1) cells (update temp i x) else .error .undefined

/-- A row whose cells from an offset on fill a record. The members that they do not reach have
the values that the memory holds. -/
def readRecord (size offset : Nat) (build : (Nat → F) → β) (memory : Row → Nat → F) (row : Row) :
    Except Fault (Int × β) := do
  let temp ← overlay fmt size 0 (row.drop offset) (memory row)
  let code ← stoi (← cell row 0)
  return (code, build temp)

section Tables

def StatusInfo.ofFloats (temp : Nat → F) : StatusInfo F :=
  ⟨temp 0, temp 1, temp 2, temp 3, temp 4, temp 5, temp 6, temp 7, temp 8, temp 9⟩

def Damage.ofFloats (temp : Nat → F) : Damage F :=
  ⟨temp 0, temp 1, temp 2, temp 3, temp 4, temp 5, temp 6, temp 7, temp 8, temp 9, temp 10, temp 11⟩

def Range.ofFloats (temp : Nat → F) : Range F := ⟨temp 0, temp 1, temp 2, temp 3, temp 4, temp 5⟩

structure Item (F : Type) where
  itemName : String
  type : Int16
  hp : F
  mp : F
  power : F
  defense : F
  speed : F
  time : F
  price : F

def Item.ofFloats (itemName : String) (type : Int16) (temp : Nat → F) : Item F :=
  ⟨itemName, type, temp 0, temp 1, temp 2, temp 3, temp 4, temp 5, temp 6⟩

variable (memory : Row → Nat → F)

/-- A row of `CharacterTypeInfo`, whose second cell is not read. -/
def readStatus : Row → Except Fault (Int × StatusInfo F) := readRecord fmt 10 2 StatusInfo.ofFloats memory

/-- A row of `DamageFormula`. -/
def readDamage : Row → Except Fault (Int × Damage F) := readRecord fmt 12 1 Damage.ofFloats memory

/-- A row of `CharacterAttackRange`. -/
def readRange : Row → Except Fault (Int × Range F) := readRecord fmt 6 1 Range.ofFloats memory

/-- A row of `GetItemlist`. The enumeration has the size of a `short`. -/
def readItem (row : Row) : Except Fault (Int × Item F) := do
  let itemName ← cell row 1
  let type ← stoi (← cell row 2)
  let temp ← overlay fmt 7 0 (row.drop 3) (memory row)
  let code ← stoi (← cell row 0)
  return (code, Item.ofFloats itemName (Int16.ofInt type) temp)

end Tables

section Overlay

variable {fmt} {size i : Nat} {cells : Row} {temp temp' : Nat → F}

/-- What the loop has written, if it came to its end. -/
theorem overlay_ok (h : overlay fmt size i cells temp = .ok temp') :
    (cells ≠ [] → i + cells.length ≤ size) ∧
      (∀ j c, cells[j]? = some c → fmt.stof c.2 = some (temp' (i + j))) ∧
      ∀ j, j < i ∨ i + cells.length ≤ j → temp' j = temp j := by
  induction cells generalizing i temp with
  | nil =>
    cases h
    exact ⟨fun hne => absurd rfl hne, by simp, fun _ _ => rfl⟩
  | cons c cells ih =>
    rw [overlay] at h
    cases hx : fmt.stof c.2 with
    | none =>
      rw [hx] at h
      cases h
    | some x =>
      rw [hx] at h
      dsimp only at h
      split at h
      · rename_i hlt
        obtain ⟨hfits, hcells, hothers⟩ := ih h
        refine ⟨fun _ => ?_, fun j c' hc' => ?_, fun j hj => ?_⟩
        · cases cells with
          | nil => exact hlt
          | cons c' cells =>
            have hle := hfits (List.cons_ne_nil _ _)
            simp only [List.length_cons] at hle ⊢
            omega
        · cases j with
          | zero =>
            cases hc'
            rw [hx, Nat.add_zero, hothers i (.inl (Nat.lt_succ_self i)), update_self]
          | succ j =>
            rw [hcells j c' hc']
            congr 2
            omega
        · rw [List.length_cons] at hj
          rw [hothers j (by omega), update_of_ne (by omega)]
      · cases h

/-- It leaves the record exactly if the cells up to the first too many are read. -/
theorem overlay_undefined_iff (hi : i ≤ size) :
    overlay fmt size i cells temp = .error .undefined ↔
      size < i + cells.length ∧ ∀ c ∈ cells.take (size - i + 1), (fmt.stof c.2).isSome := by
  induction cells generalizing i temp with
  | nil =>
    constructor
    · exact fun h => absurd h (by simp [overlay])
    · exact fun h => absurd h.1 (by simpa using hi)
  | cons c cells ih =>
    rw [overlay, List.take_succ_cons, List.forall_mem_cons, List.length_cons]
    cases hx : fmt.stof c.2 with
    | none => simp
    | some x =>
      dsimp only
      split
      · rename_i hlt
        have hcount : size - i = size - (i + 1) + 1 := by omega
        have hlength : i + (cells.length + 1) = i + 1 + cells.length := by omega
        rw [ih (Nat.succ_le_of_lt hlt), hcount, hlength]
        exact ⟨fun h => ⟨h.1, rfl, h.2⟩, fun h => ⟨h.1, h.2.2⟩⟩
      · rename_i hnot
        have hcount : size - i = 0 := by omega
        rw [hcount]
        refine ⟨fun _ => ⟨by omega, rfl, by simp⟩, fun _ => rfl⟩

end Overlay

section Loads

variable {fmt} {size offset : Nat} {build : (Nat → F) → β} {memory : Row → Nat → F} {row : Row}

theorem cell_undefined_iff {i : Nat} : cell row i = .error .undefined ↔ row.length ≤ i := by
  unfold cell
  cases hcell : row[i]? with
  | none => simpa using hcell
  | some c =>
    obtain ⟨hlt, -⟩ := List.getElem?_eq_some_iff.mp hcell
    exact ⟨fun h => absurd h (by simp), fun h => absurd h (Nat.not_le_of_lt hlt)⟩

theorem cell_cases (row : Row) (i : Nat) : cell row i = .error .undefined ∨ ∃ text, cell row i = .ok text := by
  unfold cell
  split
  · exact .inl rfl
  · exact .inr ⟨_, rfl⟩

/-- The cells of a row from an offset on are more than a record has members, and no earlier
one is wrong. -/
def Overruns (fmt : Format F) (size offset : Nat) (row : Row) : Prop :=
  offset + size < row.length ∧ ∀ c ∈ (row.drop offset).take (size + 1), (fmt.stof c.2).isSome

theorem overlay_overruns_iff {temp : Nat → F} :
    overlay fmt size 0 (row.drop offset) temp = .error .undefined ↔ Overruns fmt size offset row := by
  rw [overlay_undefined_iff (Nat.zero_le _), Overruns, List.length_drop, Nat.zero_add, Nat.sub_zero]
  constructor
  · exact fun h => ⟨by omega, h.2⟩
  · exact fun h => ⟨by omega, h.2⟩

/-- `stoi` throws or has a result. -/
theorem stoi_ne_undefined (text : String) : stoi text ≠ .error .undefined := by
  unfold stoi
  split
  · simp
  · split <;> simp

/-- The key of a row is read last. -/
theorem key_undefined_iff {γ : Type} {f : Int → γ} :
    (do let code ← stoi (← cell row 0); return f code : Except Fault γ) = .error .undefined ↔ row = [] := by
  rw [Outcome.bind_eq_error_iff, cell_undefined_iff, Nat.le_zero, List.length_eq_zero_iff]
  refine ⟨fun h => h.resolve_right ?_, .inl⟩
  rintro ⟨text, _, h⟩
  obtain h | ⟨_, _, h⟩ := Outcome.bind_eq_error_iff.mp h
  · exact stoi_ne_undefined text h
  · cases h

theorem readRecord_undefined_iff :
    readRecord fmt size offset build memory row = .error .undefined ↔ row = [] ∨ Overruns fmt size offset row := by
  unfold readRecord
  rw [Outcome.bind_eq_error_iff, overlay_overruns_iff]
  constructor
  · rintro (hoverruns | ⟨temp, _, hkey⟩)
    · exact .inr hoverruns
    · exact .inl (key_undefined_iff.mp hkey)
  · rintro (rfl | hoverruns)
    · exact .inr ⟨memory [], by rw [List.drop_nil]; rfl, rfl⟩
    · exact .inl hoverruns

/-- The type of an item is read before its floats. -/
theorem readItem_undefined_iff :
    readItem fmt memory row = .error .undefined ↔
      row.length < 3 ∨ (∃ type, (cell row 2 >>= stoi) = .ok type) ∧ Overruns fmt 7 3 row := by
  unfold readItem
  constructor
  · intro h
    obtain hname | ⟨_, _, h⟩ := Outcome.bind_eq_error_iff.mp h
    · have hshort := cell_undefined_iff.mp hname
      exact .inl (by omega)
    · obtain htype | ⟨text, htext, h⟩ := Outcome.bind_eq_error_iff.mp h
      · have hshort := cell_undefined_iff.mp htype
        exact .inl (by omega)
      · obtain htype | ⟨type, htype, h⟩ := Outcome.bind_eq_error_iff.mp h
        · exact absurd htype (stoi_ne_undefined text)
        · obtain hoverruns | ⟨_, _, hkey⟩ := Outcome.bind_eq_error_iff.mp h
          · exact .inr ⟨⟨type, Outcome.bind_eq_ok_iff.mpr ⟨text, htext, htype⟩⟩, overlay_overruns_iff.mp hoverruns⟩
          · rw [key_undefined_iff.mp hkey]
            exact .inl (by decide)
  · intro h
    obtain hnone | ⟨itemName, hname⟩ := cell_cases row 1
    · exact Outcome.bind_eq_error_iff.mpr (.inl hnone)
    · refine Outcome.bind_eq_error_iff.mpr (.inr ⟨itemName, hname, Outcome.bind_eq_error_iff.mpr ?_⟩)
      obtain hshort | ⟨⟨type, htype⟩, hoverruns⟩ := h
      · exact .inl (cell_undefined_iff.mpr (by omega))
      · obtain ⟨text, htext, htype⟩ := Outcome.bind_eq_ok_iff.mp htype
        refine .inr ⟨text, htext, Outcome.bind_eq_error_iff.mpr (.inr ⟨type, htype, ?_⟩)⟩
        exact Outcome.bind_eq_error_iff.mpr (.inl (overlay_overruns_iff.mpr hoverruns))

/-- The loads that write floats over a record stay inside of it, and have a result, exactly if
no row that they get to lacks its key or has more readable cells than the record has members. -/
theorem loads_stay_inside (fmt : Format F) (memory : Row → Nat → F) (rows : Option (List Row)) :
    (loadTable (readStatus fmt memory) rows = .error .undefined ↔
      ∃ row, Reaches (readStatus fmt memory) (rows.getD []) row ∧ (row = [] ∨ Overruns fmt 10 2 row)) ∧
    (loadTable (readDamage fmt memory) rows = .error .undefined ↔
      ∃ row, Reaches (readDamage fmt memory) (rows.getD []) row ∧ (row = [] ∨ Overruns fmt 12 1 row)) ∧
    (loadTable (readRange fmt memory) rows = .error .undefined ↔
      ∃ row, Reaches (readRange fmt memory) (rows.getD []) row ∧ (row = [] ∨ Overruns fmt 6 1 row)) ∧
    (loadTable (readItem fmt memory) rows = .error .undefined ↔
      ∃ row, Reaches (readItem fmt memory) (rows.getD []) row ∧
        (row.length < 3 ∨ (∃ type, (cell row 2 >>= stoi) = .ok type) ∧ Overruns fmt 7 3 row)) := by
  refine ⟨?_, ?_, ?_, ?_⟩
  · simp only [loadTable_undefined_iff, readStatus, readRecord_undefined_iff]
  · simp only [loadTable_undefined_iff, readDamage, readRecord_undefined_iff]
  · simp only [loadTable_undefined_iff, readRange, readRecord_undefined_iff]
  · simp only [loadTable_undefined_iff, readItem_undefined_iff]

end Loads

end AsioGameServer.tables

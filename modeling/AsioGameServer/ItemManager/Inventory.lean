import AsioGameServer.Lib.Transition
import Mathlib.Data.List.FinRange
import Mathlib.Logic.Function.Basic
import Mathlib.Tactic.Common

open Function Transition

namespace AsioGameServer.inventory

variable {Item : Type} {maxSlotCount : Nat}

section Slots

structure Slot (Item : Type) where
  userItemKey : UInt64
  itemKey : Int32
  count : Int32
  itemInfo : Option Item
deriving DecidableEq, Repr

/-- The slots of an inventory are those from 1 to `maxSlotCount`, which the constructor sets to
30. A place here is one less. -/
structure Inventory (Item : Type) (maxSlotCount : Nat) where
  money : Int32
  slots : Fin maxSlotCount → Option (Slot Item)

/-- A row of a query: what `stoi` reads in each cell, where it does not throw. -/
abbrev Row := List (Option Int32)

/-- `stoi(row[i].second)`, which has no result for a cell that is not there. -/
def stoi (row : Row) (i : Nat) : Option Int32 := row[i]?.join

/-- An `int` that is assigned to a `UINT64`. -/
def UINT64 (n : Int32) : UInt64 := n.toInt64.toUInt64

theorem UINT64_inj {m n : Int32} (h : UINT64 m = UINT64 n) : m = n := by
  have hsame : m.toInt64 = n.toInt64 := by
    unfold UINT64 at h
    cases hm : m.toInt64 with
    | ofUInt64 x =>
      cases hn : n.toInt64 with
      | ofUInt64 y =>
        rw [hm, hn] at h
        exact congrArg _ h
  have hint : m.toInt64.toInt = n.toInt64.toInt := congrArg Int64.toInt hsame
  rw [Int32.toInt_toInt64, Int32.toInt_toInt64] at hint
  exact Int32.toInt_inj.mp hint

/-- What the callback of `SetInventory` works on. -/
structure Loading (Item : Type) (maxSlotCount : Nat) where
  slots : Fin maxSlotCount → Option (Slot Item)
  userItemKey_slot : Int32 → Option (Fin maxSlotCount)

namespace Loading

/-- One turn of the inner loop over a row. A key that is in the map stays with its slot. -/
def readSlot (row : Row) (l : Loading Item maxSlotCount) (i : Fin maxSlotCount) :
    Option (Loading Item maxSlotCount) := do
  let useritemkey ← stoi row (i + 2)
  if useritemkey ≠ 0 then
    return {
      slots := update l.slots i (some ⟨UINT64 useritemkey, 0, 0, none⟩)
      userItemKey_slot := update l.userItemKey_slot useritemkey (l.userItemKey_slot useritemkey <|> some i) }
  else return l

def readRow (l : Loading Item maxSlotCount) (row : Row) : Option (Loading Item maxSlotCount) :=
  (List.finRange maxSlotCount).foldlM (readSlot row) l

/-- The query for the items of all slots. -/
def query2 (slots : Fin maxSlotCount → Option (Slot Item)) : String :=
  "Select UserItems.UserItemCode, UserItems.ItemCode,UserItems.Count From UserItems WHERE " ++
    " or ".intercalate (((List.finRange maxSlotCount).filterMap slots).map fun slot =>
      "UserItems.UserItemCode = " ++ toString slot.userItemKey)

/-- One turn of the loop over the items. -/
def readItem (iteminfos : Int32 → Option Item) (l : Loading Item maxSlotCount) (row : Row) :
    Option (Loading Item maxSlotCount) := do
  let userItemKey ← stoi row 0
  match l.userItemKey_slot userItemKey with
  | none => return l
  | some i =>
    match l.slots i with
    | none => return l
    | some slot =>
      let itemKey ← stoi row 1
      let count ← stoi row 2
      return { l with slots := update l.slots i (some { slot with itemKey, count, itemInfo := iteminfos itemKey }) }

end Loading

namespace Inventory

/-- The callback of `SetInventory`, with the query for the items that it makes, if any. `table`
is what this query returns. What is thrown and what is not defined has no result. -/
def SetInventory (iteminfos : Int32 → Option Item) (result : Bool) (vec table : List Row)
    (inventory : Inventory Item maxSlotCount) : Option (Option String × Inventory Item maxSlotCount) :=
  if result then do
    let money ← stoi (← vec[0]?) 1
    let l ← vec.foldlM Loading.readRow ⟨inventory.slots, fun _ => none⟩
    if (List.finRange maxSlotCount).all fun i => (l.slots i).isNone then
      return (none, ⟨money, l.slots⟩)
    else do
      let l' ← table.foldlM (Loading.readItem iteminfos) l
      return (some (Loading.query2 l.slots), ⟨money, l'.slots⟩)
  else return (none, inventory)

end Inventory

end Slots

section FirstPhase

variable {l l' : Loading Item maxSlotCount} {row : Row}

/-- The item key that a row has for a slot. -/
def key (row : Row) (i : Fin maxSlotCount) : Int32 := (stoi row (i + 2)).getD 0

/-- The first of some slots that has a key in the row. -/
def firstOf (row : Row) (is : List (Fin maxSlotCount)) (k : Int32) : Option (Fin maxSlotCount) :=
  if k = 0 then none else is.find? fun i => key row i == k

/-- What is left where a row is read for some slots. -/
structure Read (row : Row) (l : Loading Item maxSlotCount) (is : List (Fin maxSlotCount))
    (l' : Loading Item maxSlotCount) : Prop where
  slots : ∀ i, l'.slots i = if i ∈ is ∧ key row i ≠ 0 then some ⟨UINT64 (key row i), 0, 0, none⟩ else l.slots i
  userItemKey_slot : ∀ k, l'.userItemKey_slot k = (l.userItemKey_slot k <|> firstOf row is k)

theorem read_readSlot {i : Fin maxSlotCount} (h : l.readSlot row i = some l') : Read row l [i] l' := by
  unfold Loading.readSlot at h
  obtain ⟨useritemkey, hstoi, h⟩ := Option.bind_eq_some_iff.mp h
  have hkey : key row i = useritemkey := by rw [key, hstoi, Option.getD_some]
  split at h
  · rename_i hne
    cases h
    refine ⟨fun j => ?_, fun k => ?_⟩
    · by_cases hj : j = i
      · subst hj
        simp [hkey, hne]
      · simp [hj]
    · by_cases hk : k = useritemkey
      · subst hk
        simp [firstOf, hne, hkey]
      · have hother : ¬ useritemkey = k := Ne.symm hk
        simp [firstOf, update_of_ne hk, hkey, hother]
  · rename_i heq
    cases h
    have hzero : key row i = 0 := hkey.trans (not_not.mp heq)
    refine ⟨fun j => ?_, fun k => ?_⟩
    · by_cases hj : j = i
      · subst hj
        simp [hzero]
      · simp [hj]
    · by_cases hk : k = 0
      · simp [firstOf, hk]
      · simp [firstOf, hk, hzero, Ne.symm hk]

theorem read_of_foldlM {is : List (Fin maxSlotCount)} (h : is.foldlM (Loading.readSlot row) l = some l') :
    Read row l is l' := by
  induction is generalizing l with
  | nil =>
    cases h
    exact ⟨fun i => by simp, fun k => by simp [firstOf]⟩
  | cons i is ih =>
    rw [List.foldlM_cons] at h
    obtain ⟨l₁, hfirst, hrest⟩ := Option.bind_eq_some_iff.mp h
    have hone : Read row l [i] l₁ := read_readSlot hfirst
    have hothers : Read row l₁ is l' := ih hrest
    refine ⟨fun j => ?_, fun k => ?_⟩
    · rw [hothers.slots, hone.slots]
      by_cases hzero : key row j = 0
      · simp [hzero]
      · by_cases hin : j ∈ is <;> simp [hzero, hin]
    · rw [hothers.userItemKey_slot, hone.userItemKey_slot]
      unfold firstOf
      by_cases hk : k = 0
      · simp [hk]
      · by_cases hkey : key row i = k
        · simp [hk, hkey]
        · simp [hk, hkey]

/-- A row fills the slots with a key, and each key stands for its first slot. -/
theorem read_readRow (h : l.readRow row = some l') : Read row l (List.finRange maxSlotCount) l' := read_of_foldlM h

/-- The first slot with a key. -/
theorem firstOf_eq_some_iff {k : Int32} (hk : k ≠ 0) {i : Fin maxSlotCount} :
    firstOf row (List.finRange maxSlotCount) k = some i ↔ key row i = k ∧ ∀ j < i, key row j ≠ k := by
  rw [firstOf, if_neg hk, List.find?_eq_some_iff_getElem]
  constructor
  · rintro ⟨hkey, n, hn, hget, hbefore⟩
    rw [List.getElem_finRange] at hget
    refine ⟨by simpa using hkey, fun j hj => ?_⟩
    have hlt : j.val < n := by
      rw [← hget] at hj
      exact hj
    have hother := hbefore j hlt
    simpa using hother
  · rintro ⟨hkey, hbefore⟩
    refine ⟨by simpa using hkey, i, by simp, by simp, fun n hn => ?_⟩
    have hother := hbefore ⟨n, hn.trans i.isLt⟩ hn
    simpa using hother

/-- Another slot with the key of a slot is the first. -/
theorem exists_first {i : Fin maxSlotCount} (hkey : key row i ≠ 0) :
    ∃ first ≤ i, key row first = key row i ∧ firstOf row (List.finRange maxSlotCount) (key row i) = some first := by
  have hsome : (firstOf row (List.finRange maxSlotCount) (key row i)).isSome := by
    rw [firstOf, if_neg hkey, List.find?_isSome]
    exact ⟨i, List.mem_finRange i, by simp⟩
  obtain ⟨first, hfirst⟩ := Option.isSome_iff_exists.mp hsome
  obtain ⟨hsame, hbefore⟩ := (firstOf_eq_some_iff hkey).mp hfirst
  exact ⟨first, le_of_not_gt fun hlt => hbefore i hlt rfl, hsame, hfirst⟩

end FirstPhase

section SecondPhase

variable {iteminfos : Int32 → Option Item} {l l' l₀ : Loading Item maxSlotCount} {row : Row} {table : List Row}

/-- A slot has the code, the count and the info of an item. -/
structure Carries (iteminfos : Int32 → Option Item) (slot : Slot Item) (item : Row) : Prop where
  itemKey : stoi item 1 = some slot.itemKey
  count : stoi item 2 = some slot.count
  itemInfo : slot.itemInfo = iteminfos slot.itemKey

/-- A slot after some items, where `slot` is what it was before: no item has its key, or it
carries one that has. -/
inductive Filled (iteminfos : Int32 → Option Item) (items : List Row) (k : Int32) (slot : Slot Item) :
    Slot Item → Prop where
  | empty (hnone : ∀ item ∈ items, stoi item 0 ≠ some k) : Filled iteminfos items k slot slot
  | item {slot' : Slot Item} {item : Row} (hitem : item ∈ items) (hkey : stoi item 0 = some k)
      (hsame : slot'.userItemKey = slot.userItemKey) (hcarries : Carries iteminfos slot' item) :
    Filled iteminfos items k slot slot'

theorem Filled.userItemKey {items : List Row} {k : Int32} {slot slot' : Slot Item}
    (h : Filled iteminfos items k slot slot') : slot'.userItemKey = slot.userItemKey := by
  cases h with
  | empty _ => rfl
  | item _ _ hsame _ => exact hsame

/-- An item with another key leaves a slot as it is. -/
theorem Filled.concat {items : List Row} {k : Int32} {slot slot' : Slot Item} {item : Row}
    (h : Filled iteminfos items k slot slot') (hother : stoi item 0 ≠ some k) :
    Filled iteminfos (items ++ [item]) k slot slot' := by
  cases h with
  | empty hnone =>
    refine .empty fun other hmem => ?_
    obtain hmem | hmem := List.mem_append.mp hmem
    · exact hnone other hmem
    · rw [List.mem_singleton.mp hmem]
      exact hother
  | item hitem hkey hsame hcarries => exact .item (List.mem_append_left _ hitem) hkey hsame hcarries

/-- What the items do to the slots. -/
structure Itemized (iteminfos : Int32 → Option Item) (l₀ : Loading Item maxSlotCount) (items : List Row)
    (l : Loading Item maxSlotCount) : Prop where
  userItemKey_slot : l.userItemKey_slot = l₀.userItemKey_slot
  other : ∀ i, (∀ k, l₀.userItemKey_slot k ≠ some i) → l.slots i = l₀.slots i
  filled : ∀ k i slot, l₀.userItemKey_slot k = some i → l₀.slots i = some slot →
    ∃ slot', l.slots i = some slot' ∧ Filled iteminfos items k slot slot'

theorem Itemized.readItem {items : List Row} {item : Row} (h : Itemized iteminfos l₀ items l)
    (hinj : ∀ k k' i, l₀.userItemKey_slot k = some i → l₀.userItemKey_slot k' = some i → k = k')
    (hnext : l.readItem iteminfos item = some l') : Itemized iteminfos l₀ (items ++ [item]) l' := by
  unfold Loading.readItem at hnext
  obtain ⟨k, hk, hnext⟩ := Option.bind_eq_some_iff.mp hnext
  have hunread : ∀ k', k' ≠ k → stoi item 0 ≠ some k' := by
    intro k' hne heq
    rw [hk] at heq
    exact hne (Option.some.inj heq).symm
  split at hnext
  · rename_i hnone
    cases hnext
    refine ⟨h.userItemKey_slot, h.other, fun k' i slot hplace hslot => ?_⟩
    obtain ⟨slot', hslot', hfilled⟩ := h.filled k' i slot hplace hslot
    refine ⟨slot', hslot', hfilled.concat (hunread k' ?_)⟩
    rintro rfl
    rw [h.userItemKey_slot, hplace] at hnone
    cases hnone
  · rename_i i₁ hplace₁
    rw [h.userItemKey_slot] at hplace₁
    split at hnext
    · rename_i hslot₁
      cases hnext
      refine ⟨h.userItemKey_slot, h.other, fun k' i slot hplace hslot => ?_⟩
      obtain ⟨slot', hslot', hfilled⟩ := h.filled k' i slot hplace hslot
      refine ⟨slot', hslot', hfilled.concat (hunread k' ?_)⟩
      rintro rfl
      obtain rfl := Option.some.inj (hplace.symm.trans hplace₁)
      rw [hslot'] at hslot₁
      cases hslot₁
    · rename_i slot₁ hslot₁
      obtain ⟨itemKey, hitemKey, hnext⟩ := Option.bind_eq_some_iff.mp hnext
      obtain ⟨count, hcount, hnext⟩ := Option.bind_eq_some_iff.mp hnext
      cases hnext
      refine ⟨h.userItemKey_slot, fun i hnot => ?_, fun k' i slot hplace hslot => ?_⟩
      · have hne : i ≠ i₁ := by
          rintro rfl
          exact hnot k hplace₁
        exact (update_of_ne hne _ _).trans (h.other i hnot)
      · obtain ⟨slot', hslot', hfilled⟩ := h.filled k' i slot hplace hslot
        by_cases hsame : k' = k
        · subst hsame
          obtain rfl := Option.some.inj (hplace.symm.trans hplace₁)
          obtain rfl := Option.some.inj (hslot'.symm.trans hslot₁)
          exact ⟨_, update_self _ _ _, .item (List.mem_append_right _ List.mem_cons_self) hk hfilled.userItemKey
            ⟨hitemKey, hcount, rfl⟩⟩
        · have hne : i ≠ i₁ := by
            rintro rfl
            exact hsame (hinj k' k i hplace hplace₁)
          exact ⟨slot', (update_of_ne hne _ _).trans hslot', hfilled.concat (hunread k' hsame)⟩

theorem itemized_of_foldlM (hinj : ∀ k k' i, l₀.userItemKey_slot k = some i → l₀.userItemKey_slot k' = some i → k = k')
    (h : table.foldlM (Loading.readItem iteminfos) l₀ = some l) : Itemized iteminfos l₀ table l := by
  apply (run_ofOption_iff.mpr h).invariant_trace (Itemized iteminfos l₀)
  · exact ⟨rfl, fun _ _ => rfl, fun k i slot _ hslot => ⟨slot, hslot, .empty (by simp)⟩⟩
  · intro past l item l' hpast hstep
    exact hpast.readItem hinj hstep

end SecondPhase

section Loading

variable {iteminfos : Int32 → Option Item} {inventory inventory' : Inventory Item maxSlotCount} {row : Row}
  {table : List Row} {query : Option String}

/-- A slot that a row has just filled. -/
def fresh (row : Row) (i : Fin maxSlotCount) : Slot Item := ⟨UINT64 (key row i), 0, 0, none⟩

/-- What a row and the items leave in a slot: what was there, a slot that is the first with its
key, or one that is not. -/
inductive Loaded (iteminfos : Int32 → Option Item) (inventory : Inventory Item maxSlotCount) (row : Row)
    (table : List Row) (i : Fin maxSlotCount) : Option (Slot Item) → Prop where
  | old (hkey : key row i = 0) : Loaded iteminfos inventory row table i (inventory.slots i)
  | first {slot : Slot Item} (hkey : key row i ≠ 0) (hfirst : ∀ j < i, key row j ≠ key row i)
      (hfilled : Filled iteminfos table (key row i) (fresh row i) slot) :
    Loaded iteminfos inventory row table i (some slot)
  | repeated {first : Fin maxSlotCount} (hkey : key row i ≠ 0) (hlt : first < i) (hsame : key row first = key row i) :
    Loaded iteminfos inventory row table i (some (fresh row i))

/-- The slots that a row has been read for, and what the map has of its keys. -/
theorem Read.slots_eq {l : Loading Item maxSlotCount}
    (h : Read row ⟨inventory.slots, fun _ => none⟩ (List.finRange maxSlotCount) l) (i : Fin maxSlotCount) :
    l.slots i = if key row i ≠ 0 then some (fresh row i) else inventory.slots i := by
  rw [h.slots]
  simp [fresh]

theorem Read.first {l : Loading Item maxSlotCount} {k : Int32} {i : Fin maxSlotCount}
    (h : Read row ⟨inventory.slots, fun _ => none⟩ (List.finRange maxSlotCount) l)
    (hplace : l.userItemKey_slot k = some i) : k ≠ 0 ∧ key row i = k ∧ ∀ j < i, key row j ≠ k := by
  have hfirst : firstOf row (List.finRange maxSlotCount) k = some i := by
    rw [h.userItemKey_slot] at hplace
    exact hplace
  have hne : k ≠ 0 := by
    rintro rfl
    rw [firstOf, if_pos rfl] at hfirst
    cases hfirst
  exact ⟨hne, (firstOf_eq_some_iff hne).mp hfirst⟩

/-- Both loops, one after the other. -/
theorem Itemized.loaded {l l' : Loading Item maxSlotCount} (h : Itemized iteminfos l table l')
    (hread : Read row ⟨inventory.slots, fun _ => none⟩ (List.finRange maxSlotCount) l) (i : Fin maxSlotCount) :
    Loaded iteminfos inventory row table i (l'.slots i) := by
  by_cases hkey : key row i = 0
  · have hother : l'.slots i = l.slots i := by
      apply h.other
      intro k hplace
      obtain ⟨hne, hki, _⟩ := hread.first hplace
      exact hne (hki.symm.trans hkey)
    rw [hother, hread.slots_eq, if_neg (not_not.mpr hkey)]
    exact .old hkey
  · have hslot : l.slots i = some (fresh row i) := by rw [hread.slots_eq, if_pos hkey]
    obtain ⟨first, hle, hsame, hfirst⟩ := exists_first hkey
    obtain rfl | hlt := eq_or_lt_of_le hle
    · have hplace : l.userItemKey_slot (key row first) = some first := by
        rw [hread.userItemKey_slot]
        exact hfirst
      obtain ⟨slot, hslot', hfilled⟩ := h.filled _ _ _ hplace hslot
      rw [hslot']
      exact .first hkey ((firstOf_eq_some_iff hkey).mp hfirst).2 hfilled
    · have hother : l'.slots i = l.slots i := by
        apply h.other
        intro k hplace
        obtain ⟨_, hki, hbefore⟩ := hread.first hplace
        exact hbefore first hlt (hsame.trans hki)
      rw [hother, hslot]
      exact .repeated hkey hlt hsame

theorem SetInventory_spec (h : inventory.SetInventory iteminfos true [row] table = some (query, inventory'))
    (i : Fin maxSlotCount) : Loaded iteminfos inventory row table i (inventory'.slots i) := by
  unfold Inventory.SetInventory at h
  rw [if_pos rfl] at h
  obtain ⟨cells, hcells, h⟩ := Option.bind_eq_some_iff.mp h
  obtain ⟨money, hmoney, h⟩ := Option.bind_eq_some_iff.mp h
  obtain ⟨l, hl, h⟩ := Option.bind_eq_some_iff.mp h
  have hrow : Loading.readRow ⟨inventory.slots, fun _ => none⟩ row = some l := by
    rw [List.foldlM_cons] at hl
    obtain ⟨l₁, hfirst, hrest⟩ := Option.bind_eq_some_iff.mp hl
    cases hrest
    exact hfirst
  have hread := read_readRow hrow
  split at h
  · -- No slot is filled, and no item is asked for.
    rename_i hall
    cases h
    have hnone : l.slots i = none := by simpa using List.all_eq_true.mp hall i (List.mem_finRange i)
    have hkey : key row i = 0 := by
      by_contra hkey
      rw [hread.slots_eq, if_pos hkey] at hnone
      cases hnone
    have hold : l.slots i = inventory.slots i := by rw [hread.slots_eq, if_neg (not_not.mpr hkey)]
    change Loaded iteminfos inventory row table i (l.slots i)
    rw [hold]
    exact .old hkey
  · obtain ⟨l', hl', h⟩ := Option.bind_eq_some_iff.mp h
    cases h
    have hinj : ∀ k k' i, l.userItemKey_slot k = some i → l.userItemKey_slot k' = some i → k = k' :=
      fun k k' i hk hk' => (hread.first hk).2.1.symm.trans (hread.first hk').2.1
    exact (itemized_of_foldlM hinj hl').loaded hread i

/-- The slots are those that have a key in the row, with this key and the item that it is of. -/
structure Exact (iteminfos : Int32 → Option Item) (row : Row) (table : List Row)
    (inventory' : Inventory Item maxSlotCount) : Prop where
  isSome_iff : ∀ i, (inventory'.slots i).isSome ↔ key row i ≠ 0
  userItemKey : ∀ i slot, inventory'.slots i = some slot → slot.userItemKey = UINT64 (key row i)
  items : ∀ i slot, inventory'.slots i = some slot → ∀ item ∈ table,
    (stoi item 0).map UINT64 = some slot.userItemKey → Carries iteminfos slot item

/-- No slot without a key is left from before, items of the same key are alike, and a key that
is there twice has only items that are nothing. -/
structure Loadable (iteminfos : Int32 → Option Item) (inventory : Inventory Item maxSlotCount) (row : Row)
    (table : List Row) : Prop where
  cleared : ∀ i, key row i = 0 → inventory.slots i = none
  alike : ∀ i : Fin maxSlotCount, key row i ≠ 0 → ∀ item ∈ table, ∀ item' ∈ table, stoi item 0 = some (key row i) →
    stoi item' 0 = some (key row i) → stoi item 1 = stoi item' 1 ∧ stoi item 2 = stoi item' 2
  repeated : ∀ i j : Fin maxSlotCount, i < j → key row j ≠ 0 → key row i = key row j → ∀ item ∈ table,
    stoi item 0 = some (key row j) → stoi item 1 = some 0 ∧ stoi item 2 = some 0 ∧ iteminfos 0 = none

theorem Loaded.of_key_eq_zero {i : Fin maxSlotCount} {found : Option (Slot Item)}
    (h : Loaded iteminfos inventory row table i found) (hkey : key row i = 0) : found = inventory.slots i := by
  cases h with
  | old _ => rfl
  | first hne _ _ | repeated hne _ _ => exact absurd hkey hne

theorem Loaded.of_key_ne_zero {i : Fin maxSlotCount} {found : Option (Slot Item)}
    (h : Loaded iteminfos inventory row table i found) (hkey : key row i ≠ 0) :
    ∃ slot, found = some slot ∧ slot.userItemKey = UINT64 (key row i) ∧
      ((∀ j < i, key row j ≠ key row i) ∧ Filled iteminfos table (key row i) (fresh row i) slot ∨
        (∃ j < i, key row j = key row i) ∧ slot = fresh row i) := by
  cases h with
  | old hzero => exact absurd hzero hkey
  | first _ hfirst hfilled => exact ⟨_, rfl, hfilled.userItemKey, .inl ⟨hfirst, hfilled⟩⟩
  | repeated _ hlt hsame => exact ⟨_, rfl, rfl, .inr ⟨⟨_, hlt, hsame⟩, rfl⟩⟩

/-- The items of a slot's key are those with the same `int`. -/
theorem map_UINT64_iff {item : Row} {k : Int32} :
    (stoi item 0).map UINT64 = some (UINT64 k) ↔ stoi item 0 = some k := by
  constructor
  · intro h
    obtain ⟨k', hk', hsame⟩ := Option.map_eq_some_iff.mp h
    rw [hk', UINT64_inj hsame]
  · intro h
    rw [h, Option.map_some]

theorem Exact.loadable (h : Exact iteminfos row table inventory')
    (hspec : ∀ i, Loaded iteminfos inventory row table i (inventory'.slots i)) :
    Loadable iteminfos inventory row table := by
  have hcarries : ∀ i : Fin maxSlotCount, key row i ≠ 0 → ∃ slot, inventory'.slots i = some slot ∧
      ∀ item ∈ table, stoi item 0 = some (key row i) → Carries iteminfos slot item := by
    intro i hkey
    obtain ⟨slot, hslot⟩ := Option.isSome_iff_exists.mp ((h.isSome_iff i).mpr hkey)
    refine ⟨slot, hslot, fun item hitem hcode => h.items i slot hslot item hitem ?_⟩
    rw [h.userItemKey i slot hslot]
    exact map_UINT64_iff.mpr hcode
  refine ⟨fun i hkey => ?_, fun i hkey item hitem item' hitem' hcode hcode' => ?_,
    fun i j hlt hkey hsame item hitem hcode => ?_⟩
  · have hnone : inventory'.slots i = none := by simpa [hkey] using h.isSome_iff i
    exact ((hspec i).of_key_eq_zero hkey).symm.trans hnone
  · obtain ⟨slot, _, hall⟩ := hcarries i hkey
    have hfirst := hall item hitem hcode
    have hsecond := hall item' hitem' hcode'
    exact ⟨hfirst.itemKey.trans hsecond.itemKey.symm, hfirst.count.trans hsecond.count.symm⟩
  · obtain ⟨slot, hslot, hall⟩ := hcarries j hkey
    have hitemOf := hall item hitem hcode
    obtain ⟨slot', hslot', _, hfilled⟩ := (hspec j).of_key_ne_zero hkey
    obtain rfl := Option.some.inj (hslot.symm.trans hslot')
    obtain ⟨hfirst, _⟩ | ⟨_, rfl⟩ := hfilled
    · exact absurd hsame (hfirst i hlt)
    · exact ⟨hitemOf.itemKey, hitemOf.count, hitemOf.itemInfo.symm⟩

theorem Loadable.exact (h : Loadable iteminfos inventory row table)
    (hspec : ∀ i, Loaded iteminfos inventory row table i (inventory'.slots i)) :
    Exact iteminfos row table inventory' := by
  have hkeyOf : ∀ i slot, inventory'.slots i = some slot → key row i ≠ 0 := by
    intro i slot hslot hkey
    have hold := (hspec i).of_key_eq_zero hkey
    rw [hslot, h.cleared i hkey] at hold
    cases hold
  refine ⟨fun i => ⟨fun hsome => ?_, fun hkey => ?_⟩, fun i slot hslot => ?_, fun i slot hslot item hitem hcode => ?_⟩
  · obtain ⟨slot, hslot⟩ := Option.isSome_iff_exists.mp hsome
    exact hkeyOf i slot hslot
  · obtain ⟨slot, hslot, _⟩ := (hspec i).of_key_ne_zero hkey
    rw [hslot, Option.isSome_some]
  · obtain ⟨slot', hslot', huser, _⟩ := (hspec i).of_key_ne_zero (hkeyOf i slot hslot)
    obtain rfl := Option.some.inj (hslot.symm.trans hslot')
    exact huser
  · have hkey := hkeyOf i slot hslot
    obtain ⟨slot', hslot', huser, hloaded⟩ := (hspec i).of_key_ne_zero hkey
    obtain rfl := Option.some.inj (hslot.symm.trans hslot')
    rw [huser, map_UINT64_iff] at hcode
    obtain ⟨_, hfilled⟩ | ⟨⟨first, hlt, hsame⟩, rfl⟩ := hloaded
    · cases hfilled with
      | empty hnone => exact absurd hcode (hnone item hitem)
      | item hitem' hcode' _ hcarries =>
        obtain ⟨hitemKey, hcount⟩ := h.alike i hkey item hitem _ hitem' hcode hcode'
        exact ⟨hitemKey.trans hcarries.itemKey, hcount.trans hcarries.count, hcarries.itemInfo⟩
    · obtain ⟨hitemKey, hcount, hinfo⟩ := h.repeated first i hlt hkey hsame item hitem hcode
      exact ⟨hitemKey, hcount, hinfo.symm⟩

/-- An inventory is loaded exactly where no slot is left over, no items of a key differ and no
key with an item is there twice. -/
theorem inventory_exact_iff (h : inventory.SetInventory iteminfos true [row] table = some (query, inventory')) :
    Exact iteminfos row table inventory' ↔ Loadable iteminfos inventory row table :=
  ⟨fun hexact => hexact.loadable (SetInventory_spec h), fun hload => hload.exact (SetInventory_spec h)⟩

section Example

/-- A row of a character with some money, and its keys. -/
def rowOf (keys : List Int32) : Row := [some 1, some 100] ++ keys.map some

/-- No item of it is known. -/
def noItems : Int32 → Option Unit := fun _ => none

def emptied : Inventory Unit 30 := ⟨0, fun _ => none⟩

/-- An earlier load left the first slot. -/
def leftOver : Inventory Unit 30 := ⟨100, update (fun _ => none) 0 (some ⟨5, 7, 3, none⟩)⟩

theorem inventory_exact_emptied :
    ∃ query inventory', emptied.SetInventory noItems true [rowOf (5 :: List.replicate 29 0)]
        [[some 5, some 7, some 3]] = some (query, inventory') ∧
      Exact noItems (rowOf (5 :: List.replicate 29 0)) [[some 5, some 7, some 3]] inventory' := by
  refine ⟨_, _, rfl, (inventory_exact_iff rfl).mpr ⟨fun _ _ => rfl, ?_, ?_⟩⟩
  · intro i hkey item hitem item' hitem' _ _
    rw [List.mem_singleton.mp hitem, List.mem_singleton.mp hitem']
    exact ⟨rfl, rfl⟩
  · decide

/-- A slot that the row has no key for is still there, and of two slots with one key the second
has no item. -/
theorem not_inventory_exact :
    (∃ query inventory', leftOver.SetInventory noItems true [rowOf (List.replicate 30 0)] [] =
        some (query, inventory') ∧ key (rowOf (List.replicate 30 0)) (0 : Fin 30) = 0 ∧
        inventory'.slots 0 = some ⟨5, 7, 3, none⟩ ∧ ¬ Exact noItems (rowOf (List.replicate 30 0)) [] inventory') ∧
      ∃ query inventory', emptied.SetInventory noItems true [rowOf (5 :: 5 :: List.replicate 28 0)]
          [[some 5, some 7, some 3]] = some (query, inventory') ∧
        inventory'.slots 0 = some ⟨5, 7, 3, none⟩ ∧ inventory'.slots 1 = some ⟨5, 0, 0, none⟩ ∧
        ¬ Exact noItems (rowOf (5 :: 5 :: List.replicate 28 0)) [[some 5, some 7, some 3]] inventory' := by
  refine ⟨⟨_, _, rfl, by decide, by decide, fun hexact => ?_⟩, _, _, rfl, by decide, by decide, fun hexact => ?_⟩
  · exact (hexact.isSome_iff 0).mp rfl (by decide)
  · have hcarries := hexact.items 1 ⟨5, 0, 0, none⟩ (by decide) _ List.mem_cons_self (by decide)
    exact absurd hcarries.itemKey (by decide)

end Example

end Loading

end AsioGameServer.inventory

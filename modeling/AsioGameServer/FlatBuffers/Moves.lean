import AsioGameServer.FlatBuffers.Partition
import AsioGameServer.Structs

open Number

namespace AsioGameServer.movement

open flatbuffers (FlatBufferBuilder)

variable {F : Type} [Number F]

namespace FB

inductive MoveState where
  | MOVING | STOP
deriving DecidableEq, Repr

def MoveState.value : MoveState → Int
  | .MOVING => 0 | .STOP => 1

/-- The table `FB::Move`. A field that is not stored is read as its default. -/
structure Move (F : Type) where
  code : Int
  state : MoveState
  position : Option (Vector3 F)
  foward : Option (Vector3 F)
  speed : F
deriving DecidableEq, Repr

/-- A `MoveBuilder`, with the table that can be read from what it has added. -/
structure MoveBuilder (F : Type) where
  fbb_ : FlatBufferBuilder (Move F)
  start_ : Nat
  table : Move F

namespace MoveBuilder

def new (fbb : FlatBufferBuilder (Move F)) : MoveBuilder F :=
  ⟨fbb, fbb.GetSize, ⟨0, .MOVING, none, none, ofInt 0⟩⟩

def add_code (code : Int) (b : MoveBuilder F) : MoveBuilder F :=
  { b with fbb_ := b.fbb_.AddElement 4 4 (code == 0), table.code := code }

def add_state (state : MoveState) (b : MoveBuilder F) : MoveBuilder F :=
  { b with fbb_ := b.fbb_.AddElement 6 1 (state.value == 0), table.state := state }

def add_position (position : Vector3 F) (b : MoveBuilder F) : MoveBuilder F :=
  { b with fbb_ := b.fbb_.AddStruct 8 12 4, table.position := position }

def add_foward (foward : Vector3 F) (b : MoveBuilder F) : MoveBuilder F :=
  { b with fbb_ := b.fbb_.AddStruct 10 12 4, table.foward := foward }

def add_speed (speed : F) (b : MoveBuilder F) : MoveBuilder F :=
  { b with fbb_ := b.fbb_.AddElement 12 4 (decide (speed = ofInt 0)), table.speed := speed }

def Finish (b : MoveBuilder F) : FlatBufferBuilder (Move F) × Nat :=
  (b.fbb_.EndTable b.start_).addTable b.table

end MoveBuilder

end FB

/-- What `GetMoveInfo` of a character or a monster adds. -/
def addMove (code : Int) (bMove : Bool) (forward position : Vector3 F) (speed : F)
    (fbb : FlatBufferBuilder (FB.Move F)) : FlatBufferBuilder (FB.Move F) × Nat :=
  FB.MoveBuilder.new fbb
    |>.add_code code
    |>.add_state (if bMove then .MOVING else .STOP)
    |>.add_foward forward
    |>.add_position position
    |>.add_speed speed
    |>.Finish

/-- The table that it adds can be read as it is, and its offset is returned. -/
theorem addMove_spec (code : Int) (bMove : Bool) (forward position : Vector3 F) (speed : F)
    (fbb : FlatBufferBuilder (FB.Move F)) :
    (addMove code bMove forward position speed fbb).1.tables =
        fbb.tables ++ [⟨code, if bMove then .MOVING else .STOP, some position, some forward, speed⟩] ∧
      (addMove code bMove forward position speed fbb).2 = fbb.tables.length := by
  constructor <;> simp [addMove, FB.MoveBuilder.Finish, FlatBufferBuilder.addTable, FB.MoveBuilder.new,
    FB.MoveBuilder.add_code, FB.MoveBuilder.add_state, FB.MoveBuilder.add_foward, FB.MoveBuilder.add_position,
    FB.MoveBuilder.add_speed]

/-- The local variables of the two loops that collect moves. `seen` are the entries that were
passed, with their members as they are afterwards. -/
structure Gathering (α τ : Type) where
  fbbArray : List (FlatBufferBuilder τ)
  moveVecArray : List (List Nat)
  fbb : FlatBufferBuilder τ
  moveVec : List Nat
  count : Int
  total : Int
  seen : List (Int × Option α)

namespace Gathering

variable {α τ : Type}

def start : Gathering α τ := ⟨[], [], .new, [], 0, 0, []⟩

/-- The current builder and vector go into the arrays. -/
def push (s : Gathering α τ) : Gathering α τ :=
  { s with fbbArray := s.fbbArray ++ [s.fbb], moveVecArray := s.moveVecArray ++ [s.moveVec] }

variable (GetMoveInfo : α → FlatBufferBuilder τ → List Nat → α × FlatBufferBuilder τ × List Nat)

/-- One iteration. An expired entry is followed, which has no result. -/
def next (s : Gathering α τ) (entry : Int × Option α) : Option (Gathering α τ) := do
  let mon ← entry.2
  let (mon, fbb, moveVec) := GetMoveInfo mon s.fbb s.moveVec
  let s : Gathering α τ := { s with fbb, moveVec, seen := s.seen ++ [(entry.1, some mon)], count := s.count + 1 }
  let s : Gathering α τ := if s.count = 10 then { s.push with fbb := .new, moveVec := [], count := 0 } else s
  return { s with total := s.total + 1 }

/-- The loop, and what is left after it. -/
def gather (entries : List (Int × Option α)) : Option (Gathering α τ) := do
  let s ← entries.foldlM (next GetMoveInfo) start
  return if s.count ≠ 0 then s.push else s

/-- The builders of the array are finished with the vectors that stand at their places. -/
def packets (s : Gathering α τ) : Option (List (FlatBufferBuilder τ)) :=
  (List.range s.fbbArray.length).mapM fun i => do
    return flatbuffers.Slices.finish (← s.fbbArray[i]?) (← s.moveVecArray[i]?)

variable {GetMoveInfo} {entry : α → Option τ} {unflag : α → α} {members : List (Int × α)}

/-- What `GetMoveInfo` does: the table of a member that has one goes into the buffer, and its
offset into the vector. -/
structure Reports (GetMoveInfo : α → FlatBufferBuilder τ → List Nat → α × FlatBufferBuilder τ × List Nat)
    (entry : α → Option τ) (unflag : α → α) : Prop where
  self : ∀ m fbb vec, (GetMoveInfo m fbb vec).1 = unflag m
  tables : ∀ m fbb vec, (GetMoveInfo m fbb vec).2.1.tables = fbb.tables ++ (entry m).toList
  vec : ∀ m fbb vec, (GetMoveInfo m fbb vec).2.2 = vec ++ List.replicate (entry m).toList.length fbb.tables.length

/-- The entries of live members. -/
def live (members : List (Int × α)) : List (Int × Option α) := members.map fun e => (e.1, some e.2)

/-- Builders and vectors at the same places hold the tables of the same slice. -/
structure Holds (entry : α → Option τ) (slices : List (List α)) (s : Gathering α τ) : Prop where
  fbbArray : s.fbbArray.map FlatBufferBuilder.tables = slices.map (List.filterMap entry)
  moveVecArray : s.moveVecArray = slices.map fun c => List.range (c.filterMap entry).length
  sizes : ∀ c ∈ slices, c.length ≤ 10

/-- What the loop has done with the members it has passed: it counted all of them into slices,
and the current builder and vector hold the tables of the last one. -/
structure Gathered (entry : α → Option τ) (unflag : α → α) (members : List (Int × α)) (full : List (List α))
    (part : List α) (s : Gathering α τ) : Prop where
  flatten : full.flatten ++ part = members.map Prod.snd
  held : s.Holds entry full
  fbb : s.fbb.tables = part.filterMap entry
  moveVec : s.moveVec = List.range (part.filterMap entry).length
  room : part.length < 10
  count : s.count = part.length
  total : s.total = members.length
  seen : s.seen = live (members.map fun e => (e.1, unflag e.2))

theorem Holds.push {slices : List (List α)} {part : List α} {s : Gathering α τ} (h : s.Holds entry slices)
    (hfbb : s.fbb.tables = part.filterMap entry) (hvec : s.moveVec = List.range (part.filterMap entry).length)
    (hsize : part.length ≤ 10) : s.push.Holds entry (slices ++ [part]) := by
  constructor
  · rw [Gathering.push, List.map_append, List.map_append, h.fbbArray, List.map_singleton, List.map_singleton, hfbb]
  · rw [Gathering.push, List.map_append, h.moveVecArray, List.map_singleton, hvec]
  · intro c hc
    obtain hc | hc := List.mem_append.mp hc
    · exact h.sizes c hc
    · rw [List.mem_singleton.mp hc]
      exact hsize

theorem gathered_start : (start : Gathering α τ).Gathered entry unflag [] [] [] where
  flatten := rfl
  held := ⟨rfl, rfl, by simp⟩
  fbb := rfl
  moveVec := rfl
  room := by simp
  count := rfl
  total := rfl
  seen := rfl

/-- A member is counted whether it has a table or not. -/
theorem Gathered.next (hreports : Reports GetMoveInfo entry unflag) {full : List (List α)} {part : List α}
    {s : Gathering α τ} (h : s.Gathered entry unflag members full part) (key : Int) (m : α) :
    ∃ full' part' s', s.next GetMoveInfo (key, some m) = some s' ∧
      s'.Gathered entry unflag (members ++ [(key, m)]) full' part' := by
  have htables := hreports.tables m s.fbb s.moveVec
  have hvec := hreports.vec m s.fbb s.moveVec
  have hself := hreports.self m s.fbb s.moveVec
  obtain ⟨mon, fbb, moveVec, hget⟩ : ∃ mon fbb moveVec, GetMoveInfo m s.fbb s.moveVec = (mon, fbb, moveVec) :=
    ⟨_, _, _, rfl⟩
  rw [hget] at htables hvec hself
  dsimp only at htables hvec hself
  have hpart : fbb.tables = (part ++ [m]).filterMap entry := by
    rw [htables, h.fbb, List.filterMap_append]
    cases hentry : entry m <;> simp [hentry]
  have hrange : moveVec = List.range ((part ++ [m]).filterMap entry).length := by
    rw [hvec, h.moveVec, h.fbb, List.filterMap_append]
    cases hentry : entry m <;> simp [hentry, List.range_succ]
  have hmembers : full.flatten ++ (part ++ [m]) = (members ++ [(key, m)]).map Prod.snd := by
    rw [← List.append_assoc, h.flatten, List.map_append]
    rfl
  have hcount : s.count + 1 = ((part ++ [m]).length : Int) := by
    rw [h.count, List.length_append]
    rfl
  have htotal : s.total + 1 = ((members ++ [(key, m)]).length : Int) := by
    rw [h.total, List.length_append]
    rfl
  have hseen : s.seen ++ [(key, some mon)] = live ((members ++ [(key, m)]).map fun e => (e.1, unflag e.2)) := by
    rw [h.seen, hself]
    simp [live]
  have hroom := h.room
  have hsize : (part ++ [m]).length ≤ 10 := by
    rw [List.length_append, List.length_singleton]
    omega
  simp only [Gathering.next, Option.bind_eq_bind, Option.bind_some, hget, Option.pure_def]
  by_cases hfull : s.count + 1 = 10
  · refine ⟨full ++ [part ++ [m]], [], _, rfl, ?_⟩
    rw [if_pos hfull]
    refine ⟨?_, ?_, rfl, rfl, by simp, rfl, htotal, hseen⟩
    · rw [List.flatten_append, List.flatten_singleton, List.append_nil, hmembers]
    · have hheld : ({ s with fbb, moveVec } : Gathering α τ).Holds entry full := ⟨h.held.1, h.held.2, h.held.3⟩
      have hpushed := hheld.push hpart hrange hsize
      exact ⟨hpushed.1, hpushed.2, hpushed.3⟩
  · refine ⟨full, part ++ [m], _, rfl, ?_⟩
    rw [if_neg hfull]
    refine ⟨hmembers, ⟨h.held.1, h.held.2, h.held.3⟩, hpart, hrange, ?_, hcount, htotal, hseen⟩
    omega

theorem exists_gathered (hreports : Reports GetMoveInfo entry unflag) (members : List (Int × α)) :
    ∃ full part s, (live members).foldlM (next GetMoveInfo) start = some s ∧
      s.Gathered entry unflag members full part := by
  induction members using List.reverseRecOn with
  | nil => exact ⟨[], [], _, rfl, gathered_start⟩
  | append_singleton members last ih =>
    obtain ⟨full, part, s, hloop, hgathered⟩ := ih
    obtain ⟨full', part', s', hnext, hgathered'⟩ := hgathered.next hreports last.1 last.2
    refine ⟨full', part', s', ?_, hgathered'⟩
    rw [live, List.map_append, List.foldlM_append]
    exact (congrArg (· >>= _) hloop).trans (by simpa using hnext)

/-- The tail is pushed where there is one. -/
theorem exists_gather (hreports : Reports GetMoveInfo entry unflag) (members : List (Int × α)) :
    ∃ slices s, gather GetMoveInfo (live members) = some s ∧ s.Holds entry slices ∧
      slices.flatten = members.map Prod.snd ∧ s.total = members.length ∧
      s.seen = live (members.map fun e => (e.1, unflag e.2)) := by
  obtain ⟨full, part, s, hloop, h⟩ := exists_gathered hreports members
  have hgather : gather GetMoveInfo (live members) = some (if s.count ≠ 0 then s.push else s) := by
    rw [gather, hloop]
    rfl
  by_cases hempty : s.count = 0
  · have hpart : part = [] := by
      have hcount := h.count
      exact List.eq_nil_of_length_eq_zero (by omega)
    rw [if_neg (not_not.mpr hempty)] at hgather
    refine ⟨full, s, hgather, h.held, ?_, h.total, h.seen⟩
    rw [← h.flatten, hpart, List.append_nil]
  · rw [if_pos hempty] at hgather
    refine ⟨full ++ [part], s.push, hgather, h.held.push h.fbb h.moveVec h.room.le, ?_, h.total, h.seen⟩
    rw [List.flatten_append, List.flatten_singleton, h.flatten]

theorem mapM_range_getElem? {β γ δ : Type} (f : β → γ → δ) {xs : List β} {ys : List γ}
    (hlength : xs.length = ys.length) :
    ((List.range xs.length).mapM fun i => do return f (← xs[i]?) (← ys[i]?)) = some (List.zipWith f xs ys) := by
  induction xs generalizing ys with
  | nil => rfl
  | cons x xs ih =>
    cases ys with
    | nil => cases hlength
    | cons y ys =>
      have hrest := ih (Nat.succ.inj hlength)
      rw [List.length_cons, List.range_succ_eq_map, List.mapM_cons, List.mapM_map]
      simp only [Function.comp_def, Nat.succ_eq_add_one, List.getElem?_cons_succ]
      rw [hrest]
      rfl

theorem contents_finish (fbb : FlatBufferBuilder τ) :
    (flatbuffers.Slices.finish fbb (List.range fbb.tables.length)).contents = fbb.tables := by
  rw [FlatBufferBuilder.contents, flatbuffers.Slices.finish_tables]
  exact flatbuffers.Slices.filterMap_range_length fbb.tables

/-- What can be read from the packets are the tables of the slices. -/
theorem Holds.packets {slices : List (List α)} {s : Gathering α τ} (h : s.Holds entry slices) :
    ∃ packets, s.packets = some packets ∧
      packets.map FlatBufferBuilder.contents = slices.map (List.filterMap entry) := by
  obtain ⟨hfbb, hvec, -⟩ := h
  have hlength : s.fbbArray.length = s.moveVecArray.length := by
    have hslices := congrArg List.length hfbb
    rw [List.length_map, List.length_map] at hslices
    rw [hslices, hvec, List.length_map]
  refine ⟨_, mapM_range_getElem? _ hlength, ?_⟩
  generalize s.fbbArray = fbbArray at hfbb
  generalize s.moveVecArray = moveVecArray at hvec
  subst hvec
  induction slices generalizing fbbArray with
  | nil =>
    obtain rfl := List.map_eq_nil_iff.mp hfbb
    rfl
  | cons c slices ih =>
    cases fbbArray with
    | nil => cases hfbb
    | cons fbb fbbArray =>
      obtain ⟨hfirst, hrest⟩ := List.cons.inj hfbb
      simp only [List.map_cons, List.zipWith_cons_cons]
      rw [ih _ hrest, ← hfirst, contents_finish]

/-- What packets report of members: at most ten in each, and all of them together each member
that is flagged once, in order, and no other. No flag is left after that, so that members that
stay as they are then are not reported again. -/
structure Reported (GetMoveInfo : α → FlatBufferBuilder τ → List Nat → α × FlatBufferBuilder τ × List Nat)
    (flagged : α → Bool) (table : α → τ) (unflag : α → α) (members : List (Int × α)) (after : List (Int × Option α))
    (packets : List (FlatBufferBuilder τ)) : Prop where
  bounded : ∀ fbb ∈ packets, fbb.contents.length ≤ 10
  reported : packets.flatMap FlatBufferBuilder.contents = ((members.map Prod.snd).filter flagged).map table
  kept : after = live (members.map fun e => (e.1, unflag e.2))
  unflagged : ∀ e ∈ after, ∀ m, e.2 = some m → flagged m = false
  once : ∃ s packets, gather GetMoveInfo after = some s ∧ s.packets = some packets ∧
    packets.flatMap FlatBufferBuilder.contents = []

/-- The table of a member that is flagged. -/
def entryOf (flagged : α → Bool) (table : α → τ) (m : α) : Option τ := if flagged m then some (table m) else none

variable {flagged : α → Bool} {table : α → τ}

theorem filterMap_entryOf (ms : List α) : ms.filterMap (entryOf flagged table) = (ms.filter flagged).map table := by
  induction ms with
  | nil => rfl
  | cons m ms ih => cases hm : flagged m <;> simp [entryOf, hm, ← ih]

/-- A member that is flagged adds its table and loses the flag. -/
theorem reports_of_adds {add : α → FlatBufferBuilder τ → FlatBufferBuilder τ × Nat}
    (hadd : flatbuffers.Slices.Adds add table) (hsame : ∀ m, flagged m = false → unflag m = m) :
    Reports (fun m fbb vec => if flagged m then (unflag m, (add m fbb).1, vec ++ [(add m fbb).2]) else (m, fbb, vec))
      (entryOf flagged table) unflag := by
  constructor <;> intro m fbb vec <;> cases hflagged : flagged m
  · simp [hsame m hflagged]
  · simp
  · simp [entryOf, hflagged]
  · simp [entryOf, hflagged, (hadd m fbb).1]
  · simp [entryOf, hflagged]
  · simp [entryOf, hflagged, (hadd m fbb).2]

theorem exists_packets (hreports : Reports GetMoveInfo (entryOf flagged table) unflag) (members : List (Int × α)) :
    ∃ s packets, gather GetMoveInfo (live members) = some s ∧ s.packets = some packets ∧
      s.total = members.length ∧ s.seen = live (members.map fun e => (e.1, unflag e.2)) ∧
      (∀ fbb ∈ packets, fbb.contents.length ≤ 10) ∧
      packets.flatMap FlatBufferBuilder.contents = ((members.map Prod.snd).filter flagged).map table := by
  obtain ⟨slices, s, hgather, hheld, hflatten, htotal, hseen⟩ := exists_gather hreports members
  obtain ⟨packets, hpackets, hcontents⟩ := hheld.packets
  refine ⟨s, packets, hgather, hpackets, htotal, hseen, fun fbb hfbb => ?_, ?_⟩
  · have hslice : fbb.contents ∈ slices.map (List.filterMap (entryOf flagged table)) :=
      hcontents ▸ List.mem_map_of_mem hfbb
    obtain ⟨c, hc, heq⟩ := List.mem_map.mp hslice
    rw [← heq]
    exact (List.length_filterMap_le _ _).trans (hheld.sizes c hc)
  · rw [List.flatMap_def, hcontents, ← List.filterMap_flatten, hflatten, filterMap_entryOf]

/-- Nothing is sent where there is no member. -/
theorem Reported.nil {after : List (Int × Option α)} {packets : List (FlatBufferBuilder τ)}
    (h : Reported GetMoveInfo flagged table unflag [] after packets) :
    Reported GetMoveInfo flagged table unflag [] after [] :=
  ⟨by simp, rfl, h.kept, h.unflagged, h.once⟩

/-- The packets of a loop report its members. -/
theorem exists_reported (hreports : Reports GetMoveInfo (entryOf flagged table) unflag)
    (hunflag : ∀ m, flagged (unflag m) = false) (members : List (Int × α)) :
    ∃ s packets, gather GetMoveInfo (live members) = some s ∧ s.packets = some packets ∧
      s.total = members.length ∧ Reported GetMoveInfo flagged table unflag members s.seen packets := by
  obtain ⟨s, packets, hgather, hpackets, htotal, hseen, hbounded, hreported⟩ := exists_packets hreports members
  refine ⟨s, packets, hgather, hpackets, htotal, hbounded, hreported, hseen, ?_, ?_⟩
  · intro e he m hm
    rw [hseen] at he
    obtain ⟨old, hold, rfl⟩ := List.mem_map.mp he
    obtain ⟨first, _, rfl⟩ := List.mem_map.mp hold
    rw [← Option.some.inj hm]
    exact hunflag _
  · obtain ⟨s', packets', hgather', hpackets', _, _, _, hreported'⟩ :=
      exists_packets hreports (members.map fun e => (e.1, unflag e.2))
    refine ⟨s', packets', hseen ▸ hgather', hpackets', hreported'.trans ?_⟩
    rw [List.map_eq_nil_iff, List.filter_eq_nil_iff]
    intro m hm
    rw [List.map_map] at hm
    obtain ⟨e, _, rfl⟩ := List.mem_map.mp hm
    simp [hunflag]

end Gathering

end AsioGameServer.movement

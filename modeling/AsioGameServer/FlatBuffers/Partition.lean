import Mathlib.Algebra.Order.Group.Nat
import Mathlib.Data.List.Induction
import Mathlib.Data.List.Perm.Basic
import Mathlib.Tactic.Linarith
import AsioGameServer.FlatBuffers.Snapshot

namespace AsioGameServer.flatbuffers

namespace Slices

section Loop

variable {α τ : Type} (add : α → FlatBufferBuilder τ → FlatBufferBuilder τ × Nat)

/-- A builder that one slice has been added to, member by member, with its vector. -/
def built (members : List α) : FlatBufferBuilder τ × List Nat :=
  members.foldl (fun b member =>
    let (fbb, offset) := add member b.1
    (finish fbb (b.2 ++ [offset]), b.2 ++ [offset])) (.new, [])

theorem built_concat (members : List α) (member : α) :
    built add (members ++ [member]) =
      (finish (add member (built add members).1).1
          ((built add members).2 ++ [(add member (built add members).1).2]),
        (built add members).2 ++ [(add member (built add members).1).2]) := by
  rw [built, List.foldl_append]
  rfl

/-- The pointers pushed for some slices: one for each member, to the builder of its
slice. -/
def pointers (slices : List (List α)) : List Nat :=
  slices.zipIdx.flatMap fun c => List.replicate c.1.length c.2

theorem pointers_concat (slices : List (List α)) (part : List α) :
    pointers (slices ++ [part]) = pointers slices ++ List.replicate part.length slices.length := by
  simp [pointers, List.zipIdx_append]

/-- What the loop has done with the members it has seen: the full slices are in
builders of their own, and the rest is in the current one. -/
structure Filled (slice : Int) (full : List (List α)) (part : List α) (s : Slices τ) : Prop where
  closed : s.closed = full.map fun c => (built add c).1
  current : (s.fbb, s.vec) = built add part
  array : s.fbbArray = pointers (full ++ [part])
  sizes : ∀ c ∈ full, (c.length : Int) = slice
  room : (part.length : Int) < slice
  count : s.count = part.length
  total : s.total = full.flatten.length + part.length

variable {add} {slice : Int} {full : List (List α)} {part : List α} {s : Slices τ}

theorem filled_start (hslice : 1 ≤ slice) : Filled add slice [] [] start := by
  refine ⟨rfl, rfl, rfl, by simp, ?_, rfl, rfl⟩
  rw [List.length_nil, Int.natCast_zero]
  omega

/-- A live member is added to the current slice, which it may complete. Both ways push
the current builder once. -/
theorem Filled.next (h : Filled add slice full part s) (key : Int) (member : α) :
    Filled add slice full (part ++ [member]) (s.next add slice (key, some member)) ∨
      Filled add slice (full ++ [part ++ [member]]) [] (s.next add slice (key, some member)) := by
  have hfbb : s.fbb = (built add part).1 := congrArg Prod.fst h.current
  have hvec : s.vec = (built add part).2 := congrArg Prod.snd h.current
  have hroom := h.room
  have hbuilt := built_concat add part member
  have harray : s.fbbArray ++ [s.closed.length] = pointers (full ++ [part ++ [member]]) := by
    rw [h.array, h.closed, pointers_concat, pointers_concat, List.length_map, List.append_assoc,
      List.length_append, List.length_singleton, List.replicate_succ']
  have htotal : s.total + 1 = full.flatten.length + (part ++ [member]).length := by
    rw [h.total, List.length_append, List.length_singleton]
    omega
  by_cases hfull : s.count + 1 = slice
  · right
    have hsizes : ∀ c ∈ full ++ [part ++ [member]], (c.length : Int) = slice := by
      intro c hc
      rcases List.mem_append.mp hc with hc | hc
      · exact h.sizes c hc
      · rw [List.mem_singleton.mp hc, List.length_append, List.length_singleton, ← hfull, h.count]
        rfl
    have hempty : pointers (full ++ [part ++ [member]] ++ [[]]) = pointers (full ++ [part ++ [member]]) := by
      rw [pointers_concat, List.length_nil, List.replicate_zero, List.append_nil]
    unfold Slices.next
    simp only [hfull, ↓reduceIte, push, renew, ne_eq, not_true_eq_false]
    refine ⟨?_, rfl, ?_, hsizes, ?_, rfl, ?_⟩
    · rw [List.map_append, List.map_singleton, h.closed, hbuilt, hfbb, hvec]
    · rw [hempty]
      exact harray
    · rw [List.length_nil, Int.natCast_zero]
      omega
    · rw [htotal]
      simp
  · left
    have hcount : s.count + 1 ≠ 0 := by
      rw [h.count]
      omega
    unfold Slices.next
    simp only [hfull, ↓reduceIte, push, ne_eq, hcount, not_false_eq_true]
    refine ⟨h.closed, ?_, harray, h.sizes, ?_, ?_, htotal⟩
    · rw [hbuilt, hfbb, hvec]
    · rw [h.count] at hfull
      rw [List.length_append, List.length_singleton]
      omega
    · rw [h.count, List.length_append, List.length_singleton]
      rfl

variable (add)

/-- The loop fills slices with the live members in the order of the iteration. -/
theorem exists_filled (hslice : 1 ≤ slice) (entries : List (Int × Option α)) :
    ∃ full part, full.flatten ++ part = entries.filterMap Prod.snd ∧
      Filled add slice full part (entries.foldl (next add slice) start) := by
  induction entries using List.reverseRecOn with
  | nil => exact ⟨[], [], rfl, filled_start hslice⟩
  | append_singleton entries entry ih =>
    obtain ⟨full, part, hlive, hfilled⟩ := ih
    rw [List.foldl_append, List.foldl_cons, List.foldl_nil, List.filterMap_append, ← hlive]
    obtain ⟨key, _ | member⟩ := entry
    · exact ⟨full, part, by simp, hfilled⟩
    · rcases hfilled.next key member with hpart | hfull
      · exact ⟨full, part ++ [member], by simp, hpart⟩
      · exact ⟨full ++ [part ++ [member]], [], by simp, hfull⟩

variable {add}

/-- Each pointer leads to the builder of its slice, as it is in the end. -/
theorem Filled.builders (h : Filled add slice full part s) :
    s.fbbArray.map s.builder =
      (full ++ [part]).flatMap fun c => List.replicate c.length (built add c).1 := by
  have hfbb : s.fbb = (built add part).1 := congrArg Prod.fst h.current
  have hbuilder : ∀ c i, (full ++ [part])[i]? = some c → s.builder i = (built add c).1 := by
    intro c i hget
    rw [builder, List.getD_eq_getElem?_getD, h.closed, List.getElem?_map]
    rcases Nat.lt_or_ge i full.length with hlt | hge
    · rw [List.getElem?_append_left hlt] at hget
      rw [hget]
      rfl
    · rw [List.getElem?_append_right hge] at hget
      obtain rfl := List.mem_singleton.mp (List.mem_of_getElem? hget)
      rw [List.getElem?_eq_none hge, ← hfbb]
      rfl
  rw [h.array, pointers, List.map_flatMap]
  have hmap : (full ++ [part]).zipIdx.flatMap (fun c => (List.replicate c.1.length c.2).map s.builder) =
      (full ++ [part]).zipIdx.flatMap fun c => List.replicate c.1.length (built add c.1).1 := by
    refine List.flatMap_congr fun c hc => ?_
    rw [List.map_replicate, hbuilder c.1 c.2 (List.mk_mem_zipIdx_iff_getElem?.mp hc)]
  rw [hmap]
  nth_rewrite 2 [← List.zipIdx_map_fst 0 (full ++ [part])]
  rw [List.flatMap_map]

/-- The members of the slice with a given number. -/
def nthSlice (slice : Int) (live : List α) (k : Nat) : List α := (live.drop (k * slice.toNat)).take slice.toNat

theorem nthSlice_flatten (hsizes : ∀ c ∈ full, (c.length : Int) = slice) (hroom : (part.length : Int) < slice)
    (k : Nat) : ((full ++ [part])[k]?).getD [] = nthSlice slice (full.flatten ++ part) k := by
  unfold nthSlice
  induction full generalizing k with
  | nil =>
    have hpart : part.length ≤ slice.toNat := by omega
    cases k with
    | zero => simp [List.take_of_length_le hpart]
    | succ k =>
      have hbeyond : part.length ≤ (k + 1) * slice.toNat := by
        rw [Nat.succ_mul]
        omega
      simp [List.drop_of_length_le hbeyond]
  | cons c full ih =>
    have hc : c.length = slice.toNat := by
      have := hsizes c List.mem_cons_self
      omega
    cases k with
    | zero => simp [← hc]
    | succ k =>
      have hrest := ih (fun d hd => hsizes d (List.mem_cons_of_mem _ hd)) k
      have hskip : (k + 1) * slice.toNat = c.length + k * slice.toNat := by
        rw [Nat.succ_mul, hc, Nat.add_comm]
      rw [hskip, List.flatten_cons, List.append_assoc, ← List.drop_drop, List.drop_left, ← hrest]
      rfl

variable (add)

/-- The slices of a snapshot: the live members in order, none in too large a slice, and
the finished builder of each slice once for each of its members. -/
theorem run_spec (hslice : 1 ≤ slice) (entries : List (Int × Option α)) :
    ∃ slices : List (List α), slices.flatten = entries.filterMap Prod.snd ∧
      (∀ c ∈ slices, (c.length : Int) ≤ slice) ∧
      (∀ k, (slices[k]?).getD [] = nthSlice slice (entries.filterMap Prod.snd) k) ∧
      run add slice entries = (((entries.filterMap Prod.snd).length : Int),
        slices.flatMap fun c => List.replicate c.length (built add c).1) := by
  obtain ⟨full, part, hlive, hfilled⟩ := exists_filled add hslice entries
  have hflatten : (full ++ [part]).flatten = entries.filterMap Prod.snd := by
    rw [← hlive, List.flatten_append, List.flatten_singleton]
  refine ⟨full ++ [part], hflatten, fun c hc => ?_, fun k => ?_, ?_⟩
  · rcases List.mem_append.mp hc with hc | hc
    · exact Int.le_of_eq (hfilled.sizes c hc)
    · rw [List.mem_singleton.mp hc]
      exact Int.le_of_lt hfilled.room
  · rw [nthSlice_flatten hfilled.sizes hfilled.room, hlive]
  · rw [run, ← hfilled.builders, hfilled.total, ← hlive, List.length_append]
    rfl

end Loop

section Contents

variable {α τ : Type} {add : α → FlatBufferBuilder τ → FlatBufferBuilder τ × Nat} {table : α → τ}

/-- The addition of a member appends its table, whose offset it returns. -/
def Adds (add : α → FlatBufferBuilder τ → FlatBufferBuilder τ × Nat) (table : α → τ) : Prop :=
  ∀ member fbb, (add member fbb).1.tables = fbb.tables ++ [table member] ∧
    (add member fbb).2 = fbb.tables.length

theorem finish_tables (b : FlatBufferBuilder τ) (vec : List Nat) : (finish b vec).tables = b.tables := by
  simp [finish, FB.CreateVec]

theorem filterMap_range_length (tables : List τ) :
    (List.range tables.length).filterMap (tables[·]?) = tables := by
  induction tables using List.reverseRecOn with
  | nil => rfl
  | append_singleton tables last ih =>
    rw [List.length_append, List.length_singleton, List.range_succ, List.filterMap_append]
    have hbefore : (List.range tables.length).filterMap ((tables ++ [last])[·]?) =
        (List.range tables.length).filterMap (tables[·]?) := by
      refine List.filterMap_congr fun i hi => ?_
      rw [List.getElem?_append_left (List.mem_range.mp hi)]
    rw [hbefore, ih]
    simp

/-- What can be read from the builder of a slice is the slice. -/
theorem built_contents (hadd : Adds add table) (members : List α) :
    (built add members).1.contents = members.map table := by
  suffices h : (built add members).1.tables = members.map table ∧
      (built add members).1.root = (built add members).2 ∧
      (built add members).2 = List.range members.length by
    rw [FlatBufferBuilder.contents, h.1, h.2.1, h.2.2]
    rw [← List.length_map table, filterMap_range_length]
  induction members using List.reverseRecOn with
  | nil => exact ⟨rfl, rfl, rfl⟩
  | append_singleton members member ih =>
    obtain ⟨htables, hroot, hvec⟩ := ih
    obtain ⟨hnew, hoffset⟩ := hadd member (built add members).1
    rw [built_concat]
    refine ⟨?_, rfl, ?_⟩
    · rw [finish_tables, hnew, htables, List.map_append, List.map_singleton]
    · rw [hvec, hoffset, htables, List.length_map, List.length_append, List.length_singleton,
        List.range_succ]

/-- The buffers of a snapshot list all live members and nothing else. -/
theorem mem_contents_run (hadd : Adds add table) {slice : Int} (hslice : 1 ≤ slice)
    (entries : List (Int × Option α)) {x : τ} :
    (∃ b ∈ (run add slice entries).2, x ∈ b.contents) ↔ x ∈ (entries.filterMap Prod.snd).map table := by
  obtain ⟨slices, hflatten, _, _, hrun⟩ := run_spec add hslice entries
  rw [hrun, ← hflatten, List.map_flatten]
  constructor
  · rintro ⟨b, hb, hx⟩
    obtain ⟨c, hc, hb⟩ := List.mem_flatMap.mp hb
    rw [List.eq_of_mem_replicate hb, built_contents hadd] at hx
    exact List.mem_flatten.mpr ⟨_, List.mem_map_of_mem hc, hx⟩
  · intro hx
    obtain ⟨_, hmap, hx⟩ := List.mem_flatten.mp hx
    obtain ⟨c, hc, rfl⟩ := List.mem_map.mp hmap
    have hmember : c.length ≠ 0 := by
      rintro hzero
      simp [List.eq_nil_of_length_eq_zero hzero] at hx
    refine ⟨(built add c).1, List.mem_flatMap.mpr ⟨c, hc, List.mem_replicate.mpr ⟨hmember, rfl⟩⟩, ?_⟩
    rwa [built_contents hadd]

end Contents

end Slices

/-- A population is partitioned into slices: the result counts its members, there are
as many buffers as slices, rounded up, and what is read from the buffers, one after
the other, is each member once, with at most a slice in each. -/
structure Partitioned {τ : Type} (slice : Int) (live : List τ) (result : Int × List (FlatBufferBuilder τ)) :
    Prop where
  total : result.1 = live.length
  buffers : (result.2.length : Int) = (live.length + slice - 1) / slice
  members : (result.2.flatMap FlatBufferBuilder.contents).Perm live
  bounded : ∀ b ∈ result.2, (b.contents.length : Int) ≤ slice

/-- The slices of a population are as many as its members where none can be shared. -/
theorem ceil_div_eq_self_iff {n : Nat} {slice : Int} (hslice : 1 ≤ slice) :
    (n : Int) = (n + slice - 1) / slice ↔ n ≤ 1 ∨ slice = 1 := by
  constructor
  · intro hceil
    by_contra hnot
    rw [not_or] at hnot
    have hless : ((n : Int) + slice - 1) / slice < n := by
      apply Int.ediv_lt_of_lt_mul (by omega)
      have hmany : (2 : Int) ≤ n := by omega
      have hwide : 2 ≤ slice := by omega
      nlinarith
    omega
  · rintro (hfew | rfl)
    · obtain rfl | rfl : n = 0 ∨ n = 1 := by omega
      · rw [Int.ediv_eq_zero_of_lt]
        · rfl
        · push_cast
          omega
        · push_cast
          omega
      · rw [Nat.cast_one, Int.add_comm, Int.add_sub_cancel, Int.ediv_self (by omega)]
    · rw [Int.add_sub_cancel, Int.ediv_one]

namespace Slices

variable {α τ : Type} {add : α → FlatBufferBuilder τ → FlatBufferBuilder τ × Nat} {table : α → τ} {slice : Int}

/-- The buffers are as many as the members, which is as many as there are slices only
for a population of one or a slice of one. -/
theorem run_partitioned_iff (hadd : Adds add table) (hslice : 1 ≤ slice) (entries : List (Int × Option α)) :
    Partitioned slice ((entries.filterMap Prod.snd).map table) (run add slice entries) ↔
      (entries.filterMap Prod.snd).length ≤ 1 ∨ slice = 1 := by
  obtain ⟨slices, hflatten, hsizes, _, hrun⟩ := run_spec add hslice entries
  have hlength : (slices.flatMap fun c => List.replicate c.length (built add c).1).length =
      (entries.filterMap Prod.snd).length := by
    simp [List.length_flatMap, ← hflatten, List.length_flatten]
  rw [hrun, ← ceil_div_eq_self_iff hslice]
  constructor
  · intro h
    have hbuffers := h.buffers
    rwa [hlength, List.length_map] at hbuffers
  · intro hceil
    have hsingle : ∀ c ∈ slices, c.length ≤ 1 := by
      intro c hc
      rcases (ceil_div_eq_self_iff hslice).mp hceil with hfew | hone
      · refine Nat.le_trans ?_ hfew
        rw [← hflatten]
        exact (List.sublist_flatten_of_mem hc).length_le
      · have hsize := hsizes c hc
        omega
    refine ⟨by rw [List.length_map], by rwa [hlength, List.length_map], ?_, ?_⟩
    · rw [List.flatMap_assoc, ← hflatten, ← List.flatMap_id, List.map_flatMap]
      refine .of_eq (List.flatMap_congr fun c hc => ?_)
      have hone := hsingle c hc
      match c, hone with
      | [], _ => rfl
      | [member], _ => simp [built_contents hadd]
    · intro b hb
      obtain ⟨c, hc, hb⟩ := List.mem_flatMap.mp hb
      rw [List.eq_of_mem_replicate hb, built_contents hadd, List.length_map]
      exact hsizes c hc

end Slices

/-- What is read of a character in a snapshot. -/
def CharacterStatus.info (ch : CharacterStatus) : FB.Character :=
  { code := ch.code, type := ch.characterTypeCode, hp := ch.maxHP.stored, level := ch.level,
    nick := ch.nickname, power := ch.power.stored, speed := ch.maxSpeed.stored, position := ch.position }

/-- What is read of a monster in a snapshot. -/
def MonsterStatus.info (monster : MonsterStatus) : FB.Monster :=
  { code := monster.code, number := monster.monsterNumber, MaxHp := monster.maxHp.stored,
    CurrentHP := monster.currentHp.stored, position := monster.position, nick := monster.nickname,
    power := monster.power.stored, speed := monster.speed.stored }

theorem adds_characterInfo : Slices.Adds addCharacterInfo CharacterStatus.info := by
  intro ch fbb
  constructor <;> simp [addCharacterInfo, characterInfo, FB.CharacterBuilder.Finish, FlatBufferBuilder.addTable,
    FB.CharacterBuilder.new, FB.CharacterBuilder.add_code, FB.CharacterBuilder.add_type,
    FB.CharacterBuilder.add_hp, FB.CharacterBuilder.add_level, FB.CharacterBuilder.add_nick,
    FB.CharacterBuilder.add_power, FB.CharacterBuilder.add_speed, FB.CharacterBuilder.add_position,
    CharacterStatus.info]

theorem adds_monster : Slices.Adds addMonster MonsterStatus.info := by
  intro monster fbb
  constructor <;> simp [addMonster, FB.MonsterBuilder.Finish, FlatBufferBuilder.addTable,
    FB.MonsterBuilder.new, FB.MonsterBuilder.add_code, FB.MonsterBuilder.add_number,
    FB.MonsterBuilder.add_MaxHp, FB.MonsterBuilder.add_CurrentHP, FB.MonsterBuilder.add_position,
    FB.MonsterBuilder.add_nick, FB.MonsterBuilder.add_power, FB.MonsterBuilder.add_speed,
    MonsterStatus.info]

/-- The snapshots of the characters and of the monsters are partitioned into slices
exactly where there is at most one live member or each slice has room for one: the
tail is flushed within the loop, once for each member. -/
theorem snapshots_partitioned_iff {slice : Int} (hslice : 1 ≤ slice)
    (characters : List (Int × Option CharacterStatus)) (monsters : List (Int × Option MonsterStatus)) :
    (Partitioned slice ((characters.filterMap Prod.snd).map CharacterStatus.info)
        (Make_FBB_All_CharacterInfo characters slice) ↔
      (characters.filterMap Prod.snd).length ≤ 1 ∨ slice = 1) ∧
    (Partitioned slice ((monsters.filterMap Prod.snd).map MonsterStatus.info)
        (Make_FBB_All_Monster monsters slice) ↔
      (monsters.filterMap Prod.snd).length ≤ 1 ∨ slice = 1) :=
  ⟨Slices.run_partitioned_iff adds_characterInfo hslice characters,
    Slices.run_partitioned_iff adds_monster hslice monsters⟩

/-- A character of the given code, and nothing else to tell. -/
def nameless (code : Int) : CharacterStatus := ⟨code, 1, 1, [], 0, 0, 0, ⟨0, 0, 0⟩, 1⟩

/-- A snapshot of one live character and an expired entry is one buffer. -/
theorem snapshot_of_one_partitioned :
    (1 : Int) ≤ 10 ∧
      Partitioned 10 [(nameless 7).info] (Make_FBB_All_CharacterInfo [(5, none), (7, some (nameless 7))] 10) :=
  have hslice : (1 : Int) ≤ 10 := by decide
  ⟨hslice, (snapshots_partitioned_iff hslice [(5, none), (7, some (nameless 7))] []).1.mpr (Or.inl (by decide))⟩

/-- Two characters fill two buffers of the same two entries. -/
theorem two_characters_sent_twice :
    ((Make_FBB_All_CharacterInfo [(7, some (nameless 7)), (8, some (nameless 8))] 10).2.map fun b =>
        b.contents.map FB.Character.code) = [[7, 8], [7, 8]] ∧
      ¬ Partitioned 10 [(nameless 7).info, (nameless 8).info]
        (Make_FBB_All_CharacterInfo [(7, some (nameless 7)), (8, some (nameless 8))] 10) := by
  refine ⟨by decide +kernel, fun h => ?_⟩
  have hbuffers := h.buffers
  revert hbuffers
  decide +kernel

end AsioGameServer.flatbuffers

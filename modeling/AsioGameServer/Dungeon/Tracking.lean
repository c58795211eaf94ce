import AsioGameServer.Dungeon.Positions
import AsioGameServer.Monster.Attack

open Function Number Transition Replica

namespace AsioGameServer.dungeon

open flatbuffers (FlatBufferBuilder)
open monster (Monster MonsterManager Output Numbered DamageFormula MonsterInfo)
open movement.Gathering (live)

variable {F : Type} [Number F]

/-- What is pushed to a session says where monsters are. -/
def shows : Sent F → List (Int × Vector3 F)
  | .packet (.RESPAWN_MONSTER_VEC fbb) => fbb.contents.filterMap fun table => table.position.map (table.number, ·)
  | .packet (.toAll output) => placed output
  | .MONSTER_MOVING_VECTOR fbb => fbb.contents.filterMap fun move => move.position.map (move.code, ·)

namespace Tracked

/-- Where the client of a character has last been told that the monsters are. -/
def view (s : Tracked F) (code : Int) : Int → Option (Vector3 F) :=
  apply (fun _ => none) ((s.received code).flatMap shows)

/-- Where it will be told that they are, once it gets what waits. -/
def outlook (s : Tracked F) (code : Int) : Int → Option (Vector3 F) :=
  apply (s.view code) (s.req_send_all.flatMap shows)

end Tracked

section Snapshot

variable {mm : MonsterManager F} {n : Int} {x : Vector3 F}

/-- The monsters have numbers from 0 on, and know them. -/
structure Listed (mm : MonsterManager F) : Prop where
  numbered : Numbered mm
  count : 0 ≤ mm.monKeyCount
  nonneg : ∀ n mon, mm.monsters n = some mon → 0 ≤ n

/-- A snapshot shows every monster at its position, and nothing else. -/
theorem mem_shows_snapshot (hlisted : Listed mm) {t : Int × Vector3 F} :
    t ∈ ((Make_FBB_All_Monster mm 10).2.map fun fbb => Sent.packet (.RESPAWN_MONSTER_VEC fbb)).flatMap shows ↔
      ∃ mon, mm.monsters mon.monsterNumber = some mon ∧ (mon.monsterNumber, mon.position) = t := by
  have hsnapshot := mem_snapshot_iff hlisted.nonneg hlisted.numbered
  rw [List.flatMap_map]
  simp only [shows, List.mem_flatMap, List.mem_filterMap]
  constructor
  · rintro ⟨fbb, hfbb, table, htable, ht⟩
    obtain ⟨mon, hmonster, rfl⟩ := (hsnapshot table).mp ⟨fbb, hfbb, htable⟩
    exact ⟨mon, hmonster, by simpa [infoOf] using ht⟩
  · rintro ⟨mon, hmonster, rfl⟩
    obtain ⟨fbb, hfbb, htable⟩ := (hsnapshot _).mpr ⟨mon, hmonster, rfl⟩
    exact ⟨fbb, hfbb, infoOf mon, htable, rfl⟩

/-- Who gets a snapshot knows where the monsters are. -/
theorem apply_snapshot (hlisted : Listed mm) (hx : positions mm n = some x) :
    apply (fun _ => none)
      (((Make_FBB_All_Monster mm 10).2.map fun fbb => Sent.packet (.RESPAWN_MONSTER_VEC fbb)).flatMap shows) n =
        some x := by
  obtain ⟨mon, hmonster, hstanding⟩ := Option.bind_eq_some_iff.mp hx
  obtain ⟨_, _, rfl⟩ := standing_eq_some_iff.mp hstanding
  have hnumber : mon.monsterNumber = n := (hlisted.numbered n mon hmonster).1
  rw [apply_eq]
  refine Option.or_eq_some_iff.mpr (.inl (last_eq_some ?_ ?_))
  · exact ⟨_, (mem_shows_snapshot hlisted).mpr ⟨mon, hnumber ▸ hmonster, rfl⟩, hnumber⟩
  · rintro t ht hown
    obtain ⟨other, hother, rfl⟩ := (mem_shows_snapshot hlisted).mp ht
    rw [show other.monsterNumber = n from hown, hmonster] at hother
    rw [Option.some.inj hother]

end Snapshot

section Report

variable {mm : MonsterManager F} {s s' : Tracked F} {delta : F} {n : Int}

/-- The monsters, in the order of their numbers. -/
def herd (mm : MonsterManager F) : List (Int × Monster F) :=
  (List.range mm.monKeyCount.toNat).filterMap fun i : Nat => (mm.monsters i).map fun mon => ((i : Int), mon)

omit [Number F] in
/-- The entries that the report goes through are those of the herd. -/
theorem entries_eq (mm : MonsterManager F) : entries mm = live (herd mm) := by
  simp only [entries, herd, live, List.map_filterMap, Option.map_map]
  rfl

omit [Number F] in
/-- The herd has every monster, since all numbers lie below the count. -/
theorem mem_herd_iff (hlisted : Listed mm) {mon : Monster F} : (n, mon) ∈ herd mm ↔ mm.monsters n = some mon := by
  unfold herd
  rw [List.mem_filterMap]
  constructor
  · rintro ⟨i, _, hi⟩
    obtain ⟨other, hother, heq⟩ := Option.map_eq_some_iff.mp hi
    cases heq
    exact hother
  · intro hmonster
    obtain ⟨_, hlt, _⟩ := hlisted.numbered n mon hmonster
    have hnonneg := hlisted.nonneg n mon hmonster
    refine ⟨n.toNat, List.mem_range.mpr (by omega), ?_⟩
    rw [Int.toNat_of_nonneg hnonneg, hmonster]
    rfl

omit [Number F] in
/-- The loop stores what it has of each monster. -/
theorem foldl_store {members : List (Int × Monster F)} (after : Int → Option (Monster F))
    (hafter : ∀ e ∈ members, after e.1 = some e.2) (mm : MonsterManager F) :
    (live members).foldl Tracked.store mm =
      { mm with monsters := fun n => if n ∈ members.map Prod.fst then after n else mm.monsters n } := by
  induction members generalizing mm with
  | nil => rfl
  | cons e members ih =>
    have hrest := ih (fun e' he' => hafter e' (List.mem_cons_of_mem _ he')) (Tracked.store mm (e.1, some e.2))
    rw [live, List.map_cons, List.foldl_cons]
    refine hrest.trans (congrArg (fun monsters => { mm with monsters }) (funext fun n => ?_))
    rw [List.map_cons]
    by_cases hn : n ∈ members.map Prod.fst
    · rw [if_pos hn, if_pos (List.mem_cons_of_mem _ hn)]
    · rw [if_neg hn]
      by_cases hfirst : n = e.1
      · rw [if_pos (hfirst ▸ List.mem_cons_self), hfirst, hafter e List.mem_cons_self]
        exact update_self _ _ _
      · rw [if_neg (by simpa [hfirst] using hn)]
        exact update_of_ne hfirst _ _

omit [Number F] in
/-- A loop over all monsters does the same to each of them. -/
theorem foldl_store_herd (hlisted : Listed mm) (g : Monster F → Monster F) :
    (live ((herd mm).map fun e => (e.1, g e.2))).foldl Tracked.store mm =
      { mm with monsters := fun n => (mm.monsters n).map g } := by
  have hafter : ∀ e ∈ (herd mm).map fun e => (e.1, g e.2), (mm.monsters e.1).map g = some e.2 := by
    intro e he
    obtain ⟨old, hold, rfl⟩ := List.mem_map.mp he
    rw [(mem_herd_iff hlisted).mp hold]
    rfl
  rw [foldl_store (fun n => (mm.monsters n).map g) hafter]
  refine congrArg (fun monsters => { mm with monsters }) (funext fun n => ?_)
  split
  · rfl
  · rename_i hnobody
    cases hmonster : mm.monsters n with
    | none => rfl
    | some mon =>
      refine absurd (List.mem_map.mpr ⟨(n, g mon), ?_, rfl⟩) hnobody
      exact List.mem_map.mpr ⟨(n, mon), (mem_herd_iff hlisted).mpr hmonster, rfl⟩

/-- The monsters once all of them have been reported. -/
def unflagged (mm : MonsterManager F) : MonsterManager F :=
  { mm with monsters := fun n => (mm.monsters n).map movement.Monster.unflag }

omit [Number F] in
/-- That the flags are taken down changes no number. -/
theorem Listed.unflagged (h : Listed mm) : Listed (unflagged mm) := by
  refine ⟨fun n mon hmonster => ?_, h.count, fun n mon hmonster => ?_⟩
  · obtain ⟨old, hold, rfl⟩ := Option.map_eq_some_iff.mp hmonster
    exact h.numbered n old hold
  · obtain ⟨old, hold, rfl⟩ := Option.map_eq_some_iff.mp hmonster
    exact h.nonneg n old hold

omit [Number F] in
/-- A report says where the monsters are that have moved. -/
theorem mem_shows_report (hlisted : Listed mm) {packets : List (FlatBufferBuilder (movement.FB.Move F))}
    (hreported : packets.flatMap FlatBufferBuilder.contents =
      (((herd mm).map Prod.snd).filter Monster.bChangePosition).map movement.Monster.move) {t : Int × Vector3 F} :
    t ∈ (packets.map Sent.MONSTER_MOVING_VECTOR).flatMap shows ↔
      ∃ mon, mm.monsters mon.monsterNumber = some mon ∧ mon.bChangePosition = true ∧
        (mon.monsterNumber, mon.position) = t := by
  have hshows : (packets.map Sent.MONSTER_MOVING_VECTOR).flatMap shows =
      (packets.flatMap FlatBufferBuilder.contents).filterMap fun move => move.position.map (move.code, ·) := by
    rw [List.flatMap_map, List.filterMap_flatMap]
    rfl
  rw [hshows, hreported, List.filterMap_map, List.mem_filterMap]
  simp only [List.mem_filter, List.mem_map, Prod.exists, exists_eq_right]
  constructor
  · rintro ⟨mon, ⟨⟨n, hmon⟩, hflag⟩, ht⟩
    have hmonster := (mem_herd_iff hlisted).mp hmon
    have hnumber : mon.monsterNumber = n := (hlisted.numbered n mon hmonster).1
    exact ⟨mon, hnumber ▸ hmonster, hflag, by simpa [movement.Monster.move] using ht⟩
  · rintro ⟨mon, hmonster, hflag, rfl⟩
    exact ⟨mon, ⟨⟨mon.monsterNumber, (mem_herd_iff hlisted).mpr hmonster⟩, hflag⟩, rfl⟩

omit [Number F] in
/-- After it everybody knows where all monsters are. -/
theorem leads_report (hlisted : Listed mm) {packets : List (FlatBufferBuilder (movement.FB.Move F))}
    (hreported : packets.flatMap FlatBufferBuilder.contents =
      (((herd mm).map Prod.snd).filter Monster.bChangePosition).map movement.Monster.move) :
    Leads (positions mm) ((packets.map Sent.MONSTER_MOVING_VECTOR).flatMap shows) (positions (unflagged mm)) := by
  intro n x hx
  obtain ⟨after, hafter, hstanding⟩ := Option.bind_eq_some_iff.mp hx
  obtain ⟨mon, hmonster, rfl⟩ := Option.map_eq_some_iff.mp hafter
  obtain ⟨hbegun, _, hposition⟩ := standing_eq_some_iff.mp hstanding
  have hnumber : mon.monsterNumber = n := (hlisted.numbered n mon hmonster).1
  -- the report speaks of no monster but those of the manager
  have hown : ∀ t ∈ (packets.map Sent.MONSTER_MOVING_VECTOR).flatMap shows, t.1 = n →
      mon.bChangePosition = true ∧ t.2 = x := by
    intro t ht hn
    obtain ⟨other, hother, hflag, rfl⟩ := (mem_shows_report hlisted hreported).mp ht
    rw [show other.monsterNumber = n from hn, hmonster] at hother
    cases hother
    exact ⟨hflag, hposition⟩
  rw [apply_eq]
  cases hflag : mon.bChangePosition with
  | true =>
    have htold : (n, mon.position) ∈ (packets.map Sent.MONSTER_MOVING_VECTOR).flatMap shows :=
      (mem_shows_report hlisted hreported).mpr ⟨mon, hnumber ▸ hmonster, hflag, by rw [hnumber]⟩
    rw [last_eq_some ⟨_, htold, rfl⟩ fun t ht hn => (hown t ht hn).2, Option.some_or]
  | false =>
    have hnone : last ((packets.map Sent.MONSTER_MOVING_VECTOR).flatMap shows) n = none :=
      last_eq_none fun t ht hn => by simpa [hflag] using (hown t ht hn).1
    rw [hnone, Option.none_or, positions, hmonster, Option.bind_some]
    exact standing_eq_some_iff.mpr ⟨hbegun, hflag, hposition⟩

namespace Tracked

/-- Where 0.4 seconds are over, the tick takes down all flags and queues the packets of a report. -/
theorem exists_Tick (hlisted : Listed s.now.mm) (hdue : s.saveTime + delta > lit 4 1) :
    ∃ (saveTime : F) (packets : List (FlatBufferBuilder (movement.FB.Move F))), s.Tick delta = some { s with
        now.mm := unflagged s.now.mm
        saveTime
        req_send_all := s.req_send_all ++ packets.map .MONSTER_MOVING_VECTOR } ∧
      packets.flatMap FlatBufferBuilder.contents =
        (((herd s.now.mm).map Prod.snd).filter Monster.bChangePosition).map movement.Monster.move := by
  have hprev : some s.reporter = some s.reporter := rfl
  obtain ⟨mm, cm, packets, htick, hchannel, hqueued, hreported⟩ :=
    movement.MonsterManager.exists_tick hprev (entries_eq s.now.mm) rfl hdue
  refine ⟨mm.saveTime, packets, ?_, hreported.reported⟩
  rw [Tick, htick, Option.bind_eq_bind, Option.bind_some, hreported.kept, foldl_store_herd hlisted, hchannel]
  simp [Async_SendAllCharacter, reports, hqueued, unflagged, Function.comp_def]

/-- Otherwise it only counts the time. -/
theorem Tick_of_not_due (hlisted : Listed s.now.mm) (hearly : ¬ s.saveTime + delta > lit 4 1) :
    s.Tick delta = some { s with saveTime := s.saveTime + delta } := by
  have htick : s.reporter.Tick some delta = some { s.reporter with saveTime := s.saveTime + delta } := by
    simp only [movement.MonsterManager.Tick, Option.bind_eq_bind, Option.bind_some, reporter, if_neg hearly,
      Option.pure_def]
  have hsame : (entries s.now.mm).foldl store s.now.mm = s.now.mm := by
    have hmap := foldl_store_herd hlisted id
    simp only [id, Prod.mk.eta, List.map_id'] at hmap
    rw [entries_eq, hmap]
    simp
  rw [Tick, htick, Option.bind_eq_bind, Option.bind_some]
  simp [Async_SendAllCharacter, reports, reporter, hsame]

end Tracked

end Report

section Runs

variable {infos : Int → Option (MonsterInfo F)} {f : DamageFormula F} {sm : status.StatusManager F}
  {mm mm' : MonsterManager F} {s s' : Tracked F} {delta : F}

omit [Number F] in
/-- New monsters get numbers from the count on, which is not negative. -/
theorem Listed.charted (h : Listed mm) (hnumbered : Numbered mm') (hcharted : Charted mm mm') : Listed mm' := by
  refine ⟨hnumbered, h.count.trans hcharted.count, fun n mon hmonster => ?_⟩
  obtain hbefore | hnew := hcharted.numbers n (by rw [hmonster]; rfl)
  · obtain ⟨old, hold⟩ := Option.isSome_iff_exists.mp hbefore
    exact h.nonneg n old hold
  · exact h.count.trans hnew

namespace Tracked

omit [Number F] in
/-- `PrevTick` in one piece: the members get all that waits, in its order, and nothing waits any
longer. The proof is an induction on what waits. -/
theorem PrevTick_eq (s : Tracked F) : s.PrevTick = { s with
    req_send_all := []
    received := fun code => if code ∈ s.members then s.received code ++ s.req_send_all else s.received code } := by
  have hsent : ∀ (packets : List (Sent F)) (s : Tracked F), packets.foldl SendAllCharacter s = { s with
      received := fun code => if code ∈ s.members then s.received code ++ packets else s.received code } := by
    intro packets
    induction packets with
    | nil => simp
    | cons packet packets ih =>
      intro s
      rw [List.foldl_cons, ih]
      refine congrArg (fun received => { s with received }) (funext fun code => ?_)
      by_cases hmember : code ∈ s.members
      · have hstill : code ∈ (s.SendAllCharacter packet).members := hmember
        rw [if_pos hmember, if_pos hstill]
        simp [SendAllCharacter, hmember]
      · have hstill : code ∉ (s.SendAllCharacter packet).members := hmember
        rw [if_neg hmember, if_neg hstill]
        simp [SendAllCharacter, hmember]
  exact hsent s.req_send_all { s with req_send_all := [] }

omit [Number F] in
/-- Every member gets what waits. -/
theorem view_PrevTick {code : Int} (hmember : code ∈ s.members) : s.PrevTick.view code = s.outlook code := by
  rw [PrevTick_eq, view, outlook, view]
  dsimp only
  rw [if_pos hmember, List.flatMap_append, apply_append]

/-- The clients of the members know where the monsters are, once they have got what waits. -/
structure Followed (s : Tracked F) : Prop where
  listed : Listed s.now.mm
  consistent : Consistent (positions s.now.mm) (s.req_send_all.flatMap shows) (s.members.map s.view)

namespace Followed

/-- Before anybody is there, nothing can be wrong about what is known. -/
theorem start (levels : Int → status.Character F) : (Tracked.start levels).Followed where
  listed := ⟨fun _ _ hmonster => (by cases hmonster), Int.le_refl 0, fun _ _ hmonster => (by cases hmonster)⟩
  consistent := .start _

/-- A step of the monsters queues what tells where they are, so that the clients know it once they
get what waits. -/
theorem monsters {e : MonsterManager.Event F} {now : Dungeon F} (h : s.Followed)
    (hnext : s.now.next infos f sm (.monsters e) = some now) :
    Followed { s.packets now (.monsters e) with now } := by
  simp only [Dungeon.next, Option.bind_eq_bind, Option.bind_eq_some_iff] at hnext
  obtain ⟨e', he, mm, hmm, hnext⟩ := hnext
  cases hnext
  have hcharted : Charted s.now.mm mm := .next h.listed.numbered he hmm
  obtain ⟨new, hnew, hleads⟩ := hcharted.told
  refine ⟨h.listed.charted (monster.numbered_next h.listed.numbered hmm) hcharted, ?_⟩
  have hpackets : ((new.filter isPacket).map fun output => Sent.packet (.toAll output)).flatMap shows =
      new.flatMap placed := by
    rw [List.flatMap_map]
    clear hnew hleads
    induction new with
    | nil => rfl
    | cons output new ih =>
      rw [List.filter_cons, List.flatMap_cons, ← ih]
      cases output <;> rfl
  have hwaits := h.consistent.write hleads
  rw [← hpackets, ← List.flatMap_append] at hwaits
  have hdrop : mm.outputs.drop s.now.mm.outputs.length = new := by rw [hnew, List.drop_left]
  rw [← hdrop] at hwaits
  exact hwaits

/-- A new member gets a snapshot at once, which also shows what still waits for the others. -/
theorem InsertCharacter (h : s.Followed) (code : Int) :
    Followed { s.InsertCharacter code with now := s.now.InsertCharacter code } := by
  unfold Tracked.InsertCharacter Dungeon.InsertCharacter Tracked.members
  by_cases hmember : code ∈ s.now.characters.map Client.code
  · rw [if_pos hmember, if_pos hmember]
    exact h
  · rw [if_neg hmember, if_neg hmember]
    refine ⟨h.listed, ?_⟩
    have hjoined := h.consistent.join fun n x hx => apply_snapshot h.listed hx
    refine hjoined.leave fun view hview => ?_
    obtain ⟨c, hc, rfl⟩ := List.mem_map.mp hview
    rw [members, List.map_append] at hc
    obtain hc | hc := List.mem_append.mp hc
    · have hother : c ≠ code := fun heq => hmember (heq ▸ hc)
      refine List.mem_append_left _ (List.mem_map.mpr ⟨c, hc, ?_⟩)
      rw [Tracked.view, Tracked.view]
      dsimp only
      rw [update_of_ne hother]
    · refine List.mem_append_right _ (List.mem_singleton.mpr ?_)
      rw [Tracked.view, List.mem_singleton.mp hc]
      dsimp only
      rw [update_self]

omit [Number F] in
/-- Who leaves is no member any longer, and the others know what they knew. -/
theorem EraseCharacter (h : s.Followed) (key : Int) : Followed { s with now := s.now.EraseCharacter key } := by
  refine ⟨h.listed, h.consistent.leave fun view hview => ?_⟩
  obtain ⟨c, hc, rfl⟩ := List.mem_map.mp hview
  obtain ⟨ch, hch, rfl⟩ := List.mem_map.mp hc
  exact List.mem_map.mpr ⟨ch.code, List.mem_map_of_mem (List.mem_of_mem_filter hch), rfl⟩

omit [Number F] in
/-- What waits is pushed to all members, which brings their views to what it leads to. -/
theorem PrevTick (h : s.Followed) : Followed { s.PrevTick with now := s.now.PrevTick } := by
  have hmembers : members { s.PrevTick with now := s.now.PrevTick } = s.members := by
    rw [Dungeon.PrevTick_eq, members, members, List.map_map]
    rfl
  have hmm : s.now.PrevTick.mm = s.now.mm := by rw [Dungeon.PrevTick_eq]
  have hwaits : s.PrevTick.req_send_all = [] := by rw [Tracked.PrevTick_eq]
  refine ⟨hmm.symm ▸ h.listed, ?_⟩
  rw [hmembers]
  dsimp only
  rw [hmm, hwaits]
  refine h.consistent.deliver.leave fun view hview => ?_
  obtain ⟨code, hcode, rfl⟩ := List.mem_map.mp hview
  exact List.mem_map.mpr ⟨s.view code, List.mem_map_of_mem hcode, (view_PrevTick hcode).symm⟩

/-- A step of the dungeon, by the lemma about it. -/
theorem step {e : dungeon.Event F} (h : s.Followed) (hnext : s.next infos f sm (.step e) = some s') : s'.Followed := by
  simp only [Tracked.next, Option.bind_eq_bind, Option.bind_eq_some_iff] at hnext
  obtain ⟨now, hnow, hnext⟩ := hnext
  cases hnext
  cases e with
  | monsters e => exact h.monsters hnow
  | InsertCharacter code =>
    cases hnow
    exact h.InsertCharacter code
  | EraseCharacter key =>
    cases hnow
    exact h.EraseCharacter key
  | PrevTick =>
    cases hnow
    exact h.PrevTick
  | award i cm session =>
    simp only [Dungeon.next, Option.bind_eq_bind, Option.bind_eq_some_iff] at hnow
    obtain ⟨reward, _, ⟨notices, level⟩, _, hnow⟩ := hnow
    cases hnow
    exact ⟨h.listed, h.consistent⟩

/-- A tick of the monsters reports all their movements, or none. -/
theorem Tick (h : s.Followed) (hnext : s.Tick delta = some s') :
    s'.Followed ∧ (s.saveTime + delta > lit 4 1 →
      ∀ number mon, s'.now.mm.monsters number = some mon → mon.bChangePosition = false) := by
  by_cases hdue : s.saveTime + delta > lit 4 1
  · obtain ⟨saveTime, packets, htick, hreported⟩ := exists_Tick h.listed hdue
    cases htick.symm.trans hnext
    refine ⟨⟨h.listed.unflagged, ?_⟩, fun _ number mon hmonster => ?_⟩
    · have hwaits := h.consistent.write (leads_report h.listed hreported)
      rw [← List.flatMap_append] at hwaits
      exact hwaits
    · obtain ⟨old, _, rfl⟩ := Option.map_eq_some_iff.mp hmonster
      rfl
  · cases (Tick_of_not_due h.listed hdue).symm.trans hnext
    exact ⟨⟨h.listed, h.consistent⟩, fun hreports => absurd hreports hdue⟩

/-- A step of the tracked dungeon: one of the dungeon, or a tick that may report. -/
theorem next {e : Tracked.Event F} (h : s.Followed) (hnext : s.next infos f sm e = some s') : s'.Followed := by
  cases e with
  | step e => exact h.step hnext
  | Tick delta => exact (h.Tick hnext).1

omit [Number F] in
/-- The client of a member knows where a monster stands that is not flagged. -/
theorem known (h : s.Followed) {code number : Int} {mon : Monster F} (hcode : code ∈ s.members)
    (hmonster : s.now.mm.monsters number = some mon) (hbegun : mon.events = 1)
    (hflag : mon.bChangePosition = false) : s.outlook code number = some mon.position := by
  have hstanding : positions s.now.mm number = some mon.position :=
    Option.bind_eq_some_iff.mpr ⟨mon, hmonster, standing_eq_some_iff.mpr ⟨hbegun, hflag, rfl⟩⟩
  exact h.consistent.views (s.view code) (List.mem_map_of_mem hcode) number _ hstanding

end Followed

/-- In every reachable state the client of each member of a dungeon knows where every monster is
that has begun and has not moved since the last report, once it has got the packets that wait. A
report leaves nothing to be known. What waits is got at the next `PrevTick`. -/
theorem clients_track_monsters {levels : Int → status.Character F} {events : List (Tracked.Event F)}
    (hrun : Run (OfOption (Tracked.next infos f sm)) (.start levels) events s) :
    (∀ code ∈ s.members, ∀ number mon, s.now.mm.monsters number = some mon → mon.events = 1 →
      mon.bChangePosition = false → s.outlook code number = some mon.position) ∧
    (∀ delta s', s.saveTime + delta > lit 4 1 → s.next infos f sm (.Tick delta) = some s' →
      ∀ code ∈ s'.members, ∀ number mon, s'.now.mm.monsters number = some mon → mon.events = 1 →
        s'.outlook code number = some mon.position) ∧
    ∀ s', s.next infos f sm (.step .PrevTick) = some s' → ∀ code ∈ s.members, s'.view code = s.outlook code := by
  have hfollowed : s.Followed := hrun.invariant (Followed.start levels) fun _ _ _ h hnext => h.next hnext
  refine ⟨fun code hcode number mon hmonster hbegun hflag => ?_, ?_, ?_⟩
  · exact hfollowed.known hcode hmonster hbegun hflag
  · intro delta s' hdue hnext code hcode number mon hmonster hbegun
    obtain ⟨hafter, hunflagged⟩ := hfollowed.Tick hnext
    exact hafter.known hcode hmonster hbegun (hunflagged hdue number mon hmonster)
  · intro s' hnext code hcode
    cases hnext
    exact view_PrevTick hcode

/-- A packet that is no report. -/
def told : Sent F → Option (Packet F)
  | .packet packet => some packet
  | .MONSTER_MOVING_VECTOR _ => none

/-- But for the reports, what waits and what was pushed is what the dungeon says. -/
structure Agrees (s : Tracked F) : Prop where
  waiting : s.req_send_all.filterMap told = s.now.req_send_all.map .toAll
  received : ∀ ch ∈ s.now.characters, (s.received ch.code).filterMap told = ch.received

namespace Agrees

omit [Number F] in
/-- Packets of the dungeon are no reports. -/
theorem filterMap_told (packets : List (Packet F)) : (packets.map Sent.packet).filterMap told = packets := by
  rw [List.filterMap_map]
  exact List.filterMap_some

/-- A new member gets the same snapshot in both. -/
theorem InsertCharacter (h : s.Agrees) (code : Int) :
    Agrees { s.InsertCharacter code with now := s.now.InsertCharacter code } := by
  unfold Tracked.InsertCharacter Dungeon.InsertCharacter Tracked.members
  by_cases hmember : code ∈ s.now.characters.map Client.code
  · rw [if_pos hmember, if_pos hmember]
    exact h
  · rw [if_neg hmember, if_neg hmember]
    refine ⟨h.waiting, fun ch hch => ?_⟩
    obtain hch | hch := List.mem_append.mp hch
    · have hother : ch.code ≠ code := fun heq => hmember (heq ▸ List.mem_map_of_mem hch)
      dsimp only
      rw [update_of_ne hother]
      exact h.received ch hch
    · rw [List.mem_singleton.mp hch]
      dsimp only
      rw [update_self]
      have hsnapshot := filterMap_told ((Make_FBB_All_Monster s.now.mm 10).2.map Packet.RESPAWN_MONSTER_VEC)
      rwa [List.map_map] at hsnapshot

omit [Number F] in
/-- The same packets are pushed in both, with the reports between them here. -/
theorem PrevTick (h : s.Agrees) : Agrees { s.PrevTick with now := s.now.PrevTick } := by
  rw [Tracked.PrevTick_eq, Dungeon.PrevTick_eq]
  refine ⟨rfl, fun ch hch => ?_⟩
  obtain ⟨before, hbefore, rfl⟩ := List.mem_map.mp hch
  have hmember : before.code ∈ s.members := List.mem_map_of_mem hbefore
  dsimp only
  rw [if_pos hmember, List.filterMap_append, h.waiting, h.received before hbefore]

/-- A step of the dungeon queues and pushes the same in both. -/
theorem step {e : dungeon.Event F} (h : s.Agrees) (hnext : s.next infos f sm (.step e) = some s') : s'.Agrees := by
  simp only [Tracked.next, Option.bind_eq_bind, Option.bind_eq_some_iff] at hnext
  obtain ⟨now, hnow, hnext⟩ := hnext
  cases hnext
  cases e with
  | monsters e =>
    simp only [Dungeon.next, Option.bind_eq_bind, Option.bind_eq_some_iff] at hnow
    obtain ⟨e', _, mm, _, hnow⟩ := hnow
    cases hnow
    refine ⟨?_, h.received⟩
    have hqueued := filterMap_told (((mm.outputs.drop s.now.mm.outputs.length).filter isPacket).map Packet.toAll)
    rw [List.map_map] at hqueued
    simp only [packets, Async_SendAllCharacter, Dungeon.queue, List.filterMap_append, List.map_append, h.waiting]
    exact congrArg _ hqueued
  | InsertCharacter code =>
    cases hnow
    exact h.InsertCharacter code
  | EraseCharacter key =>
    cases hnow
    exact ⟨h.waiting, fun ch hch => h.received ch (List.mem_of_mem_filter hch)⟩
  | PrevTick =>
    cases hnow
    exact h.PrevTick
  | award i cm session =>
    simp only [Dungeon.next, Option.bind_eq_bind, Option.bind_eq_some_iff] at hnow
    obtain ⟨reward, _, ⟨notices, level⟩, _, hnow⟩ := hnow
    cases hnow
    exact ⟨h.waiting, h.received⟩

/-- A report is the only thing that the dungeon does not have. -/
theorem Tick (h : s.Agrees) (hnext : s.Tick delta = some s') : s'.Agrees := by
  simp only [Tracked.Tick, Option.bind_eq_bind, Option.bind_eq_some_iff] at hnext
  obtain ⟨mm, _, hnext⟩ := hnext
  cases hnext
  refine ⟨?_, h.received⟩
  have hreports : (reports mm.channel).filterMap told = [] := by
    unfold reports
    split
    · rw [List.filterMap_map]
      exact List.filterMap_eq_nil_iff.mpr fun _ _ => rfl
    · rfl
  simp only [Async_SendAllCharacter, List.filterMap_append, hreports, List.append_nil]
  exact h.waiting

end Agrees

/-- The reports come between the packets of the dungeon, and change nothing about them. -/
theorem agrees_of_run {levels : Int → status.Character F} {events : List (Tracked.Event F)}
    (hrun : Run (OfOption (Tracked.next infos f sm)) (.start levels) events s) : s.Agrees := by
  have hstart : (Tracked.start levels).Agrees := ⟨rfl, fun _ hch => by cases hch⟩
  refine hrun.invariant hstart fun _ e _ h hnext => ?_
  cases e with
  | step e => exact h.step hnext
  | Tick delta => exact h.Tick hnext

end Tracked

end Runs

section Example

/-- A character enters where a slime stands, which then follows another one. -/
def chase : List (Tracked.Event Int) :=
  [.step (.monsters (.Add_Spawn_Monster ⟨1, 1, .zero, 0, 0⟩ fun _ => { monster.blank with position := ⟨99, 0, 0⟩ })),
    .step (.monsters (.BeginPlay 0 monster.field)), .step (.InsertCharacter 7),
    .step (.monsters (.Tick 0 monster.away))]

theorem clients_track_monsters_chase :
    ∃ s s' : Tracked Int,
      Run (OfOption (Tracked.next monster.slime monster.plainFormula status.tens)) (.start fun _ => status.beginner)
        chase s ∧
      s.outlook 7 0 = some ⟨99, 0, 0⟩ ∧
      s.next monster.slime monster.plainFormula status.tens (.Tick 1) = some s' ∧
      s'.outlook 7 0 = some ⟨100, 0, 0⟩ := by
  have hrun : ∃ (s s' : Tracked Int) (mon : Monster Int),
      Run (OfOption (Tracked.next monster.slime monster.plainFormula status.tens)) (.start fun _ => status.beginner)
        chase s ∧
      s.outlook 7 0 = some ⟨99, 0, 0⟩ ∧ s.saveTime + 1 > lit 4 1 ∧
      s.next monster.slime monster.plainFormula status.tens (.Tick 1) = some s' ∧ 7 ∈ s'.members ∧
      s'.now.mm.monsters 0 = some mon ∧ mon.events = 1 ∧ mon.position = ⟨100, 0, 0⟩ :=
    ⟨_, _, _, .cons rfl (.cons rfl (.cons rfl (.cons rfl (.nil _)))), rfl, by decide, rfl, List.mem_singleton_self _,
      rfl, rfl, rfl⟩
  obtain ⟨s, s', mon, hrun, hbefore, hdue, hnext, hmember, hmonster, hbegun, hposition⟩ := hrun
  have hknown := (Tracked.clients_track_monsters hrun).2.1 1 s' hdue hnext 7 hmember 0 mon hmonster hbegun
  rw [hposition] at hknown
  exact ⟨s, s', hrun, hbefore, hnext, hknown⟩

end Example

end AsioGameServer.dungeon

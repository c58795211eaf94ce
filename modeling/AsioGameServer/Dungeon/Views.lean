import AsioGameServer.Dungeon.Delivery

open Function Number Transition Replica

namespace AsioGameServer.dungeon

open monster (Monster MonsterManager Output Stage Surroundings Attacker Record DamageFormula MonsterInfo Numbered)

variable {F : Type} [Number F]

section Health

variable {mm mm' : MonsterManager F} {infos : Int → Option (MonsterInfo F)} {f : DamageFormula F}
  {w : Surroundings F} {attacker : Attacker F} {state : monster.AttackState} {s s' : Stage F}

/-- A monster can have hit points, and once it has begun it is alive as long as it has some. -/
structure Healthy (mon : Monster F) : Prop where
  number : 0 ≤ mon.monsterNumber
  maxHp : ofInt 0 < mon.maxHp
  alive : mon.events = 1 → (mon.bAlive = true ↔ ofInt 0 < mon.currentHp)

/-- Whether a monster is healthy depends on the members that life and death depend on. -/
theorem Healthy.of_life {mon mon' : Monster F} (h : Healthy mon) (hlife : mon'.life = mon.life) : Healthy mon' := by
  simp only [Monster.life, Prod.mk.injEq] at hlife
  obtain ⟨hnumber, _, hevents, hmaxHp, halive, hcurrentHp, _⟩ := hlife
  refine ⟨hnumber ▸ h.number, hmaxHp ▸ h.maxHp, fun hbegun => ?_⟩
  rw [halive, hcurrentHp]
  exact h.alive (hevents ▸ hbegun)

/-- The events of `bAlive` leave alone how many hit points there can be. -/
theorem maxHp_iterate (hcm : w.cm = true) (val : Bool) (n : Nat) (s : Stage F) :
    ((monster.onAlive w val)^[n] s).self.maxHp = s.self.maxHp := by
  induction n generalizing s with
  | zero => rfl
  | succ n ih =>
    rw [iterate_succ_apply, ih]
    cases val with
    | true =>
      obtain ⟨_, _, _, hlife⟩ := monster.Respawn_spec (s := s) hcm
      simp only [Monster.life, Prod.mk.injEq] at hlife
      exact hlife.2.2.2.1
    | false =>
      unfold monster.onAlive monster.Dead
      simp [hcm, Stage.send]

/-- A monster that is set alive gets all its hit points by the handler, and one that is set dead
must have lost them before. -/
theorem Healthy.SetAlive (hcm : w.cm = true) {val : Bool} (hnumber : 0 ≤ s.self.monsterNumber)
    (hmaxHp : ofInt 0 < s.self.maxHp) (hval : val = false → s.self.currentHp ≤ ofInt 0) :
    Healthy (monster.SetAlive w val s).self := by
  refine ⟨(Heard.SetAlive hcm val s).number.symm ▸ hnumber, (maxHp_iterate hcm val _ _).symm ▸ hmaxHp, fun hbegun => ?_⟩
  rw [(Heard.SetAlive hcm val s).events] at hbegun
  rw [monster.SetAlive_eq val hbegun]
  cases val with
  | true =>
    obtain ⟨_, _, _, hlife⟩ := monster.Respawn_spec (s := s.onMonster ({ · with bAlive := true })) hcm
    simp only [Monster.life, Prod.mk.injEq] at hlife
    change (monster.Respawn w _).self.bAlive = true ↔ ofInt 0 < (monster.Respawn w _).self.currentHp
    rw [hlife.2.2.2.2.1, hlife.2.2.2.2.2.1]
    exact ⟨fun _ => hmaxHp, fun _ => rfl⟩
  | false =>
    have hself : (monster.onAlive w false (s.onMonster ({ · with bAlive := false }))).self =
        { s.self with bAlive := false } := by
      simp [monster.onAlive, monster.Dead, hcm, Stage.send, Stage.onMonster]
    rw [hself]
    simpa using hval rfl

/-- From `BeginPlay` on, a monster is alive as long as it has hit points. Before that, nothing is
asked of it. -/
theorem Healthy.BeginPlay (h : Healthy s.self) (hcm : w.cm = true) : Healthy (monster.BeginPlay w s).self := by
  have hset : Healthy (monster.SetAlive w true (s.onMonster fun m => { m with events := m.events + 1 })).self :=
    .SetAlive hcm h.number h.maxHp nofun
  exact ⟨hset.number, hset.maxHp, hset.alive⟩

/-- Of the actions of the tree, only `UpdateState` sets `bAlive`, and it does so by a respawn. -/
theorem Healthy.act (h : Healthy s.self) (hcm : w.cm = true) (action : monster.Action) :
    Healthy (monster.actors.act action w s).2.self := by
  cases action with
  | UpdateState =>
    obtain hstill | ⟨_, hset⟩ := monster.Still.UpdateState (w := w) (s := s)
    · exact h.of_life hstill.life
    · change Healthy (monster.UpdateState w s).2.self
      rw [hset]
      exact .SetAlive hcm h.number h.maxHp nofun
  | UpdateIdle => exact h.of_life monster.Still.UpdateIdle.life
  | Patrol => exact h.of_life monster.Still.Patrol.life
  | Hold => exact h.of_life monster.Still.Hold.life
  | Chase => exact h.of_life monster.Still.Chase.life
  | Attack => exact h.of_life monster.Still.Attack.life
  | Die => exact h.of_life monster.Still.Die.life

/-- A run of the tree, by the rule for what its actions keep. -/
theorem Healthy.Tick (h : Healthy s.self) (hcm : w.cm = true) (htick : monster.Tick w s = .ok s') :
    Healthy s'.self := by
  unfold monster.Tick at htick
  split at htick
  · cases htick
    exact h
  · split at htick
    · cases htick
    · rename_i hrun
      cases htick
      exact behavior.Run_keeps (P := fun s => Healthy s.self) (fun action _ hs => hs.act hcm action) h hrun

/-- A hit kills the monster exactly where its hit points are gone. -/
theorem Healthy.hit {record : Option (Record F)} (h : Healthy s.self) (hcm : w.cm = true)
    (hhit : monster.hit f w attacker state s = .ok (record, s')) : Healthy s'.self := by
  unfold monster.hit monster.GetDamage at hhit
  split at hhit
  · split at hhit
    · cases hhit
      exact h
    · rename_i hdead
      split at hhit
      · cases hhit
      · cases hhit
        exact h
      · rename_i damageval _
        dsimp only at hhit
        have hkill : Healthy (monster.kill w attacker
            (s.onMonster fun m => { m with currentHp := m.currentHp - damageval })).self ∨
            ofInt 0 < s.self.currentHp - damageval := by
          by_cases hhp : s.self.currentHp - damageval ≤ ofInt 0
          · refine .inl ?_
            have hset : Healthy (monster.SetAlive w false
                (s.onMonster fun m => { m with currentHp := m.currentHp - damageval })).self :=
              .SetAlive hcm h.number h.maxHp fun _ => hhp
            unfold monster.kill
            dsimp only
            split
            · exact hset
            · exact hset
          · exact .inr (lt_of_not_ge hhp)
        have halive : s.self.bAlive = true := by simpa using hdead
        split at hhit
        · rename_i hhp
          cases hhit
          obtain hkill | hpos := hkill
          · exact hkill
          · exact absurd hhp (not_le_of_gt hpos)
        · rename_i hhp
          cases hhit
          exact ⟨h.number, h.maxHp, fun _ => ⟨fun _ => lt_of_not_ge hhp, fun _ => halive⟩⟩
  · cases hhit
    exact h

/-- All monsters are healthy, and were numbered from 0 on. -/
structure Fit (mm : MonsterManager F) : Prop where
  healthy : ∀ number mon, mm.monsters number = some mon → Healthy mon
  count : 0 ≤ mm.monKeyCount

namespace Fit

/-- A healthy monster may be written back. -/
theorem update {number : Int} {mon : Monster F} {outputs : List (Output F)} (h : Fit mm) (hmon : Healthy mon) :
    Fit { mm with monsters := update mm.monsters number (some mon), outputs } := by
  refine ⟨fun n other hother => ?_, h.count⟩
  dsimp only at hother
  by_cases hn : n = number
  · rw [hn, update_self] at hother
    exact Option.some.inj hother ▸ hmon
  · rw [update_of_ne hn] at hother
    exact h.healthy n other hother

/-- A step of one monster leaves the others as they are. -/
theorem onStage {number : Int} {g : Stage F → Except monster.Fault (Stage F)} (h : Fit mm)
    (hg : ∀ s s', Healthy s.self → g s = .ok s' → Healthy s'.self) (hnext : mm.onStage number g = .ok mm') :
    Fit mm' := by
  unfold MonsterManager.onStage at hnext
  split at hnext
  · cases hnext
    exact h
  · rename_i mon hmonster
    obtain ⟨s', hs', hnext⟩ := Outcome.bind_eq_ok_iff.mp hnext
    cases hnext
    exact h.update (hg _ s' (h.healthy number mon hmonster) hs')

/-- One record of a hit list. -/
theorem damage {damaged_code : Int} {records records' : List (Record F)} (h : Fit mm) (hcm : w.cm = true)
    (hdamage : mm.damage f w attacker damaged_code state records = .ok (records', mm')) : Fit mm' := by
  unfold MonsterManager.damage at hdamage
  split at hdamage
  · cases hdamage
    exact h
  · rename_i mon hmonster
    obtain ⟨⟨record, s'⟩, hhit, hdamage⟩ := Outcome.bind_eq_ok_iff.mp hdamage
    cases hdamage
    exact h.update ((h.healthy damaged_code mon hmonster).hit hcm hhit)

/-- A single hit, with the message that tells others of it. -/
theorem DamageProcess {damaged_code : Int} (h : Fit mm) (hcm : w.cm = true)
    (hnext : mm.DamageProcess f w attacker damaged_code state = .ok mm') : Fit mm' := by
  unfold MonsterManager.DamageProcess at hnext
  obtain ⟨⟨records, mm₁⟩, hdamage, hnext⟩ := Outcome.bind_eq_ok_iff.mp hnext
  have hkept : Fit mm₁ := h.damage hcm hdamage
  cases records with
  | nil =>
    cases hnext
    exact hkept
  | cons record rest =>
    have hsent : mm₁.send (.CON_DAMAGE record) = mm' := by simpa [hcm, pure, Except.pure] using hnext
    subst hsent
    exact ⟨hkept.healthy, hkept.count⟩

/-- A list of hits, by induction on it. -/
theorem DamageProcessVector {damagevector : List (Int × monster.AttackState)} (h : Fit mm) (hcm : w.cm = true)
    (hnext : mm.DamageProcessVector f w attacker damagevector = .ok mm') : Fit mm' := by
  unfold MonsterManager.DamageProcessVector at hnext
  obtain ⟨⟨records, mm₁⟩, hloop, hnext⟩ := Outcome.bind_eq_ok_iff.mp hnext
  have hkept : Fit mm₁ := by
    refine Outcome.ok (Outcome.foldlM_keeps (I := fun p => Fit p.2) (E := fun _ => True) h ?_) hloop
    rintro ⟨records₀, mm₀⟩ ⟨damaged_code, attackType⟩ _ hp
    change Outcome _ _ (mm₀.damage f w attacker damaged_code attackType records₀)
    cases hdamage : mm₀.damage f w attacker damaged_code attackType records₀ with
    | error fault => trivial
    | ok p' => exact hp.damage hcm hdamage
  dsimp only at hnext
  split at hnext
  · cases hnext
    exact hkept
  · have hsent : mm₁.send (.CON_DAMAGE_VECTOR records) = mm' := by simpa [hcm, pure, Except.pure] using hnext
    subst hsent
    exact ⟨hkept.healthy, hkept.count⟩

/-- A new monster has the hit points of its type. Here it matters that every type has some. -/
theorem Add_Spawn_Monster {desc : monster.MonsterSpawnDesc F} {memory : Nat → Monster F} (h : Fit mm)
    (hinfos : ∀ code info, infos code = some info → ofInt 0 < info.HP) :
    Fit (mm.Add_Spawn_Monster infos desc memory) := by
  have hspawn : ∀ (mm : MonsterManager F) (mem : Monster F), Fit mm → Fit (mm.spawn infos desc mem) := by
    intro mm mem h
    have hcounted : Fit { mm with monKeyCount := mm.monKeyCount + 1 } :=
      ⟨h.healthy, h.count.trans (Int.le_add_one (le_refl _))⟩
    unfold MonsterManager.spawn
    dsimp only
    cases hcreate : monster.MonsterBuilder.CreateMonster infos mem desc.monsterCode mm.monKeyCount with
    | none => exact hcounted
    | some mon =>
      dsimp only
      split
      · exact hcounted
      · obtain ⟨info, hinfo, rfl⟩ := Option.map_eq_some_iff.mp hcreate
        exact hcounted.update ⟨h.count, hinfos _ info hinfo, nofun⟩
  unfold MonsterManager.Add_Spawn_Monster
  induction List.range desc.monsterCount generalizing mm with
  | nil => exact h
  | cons i l ih => exact ih (hspawn mm (memory i) h)

/-- Every event of the monsters keeps them fit. -/
theorem next {e e' : MonsterManager.Event F} (h : Fit mm)
    (hinfos : ∀ code info, infos code = some info → ofInt 0 < info.HP) (he : ofMonsters mm e = some e')
    (hnext : mm.next infos f e' = some mm') : Fit mm' := by
  cases e with
  | Add_Spawn_Monster desc memory =>
    cases he
    cases hnext
    exact h.Add_Spawn_Monster hinfos
  | BeginPlay number w =>
    obtain ⟨_, ⟨⟩⟩ := Option.ite_none_right_eq_some.mp he
    refine h.onStage (fun s s' hs hg => ?_) (Outcome.toOption_eq_some_iff.mp hnext)
    cases hg
    exact hs.BeginPlay rfl
  | Tick number w =>
    cases he
    exact h.onStage (fun s s' hs htick => hs.Tick rfl htick) (Outcome.toOption_eq_some_iff.mp hnext)
  | DamageProcess w attacker damaged_code attackType =>
    cases he
    exact h.DamageProcess rfl (Outcome.toOption_eq_some_iff.mp hnext)
  | DamageProcessVector w attacker damagevector =>
    cases he
    exact h.DamageProcessVector rfl (Outcome.toOption_eq_some_iff.mp hnext)
  | EndPlay number => cases he

end Fit

end Health

section Snapshot

variable {mm : MonsterManager F} {mon : Monster F}

/-- What can be read of a monster in a snapshot. -/
def infoOf (mon : Monster F) : FB.Monster F :=
  ⟨mon.code, mon.monsterNumber, some mon.nickname, some mon.position, mon.currentHp, mon.maxHp, mon.power, mon.speed⟩

theorem adds_addMonster : flatbuffers.Slices.Adds (addMonster (F := F)) infoOf := by
  intro mon fbb
  constructor <;> simp only [addMonster, FB.MonsterBuilder.Finish, flatbuffers.FlatBufferBuilder.addTable,
    FB.MonsterBuilder.new,
    FB.MonsterBuilder.add_code, FB.MonsterBuilder.add_number, FB.MonsterBuilder.add_MaxHp,
    FB.MonsterBuilder.add_CurrentHP, FB.MonsterBuilder.add_position, FB.MonsterBuilder.add_nick,
    FB.MonsterBuilder.add_power, FB.MonsterBuilder.add_speed, infoOf, flatbuffers.FlatBufferBuilder.tables_AddElement,
    flatbuffers.FlatBufferBuilder.tables_AddOffset, flatbuffers.FlatBufferBuilder.tables_AddStruct,
    flatbuffers.FlatBufferBuilder.tables_EndTable,
    flatbuffers.FlatBufferBuilder.tables_CreateString]

omit [Number F] in
/-- The entries are the monsters of the manager, none of which has a number below 0. -/
theorem mem_entries_iff (hnonneg : ∀ n mon, mm.monsters n = some mon → 0 ≤ n) (hnumbered : Numbered mm) :
    mon ∈ (entries mm).filterMap Prod.snd ↔ mm.monsters mon.monsterNumber = some mon := by
  unfold entries
  rw [List.filterMap_filterMap, List.mem_filterMap]
  constructor
  · rintro ⟨i, _, hi⟩
    obtain ⟨entry, hentry, hmon⟩ := Option.bind_eq_some_iff.mp hi
    obtain ⟨other, hother, rfl⟩ := Option.map_eq_some_iff.mp hentry
    obtain rfl : other = mon := Option.some.inj hmon
    obtain ⟨hnumber, _⟩ := hnumbered i other hother
    rw [hnumber]
    exact hother
  · intro hmonster
    obtain ⟨_, hlt, _⟩ := hnumbered _ mon hmonster
    have hnonneg := hnonneg _ mon hmonster
    refine ⟨mon.monsterNumber.toNat, List.mem_range.mpr (by omega), ?_⟩
    rw [Int.toNat_of_nonneg hnonneg, hmonster]
    rfl

/-- The tables of a snapshot are those of the monsters. -/
theorem mem_snapshot_iff (hnonneg : ∀ n mon, mm.monsters n = some mon → 0 ≤ n) (hnumbered : Numbered mm)
    (table : FB.Monster F) : (∃ fbb ∈ (Make_FBB_All_Monster mm 10).2, table ∈ fbb.contents) ↔
      ∃ mon, mm.monsters mon.monsterNumber = some mon ∧ infoOf mon = table := by
  have hlisted : (∃ fbb ∈ (Make_FBB_All_Monster mm 10).2, table ∈ fbb.contents) ↔
      table ∈ ((entries mm).filterMap Prod.snd).map infoOf :=
    flatbuffers.Slices.mem_contents_run adds_addMonster (by decide) _
  rw [hlisted, List.mem_map]
  simp only [mem_entries_iff hnonneg hnumbered]

def tellsTable (table : FB.Monster F) : List (Key × Fact F) :=
  [hpTold table.number table.CurrentHP, aliveTold table.number (decide (ofInt 0 < table.CurrentHP))]

/-- What a packet tells a client: the monsters of a snapshot are alive if they have hit points. -/
def tellsPacket : Packet F → List (Key × Fact F)
  | .RESPAWN_MONSTER_VEC fbb => fbb.contents.flatMap tellsTable
  | .toAll output => tells output

/-- What a client knows of the monsters. -/
def Client.view (ch : Client F) : Key → Option (Fact F) := apply (fun _ => none) (ch.received.flatMap tellsPacket)

/-- The number of a monster that is there is its own, which is not negative. -/
theorem Fit.nonneg (hfit : Fit mm) (hnumbered : Numbered mm) (n : Int) (mon : Monster F)
    (hmonster : mm.monsters n = some mon) : 0 ≤ n := by
  rw [← (hnumbered n mon hmonster).1]
  exact (hfit.healthy n mon hmonster).number

/-- What a snapshot tells. -/
theorem mem_tells_snapshot (hfit : Fit mm) (hnumbered : Numbered mm) {t : Key × Fact F} :
    t ∈ ((Make_FBB_All_Monster mm 10).2.map Packet.RESPAWN_MONSTER_VEC).flatMap tellsPacket ↔
      ∃ mon, mm.monsters mon.monsterNumber = some mon ∧ t ∈ tellsTable (infoOf mon) := by
  rw [List.flatMap_map]
  simp only [tellsPacket, List.mem_flatMap]
  constructor
  · rintro ⟨fbb, hfbb, table, htable, ht⟩
    obtain ⟨mon, hmonster, rfl⟩ := (mem_snapshot_iff (hfit.nonneg hnumbered) hnumbered _).mp ⟨fbb, hfbb, htable⟩
    exact ⟨mon, hmonster, ht⟩
  · rintro ⟨mon, hmonster, ht⟩
    obtain ⟨fbb, hfbb, htable⟩ := (mem_snapshot_iff (hfit.nonneg hnumbered) hnumbered _).mpr ⟨mon, hmonster, rfl⟩
    exact ⟨fbb, hfbb, _, htable, ht⟩

/-- Who gets a snapshot knows the monsters. -/
theorem view_snapshot (hfit : Fit mm) (hnumbered : Numbered mm) (code : Int) {k : Key} {x : Fact F}
    (hx : facts mm k = some x) :
    Client.view ⟨code, (Make_FBB_All_Monster mm 10).2.map .RESPAWN_MONSTER_VEC⟩ k = some x := by
  obtain ⟨mon, hmonster, hfact⟩ := Option.bind_eq_some_iff.mp hx
  obtain ⟨hk, hbegun, rfl⟩ := factsOf_eq_some_iff.mp hfact
  have hmine : mm.monsters mon.monsterNumber = some mon := hk ▸ hmonster
  have halive := (hfit.healthy _ mon hmonster).alive hbegun
  have htold : ∀ aspect, ((mon.monsterNumber, aspect), fact mon aspect) ∈ tellsTable (infoOf mon) := by
    intro aspect
    cases aspect with
    | CurrentHP => exact List.mem_cons_self
    | bAlive =>
      refine List.mem_cons_of_mem _ (List.mem_singleton.mpr ?_)
      simp [aliveTold, fact, infoOf, ← halive]
  have honly : ∀ aspect y, ((mon.monsterNumber, aspect), y) ∈ tellsTable (infoOf mon) → y = fact mon aspect := by
    intro aspect y hy
    obtain hy | hy := List.mem_cons.mp hy
    · cases hy
      rfl
    · cases List.mem_singleton.mp hy
      simp [fact, infoOf, ← halive]
  obtain ⟨n, aspect⟩ := k
  obtain rfl : n = mon.monsterNumber := hk
  rw [Client.view, apply_eq]
  refine Option.or_eq_some_iff.mpr (.inl (last_eq_some ?_ ?_))
  · exact ⟨_, (mem_tells_snapshot hfit hnumbered).mpr ⟨mon, hmine, htold aspect⟩, rfl⟩
  · rintro ⟨k, y⟩ ht rfl
    obtain ⟨other, hother, ht⟩ := (mem_tells_snapshot hfit hnumbered).mp ht
    have hnumber : other.monsterNumber = mon.monsterNumber := by
      obtain ht | ht := List.mem_cons.mp ht
      · exact (congrArg (·.1.1) ht).symm
      · exact (congrArg (·.1.1) (List.mem_singleton.mp ht)).symm
    rw [hnumber, hmine] at hother
    obtain rfl := Option.some.inj hother
    exact honly aspect y ht

end Snapshot

section Runs

variable {infos : Int → Option (MonsterInfo F)} {f : DamageFormula F} {sm : status.StatusManager F} {d d' : Dungeon F}

/-- The characters of a dungeon know its monsters, once they have got what waits. -/
structure Informed (d : Dungeon F) : Prop where
  numbered : Numbered d.mm
  fit : Fit d.mm
  consistent : Consistent (facts d.mm) (d.req_send_all.flatMap tells) (d.characters.map Client.view)

namespace Informed

omit [Number F] in
/-- What is no packet tells nothing. -/
theorem tells_filter (new : List (Output F)) : (new.filter isPacket).flatMap tells = new.flatMap tells := by
  induction new with
  | nil => rfl
  | cons output new ih =>
    rw [List.filter_cons, List.flatMap_cons, ← ih]
    cases output <;> rfl

/-- Before anybody is there, nothing can be wrong about what is known. -/
theorem start (levels : Int → status.Character F) : Informed (.start levels) where
  numbered _ _ hmonster := by cases hmonster
  fit := ⟨fun _ _ hmonster => (by cases hmonster), Int.le_refl 0⟩
  consistent := .start _

/-- Every event of the dungeon keeps the clients informed. The cases are those of the events. -/
theorem next {e : Event F} (h : Informed d) (hinfos : ∀ code info, infos code = some info → ofInt 0 < info.HP)
    (hnext : d.next infos f sm e = some d') : Informed d' := by
  have hnumbered : Numbered d'.mm := Dungeon.numbered_next h.numbered hnext
  cases e with
  | monsters e =>
    obtain ⟨new, _, _, hleads, hd'⟩ := Dungeon.exists_queue h.numbered hnext
    have hfit : Fit d'.mm := by
      simp only [Dungeon.next, Option.bind_eq_bind, Option.bind_eq_some_iff] at hnext
      obtain ⟨e', he, mm, hmm, hnext⟩ := hnext
      cases hnext
      exact h.fit.next hinfos he hmm
    refine ⟨hnumbered, hfit, ?_⟩
    rw [hd']
    dsimp only
    rw [List.flatMap_append, tells_filter]
    exact h.consistent.write hleads
  | InsertCharacter code =>
    cases hnext
    unfold Dungeon.InsertCharacter
    split
    · exact h
    · refine ⟨h.numbered, h.fit, ?_⟩
      rw [List.map_append]
      exact h.consistent.join fun k x hx => view_snapshot h.fit h.numbered code hx
  | EraseCharacter key =>
    cases hnext
    refine ⟨h.numbered, h.fit, h.consistent.leave fun view hview => ?_⟩
    obtain ⟨ch, hch, rfl⟩ := List.mem_map.mp hview
    exact List.mem_map_of_mem (List.mem_of_mem_filter hch)
  | PrevTick =>
    cases hnext
    rw [Dungeon.PrevTick_eq]
    refine ⟨h.numbered, h.fit, ?_⟩
    have hviews : (d.characters.map fun ch =>
        { ch with received := ch.received ++ d.req_send_all.map Packet.toAll }).map Client.view =
        (d.characters.map Client.view).map fun view => apply view (d.req_send_all.flatMap tells) := by
      rw [List.map_map, List.map_map]
      refine List.map_congr_left fun ch _ => ?_
      have hsent : (d.req_send_all.map Packet.toAll).flatMap tellsPacket = d.req_send_all.flatMap tells :=
        List.flatMap_map _ _ _
      simp only [Function.comp_apply, Client.view]
      rw [List.flatMap_append, hsent, apply_append]
    rw [hviews]
    exact h.consistent.deliver
  | award i cm session =>
    simp only [Dungeon.next, Option.bind_eq_bind, Option.bind_eq_some_iff] at hnext
    obtain ⟨reward, _, ⟨notices, level⟩, _, hnext⟩ := hnext
    cases hnext
    exact ⟨h.numbered, h.fit, h.consistent⟩

end Informed

/-- Whenever no packet waits, every character in a dungeon knows of every monster that has begun
how many hit points it has and whether it is alive, from the packets since it was inserted. At
any time it lacks no more than what waits. -/
theorem characters_know_monsters {levels : Int → status.Character F} {events : List (Event F)} {ch : Client F}
    {number : Int} {mon : Monster F} (hinfos : ∀ code info, infos code = some info → ofInt 0 < info.HP)
    (hrun : Run (OfOption (Dungeon.next infos f sm)) (.start levels) events d) (hch : ch ∈ d.characters)
    (hmonster : d.mm.monsters number = some mon) (hbegun : mon.events = 1) (aspect : Aspect) :
    apply ch.view (d.req_send_all.flatMap tells) (number, aspect) = some (fact mon aspect) ∧
      (d.req_send_all = [] → ch.view (number, aspect) = some (fact mon aspect)) := by
  have hinformed : Informed d := by
    apply hrun.invariant (Informed.start levels)
    exact fun a e b ha hnext => ha.next hinfos hnext
  have hfact : facts d.mm (number, aspect) = some (fact mon aspect) := by
    obtain ⟨hnumber, _⟩ := hinformed.numbered number mon hmonster
    exact Option.bind_eq_some_iff.mpr ⟨mon, hmonster, factsOf_eq_some_iff.mpr ⟨hnumber.symm, hbegun, rfl⟩⟩
  have hleads := hinformed.consistent.views ch.view (List.mem_map_of_mem hch) _ _ hfact
  refine ⟨hleads, fun hnone => ?_⟩
  rwa [hnone] at hleads

end Runs

section Example

theorem hp_slime : ∀ code info, monster.slime code = some info → ofInt 0 < info.HP := by
  intro code info hinfo
  obtain ⟨_, ⟨⟩⟩ := Option.ite_none_right_eq_some.mp hinfo
  decide

/-- The player of the visit knows what it left of the slime. -/
theorem characters_know_monsters_visit :
    ∃ (d : Dungeon Int) (ch : Client Int) (mon : Monster Int),
      Run (OfOption (Dungeon.next monster.slime monster.plainFormula status.tens)) (.start fun _ => status.beginner)
        (Dungeon.opening ++ .InsertCharacter 7 :: Dungeon.visit) d ∧
      ch ∈ d.characters ∧ d.mm.monsters 0 = some mon ∧ mon.currentHp = 4 ∧
      ch.view (0, .CurrentHP) = some (fact mon .CurrentHP) := by
  have hrun : ∃ (d : Dungeon Int) (ch : Client Int) (mon : Monster Int),
      Run (OfOption (Dungeon.next monster.slime monster.plainFormula status.tens)) (.start fun _ => status.beginner)
        (Dungeon.opening ++ .InsertCharacter 7 :: Dungeon.visit) d ∧
      ch ∈ d.characters ∧ d.mm.monsters 0 = some mon ∧ mon.currentHp = 4 ∧ mon.events = 1 ∧ d.req_send_all = [] := by
    refine ⟨_, _, _, .cons rfl (.cons rfl (.cons rfl (.cons rfl (.cons rfl (.nil _))))), List.mem_singleton_self _,
      rfl, ?_⟩
    decide
  obtain ⟨d, ch, mon, hrun, hch, hmonster, hhp, hbegun, hnone⟩ := hrun
  exact ⟨d, ch, mon, hrun, hch, hmonster, hhp,
    (characters_know_monsters hp_slime hrun hch hmonster hbegun .CurrentHP).2 hnone⟩

end Example

end AsioGameServer.dungeon

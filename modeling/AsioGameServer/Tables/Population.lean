import AsioGameServer.Tables.Maps

open Function Number Rows Transition

namespace AsioGameServer.tables

open monster (DamageFormula Monster MonsterInfo MonsterManager SpawnDesc Spawner)

variable {F : Type} [Number F]

/-- `Channel::BeginPlay` under a map. The manager of the monsters is attached after they are
spawned. -/
def Channel.BeginPlay (infos : Int → Option (MonsterInfo F)) (memory : Int → Monster F) (channel : Nat)
    (info : MapInfo F) (heap : component.Heap) : Option (component.Heap × Option (Spawner F)) :=
  let cm := heap.count + 1
  let heap := heap.CreateComponent.Attach channel cm
  if info.mapType = .Dungeon then
    (info.spawnDescs.foldlM (fun s desc => Spawner.Add_Spawn_Monster infos memory desc s)
      (Spawner.start heap)).map fun s =>
      (s.heap.Attach channel s.id, some s)
  else some (heap, none)

/-- The descriptor of each number that is used up. -/
def numbered (descs : List (SpawnDesc F)) : List (SpawnDesc F) :=
  descs.flatMap fun desc => List.replicate desc.monsterCount.toNat desc

/-- A monster of a kind, made for a descriptor. -/
structure Described (kind : MonsterInfo F) (desc : SpawnDesc F) (number : Int) (navi : Option Nat)
    (mon : Monster F) : Prop where
  code : mon.code = desc.monsterCode
  monsterNumber : mon.monsterNumber = number
  nickname : mon.nickname = kind.name
  maxHp : mon.maxHp = kind.HP
  power : mon.power = kind.Power
  speed : mon.speed = kind.Speed
  exp : mon.exp = kind.exp
  respawnPosition : mon.respawnPosition = desc.position
  respawnTime : mon.respawnTime = desc.respawnTime
  navi : navi = desc.navi
  ai : mon.ai = monster.MonsterBuilder.InsertAI desc.monsterCode

section Attach

variable {h : component.Heap} {p c d : Nat}

/-- `Attach` sets one parent. -/
theorem parent_Attach_of_ne (hne : d ≠ c) : ((h.Attach p c).get d).parent = (h.get d).parent := by
  unfold component.Heap.Attach
  split
  · rw [component.Heap.parent_onComponent_children, component.Heap.onComponent_of_ne hne]
  · rfl

/-- `Attach` changes the list of one component. -/
theorem children_Attach_of_ne (hne : d ≠ p) : ((h.Attach p c).get d).children = (h.get d).children := by
  unfold component.Heap.Attach
  split
  · rw [component.Heap.onComponent_of_ne hne, component.Heap.children_onComponent_parent]
  · rfl

/-- A component without a parent is among the children that it is attached to. -/
theorem mem_children_Attach (hroot : (h.get c).parent = none) : c ∈ ((h.Attach p c).get p).children := by
  unfold component.Heap.Attach
  rw [if_pos hroot, component.Heap.onComponent_self]
  exact List.mem_append_right _ (List.mem_singleton_self c)

/-- `Attach` makes no component. -/
theorem count_Attach : (h.Attach p c).count = h.count := by
  unfold component.Heap.Attach
  split <;> rfl

end Attach

section Spawning

variable {infos : Int → Option (MonsterInfo F)} {memory : Int → Monster F} {descs used : List (SpawnDesc F)}
  {desc : SpawnDesc F} {kind : MonsterInfo F} {s s' : Spawner F} {number : Int}

/-- What there is under a number that was used up for a descriptor. -/
structure Stands (infos : Int → Option (MonsterInfo F)) (s : Spawner F) (number : Int) (desc : SpawnDesc F) : Prop where
  unknown : infos desc.monsterCode = none → s.manager.monsters number = none
  known : ∀ kind, infos desc.monsterCode = some kind → ∃ mon, s.manager.monsters number = some mon ∧
    Described kind desc number (s.navi number) mon ∧ s.components number ∈ (s.heap.get s.id).children

/-- A manager that used up a number for each of some descriptors. -/
structure Spawned (infos : Int → Option (MonsterInfo F)) (used : List (SpawnDesc F)) (s : Spawner F) : Prop where
  heap : s.heap.WellFormed
  id : s.id < s.heap.count
  root : (s.heap.get s.id).parent = none
  monKeyCount : s.manager.monKeyCount = used.length
  free : ∀ number : Int, ¬ (0 ≤ number ∧ number < used.length) → s.manager.monsters number = none
  stands : ∀ (i : Nat) desc, used[i]? = some desc → Stands infos s i desc

omit [Number F] in
/-- That a monster stands as described depends on what is under its number and on the children of
the manager, which may be more. -/
theorem Stands.congr (h : Stands infos s number desc)
    (hmonsters : s'.manager.monsters number = s.manager.monsters number) (hnavi : s'.navi number = s.navi number)
    (hcomponents : s'.components number = s.components number)
    (hchildren : ∀ c ∈ (s.heap.get s.id).children, c ∈ (s'.heap.get s'.id).children) : Stands infos s' number desc := by
  constructor
  · intro hunknown
    exact hmonsters.trans (h.unknown hunknown)
  · intro kind hkind
    obtain ⟨mon, hmon, hdescribed, hchild⟩ := h.known kind hkind
    refine ⟨mon, hmonsters.trans hmon, ?_, ?_⟩
    · rw [hnavi]
      exact hdescribed
    · rw [hcomponents]
      exact hchildren _ hchild

/-- A monster of a type that the tables do not have is not spawned, and uses up its number. -/
theorem spawn_unknown (hroom : s.manager.monKeyCount ≠ 2147483647) (hunknown : infos desc.monsterCode = none) :
    s.spawn infos memory desc =
      some { s with manager := { s.manager with monKeyCount := s.manager.monKeyCount + 1 } } := by
  unfold Spawner.spawn monster.MonsterBuilder.CreateMonster
  dsimp only
  rw [if_neg hroom, hunknown]
  rfl

/-- A monster of a known type is created from its row, attached to the manager and entered under
the next number. -/
theorem spawn_known (memory : Int → Monster F) (hroom : s.manager.monKeyCount ≠ 2147483647)
    (hkind : infos desc.monsterCode = some kind)
    (hfree : s.manager.monsters s.manager.monKeyCount = none) :
    ∃ mon, Described kind desc s.manager.monKeyCount desc.navi mon ∧ s.spawn infos memory desc = some { s with
      heap := s.heap.CreateComponent.Attach s.id (s.heap.count + 1)
      manager := { s.manager with
        monKeyCount := s.manager.monKeyCount + 1
        monsters := update s.manager.monsters s.manager.monKeyCount (some mon) }
      navi := update s.navi s.manager.monKeyCount desc.navi
      components := update s.components s.manager.monKeyCount (s.heap.count + 1) } := by
  unfold Spawner.spawn monster.MonsterBuilder.CreateMonster
  dsimp only
  rw [if_neg hroom, hkind, hfree]
  exact ⟨_, ⟨rfl, rfl, rfl, rfl, rfl, rfl, rfl, rfl, rfl, rfl, rfl⟩, rfl⟩

namespace Spawned

omit [Number F] in
/-- Before the first descriptor, nothing is spawned. -/
theorem start {heap : component.Heap} (hw : heap.WellFormed) : Spawned infos [] (Spawner.start heap) := by
  have hnew : heap.get (heap.count + 1) = .new := hw.fresh _ (Nat.le_succ _)
  exact ⟨hw.CreateComponent, Nat.lt_succ_self _, congrArg component.Component.parent hnew, rfl, fun _ _ => rfl, by simp⟩

omit [Number F] in
/-- A manager with one more number used up, where the numbers before stand for what they did. -/
theorem concat (h : Spawned infos used s) (hheap : s'.heap.WellFormed) (hid : s'.id < s'.heap.count)
    (hroot : (s'.heap.get s'.id).parent = none)
    (hkey : s'.manager.monKeyCount = s.manager.monKeyCount + 1)
    (hothers : ∀ number, number ≠ s.manager.monKeyCount → s'.manager.monsters number = s.manager.monsters number ∧
      s'.navi number = s.navi number ∧ s'.components number = s.components number)
    (hchildren : ∀ c ∈ (s.heap.get s.id).children, c ∈ (s'.heap.get s'.id).children)
    (hstands : Stands infos s' s.manager.monKeyCount desc) : Spawned infos (used ++ [desc]) s' := by
  have hlength : ((used ++ [desc]).length : Int) = used.length + 1 := by simp
  have hkey' := h.monKeyCount
  refine ⟨hheap, hid, hroot, by omega, fun number hout => ?_, fun i desc' hi => ?_⟩
  · rw [(hothers number (by omega)).1]
    exact h.free number (by omega)
  · obtain hlt | hge := Nat.lt_or_ge i used.length
    · rw [List.getElem?_append_left hlt] at hi
      obtain ⟨hmonsters, hnavi, hcomponents⟩ := hothers i (by omega)
      exact (h.stands i desc' hi).congr hmonsters hnavi hcomponents hchildren
    · have hlast : i = used.length := by
        have hbound := (List.getElem?_eq_some_iff.mp hi).1
        rw [List.length_append, List.length_singleton] at hbound
        omega
      subst hlast
      rw [List.getElem?_concat_length] at hi
      cases hi
      rw [← hkey']
      exact hstands

/-- A round of the loop uses up one number. -/
theorem spawn (h : Spawned infos used s) (memory : Int → Monster F) (desc : SpawnDesc F)
    (hroom : used.length < 2147483647) :
    ∃ s', s.spawn infos memory desc = some s' ∧ s'.id = s.id ∧ Spawned infos (used ++ [desc]) s' := by
  have hkey := h.monKeyCount
  have hmax : s.manager.monKeyCount ≠ 2147483647 := by omega
  have hfree : s.manager.monsters s.manager.monKeyCount = none := h.free _ (by omega)
  cases hkind : infos desc.monsterCode with
  | none =>
    refine ⟨_, spawn_unknown hmax hkind, rfl,
      h.concat h.heap h.id h.root rfl (fun _ _ => ⟨rfl, rfl, rfl⟩) (fun _ hc => hc) ?_⟩
    exact ⟨fun _ => hfree, fun kind hknown => by cases hkind.symm.trans hknown⟩
  | some kind =>
    obtain ⟨mon, hdescribed, hspawn⟩ := spawn_known memory hmax hkind hfree
    obtain ⟨hheap, hchildren⟩ := Spawner.attach_created h.heap h.id
    refine ⟨_, hspawn, rfl, h.concat hheap ?_ ?_ rfl (fun number hne => ?_) (fun c hc => ?_)
      ⟨fun hunknown => ?_, fun kind' hknown => ?_⟩⟩
    · dsimp only
      rw [count_Attach]
      exact Nat.lt_add_right 2 h.id
    · have hid := h.id
      dsimp only
      rw [parent_Attach_of_ne (by omega)]
      exact h.root
    · exact ⟨update_of_ne hne _ _, update_of_ne hne _ _, update_of_ne hne _ _⟩
    · dsimp only
      rw [hchildren]
      exact List.mem_append_left _ hc
    · cases hkind.symm.trans hunknown
    · cases hkind.symm.trans hknown
      dsimp only
      rw [update_self, update_self, update_self, hchildren]
      exact ⟨mon, rfl, hdescribed, List.mem_append_right _ (List.mem_singleton_self _)⟩

/-- Without a number left the counter overflows. -/
theorem spawn_full (h : Spawned infos used s) (hfull : used.length = 2147483647) :
    s.spawn infos memory desc = none := by
  rw [Spawner.spawn_eq_none_iff, h.monKeyCount, hfull]
  rfl

/-- A list of descriptors, one after the other, by induction on it. The numbers are those of the
rounds, as long as they fit into an `int`, and there is no result beyond that. -/
theorem rounds (h : Spawned infos used s) (memory : Int → Monster F) (descs : List (SpawnDesc F)) :
    ((used ++ descs).length ≤ 2147483647 → ∃ s',
      descs.foldlM (fun s desc => Spawner.spawn infos memory desc s) s = some s' ∧ s'.id = s.id ∧
      Spawned infos (used ++ descs) s') ∧
    (used.length ≤ 2147483647 → 2147483647 < (used ++ descs).length →
      descs.foldlM (fun s desc => Spawner.spawn infos memory desc s) s = none) := by
  induction descs generalizing s used with
  | nil =>
    rw [List.append_nil]
    exact ⟨fun _ => ⟨s, rfl, rfl, h⟩, fun hle hlt => absurd hle (Nat.not_le_of_lt hlt)⟩
  | cons desc descs ih =>
    rw [List.append_cons, List.foldlM_cons, Option.bind_eq_bind]
    obtain hroom | hfull := Nat.lt_or_ge used.length 2147483647
    · obtain ⟨s₁, hspawn, hid, h₁⟩ := h.spawn memory desc hroom
      rw [hspawn, Option.bind_some, ← hid]
      refine ⟨(ih h₁).1, fun _ => (ih h₁).2 ?_⟩
      rw [List.length_append, List.length_singleton]
      omega
    · refine ⟨fun hle => ?_, fun hle _ => ?_⟩
      · simp only [List.length_append, List.length_singleton] at hle
        omega
      · rw [h.spawn_full (Nat.le_antisymm hle hfull), Option.bind_none]

end Spawned

/-- The loops over the descriptors are one loop over the numbers. -/
theorem foldlM_Add_Spawn_Monster (descs : List (SpawnDesc F)) :
    descs.foldlM (fun s desc => Spawner.Add_Spawn_Monster infos memory desc s) s =
      (numbered descs).foldlM (fun s desc => Spawner.spawn infos memory desc s) s := by
  have hrounds : ∀ (desc : SpawnDesc F) (n : Nat) (s : Spawner F),
      (List.range n).foldlM (fun s _ => s.spawn infos memory desc) s =
        (List.replicate n desc).foldlM (fun s desc => Spawner.spawn infos memory desc s) s := by
    intro desc n s
    induction n with
    | zero => rfl
    | succ n ih => rw [List.range_succ, List.replicate_succ', List.foldlM_append, List.foldlM_append, ih]; rfl
  induction descs generalizing s with
  | nil => rfl
  | cons desc descs ih =>
    rw [List.foldlM_cons, numbered, List.flatMap_cons, List.foldlM_append, Spawner.Add_Spawn_Monster, hrounds]
    exact congrArg _ (funext fun s => ih)

/-- The manager gets its monsters in steps of its own. -/
theorem run_Add_Spawn_Monster (f : DamageFormula F)
    (hspawns : descs.foldlM (fun s desc => Spawner.Add_Spawn_Monster infos memory desc s) s = some s') :
    ∃ events, Run (OfOption (MonsterManager.next infos f)) s.manager events s'.manager := by
  induction descs generalizing s with
  | nil =>
    cases hspawns
    exact ⟨[], .nil _⟩
  | cons desc descs ih =>
    rw [List.foldlM_cons, Option.bind_eq_bind, Option.bind_eq_some_iff] at hspawns
    obtain ⟨s₁, hfirst, hrest⟩ := hspawns
    obtain ⟨events, hrun⟩ := ih hrest
    have hstep : OfOption (MonsterManager.next infos f) s.manager
        (.Add_Spawn_Monster desc.plain fun i => memory (s.manager.monKeyCount + Int.ofNat i)) s₁.manager :=
      congrArg some (Spawner.manager_Add_Spawn_Monster hfirst).symm
    exact ⟨_ :: events, .cons hstep hrun⟩

end Spawning

section Server

variable {fmt : Format F} {db : Database} {server : Server F} {info : MapInfo F} {code : Int} {kind : MonsterInfo F}

/-- The kinds of monsters are the first rows of their codes. -/
theorem Server.start_infos (hstart : Server.start fmt db = .ok server) :
    server.infos code = some kind ↔ Leads (readMonster fmt) (db.MonsterInfo.getD []) code kind := by
  unfold Server.start at hstart
  obtain ⟨infos, hinfos, hstart⟩ := Outcome.bind_eq_ok_iff.mp hstart
  obtain ⟨mm, _, hstart⟩ := Outcome.bind_eq_ok_iff.mp hstart
  obtain ⟨attached, _, hstart⟩ := Outcome.bind_eq_ok_iff.mp hstart
  cases hstart
  exact loadTable_ok hinfos

/-- A map that was read is as its row says, without monsters and portals so far. -/
theorem leads_map {rows : List Row} {map : MapInfo F} (h : Leads readMapEntry rows code map) :
    map.mapCode = code ∧ map.spawnDescs = [] ∧ ∀ gateNumber, map.portals gateNumber = none := by
  induction h with
  | @here row _ code map hread =>
    unfold readMapEntry at hread
    cases hmap : readMap (F := F) row with
    | error fault =>
      rw [hmap] at hread
      cases hread
    | ok first =>
      rw [hmap] at hread
      obtain ⟨rfl, rfl⟩ := Prod.mk.inj (Except.ok.inj hread)
      exact ⟨rfl, readMap_fresh hmap⟩
  | later _ _ _ ih => exact ih

/-- What a channel of a dungeon holds: under each number that its descriptors use up the monster
that the first row of its code describes, and nothing where there is none. -/
structure Populated (kinds : Int → MonsterInfo F → Prop) (descs : List (SpawnDesc F)) (channel : Nat)
    (heap : component.Heap) (s : Spawner F) : Prop where
  manager : s.id ∈ (heap.get channel).children
  known : ∀ (i : Nat) desc kind, (numbered descs)[i]? = some desc → kinds desc.monsterCode kind →
    ∃ mon, s.manager.monsters i = some mon ∧ Described kind desc i (s.navi i) mon ∧
      s.components i ∈ (heap.get s.id).children
  unknown : ∀ (i : Nat) desc, (numbered descs)[i]? = some desc → (∀ kind, ¬ kinds desc.monsterCode kind) →
    s.manager.monsters i = none
  others : ∀ number : Int, ¬ (0 ≤ number ∧ number < (numbered descs).length) → s.manager.monsters number = none

variable {heap : component.Heap} {channel : Nat}

/-- A channel of a dungeon begins with a manager that has spawned every descriptor of the map, or
has no result where these are more than an `int` can number. -/
theorem Channel.BeginPlay_dungeon (infos : Int → Option (MonsterInfo F)) (memory : Int → Monster F)
    (hdungeon : info.mapType = .Dungeon) (hw : heap.WellFormed) (hchannel : channel < heap.count) :
    (2147483647 < (numbered info.spawnDescs).length → Channel.BeginPlay infos memory channel info heap = none) ∧
    ((numbered info.spawnDescs).length ≤ 2147483647 → ∃ heap' s,
      Channel.BeginPlay infos memory channel info heap = some (heap', some s) ∧
      Populated (fun code kind => infos code = some kind) info.spawnDescs channel heap' s ∧
      ∀ f, ∃ events, Run (OfOption (MonsterManager.next infos f)) .start events s.manager) := by
  obtain ⟨hheap, -⟩ := Spawner.attach_created hw hchannel
  have hstart : Spawned infos [] (Spawner.start (heap.CreateComponent.Attach channel (heap.count + 1))) := .start hheap
  obtain ⟨hfits, hfull⟩ := hstart.rounds memory (numbered info.spawnDescs)
  rw [List.nil_append] at hfits hfull
  constructor
  · intro hlt
    rw [Channel.BeginPlay, if_pos hdungeon, foldlM_Add_Spawn_Monster, hfull (Nat.zero_le _) hlt]
    rfl
  · intro hle
    obtain ⟨s, hspawn, hid, hspawned⟩ := hfits hle
    rw [← foldlM_Add_Spawn_Monster] at hspawn
    refine ⟨s.heap.Attach channel s.id, s, ?_, ?_, fun f => run_Add_Spawn_Monster f hspawn⟩
    · rw [Channel.BeginPlay, if_pos hdungeon, hspawn]
      rfl
    · have hne : s.id ≠ channel := by
        rw [hid]
        change (heap.CreateComponent.Attach channel (heap.count + 1)).count + 1 ≠ channel
        rw [count_Attach]
        change heap.count + 2 + 1 ≠ channel
        omega
      refine ⟨mem_children_Attach hspawned.root, fun i desc kind hi hkind => ?_, fun i desc hi hnone => ?_,
        hspawned.free⟩
      · rw [children_Attach_of_ne hne]
        exact (hspawned.stands i desc hi).known kind hkind
      · refine (hspawned.stands i desc hi).unknown ?_
        exact Option.eq_none_iff_forall_ne_some.mpr hnone

/-- A map that was found under a code is that of the first row with it. Its gates are those of
the first rows of their numbers, and its channels hold the monsters that the tables have for the
code, if it is a dungeon and the numbers suffice; the steps from there on are those of a manager
that was constructed. -/
theorem channels_mirror_tables (hstart : Server.start fmt db = .ok server)
    (hinfo : server.mapManager.GetMapInfo code = some info) (hw : heap.WellFormed) (hchannel : channel < heap.count)
    (memory : Int → Monster F) :
    ∃ map : MapInfo F, Leads readMapEntry db.MapInfo code map ∧ map.BeginPlay fmt db = .ok info ∧
      (∀ gateNumber portal, info.portals gateNumber = some portal ↔
        Leads (readPortal fmt) (db.GetAllPortalInMap code) gateNumber portal) ∧
      (map.mapType ≠ .Dungeon → ∃ heap', Channel.BeginPlay server.infos memory channel info heap = some (heap', none)) ∧
      (map.mapType = .Dungeon → ∃ descs,
        (db.GetSpawnInfo code).mapM (readSpawn fmt (db.navmesh code)) = .ok descs ∧
        (2147483647 < (numbered descs).length → Channel.BeginPlay server.infos memory channel info heap = none) ∧
        ((numbered descs).length ≤ 2147483647 → ∃ heap' s,
          Channel.BeginPlay server.infos memory channel info heap = some (heap', some s) ∧
          Populated (Leads (readMonster fmt) (db.MonsterInfo.getD [])) descs channel heap' s ∧
          ∀ f, ∃ events, Run (OfOption (MonsterManager.next server.infos f)) .start events s.manager)) := by
  obtain ⟨map, hleads, hbegin⟩ := Server.start_GetMapInfo hstart hinfo
  obtain ⟨rfl, hdescs, hgates⟩ := leads_map hleads
  have hbegan := MapInfo.BeginPlay_began hbegin
  refine ⟨map, hleads, hbegin, fun gateNumber portal => ?_, fun htown => ?_, fun hdungeon => ?_⟩
  · rw [hbegan.portals]
    simp [hgates]
  · rw [Channel.BeginPlay, if_neg (hbegan.mapType ▸ htown)]
    exact ⟨_, rfl⟩
  · obtain ⟨descs, hread, hall⟩ := hbegan.spawnDescs hdungeon
    rw [hdescs, List.nil_append] at hall
    obtain ⟨hfull, hroom⟩ := Channel.BeginPlay_dungeon server.infos memory
      (hbegan.mapType.trans hdungeon) hw hchannel
    rw [hall] at hfull hroom
    refine ⟨descs, hread, hfull, fun hfits => ?_⟩
    obtain ⟨heap', s, hplay, hpopulated, hrun⟩ := hroom hfits
    refine ⟨heap', s, hplay, ⟨hpopulated.manager, ?_, ?_, hpopulated.others⟩, hrun⟩
    · exact fun i desc kind hi hkind => hpopulated.known i desc kind hi ((Server.start_infos hstart).mpr hkind)
    · exact fun i desc hi hnone => hpopulated.unknown i desc hi fun kind hkind =>
        hnone kind ((Server.start_infos hstart).mp hkind)

end Server

section Example

/-- A dungeon with two slimes, whose kind stands twice in its table, and four of an unknown kind. -/
def cave : Database where
  MonsterInfo := some [rowOf ["1", "slime", "10", "2", "3", "25"], rowOf ["1", "imp", "99", "9", "9", "9"]]
  MapInfo := [rowOf ["3", "Cave", "Level3", "Dungeon", "100"]]
  GetSpawnInfo _ :=
    [rowOf ["0", "3", "1", "2", "7", "0", "0", "30", "5"], rowOf ["1", "3", "9", "4", "0", "0", "0", "1", "1"]]
  GetAllPortalInMap _ := []
  EscapeCoordinates _ := []
  navmesh _ := some 0

theorem channels_mirror_tables_cave :
    ∃ server info heap' s, Server.start plain cave = .ok server ∧ server.mapManager.GetMapInfo 3 = some info ∧
      Channel.BeginPlay server.infos (fun _ => monster.blank) 1 info component.Heap.start.CreateComponent =
        some (heap', some s) ∧
      (s.manager.monsters 1).map (fun mon => (mon.nickname, mon.maxHp, mon.respawnTime)) = some ("slime", 10, 5) ∧
      s.manager.monsters 2 = none := by
  have hcave : ∃ server info, Server.start plain cave = .ok server ∧ server.mapManager.GetMapInfo 3 = some info :=
    ⟨_, _, rfl, rfl⟩
  obtain ⟨server, info, hstart, hinfo⟩ := hcave
  obtain ⟨map, hmap, -, -, -, hdungeon⟩ := channels_mirror_tables hstart hinfo
    component.Heap.WellFormed.start.CreateComponent (Nat.lt_succ_self 1) fun _ => monster.blank
  have hcase : map.mapType = .Dungeon := by
    cases hmap with
    | here hread =>
      cases hread
      rfl
    | later hread hne => exact absurd (Prod.mk.inj (Except.ok.inj hread)).1.symm hne
  have hunknown : ∀ row ∈ cave.MonsterInfo.getD [], (readMonster plain row).toOption.map Prod.fst ≠ some 9 := by decide
  obtain ⟨descs, hread, -, hroom⟩ := hdungeon hcase
  cases hread
  obtain ⟨heap', s, hplay, hpopulated, -⟩ := hroom (by decide)
  refine ⟨server, info, heap', s, hstart, hinfo, hplay, ?_, ?_⟩
  · obtain ⟨mon, hmon, hdescribed, -⟩ := hpopulated.known 1 _ _ rfl (.here rfl)
    have hnumber : s.manager.monsters 1 = some mon := hmon
    rw [hnumber, Option.map_some, hdescribed.nickname, hdescribed.maxHp, hdescribed.respawnTime]
    rfl
  · refine hpopulated.unknown 2 _ rfl fun kind hkind => ?_
    obtain ⟨row, hrow, hread⟩ := hkind.mem
    have hcode := hunknown row hrow
    rw [hread] at hcode
    exact hcode rfl

end Example

end AsioGameServer.tables

import AsioGameServer.Monster.Spawn
import AsioGameServer.Tables.Cells

open Number Rows

namespace AsioGameServer.tables

open monster (MonsterInfo SpawnDesc)

variable {F : Type} [Number F]

/-- What the queries answer, and the navigation meshes whose files are there. -/
structure Database where
  MonsterInfo : Option (List Row)
  MapInfo : List Row
  GetSpawnInfo : (mapCode : Int) → List Row
  GetAllPortalInMap : (mapCode : Int) → List Row
  EscapeCoordinates : (mapCode : Int) → List Row
  navmesh : (mapCode : Int) → Option Nat

inductive MapType where
  | None | Town | Dungeon
deriving DecidableEq, Repr

structure Portal (F : Type) where
  destCode : Int
  gateNumber : Int
  position : Vector3 F

/-- A `MapInfo` without its channels. -/
structure MapInfo (F : Type) where
  mapCode : Int
  mapName : String
  LevelName : String
  mapType : MapType
  maxUserCount : Int
  navi : Option Nat
  spawnDescs : List (SpawnDesc F)
  portals : Int → Option (Portal F)
  escapeCoordinates : Vector3 F

/-- The maps by the place at which they were attached, and the places by their codes. -/
structure MapManager (F : Type) where
  attached : List (MapInfo F)
  maps : Int → Option Nat

section Read

variable (fmt : Format F)

/-- A row of `MonsterInfo`. The experience passes through a float. -/
def readMonster (row : Row) : Except Fault (Int × MonsterInfo F) := do
  let code ← stoi (← cell row 0)
  let name ← cell row 1
  let HP ← stof fmt (← cell row 2)
  let Power ← stof fmt (← cell row 3)
  let Speed ← stof fmt (← cell row 4)
  let float : F := ofInt (← stoi (← cell row 5))
  match fmt.toInt float with
  | none => .error .undefined
  | some exp => return (code, ⟨code, name, HP, Power, Speed, exp⟩)

def MonsterBuilder.Init (db : Database) : Except Fault (Int → Option (MonsterInfo F)) :=
  loadTable (readMonster fmt) db.MonsterInfo

def readSpawn (navi : Option Nat) (row : Row) : Except Fault (SpawnDesc F) := do
  let monsterCode ← stoi (← cell row 2)
  let monsterCount ← stoi (← cell row 3)
  let position ← readVector3 fmt row 4
  let distanceRange ← stof fmt (← cell row 7)
  let respawnTime ← stof fmt (← cell row 8)
  return ⟨monsterCode, monsterCount, position, distanceRange, respawnTime, navi⟩

def readPortal (row : Row) : Except Fault (Int × Portal F) := do
  let destCode ← stoi (← cell row 2)
  let gateNumber ← stoi (← cell row 3)
  let position ← readVector3 fmt row 4
  return (gateNumber, ⟨destCode, gateNumber, position⟩)

end Read

def MapManager.StringToMapType (str : String) : MapType :=
  if str = "Town" then .Town else if str = "Dungeon" then .Dungeon else .None

/-- A row of `MapInfo`, with the constructors of the members. -/
def readMap (row : Row) : Except Fault (MapInfo F) := do
  let code ← atoi (← cell row 0)
  let mapName ← cell row 1
  let LevelName ← cell row 2
  let mapType := MapManager.StringToMapType (← cell row 3)
  let maxUserCount ← stoi (← cell row 4)
  return ⟨code, mapName, LevelName, mapType, maxUserCount, none, [], fun _ => none, .zero⟩

section BeginPlay

variable (fmt : Format F) (db : Database)

def MapInfo.loadSpawnInfo (info : MapInfo F) : Except Fault (List (SpawnDesc F)) :=
  if info.mapType = .Dungeon then (db.GetSpawnInfo info.mapCode).mapM (readSpawn fmt (db.navmesh info.mapCode))
  else .ok []

/-- `MapInfo::BeginPlay`. Here nothing catches what is thrown. -/
def MapInfo.BeginPlay (info : MapInfo F) : Except Fault (MapInfo F) := do
  let navi := db.navmesh info.mapCode
  let spawnDescs ← info.loadSpawnInfo fmt db
  let portals ← fill (fun _ => false) (fun portals row => (readPortal fmt row).map (insertNew portals)) info.portals
    (db.GetAllPortalInMap info.mapCode)
  let escapeCoordinates ← (db.EscapeCoordinates info.mapCode).foldlM (fun _ row => readVector3 fmt row 1)
    info.escapeCoordinates
  return { info with navi, spawnDescs := info.spawnDescs ++ spawnDescs, portals, escapeCoordinates }

/-- A new map, with its code as the key. A code that is there keeps its map. -/
def MapManager.insert (mm : MapManager F) (info : MapInfo F) : MapManager F :=
  ⟨mm.attached ++ [info], insertNew mm.maps (info.mapCode, mm.attached.length)⟩

/-- `MapManager::BeginPlay`. -/
def MapManager.BeginPlay (db : Database) : Except Fault (MapManager F) :=
  db.MapInfo.foldlM (fun mm row => (readMap row).map mm.insert) ⟨[], fun _ => none⟩

def MapManager.GetMapInfo (mm : MapManager F) (code : Int) : Option (MapInfo F) :=
  (mm.maps code).bind fun i => mm.attached[i]?

/-- The tables that the server starts with: those of the monsters, then the maps, each of
which begins at its first update. -/
structure Server (F : Type) where
  infos : Int → Option (MonsterInfo F)
  mapManager : MapManager F

def Server.start : Except Fault (Server F) := do
  let infos ← MonsterBuilder.Init fmt db
  let mm ← MapManager.BeginPlay db
  let attached ← mm.attached.mapM (MapInfo.BeginPlay fmt db)
  return ⟨infos, { mm with attached }⟩

end BeginPlay

section Spec

variable {fmt : Format F} {db : Database} {info info' : MapInfo F} {mm mm' : MapManager F} {infos : List (MapInfo F)}
  {rows : List Row} {code : Int} {i : Nat}

/-- What a map reads when it begins. -/
structure MapInfo.Began (fmt : Format F) (db : Database) (info info' : MapInfo F) : Prop where
  mapCode : info'.mapCode = info.mapCode
  mapType : info'.mapType = info.mapType
  spawnDescs : info.mapType = .Dungeon → ∃ descs,
    (db.GetSpawnInfo info.mapCode).mapM (readSpawn fmt (db.navmesh info.mapCode)) = .ok descs ∧
      info'.spawnDescs = info.spawnDescs ++ descs
  portals : ∀ gateNumber portal, info'.portals gateNumber = some portal ↔
    info.portals gateNumber = some portal ∨ info.portals gateNumber = none ∧
      Leads (readPortal fmt) (db.GetAllPortalInMap info.mapCode) gateNumber portal

omit [Number F] in
theorem MapInfo.BeginPlay_began (h : info.BeginPlay fmt db = .ok info') : MapInfo.Began fmt db info info' := by
  unfold MapInfo.BeginPlay at h
  dsimp only at h
  obtain ⟨descs, hdescs, h⟩ := Outcome.bind_eq_ok_iff.mp h
  obtain ⟨portals, hportals, h⟩ := Outcome.bind_eq_ok_iff.mp h
  obtain ⟨escapeCoordinates, _, h⟩ := Outcome.bind_eq_ok_iff.mp h
  cases h
  refine ⟨rfl, rfl, fun hdungeon => ⟨descs, ?_, rfl⟩, fun gateNumber portal => fill_insertNew hportals⟩
  rw [loadSpawnInfo, if_pos hdungeon] at hdescs
  exact hdescs

/-- A map that is read has not begun. -/
theorem readMap_fresh {row : Row} (h : readMap row = .ok info) :
    info.spawnDescs = [] ∧ ∀ gateNumber, info.portals gateNumber = none := by
  unfold readMap at h
  obtain ⟨_, _, h⟩ := Outcome.bind_eq_ok_iff.mp h
  obtain ⟨_, _, h⟩ := Outcome.bind_eq_ok_iff.mp h
  obtain ⟨_, _, h⟩ := Outcome.bind_eq_ok_iff.mp h
  obtain ⟨_, _, h⟩ := Outcome.bind_eq_ok_iff.mp h
  obtain ⟨_, _, h⟩ := Outcome.bind_eq_ok_iff.mp h
  obtain ⟨_, _, h⟩ := Outcome.bind_eq_ok_iff.mp h
  obtain ⟨_, _, h⟩ := Outcome.bind_eq_ok_iff.mp h
  cases h
  exact ⟨rfl, fun _ => rfl⟩

/-- A row of `MapInfo` with its key. -/
def readMapEntry (row : Row) : Except Fault (Int × MapInfo F) := (readMap row).map fun info => (info.mapCode, info)

/-- The place of a code is that of the first map with it. -/
def MapManager.Placed (mm : MapManager F) : Prop :=
  ∀ code, mm.maps code = mm.attached.findIdx? fun info => info.mapCode = code

omit [Number F] in
theorem MapManager.Placed.insert (h : mm.Placed) (info : MapInfo F) : (mm.insert info).Placed := by
  intro code
  unfold MapManager.insert
  dsimp only
  rw [List.findIdx?_append, ← h code]
  by_cases hcode : info.mapCode = code
  · subst hcode
    cases hmaps : mm.maps info.mapCode with
    | some j =>
      rw [insertNew_of_some hmaps, hmaps]
      rfl
    | none =>
      rw [insertNew_self hmaps]
      simp [List.findIdx?_cons]
  · rw [insertNew_of_ne (Ne.symm hcode)]
    simp [List.findIdx?_cons, hcode]

/-- The maps are attached in the order of their rows. -/
theorem MapManager.insert_rows (hplaced : mm.Placed)
    (hrows : rows.foldlM (fun mm row => (readMap row).map mm.insert) mm = .ok mm') :
    mm'.Placed ∧ ∃ infos, rows.mapM readMap = .ok infos ∧ mm'.attached = mm.attached ++ infos := by
  induction rows generalizing mm with
  | nil =>
    cases hrows
    exact ⟨hplaced, [], rfl, (List.append_nil _).symm⟩
  | cons row rows ih =>
    rw [List.foldlM_cons] at hrows
    obtain ⟨mm₁, hrow, hrows⟩ := Outcome.bind_eq_ok_iff.mp hrows
    cases hread : readMap (F := F) row with
    | error fault =>
      rw [hread] at hrow
      cases hrow
    | ok info =>
      rw [hread] at hrow
      cases hrow
      obtain ⟨hplaced', infos, hinfos, hattached⟩ := ih (hplaced.insert info) hrows
      refine ⟨hplaced', info :: infos, ?_, ?_⟩
      · rw [List.mapM_cons, hread, hinfos]
        rfl
      · rw [hattached]
        exact List.append_assoc _ _ _

theorem leads_of_findIdx (hread : List.Forall₂ (fun row info => readMap row = .ok info) rows infos)
    (hfirst : infos.findIdx? (fun info => info.mapCode = code) = some i) (hinfo : infos[i]? = some info) :
    Leads readMapEntry rows code info := by
  induction hread generalizing i with
  | nil => cases hinfo
  | @cons row first rows infos hrow _ ih =>
    have hentry : readMapEntry row = .ok (first.mapCode, first) := by rw [readMapEntry, hrow]; rfl
    rw [List.findIdx?_cons] at hfirst
    split at hfirst
    · rename_i hcode
      cases hfirst
      cases hinfo
      rw [← of_decide_eq_true hcode]
      exact .here hentry
    · rename_i hcode
      obtain ⟨j, hj, rfl⟩ := Option.map_eq_some_iff.mp hfirst
      exact .later hentry (fun heq => hcode (decide_eq_true heq)) (ih hj hinfo)

/-- The map found under a code is that of the first row with it, and has begun. -/
theorem Server.start_GetMapInfo {server : Server F} (hstart : Server.start fmt db = .ok server)
    (hinfo : server.mapManager.GetMapInfo code = some info') :
    ∃ info, Leads readMapEntry db.MapInfo code info ∧ info.BeginPlay fmt db = .ok info' := by
  unfold Server.start at hstart
  obtain ⟨infos, _, hstart⟩ := Outcome.bind_eq_ok_iff.mp hstart
  obtain ⟨mm, hmm, hstart⟩ := Outcome.bind_eq_ok_iff.mp hstart
  obtain ⟨attached, hattached, hstart⟩ := Outcome.bind_eq_ok_iff.mp hstart
  cases hstart
  obtain ⟨i, hi, hinfo⟩ := Option.bind_eq_some_iff.mp hinfo
  obtain ⟨hplaced, read, hread, hall⟩ := MapManager.insert_rows (fun _ => rfl) hmm
  rw [List.nil_append] at hall
  rw [hall] at hattached
  have hbegan := Except.forall₂_of_mapM hattached
  obtain ⟨hlast, rfl⟩ := List.getElem?_eq_some_iff.mp hinfo
  have hfirst : i < read.length := hbegan.length_eq ▸ hlast
  refine ⟨read[i], leads_of_findIdx (Except.forall₂_of_mapM hread) ?_ (List.getElem?_eq_getElem hfirst),
    hbegan.get hfirst hlast⟩
  rw [← hall, ← hplaced code]
  exact hi

end Spec

end AsioGameServer.tables

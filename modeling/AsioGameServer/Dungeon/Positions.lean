import AsioGameServer.Dungeon.Tracked
import AsioGameServer.Dungeon.Views
import AsioGameServer.Monster.Stage

open Function Number Transition Replica

namespace AsioGameServer.dungeon

open monster (Monster MonsterManager Output Stage Surroundings Attacker Record DamageFormula MonsterInfo Numbered Local)

variable {F : Type} [Number F]

/-- Where a monster is, once it has begun and unless its movement is still to be reported. -/
def standing (mon : Monster F) : Option (Vector3 F) :=
  if mon.events = 1 ∧ mon.bChangePosition = false then some mon.position else none

/-- Where the monsters are, by their numbers. -/
def positions (mm : MonsterManager F) (number : Int) : Option (Vector3 F) := (mm.monsters number).bind standing

/-- What leaves a monster says of its position only when it respawns. -/
def placed : Output F → List (Int × Vector3 F)
  | .RESPAWN_MONSTER monster => [(monster.number, monster.position)]
  | .DIE _ | .MONSTER_ATTACK _ _ | .AddCurrentExp _ _ _ | .damage _ | .CON_DAMAGE _ | .CON_DAMAGE_VECTOR _ => []

section Stages

variable {mon mon' : Monster F} {w : Surroundings F} {s s' s'' : Stage F} {f : DamageFormula F}
  {attacker : Attacker F} {state : monster.AttackState} {new : List (Output F)} {x : Vector3 F}

omit [Number F] in
/-- A place is known of a monster that has begun and has no movement to be reported. -/
theorem standing_eq_some_iff :
    standing mon = some x ↔ mon.events = 1 ∧ mon.bChangePosition = false ∧ mon.position = x := by
  simp [standing, and_assoc]

/-- The members that tell where a monster is. -/
def placeOf (mon : Monster F) : Nat × Bool × Vector3 F := (mon.events, mon.bChangePosition, mon.position)

omit [Number F] in
/-- What is known depends on `events`, `bChangePosition` and `position` alone. -/
theorem standing_of_place (hplace : placeOf mon' = placeOf mon) : standing mon' = standing mon := by
  simp only [placeOf, Prod.mk.injEq] at hplace
  rw [standing, standing, hplace.1, hplace.2.1, hplace.2.2]

omit [Number F] in
/-- What concerns no other monster places no other one. -/
theorem number_of_placed {number : Int} (hquiet : ∀ o ∈ new, ∀ i, i ≠ number → o.concerns i = false)
    {t : Int × Vector3 F} (ht : t ∈ new.flatMap placed) : t.1 = number := by
  obtain ⟨o, ho, ht⟩ := List.mem_flatMap.mp ht
  cases o with
  | RESPAWN_MONSTER monster =>
    rw [List.mem_singleton.mp ht]
    by_contra hother
    have hconcerns := hquiet _ ho monster.number hother
    simp [Output.concerns] at hconcerns
  | _ => cases ht

/-- What leaves a monster says where it is, when it can be known. -/
structure Placed (s s' : Stage F) : Prop where
  kept : Local s s'
  known : ∀ new, s'.outputs = s.outputs ++ new → ∀ x, standing s'.self = some x →
    (last (new.flatMap placed) s.self.monsterNumber).or (standing s.self) = some x

namespace Placed

omit [Number F] in
/-- The later step says where the monster is, unless it is silent; then the earlier one does. -/
theorem trans (h : Placed s s') (h' : Placed s' s'') : Placed s s'' := by
  refine ⟨h.kept.trans h'.kept, fun all hall x hx => ?_⟩
  obtain ⟨new, hnew, _⟩ := h.kept.outputs
  obtain ⟨new', hnew', _⟩ := h'.kept.outputs
  rw [hnew', hnew, List.append_assoc] at hall
  rw [← List.append_cancel_left hall, List.flatMap_append, last_append, Option.or_assoc]
  have hlater := h'.known new' hnew' x hx
  rw [h.kept.number] at hlater
  cases hlast : last (new'.flatMap placed) s.self.monsterNumber with
  | some y => rwa [hlast] at hlater
  | none =>
    rw [hlast, Option.none_or] at hlater
    rw [Option.none_or]
    exact h.known new hnew x hlater

omit [Number F] in
/-- A step after which no more is to be known than before. -/
theorem of_known (hkept : Local s s') (hknown : ∀ x, standing s'.self = some x → standing s.self = some x)
    (hmute : ∀ new, s'.outputs = s.outputs ++ new → new.flatMap placed = []) : Placed s s' := by
  refine ⟨hkept, fun new hnew x hx => ?_⟩
  rw [hmute new hnew]
  exact hknown x hx

omit [Number F] in
/-- A step that leaves the place of a monster alone, and sends nothing about places. -/
theorem of_place (hkept : Local s s') (hplace : placeOf s'.self = placeOf s.self)
    (houtputs : ∃ new, s'.outputs = s.outputs ++ new ∧ new.flatMap placed = []) : Placed s s' := by
  obtain ⟨new, hnew, hmute⟩ := houtputs
  refine .of_known hkept (fun x hx => standing_of_place hplace ▸ hx) fun all hall => ?_
  rw [← List.append_cancel_left (hnew.symm.trans hall)]
  exact hmute

omit [Number F] in
/-- The same where nothing is sent at all. -/
theorem of_quiet (hkept : Local s s') (hplace : placeOf s'.self = placeOf s.self) (houtputs : s'.outputs = s.outputs) :
    Placed s s' := .of_place hkept hplace ⟨[], by rw [houtputs, List.append_nil], rfl⟩

omit [Number F] in
/-- No step at all. -/
theorem refl (s : Stage F) : Placed s s := .of_quiet (.refl s) rfl rfl

omit [Number F] in
/-- Nothing can be known of a monster before it begins. -/
theorem of_unbegun (hkept : Local s s') (hevents : s'.self.events ≠ 1) : Placed s s' :=
  ⟨hkept, fun _ _ _ hx => absurd (standing_eq_some_iff.mp hx).1 hevents⟩

/-- A respawn says where it puts the monster, whatever else is done to it. -/
theorem respawn (s₁ : Stage F) (hcm : w.cm = true) (hkept : Local s s')
    (hnumber : s₁.self.monsterNumber = s.self.monsterNumber) (hbefore : s₁.outputs = s.outputs)
    (hposition : s'.self.position = (monster.Respawn w s₁).self.position)
    (hafter : s'.outputs = (monster.Respawn w s₁).outputs) : Placed s s' := by
  obtain ⟨table, htable, hown, _, _, hplace, _⟩ := exists_Respawn hcm s₁
  refine ⟨hkept, fun new hnew x hx => ?_⟩
  rw [hafter, htable, hbefore] at hnew
  rw [← List.append_cancel_left hnew]
  have hlast : last ([.RESPAWN_MONSTER table].flatMap placed) s.self.monsterNumber = some table.position := by
    simp [placed, last, hown, hnumber]
  rw [hlast, Option.some_or, hplace, ← hposition, (standing_eq_some_iff.mp hx).2.2]

/-- A monster that is set alive respawns, which tells its new place. One that has not begun has no
handler, and nothing is known of it. -/
theorem SetAlive (hcm : w.cm = true) (s : Stage F) : Placed s (monster.SetAlive w true s) := by
  have hkept : Local s (monster.SetAlive w true s) := .SetAlive true
  by_cases hevents : s.self.events = 1
  · have hset : monster.SetAlive w true s = monster.Respawn w (s.onMonster ({ · with bAlive := true })) :=
      monster.SetAlive_eq true hevents
    rw [hset] at hkept ⊢
    exact .respawn (s.onMonster ({ · with bAlive := true })) hcm hkept rfl rfl rfl rfl
  · refine .of_unbegun hkept ?_
    rw [(Heard.SetAlive hcm true s).events]
    exact hevents

/-- `BeginPlay` is the first respawn. -/
theorem BeginPlay (hcm : w.cm = true) (hfresh : s.self.events = 0) : Placed s (monster.BeginPlay w s) := by
  have hkept : Local s (monster.BeginPlay w s) := .BeginPlay
  rw [BeginPlay_eq hfresh] at hkept ⊢
  exact .respawn (s.onMonster fun m => { m with events := m.events + 1, bAlive := true }) hcm hkept rfl rfl rfl rfl

/-- A monster that looks around stays where it is, unless it respawns. -/
theorem place_UpdateState : placeOf (monster.UpdateState w s).2.self = placeOf s.self ∨
    (monster.UpdateState w s).2 = monster.SetAlive w true (s.onMonster ({ · with state := .DIE })) := by
  have hpath : ∀ (position : Vector3 F) (m : Monster F), placeOf (m.FindPath w position) = placeOf m := by
    intro position m
    unfold Monster.FindPath
    split <;> rfl
  unfold monster.UpdateState
  split
  · dsimp only
    split
    · exact .inr rfl
    · exact .inl rfl
  · refine .inl ?_
    have hattacking : placeOf (if s.self.bAttacking then
        s.onMonster ({ · with state := .ATTACK, bMove := false }) else s).self = placeOf s.self := by
      split <;> rfl
    dsimp only
    generalize (if s.self.bAttacking then s.onMonster ({ · with state := .ATTACK, bMove := false }) else s) = s₁
      at hattacking ⊢
    split
    · exact hattacking
    · split
      · split
        · split
          · exact hattacking
          · exact (hpath _ _).trans hattacking
        · exact hattacking
      · exact hattacking

/-- `UpdateState` changes no place except by a respawn. -/
theorem UpdateState (hcm : w.cm = true) : Placed s (monster.UpdateState w s).2 := by
  have hrespawn : (monster.UpdateState w s).2 =
      monster.SetAlive w true (s.onMonster ({ · with state := .DIE })) → Placed s (monster.UpdateState w s).2 := by
    intro hset
    have hlater : Placed s (s.onMonster ({ · with state := .DIE })) := .of_quiet (.of_same rfl rfl rfl) rfl rfl
    rw [hset]
    exact hlater.trans (.SetAlive hcm _)
  obtain houtputs | ⟨_, hset⟩ := outputs_UpdateState (w := w) (s := s)
  · obtain hplace | hset := place_UpdateState (w := w) (s := s)
    · exact .of_quiet (.act .UpdateState) hplace houtputs
    · exact hrespawn hset
  · exact hrespawn hset

/-- `UpdateIdle` looks for a path and does not go along it. -/
theorem UpdateIdle : Placed s (monster.UpdateIdle w s).2 := by
  refine .of_quiet (.act .UpdateIdle) ?_ outputs_UpdateIdle
  unfold monster.UpdateIdle Monster.FindPath
  split
  · split <;> rfl
  · split
    · rfl
    · dsimp only
      split <;> rfl

/-- A monster that attacks stays where it is. -/
theorem Attack : Placed s (monster.Attack w s).2 := by
  refine .of_place (.act .Attack) ?_ ?_
  · unfold monster.Attack
    split
    · split <;> rfl
    · dsimp only
      split <;> rfl
  · unfold monster.Attack
    split
    · split <;> exact ⟨[], (List.append_nil _).symm, rfl⟩
    · dsimp only
      split
      · exact ⟨[_], rfl, rfl⟩
      · exact ⟨[], (List.append_nil _).symm, rfl⟩

/-- Where a monster moves to is not known before it is reported. -/
theorem standing_Moving {delta : F} (hx : standing (mon.Moving delta) = some x) : standing mon = some x := by
  unfold Monster.Moving at hx
  split at hx
  · obtain ⟨_, hflag, _⟩ := standing_eq_some_iff.mp hx
    cases hflag
  · exact hx

/-- A monster that moved along its path is flagged. What is known of it after that was known
before, since it did not move. -/
theorem standing_follow {delta : F} (hx : standing (monster.follow delta mon).2 = some x) : standing mon = some x := by
  unfold monster.follow at hx
  split at hx
  · exact hx
  · dsimp only at hx
    split at hx
    · exact hx
    · have hturned := standing_Moving hx
      exact hturned

/-- One step along the path, which is told later by a report. -/
theorem follow (hkept : Local s s') (hself : s'.self = (monster.follow w.delta s.self).2)
    (houtputs : s'.outputs = s.outputs) : Placed s s' := by
  refine .of_known hkept (fun x hx => standing_follow (hself ▸ hx)) fun new hnew => ?_
  have hnone : new = [] := by simpa [houtputs] using hnew
  rw [hnone]
  rfl

/-- Every action of the tree, by the lemma about it. -/
theorem act (hcm : w.cm = true) (action : monster.Action) (s : Stage F) :
    Placed s (monster.actors.act action w s).2 := by
  cases action with
  | UpdateState => exact .UpdateState hcm
  | UpdateIdle => exact .UpdateIdle
  | Patrol => exact .follow (.act .Patrol) rfl rfl
  | Hold => exact .of_quiet (.act .Hold) rfl rfl
  | Chase => exact .follow (.act .Chase) rfl rfl
  | Attack => exact .Attack
  | Die => exact .of_quiet (.act .Die) rfl rfl

/-- A run of the tree, by the rule for what its actions keep. -/
theorem Tick (hcm : w.cm = true) (htick : monster.Tick w s = .ok s') : Placed s s' := by
  unfold monster.Tick at htick
  split at htick
  · cases htick
    exact .refl s
  · split at htick
    · cases htick
    · rename_i hrun
      cases htick
      exact behavior.Run_keeps (P := Placed s) (fun action _ hs => hs.trans (.act hcm action _)) (.refl s) hrun

/-- A hit leaves a monster where it is. -/
theorem hit {record : Option (Record F)} (hcm : w.cm = true)
    (hhit : monster.hit f w attacker state s = .ok (record, s')) : Placed s s' := by
  have hkept : Local s s' := monster.hit_spec.ok hhit
  obtain ⟨new, hnew, hmute, _⟩ := Struck.hit hcm hhit
  have hsame := (monster.hit_struck (m := 0) hhit).self.same
  refine .of_place hkept (by rw [hsame]; rfl) ⟨new, hnew, List.flatMap_eq_nil_iff.mpr fun o ho => ?_⟩
  cases o with
  | RESPAWN_MONSTER monster => exact absurd (hmute _ (List.mem_flatMap.mpr ⟨_, ho, List.mem_cons_self⟩)) nofun
  | _ => rfl

end Placed

end Stages

section Manager

variable {mm mm' mm'' : MonsterManager F} {infos : Int → Option (MonsterInfo F)} {f : DamageFormula F}
  {w : Surroundings F} {attacker : Attacker F} {state : monster.AttackState} {mon : Monster F} {s : Stage F}

/-- What leaves the monsters in a step says where they are, when it can be known. Monsters that
are new have new numbers. -/
structure Charted (mm mm' : MonsterManager F) : Prop where
  count : mm.monKeyCount ≤ mm'.monKeyCount
  numbers : ∀ n, (mm'.monsters n).isSome → (mm.monsters n).isSome ∨ mm.monKeyCount ≤ n
  told : ∃ new, mm'.outputs = mm.outputs ++ new ∧ Leads (positions mm) (new.flatMap placed) (positions mm')

namespace Charted

omit [Number F] in
/-- No step at all. -/
theorem refl (mm : MonsterManager F) : Charted mm mm :=
  ⟨Int.le_refl _, fun _ h => .inl h, [], (List.append_nil _).symm, .refl _⟩

omit [Number F] in
/-- What two steps tell leads from the places before to those after both. A number that is new to
the second was not below the count of the first. -/
theorem trans (h : Charted mm mm') (h' : Charted mm' mm'') : Charted mm mm'' := by
  obtain ⟨new, hnew, hleads⟩ := h.told
  obtain ⟨new', hnew', hleads'⟩ := h'.told
  refine ⟨h.count.trans h'.count, fun n hn => ?_, new ++ new', by rw [hnew', hnew, List.append_assoc], ?_⟩
  · obtain hbefore | hlater := h'.numbers n hn
    · exact h.numbers n hbefore
    · exact .inr (h.count.trans hlater)
  · rw [List.flatMap_append]
    exact hleads.write hleads'

omit [Number F] in
/-- What is done to one monster places the others where they were. -/
theorem of_placed {number : Int} (hnumbered : Numbered mm) (hmonster : mm.monsters number = some mon)
    (h : Placed ⟨mon, mm.outputs⟩ s) :
    Charted mm { mm with monsters := update mm.monsters number (some s.self), outputs := s.outputs } := by
  have hnumber : mon.monsterNumber = number := (hnumbered number mon hmonster).1
  obtain ⟨new, hnew, hquiet⟩ := h.kept.outputs
  refine ⟨Int.le_refl _, fun n hn => .inl ?_, new, hnew, fun n x hx => ?_⟩
  · by_cases hsame : n = number
    · rw [hsame, hmonster]
      rfl
    · dsimp only at hn
      rwa [update_of_ne hsame] at hn
  · unfold positions at hx
    dsimp only at hx
    rw [apply_eq]
    by_cases hsame : n = number
    · rw [hsame, update_self, Option.bind_some] at hx
      have hknown := h.known new hnew x hx
      rw [positions, hsame, hmonster, Option.bind_some]
      rwa [hnumber] at hknown
    · rw [update_of_ne hsame] at hx
      have hnone : last (new.flatMap placed) n = none :=
        last_eq_none fun t ht heq => hsame (heq.symm.trans ((number_of_placed hquiet ht).trans hnumber))
      rw [hnone, Option.none_or]
      exact hx

omit [Number F] in
/-- What the manager itself sends says nothing of places. -/
theorem send {o : Output F} (hmute : placed o = []) (mm : MonsterManager F) : Charted mm (mm.send o) := by
  refine ⟨Int.le_refl _, fun _ h => .inl h, [o], rfl, ?_⟩
  rw [List.flatMap_singleton, hmute]
  exact .refl _

omit [Number F] in
/-- A step of one monster, written back under its number. -/
theorem onStage {number : Int} {g : Stage F → Except monster.Fault (Stage F)} (hnumbered : Numbered mm)
    (hplaced : ∀ mon s', mm.monsters number = some mon → g ⟨mon, mm.outputs⟩ = .ok s' → Placed ⟨mon, mm.outputs⟩ s')
    (hnext : mm.onStage number g = .ok mm') : Charted mm mm' := by
  unfold MonsterManager.onStage at hnext
  split at hnext
  · cases hnext
    exact .refl mm
  · rename_i mon hmonster
    obtain ⟨s', hg, hnext⟩ := Outcome.bind_eq_ok_iff.mp hnext
    cases hnext
    exact .of_placed hnumbered hmonster (hplaced mon s' hmonster hg)

/-- Hits move nobody. -/
theorem damage {damaged_code : Int} {records records' : List (Record F)} (hcm : w.cm = true)
    (hnumbered : Numbered mm) (hdamage : mm.damage f w attacker damaged_code state records = .ok (records', mm')) :
    Charted mm mm' := by
  unfold MonsterManager.damage at hdamage
  split at hdamage
  · cases hdamage
    exact .refl mm
  · rename_i mon hmonster
    obtain ⟨⟨record, s'⟩, hhit, hdamage⟩ := Outcome.bind_eq_ok_iff.mp hdamage
    cases hdamage
    exact .of_placed hnumbered hmonster (.hit hcm hhit)

/-- A single hit, with the message that tells others of it. -/
theorem DamageProcess {damaged_code : Int} (hcm : w.cm = true) (hnumbered : Numbered mm)
    (hnext : mm.DamageProcess f w attacker damaged_code state = .ok mm') : Charted mm mm' := by
  unfold MonsterManager.DamageProcess at hnext
  obtain ⟨⟨records, mm₁⟩, hdamage, hnext⟩ := Outcome.bind_eq_ok_iff.mp hnext
  have hhurt : Charted mm mm₁ := .damage hcm hnumbered hdamage
  cases records with
  | nil =>
    cases hnext
    exact hhurt
  | cons record rest =>
    have hsent : mm₁.send (.CON_DAMAGE record) = mm' := by simpa [hcm, pure, Except.pure] using hnext
    rw [← hsent]
    exact hhurt.trans (.send rfl mm₁)

/-- A list of hits, by induction on it. -/
theorem DamageProcessVector {damagevector : List (Int × monster.AttackState)} (hcm : w.cm = true)
    (hnumbered : Numbered mm) (hnext : mm.DamageProcessVector f w attacker damagevector = .ok mm') :
    Charted mm mm' := by
  unfold MonsterManager.DamageProcessVector at hnext
  obtain ⟨⟨records, mm₁⟩, hloop, hnext⟩ := Outcome.bind_eq_ok_iff.mp hnext
  have hall : Numbered mm₁ ∧ Charted mm mm₁ := by
    refine Outcome.ok (Outcome.foldlM_keeps (I := fun p => Numbered p.2 ∧ Charted mm p.2)
      (E := fun _ => True) ⟨hnumbered, .refl mm⟩ ?_) hloop
    rintro ⟨records₀, mm₀⟩ ⟨damaged_code, attackType⟩ _ hp
    obtain ⟨hnumbered₀, hcharted⟩ := hp
    change Outcome _ _ (mm₀.damage f w attacker damaged_code attackType records₀)
    cases hdamage : mm₀.damage f w attacker damaged_code attackType records₀ with
    | error fault => trivial
    | ok p' =>
      exact ⟨((monster.damage_keeps 0 0 0 hnumbered₀).ok hdamage).1, hcharted.trans (.damage hcm hnumbered₀ hdamage)⟩
  dsimp only at hnext
  split at hnext
  · cases hnext
    exact hall.2
  · have hsent : mm₁.send (.CON_DAMAGE_VECTOR records) = mm' := by simpa [hcm, pure, Except.pure] using hnext
    rw [← hsent]
    exact hall.2.trans (.send rfl mm₁)

/-- A monster that is spawned has not begun. -/
theorem Add_Spawn_Monster {desc : monster.MonsterSpawnDesc F} {memory : Nat → Monster F} :
    Charted mm (mm.Add_Spawn_Monster infos desc memory) := by
  have hspawn : ∀ (mm : MonsterManager F) (mem : Monster F), Charted mm (mm.spawn infos desc mem) := by
    intro mm mem
    have hcounted : Charted mm { mm with monKeyCount := mm.monKeyCount + 1 } :=
      ⟨Int.le_add_one (Int.le_refl _), fun _ h => .inl h, [], (List.append_nil _).symm, .refl _⟩
    unfold MonsterManager.spawn
    dsimp only
    cases hcreate : monster.MonsterBuilder.CreateMonster infos mem desc.monsterCode mm.monKeyCount with
    | none => exact hcounted
    | some mon =>
      dsimp only
      split
      · exact hcounted
      · obtain ⟨info, _, rfl⟩ := Option.map_eq_some_iff.mp hcreate
        refine ⟨hcounted.count, fun n hn => ?_, [], (List.append_nil _).symm, fun n x hx => ?_⟩
        · by_cases hnew : n = mm.monKeyCount
          · exact .inr hnew.ge
          · dsimp only at hn
            rw [update_of_ne hnew] at hn
            exact .inl hn
        · unfold positions at hx
          dsimp only at hx
          by_cases hnew : n = mm.monKeyCount
          · rw [hnew, update_self, Option.bind_some] at hx
            exact absurd (standing_eq_some_iff.mp hx).1 (by simp)
          · rw [update_of_ne hnew] at hx
            exact hx
  unfold MonsterManager.Add_Spawn_Monster
  induction List.range desc.monsterCount generalizing mm with
  | nil => exact .refl mm
  | cons i l ih => exact (hspawn mm (memory i)).trans ih

/-- Every event of the monsters tells where they are afterwards, when it can be known. -/
theorem next {e e' : MonsterManager.Event F} (hnumbered : Numbered mm) (he : ofMonsters mm e = some e')
    (hnext : mm.next infos f e' = some mm') : Charted mm mm' := by
  cases e with
  | Add_Spawn_Monster desc memory =>
    cases he
    cases hnext
    exact .Add_Spawn_Monster
  | BeginPlay number w =>
    obtain ⟨hfresh, ⟨⟩⟩ := Option.ite_none_right_eq_some.mp he
    refine .onStage hnumbered (fun mon s' hmonster hg => ?_) (Outcome.toOption_eq_some_iff.mp hnext)
    cases hg
    rw [hmonster] at hfresh
    exact .BeginPlay rfl (by simpa using hfresh)
  | Tick number w =>
    cases he
    exact .onStage hnumbered (fun mon s' _ htick => .Tick rfl htick) (Outcome.toOption_eq_some_iff.mp hnext)
  | DamageProcess w attacker damaged_code attackType =>
    cases he
    exact .DamageProcess rfl hnumbered (Outcome.toOption_eq_some_iff.mp hnext)
  | DamageProcessVector w attacker damagevector =>
    cases he
    exact .DamageProcessVector rfl hnumbered (Outcome.toOption_eq_some_iff.mp hnext)
  | EndPlay number => cases he

end Charted

end Manager

end AsioGameServer.dungeon

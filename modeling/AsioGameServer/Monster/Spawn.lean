import AsioGameServer.Component.WellFormed
import AsioGameServer.Monster.Reward

open Function

namespace AsioGameServer.monster

variable {F : Type} [Number F]

/-- A `MonsterSpawnDesc` with its count as the file gives it, and its navigation mesh, if
that is there. -/
structure SpawnDesc (F : Type) where
  monsterCode : Int
  monsterCount : Int
  position : Vector3 F
  distanceRange : F
  respawnTime : F
  navi : Option Nat

/-- What a manager without components is given. -/
def SpawnDesc.plain (desc : SpawnDesc F) : MonsterSpawnDesc F :=
  ⟨desc.monsterCode, desc.monsterCount.toNat, desc.position, desc.distanceRange, desc.respawnTime⟩

/-- A manager that is the component `id`, with the `navi` of its monsters and their components,
by their numbers. -/
structure Spawner (F : Type) where
  id : Nat
  heap : component.Heap
  manager : MonsterManager F
  navi : Int → Option Nat
  components : Int → Nat

namespace Spawner

/-- A manager that was created. -/
def start (heap : component.Heap) : Spawner F :=
  ⟨heap.count + 1, heap.CreateComponent, .start, fun _ => none, fun _ => 0⟩

section Spawning

variable (infos : Int → Option (MonsterInfo F)) (memory : Int → Monster F)

/-- One round of the loop of `Add_Spawn_Monster`, with no result where `monKeyCount` overflows.
The range is set to the time. -/
def spawn (desc : SpawnDesc F) (s : Spawner F) : Option (Spawner F) :=
  let number := s.manager.monKeyCount
  if number = 2147483647 then none
  else
    let manager := { s.manager with monKeyCount := number + 1 }
    match MonsterBuilder.CreateMonster infos (memory number) desc.monsterCode number with
    | none => some { s with manager }
    | some monster =>
      let id := s.heap.count + 1
      let heap := s.heap.CreateComponent
      let monster := { monster with
        respawnPosition := desc.position
        respawnRange := desc.respawnTime
        respawnTime := desc.respawnTime }
      some { s with
        heap := heap.Attach s.id id
        manager :=
          if (manager.monsters number).isSome then manager
          else { manager with monsters := update manager.monsters number (some monster) }
        navi := update s.navi number desc.navi
        components := update s.components number id }

def Add_Spawn_Monster (desc : SpawnDesc F) (s : Spawner F) : Option (Spawner F) :=
  (List.range desc.monsterCount.toNat).foldlM (fun s _ => s.spawn infos memory desc) s

end Spawning

variable {infos : Int → Option (MonsterInfo F)} {memory : Int → Monster F} {desc : SpawnDesc F} {s s' : Spawner F}

theorem monKeyCount_spawn (hspawn : s.spawn infos memory desc = some s') :
    s'.manager.monKeyCount = s.manager.monKeyCount + 1 := by
  unfold spawn at hspawn
  dsimp only at hspawn
  split at hspawn
  · cases hspawn
  · split at hspawn
    · cases hspawn
      rfl
    · cases hspawn
      dsimp only
      split <;> rfl

theorem spawn_eq_none_iff : s.spawn infos memory desc = none ↔ s.manager.monKeyCount = 2147483647 := by
  unfold spawn
  dsimp only
  split
  · rename_i hmax
    exact ⟨fun _ => hmax, fun _ => rfl⟩
  · rename_i hmax
    refine ⟨fun hnone => ?_, fun heq => absurd heq hmax⟩
    split at hnone <;> cases hnone

/-- The monsters are those of the manager without components. -/
theorem manager_spawn (hspawn : s.spawn infos memory desc = some s') :
    s'.manager = s.manager.spawn infos desc.plain (memory s.manager.monKeyCount) := by
  unfold spawn at hspawn
  dsimp only at hspawn
  split at hspawn
  · cases hspawn
  · unfold MonsterManager.spawn
    split at hspawn
    · rename_i hnone
      cases hspawn
      simp only [SpawnDesc.plain, hnone]
    · rename_i monster hmonster
      cases hspawn
      simp only [SpawnDesc.plain, hmonster]

/-- The rounds of the loop, which do not look at their index. -/
theorem manager_rounds (n : Nat)
    (hrounds : (List.range n).foldlM (fun s _ => s.spawn infos memory desc) s = some s') :
    s'.manager.monKeyCount = s.manager.monKeyCount + n ∧
      s'.manager = (List.range n).foldl
        (fun mm i => mm.spawn infos desc.plain (memory (s.manager.monKeyCount + Int.ofNat i))) s.manager := by
  induction n generalizing s' with
  | zero =>
    cases hrounds
    exact ⟨(Int.add_zero _).symm, rfl⟩
  | succ n ih =>
    rw [List.range_succ, List.foldlM_append, Option.bind_eq_bind, Option.bind_eq_some_iff] at hrounds
    obtain ⟨s₁, hfirst, hlast⟩ := hrounds
    obtain ⟨hkey, hmanager⟩ := ih hfirst
    rw [List.foldlM_cons, Option.bind_eq_bind, Option.bind_eq_some_iff] at hlast
    obtain ⟨_, hspawn, hnil⟩ := hlast
    cases hnil
    constructor
    · rw [monKeyCount_spawn hspawn, hkey]
      omega
    · rw [List.range_succ, List.foldl_append, ← hmanager, manager_spawn hspawn, hkey]
      rfl

/-- The loop does to the monsters what it does without components. -/
theorem manager_Add_Spawn_Monster (hadd : s.Add_Spawn_Monster infos memory desc = some s') :
    s'.manager = s.manager.Add_Spawn_Monster infos desc.plain
      fun i => memory (s.manager.monKeyCount + Int.ofNat i) :=
  (manager_rounds _ hadd).2

/-- A component that is created and attached at once is the last child. -/
theorem attach_created {h : component.Heap} {p : Nat} (hw : h.WellFormed) (hp : p < h.count) :
    (h.CreateComponent.Attach p (h.count + 1)).WellFormed ∧
      ((h.CreateComponent.Attach p (h.count + 1)).get p).children = (h.get p).children ++ [h.count + 1] := by
  have hroot : (h.CreateComponent.get (h.count + 1)).parent = none := by
    change (h.get (h.count + 1)).parent = none
    rw [hw.fresh _ (Nat.le_succ _)]
    rfl
  constructor
  · refine hw.CreateComponent.Attach (Nat.lt_add_right _ hp) (Nat.lt_succ_self _) fun hmem => ?_
    obtain heq | ⟨c, _, hparent⟩ := (hw.CreateComponent.mem_ancestors_iff.mp hmem).cases_tail
    · omega
    · have hlt := (hw.bounded c _ hparent).2
      omega
  · have hne : p ≠ h.count + 1 := by omega
    rw [component.Heap.Attach, if_pos hroot, component.Heap.onComponent_self, component.Heap.onComponent_of_ne hne]
    rfl

/-- What a monster of a descriptor carries, with its range. -/
structure Carries (desc : SpawnDesc F) (number : Int) (range : F) (navi : Option Nat) (mon : Monster F) : Prop where
  number : mon.monsterNumber = number
  navi : navi = desc.navi
  respawnPosition : mon.respawnPosition = desc.position
  respawnRange : mon.respawnRange = range
  respawnTime : mon.respawnTime = desc.respawnTime

/-- The manager gained monsters for the descriptors, which are named with their numbers. -/
structure Gained (range : SpawnDesc F → F) (s s' : Spawner F) (made : List (SpawnDesc F × Int)) : Prop where
  nodup : (made.map Prod.snd).Nodup
  new : ∀ p ∈ made, s.manager.monsters p.2 = none
  others : ∀ number, number ∉ made.map Prod.snd → s'.manager.monsters number = s.manager.monsters number
  monsters : ∀ p ∈ made, ∃ mon, s'.manager.monsters p.2 = some mon ∧ Carries p.1 p.2 (range p.1) (s'.navi p.2) mon
  children : (s'.heap.get s'.id).children = (s.heap.get s.id).children ++ made.map fun p => s'.components p.2

/-- A manager in its tree of components whose numbers are used up. -/
structure Ready (s : Spawner F) : Prop where
  heap : s.heap.WellFormed
  id : s.id < s.heap.count
  numbers : ∀ number, s.manager.monsters number ≠ none → number < s.manager.monKeyCount
  monKeyCount : s.manager.monKeyCount ≤ 2147483647

omit [Number F] in
theorem Ready.start {heap : component.Heap} (hw : heap.WellFormed) : (start heap : Spawner F).Ready :=
  ⟨hw.CreateComponent, Nat.lt_succ_self _, fun _ hsome => absurd rfl hsome,
    show (0 : Int) ≤ 2147483647 by decide⟩

/-- What the descriptors ask for: one for each monster of a known code. -/
def wanted (infos : Int → Option (MonsterInfo F)) (descs : List (SpawnDesc F)) : List (SpawnDesc F) :=
  descs.flatMap fun desc =>
    if (infos desc.monsterCode).isSome then List.replicate desc.monsterCount.toNat desc else []

/-- What the rounds of the loop keep. The code gives the time for the range. -/
structure Grown (s₀ s : Spawner F) (made : List (SpawnDesc F × Int)) : Prop where
  gained : Gained SpawnDesc.respawnTime s₀ s made
  ready : s.Ready
  id : s.id = s₀.id
  used : ∀ p ∈ made, p.2 < s.manager.monKeyCount
  monKeyCount : s₀.manager.monKeyCount ≤ s.manager.monKeyCount

variable {s₀ : Spawner F} {made : List (SpawnDesc F × Int)}

omit [Number F] in
theorem Grown.refl (h : s.Ready) : Grown s s [] :=
  ⟨⟨List.nodup_nil, by simp, fun _ _ => rfl, by simp, (List.append_nil _).symm⟩, h, rfl, by simp, Int.le_refl _⟩

omit [Number F] in
/-- The next number is free. -/
theorem Grown.free (h : Grown s₀ s made) (hready : s₀.Ready) :
    s₀.manager.monsters s.manager.monKeyCount = none ∧ s.manager.monKeyCount ∉ made.map Prod.snd ∧
      s.manager.monsters s.manager.monKeyCount = none := by
  have hnew : s₀.manager.monsters s.manager.monKeyCount = none := by
    by_contra hsome
    have hlt := hready.numbers _ hsome
    have hle := h.monKeyCount
    omega
  have hnot : s.manager.monKeyCount ∉ made.map Prod.snd := by
    intro hmem
    obtain ⟨p, hp, heq⟩ := List.mem_map.mp hmem
    have hlt := h.used p hp
    omega
  exact ⟨hnew, hnot, (h.gained.others _ hnot).trans hnew⟩

omit [Number F] in
/-- A number that is used up by a code that is not known. -/
theorem Grown.skip (h : Grown s₀ s made) (hlt : s.manager.monKeyCount < 2147483647) :
    Grown s₀ { s with manager := { s.manager with monKeyCount := s.manager.monKeyCount + 1 } } made := by
  refine ⟨⟨h.gained.nodup, h.gained.new, h.gained.others, h.gained.monsters, h.gained.children⟩,
    ⟨h.ready.heap, h.ready.id, fun number hsome => ?_, ?_⟩, h.id, fun p hp => ?_, ?_⟩
  · exact Int.lt_add_one_of_le (Int.le_of_lt (h.ready.numbers number hsome))
  · dsimp only
    omega
  · exact Int.lt_add_one_of_le (Int.le_of_lt (h.used p hp))
  · have hle := h.monKeyCount
    dsimp only
    omega

omit [Number F] in
/-- A monster that is made, inserted and attached. -/
theorem Grown.grow (h : Grown s₀ s made) (hready : s₀.Ready) (hlt : s.manager.monKeyCount < 2147483647)
    {mon : Monster F}
    (hcarries : Carries desc s.manager.monKeyCount desc.respawnTime desc.navi mon) :
    Grown s₀ { s with
      heap := s.heap.CreateComponent.Attach s.id (s.heap.count + 1)
      manager := { s.manager with
        monKeyCount := s.manager.monKeyCount + 1
        monsters := update s.manager.monsters s.manager.monKeyCount (some mon) }
      navi := update s.navi s.manager.monKeyCount desc.navi
      components := update s.components s.manager.monKeyCount (s.heap.count + 1) }
      (made ++ [(desc, s.manager.monKeyCount)]) := by
  obtain ⟨hnew, hnot, _⟩ := h.free hready
  obtain ⟨hheap, hchildren⟩ := attach_created h.ready.heap h.ready.id
  have hearlier : ∀ p ∈ made, p.2 ≠ s.manager.monKeyCount := fun p hp heq => hnot (List.mem_map.mpr ⟨p, hp, heq⟩)
  have hle := h.monKeyCount
  refine ⟨⟨?_, ?_, ?_, ?_, ?_⟩, ⟨hheap, ?_, ?_, ?_⟩, h.id, ?_, ?_⟩
  · rw [List.map_append]
    refine List.nodup_append.mpr ⟨h.gained.nodup, List.nodup_singleton _, ?_⟩
    rintro number hnumber _ hlast rfl
    rw [List.mem_singleton.mp hlast] at hnumber
    exact hnot hnumber
  · intro p hp
    obtain hp | hp := List.mem_append.mp hp
    · exact h.gained.new p hp
    · rw [List.mem_singleton.mp hp]
      exact hnew
  · intro number hnumber
    rw [List.map_append, List.mem_append, not_or] at hnumber
    have hne : number ≠ s.manager.monKeyCount := fun heq => hnumber.2 (by simp [heq])
    exact (update_of_ne hne _ _).trans (h.gained.others number hnumber.1)
  · intro p hp
    obtain hp | hp := List.mem_append.mp hp
    · obtain ⟨mon', hmon', hcarries'⟩ := h.gained.monsters p hp
      dsimp only
      rw [update_of_ne (hearlier p hp), update_of_ne (hearlier p hp)]
      exact ⟨mon', hmon', hcarries'⟩
    · rw [List.mem_singleton.mp hp]
      dsimp only
      rw [update_self, update_self]
      exact ⟨mon, rfl, hcarries⟩
  · dsimp only
    rw [hchildren, h.gained.children, List.map_append, List.append_assoc]
    congr 2
    · exact List.map_congr_left fun p hp => (update_of_ne (hearlier p hp) _ _).symm
    · simp
  · change s.id < (s.heap.CreateComponent.Attach s.id (s.heap.count + 1)).count
    unfold component.Heap.Attach
    split <;> exact Nat.lt_add_right 2 h.ready.id
  · intro number hsome
    dsimp only at hsome ⊢
    by_cases heq : number = s.manager.monKeyCount
    · omega
    · rw [update_of_ne heq] at hsome
      exact Int.lt_add_one_of_le (Int.le_of_lt (h.ready.numbers number hsome))
  · dsimp only
    omega
  · intro p hp
    dsimp only
    obtain hp | hp := List.mem_append.mp hp
    · exact Int.lt_add_one_of_le (Int.le_of_lt (h.used p hp))
    · rw [List.mem_singleton.mp hp]
      exact Int.lt_succ _
  · dsimp only
    omega

theorem Grown.spawn (h : Grown s₀ s made) (hready : s₀.Ready) (hspawn : s.spawn infos memory desc = some s') :
    Grown s₀ s' (made ++ if (infos desc.monsterCode).isSome then [(desc, s.manager.monKeyCount)] else []) := by
  obtain ⟨hnew, hnot, hfree⟩ := h.free hready
  unfold Spawner.spawn at hspawn
  dsimp only at hspawn
  split at hspawn
  · cases hspawn
  · rename_i hmax
    have hlt : s.manager.monKeyCount < 2147483647 := Int.lt_iff_le_and_ne.mpr ⟨h.ready.monKeyCount, hmax⟩
    unfold MonsterBuilder.CreateMonster at hspawn
    cases hinfo : infos desc.monsterCode with
    | none =>
      rw [hinfo] at hspawn
      cases hspawn
      rw [Option.isSome_none, if_neg (by simp), List.append_nil]
      exact h.skip hlt
    | some info =>
      rw [hinfo] at hspawn
      simp only [Option.map_some, hfree, Option.isSome_none, Bool.false_eq_true, if_false] at hspawn
      cases hspawn
      rw [Option.isSome_some, if_pos rfl]
      exact h.grow hready hlt ⟨rfl, rfl, rfl, rfl, rfl⟩

/-- The rounds of the loop go on until the counter is at its greatest value. -/
theorem Grown.rounds (h : Grown s₀ s made) (hready : s₀.Ready) (infos : Int → Option (MonsterInfo F))
    (memory : Int → Monster F) (desc : SpawnDesc F) (n : Nat) :
    (s.manager.monKeyCount + n ≤ 2147483647 → ∃ s' new,
      (List.range n).foldlM (fun s _ => s.spawn infos memory desc) s = some s' ∧
      s'.manager.monKeyCount = s.manager.monKeyCount + n ∧
      new.map Prod.fst = (if (infos desc.monsterCode).isSome then List.replicate n desc else []) ∧
      Grown s₀ s' (made ++ new)) ∧
    (2147483647 < s.manager.monKeyCount + n →
      (List.range n).foldlM (fun s _ => s.spawn infos memory desc) s = none) := by
  induction n with
  | zero =>
    refine ⟨fun _ => ⟨s, [], rfl, (Int.add_zero _).symm, by simp, (List.append_nil made).symm ▸ h⟩, fun hlt => ?_⟩
    have hle := h.ready.monKeyCount
    omega
  | succ n ih =>
    rw [List.range_succ, List.foldlM_append]
    obtain hfull | hroom := lt_or_ge 2147483647 (s.manager.monKeyCount + n)
    · rw [ih.2 hfull]
      exact ⟨fun hle => by omega, fun _ => rfl⟩
    · obtain ⟨s₁, new, hrounds, hkey, hnew, hgrown⟩ := ih.1 hroom
      rw [hrounds, Option.bind_eq_bind, Option.bind_some, List.foldlM_cons]
      cases hspawn : s₁.spawn infos memory desc with
      | none =>
        have hmax := spawn_eq_none_iff.mp hspawn
        exact ⟨fun hle => by omega, fun _ => rfl⟩
      | some s₂ =>
        have hmax : s₁.manager.monKeyCount ≠ 2147483647 := fun heq => by
          rw [spawn_eq_none_iff.mpr heq] at hspawn
          cases hspawn
        refine ⟨fun _ => ⟨s₂, new ++ if (infos desc.monsterCode).isSome then [(desc, s₁.manager.monKeyCount)] else [],
          rfl, ?_, ?_, ?_⟩, fun hlt => by omega⟩
        · rw [monKeyCount_spawn hspawn, hkey]
          omega
        · rw [List.map_append, hnew]
          split
          · rw [List.replicate_succ']
            rfl
          · rfl
        · rw [← List.append_assoc]
          exact hgrown.spawn hready hspawn

/-- How often the counter is used for the descriptors. -/
def total : List (SpawnDesc F) → Nat
  | [] => 0
  | desc :: descs => desc.monsterCount.toNat + total descs

/-- The descriptors are taken one after the other until the counter overflows. -/
theorem Grown.run (h : Grown s₀ s made) (hready : s₀.Ready) (infos : Int → Option (MonsterInfo F))
    (memory : Int → Monster F) (descs : List (SpawnDesc F)) :
    (s.manager.monKeyCount + total descs ≤ 2147483647 → ∃ s' new,
      descs.foldlM (fun s desc => s.Add_Spawn_Monster infos memory desc) s = some s' ∧
      new.map Prod.fst = wanted infos descs ∧ Grown s₀ s' (made ++ new)) ∧
    (2147483647 < s.manager.monKeyCount + total descs →
      descs.foldlM (fun s desc => s.Add_Spawn_Monster infos memory desc) s = none) := by
  induction descs generalizing s made with
  | nil =>
    refine ⟨fun _ => ⟨s, [], rfl, rfl, (List.append_nil made).symm ▸ h⟩, fun hlt => ?_⟩
    have hle := h.ready.monKeyCount
    rw [total] at hlt
    omega
  | cons desc descs ih =>
    obtain ⟨hfits, hoverflows⟩ := h.rounds hready infos memory desc desc.monsterCount.toNat
    rw [List.foldlM_cons, total, Nat.cast_add, ← Int.add_assoc]
    obtain hfull | hroom := lt_or_ge 2147483647 (s.manager.monKeyCount + desc.monsterCount.toNat)
    · rw [Add_Spawn_Monster, hoverflows hfull]
      exact ⟨fun hle => by omega, fun _ => rfl⟩
    · obtain ⟨s₁, new, hrounds, hkey, hnew, hgrown⟩ := hfits hroom
      rw [Add_Spawn_Monster, hrounds, ← hkey]
      obtain ⟨hrest, hnone⟩ := ih hgrown
      refine ⟨fun hle => ?_, hnone⟩
      obtain ⟨s', new', hrun, hnew', hgrown'⟩ := hrest hle
      refine ⟨s', new ++ new', hrun, ?_, ?_⟩
      · rw [List.map_append, hnew, hnew']
        rfl
      · rw [← List.append_assoc]
        exact hgrown'

/-- The manager gained the monsters that the descriptors ask for, each with the range of its
descriptor. -/
def Mirrors (infos : Int → Option (MonsterInfo F)) (descs : List (SpawnDesc F)) (s s' : Spawner F) : Prop :=
  ∃ made, made.map Prod.fst = wanted infos descs ∧ Gained SpawnDesc.distanceRange s s' made

omit [Number F] in
theorem mem_wanted_iff {descs : List (SpawnDesc F)} :
    desc ∈ wanted infos descs ↔ desc ∈ descs ∧ (infos desc.monsterCode).isSome ∧ 0 < desc.monsterCount := by
  unfold wanted
  rw [List.mem_flatMap]
  constructor
  · rintro ⟨d, hd, hmem⟩
    split at hmem
    · rename_i hknown
      obtain ⟨hne, rfl⟩ := List.mem_replicate.mp hmem
      exact ⟨hd, hknown, by omega⟩
    · cases hmem
  · rintro ⟨hmem, hknown, hpos⟩
    refine ⟨desc, hmem, ?_⟩
    rw [if_pos hknown]
    exact List.mem_replicate.mpr ⟨by omega, rfl⟩

/-- Spawning mirrors the descriptors where the numbers suffice and the descriptors give the
time for the range. -/
theorem spawning_mirrors_iff (hready : s.Ready) (infos : Int → Option (MonsterInfo F)) (memory : Int → Monster F)
    (descs : List (SpawnDesc F)) :
    (∃ s', descs.foldlM (fun s desc => s.Add_Spawn_Monster infos memory desc) s = some s' ∧ Mirrors infos descs s s') ↔
      s.manager.monKeyCount + total descs ≤ 2147483647 ∧
        ∀ desc ∈ descs, (infos desc.monsterCode).isSome → 0 < desc.monsterCount →
          desc.distanceRange = desc.respawnTime := by
  obtain ⟨hfits, hoverflows⟩ := (Grown.refl hready).run hready infos memory descs
  constructor
  · rintro ⟨s', hrun, made, hmade, hgained⟩
    have hroom : s.manager.monKeyCount + total descs ≤ 2147483647 := by
      by_contra hfull
      rw [hoverflows (by omega)] at hrun
      cases hrun
    refine ⟨hroom, fun desc hdesc hknown hpos => ?_⟩
    obtain ⟨s'', made', hrun', hmade', hgrown⟩ := hfits hroom
    obtain rfl := Option.some.inj (hrun.symm.trans hrun')
    have hwanted : desc ∈ made.map Prod.fst := hmade ▸ mem_wanted_iff.mpr ⟨hdesc, hknown, hpos⟩
    obtain ⟨⟨_, number⟩, hmem, rfl⟩ := List.mem_map.mp hwanted
    obtain ⟨mon, hmon, hcarries⟩ := hgained.monsters _ hmem
    -- The monster is new, so the code gave it the time for the range.
    have hnew : number ∈ made'.map Prod.snd := by
      by_contra hold
      have hsame := hgrown.gained.others number hold
      rw [hmon, hgained.new _ hmem] at hsame
      cases hsame
    obtain ⟨⟨desc', _⟩, hmem', rfl⟩ := List.mem_map.mp hnew
    obtain ⟨mon', hmon', hcarries'⟩ := hgrown.gained.monsters _ hmem'
    obtain rfl := Option.some.inj (hmon.symm.trans hmon')
    exact hcarries.respawnRange.symm.trans (hcarries'.respawnRange.trans
      (hcarries'.respawnTime.symm.trans hcarries.respawnTime))
  · rintro ⟨hroom, hranges⟩
    obtain ⟨s', made, hrun, hmade, hgrown⟩ := hfits hroom
    have hgained := hgrown.gained
    refine ⟨s', hrun, made, hmade, hgained.nodup, hgained.new, hgained.others, fun p hp => ?_, hgained.children⟩
    obtain ⟨mon, hmon, hcarries⟩ := hgained.monsters p hp
    have hwanted : p.1 ∈ wanted infos descs := hmade ▸ List.mem_map_of_mem hp
    obtain ⟨hdesc, hknown, hpos⟩ := mem_wanted_iff.mp hwanted
    refine ⟨mon, hmon, hcarries.number, hcarries.navi, hcarries.respawnPosition, ?_, hcarries.respawnTime⟩
    exact hcarries.respawnRange.trans (hranges p.1 hdesc hknown hpos).symm

section Example

/-- Two descriptors of one dungeon, where the second code is not known. -/
def dungeon (distanceRange : Int) : List (SpawnDesc Int) :=
  [⟨1, 2, ⟨7, 0, 0⟩, distanceRange, 5, some 3⟩, ⟨9, 4, .zero, 0, 5, some 3⟩]

theorem start_ready : (start .start : Spawner Int).Ready := .start .start

theorem spawning_mirrors_dungeon :
    ∃ s', (dungeon 5).foldlM (fun s desc => s.Add_Spawn_Monster slime (fun _ => blank) desc) (start .start) = some s' ∧
      Mirrors slime (dungeon 5) (start .start) s' := by
  refine (spawning_mirrors_iff start_ready slime (fun _ => blank) (dungeon 5)).mpr
    ⟨by decide, fun desc hdesc hknown _ => ?_⟩
  obtain rfl | hdesc := List.mem_cons.mp hdesc
  · rfl
  · rw [List.mem_singleton.mp hdesc] at hknown
    cases hknown

/-- The slimes of a descriptor with a range of 30 and a time of 5 have a range of 5. -/
theorem not_spawning_mirrors :
    ∃ s', (dungeon 30).foldlM (fun s desc => s.Add_Spawn_Monster slime (fun _ => blank) desc) (start .start) = some s' ∧
      (s'.manager.monsters 0).map (fun mon => (mon.respawnRange, mon.respawnTime)) = some (5, 5) ∧
      ¬ Mirrors slime (dungeon 30) (start .start) s' := by
  obtain ⟨s', made', hrun, hmade', hgrown⟩ :=
    ((Grown.refl start_ready).run start_ready slime (fun _ => blank) (dungeon 30)).1 (by decide)
  have hranges : ∀ number mon, s'.manager.monsters number = some mon → mon.respawnRange = 5 := by
    intro number mon hmon
    by_cases hnew : number ∈ made'.map Prod.snd
    · obtain ⟨p, hp, rfl⟩ := List.mem_map.mp hnew
      obtain ⟨mon', hmon', hcarries⟩ := hgrown.gained.monsters p hp
      obtain rfl := Option.some.inj (hmon.symm.trans hmon')
      have hwanted : p.1 ∈ wanted slime (dungeon 30) := hmade' ▸ List.mem_map_of_mem hp
      have htimes : ∀ desc ∈ dungeon 30, desc.respawnTime = 5 := by simp [dungeon]
      exact hcarries.respawnRange.trans (htimes _ (mem_wanted_iff.mp hwanted).1)
    · rw [hgrown.gained.others number hnew] at hmon
      cases hmon
  have hfirst : ∃ s',
      (dungeon 30).foldlM (fun s desc => s.Add_Spawn_Monster slime (fun _ => blank) desc) (start .start) = some s' ∧
        (s'.manager.monsters 0).map (fun mon => (mon.respawnRange, mon.respawnTime)) = some (5, 5) :=
    ⟨_, rfl, rfl⟩
  obtain ⟨_, hrun', hfirst⟩ := hfirst
  obtain rfl := Option.some.inj (hrun.symm.trans hrun')
  refine ⟨s', hrun, hfirst, ?_⟩
  rintro ⟨made, hmade, hgained⟩
  have hmem : (⟨1, 2, ⟨7, 0, 0⟩, 30, 5, some 3⟩ : SpawnDesc Int) ∈ made.map Prod.fst := by
    rw [hmade]
    exact List.mem_cons_self
  obtain ⟨⟨_, number⟩, hmem, rfl⟩ := List.mem_map.mp hmem
  obtain ⟨mon, hmon, hcarries⟩ := hgained.monsters _ hmem
  have hrange : mon.respawnRange = 30 := hcarries.respawnRange
  rw [hranges number mon hmon] at hrange
  cases hrange

end Example

end Spawner

end AsioGameServer.monster

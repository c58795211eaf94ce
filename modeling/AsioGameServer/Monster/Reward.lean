import AsioGameServer.Monster.Life

open Function Number Transition

namespace AsioGameServer.monster

variable {F : Type} [Number F] {w : Surroundings F} {s s' s'' : Stage F} {m exp : Int} {k : Nat}
  {f : DamageFormula F} {attacker : Attacker F} {state : AttackState}

/-- What is done to a monster leaves its number and its tree, and says nothing of the life of
others. -/
structure Local (s s' : Stage F) : Prop where
  number : s'.self.monsterNumber = s.self.monsterNumber
  ai : s'.self.ai = s.self.ai
  outputs : ∃ new, s'.outputs = s.outputs ++ new ∧
    ∀ o ∈ new, ∀ i, i ≠ s.self.monsterNumber → o.concerns i = false

namespace Local

omit [Number F] in
/-- A step that sends nothing. -/
theorem of_same (hnumber : s'.self.monsterNumber = s.self.monsterNumber) (hai : s'.self.ai = s.self.ai)
    (houtputs : s'.outputs = s.outputs) : Local s s' :=
  ⟨hnumber, hai, [], by rw [houtputs, List.append_nil], by simp⟩

omit [Number F] in
/-- No step at all. -/
theorem refl (s : Stage F) : Local s s := of_same rfl rfl rfl

omit [Number F] in
/-- A step that sends one thing, about this monster or about none. -/
theorem of_send {o : Output F} (hquiet : ∀ i, i ≠ s.self.monsterNumber → o.concerns i = false) :
    Local s (s.send o) := ⟨rfl, rfl, [o], rfl, by simpa using hquiet⟩

omit [Number F] in
/-- Steps that are local one by one are local together, since the number stays. -/
theorem trans (h : Local s s') (h' : Local s' s'') : Local s s'' := by
  obtain ⟨new, hnew, hquiet⟩ := h.outputs
  obtain ⟨new', hnew', hquiet'⟩ := h'.outputs
  refine ⟨h'.number.trans h.number, h'.ai.trans h.ai, new ++ new', by rw [hnew', hnew, List.append_assoc],
    fun o ho i hi => ?_⟩
  obtain ho | ho := List.mem_append.mp ho
  · exact hquiet o ho i hi
  · exact hquiet' o ho i (h.number ▸ hi)

omit [Number F] in
/-- What leaves the life of a monster alone is local. -/
theorem of_still (h : Still s s') : Local s s' := by
  have hlife := h.life
  simp only [Monster.life, Prod.mk.injEq] at hlife
  obtain ⟨new, hnew, hquiet⟩ := h.outputs
  exact ⟨hlife.1, hlife.2.2.2.2.2.2, new, hnew, fun o ho i _ => hquiet o ho i⟩

/-- A respawn is announced under the number of the monster. -/
theorem Respawn : Local s (Respawn w s) := by
  unfold monster.Respawn
  have hplaced : ∀ s₁ : Stage F, Local s s₁ → Local s (if w.cm = true then
      s₁.send (.RESPAWN_MONSTER ⟨s₁.self.code, s₁.self.currentHp, s₁.self.maxHp, s₁.self.monsterNumber,
        s₁.self.position, s₁.self.power, s₁.self.speed, s₁.self.nickname⟩) else s₁) := by
    intro s₁ h₁
    split
    · refine h₁.trans (of_send fun i hi => ?_)
      simpa [Output.concerns] using hi.symm
    · exact h₁
  refine hplaced _ ?_
  split <;> exact of_same rfl rfl rfl

omit [Number F] in
/-- A death is announced under the number of the monster. -/
theorem Dead : Local s (Dead w s) := by
  unfold monster.Dead
  split
  · exact of_send fun i hi => by simpa [Output.concerns] using hi.symm
  · exact refl s

/-- The handlers of `bAlive`, by induction on how often they were subscribed. -/
theorem SetAlive (val : Bool) : Local s (SetAlive w val s) := by
  unfold monster.SetAlive
  dsimp only
  have hiterate : ∀ n (s : Stage F), Local s ((onAlive w val)^[n] s) := by
    intro n
    induction n with
    | zero => exact refl
    | succ n ih =>
      intro s
      rw [iterate_succ_apply]
      refine Local.trans ?_ (ih _)
      unfold onAlive
      split
      · exact Respawn
      · exact Dead
  refine Local.trans ?_ (hiterate _ _)
  exact of_same rfl rfl rfl

/-- `BeginPlay` subscribes the handler once more and sets the monster alive. -/
theorem BeginPlay : Local s (BeginPlay w s) := by
  unfold monster.BeginPlay
  dsimp only
  have hset : Local s (monster.SetAlive w true (s.onMonster fun m => { m with events := m.events + 1 })) := by
    refine Local.trans ?_ (SetAlive true)
    exact of_same rfl rfl rfl
  exact hset.trans (of_same rfl rfl rfl)

/-- The end of a life is announced and rewarded under the number of the monster. -/
theorem kill : Local s (kill w attacker s) := by
  unfold monster.kill
  dsimp only
  split
  · refine (SetAlive false).trans (of_send fun i hi => ?_)
    simpa [Output.concerns] using hi.symm
  · exact SetAlive false

/-- Every action of the tree, of which only `UpdateState` concerns a life at all. -/
theorem act (action : Action) : Local s (actors.act action w s).2 := by
  cases action with
  | UpdateState =>
    obtain hstill | ⟨_, hset⟩ := Still.UpdateState (w := w) (s := s)
    · exact of_still hstill
    · have hlater : Local s (s.onMonster ({ · with state := .DIE })) := of_same rfl rfl rfl
      exact hset ▸ hlater.trans (SetAlive true)
  | UpdateIdle => exact of_still Still.UpdateIdle
  | Patrol => exact of_still Still.Patrol
  | Hold => exact of_still Still.Hold
  | Chase => exact of_still Still.Chase
  | Attack => exact of_still Still.Attack
  | Die => exact of_still Still.Die

/-- A run of the tree, by the rule for what its actions keep. -/
theorem Tick (htick : Tick w s = .ok s') : Local s s' := by
  unfold monster.Tick at htick
  split at htick
  · cases htick
    exact refl s
  · split at htick
    · cases htick
    · rename_i hrun
      cases htick
      exact behavior.Run_keeps (P := Local s) (fun action _ hs => hs.trans (.act action)) (refl s) hrun

end Local

section Defined

/-- The tree that the calls of `InsertAI` write down. -/
def aiTree : behavior.Tree Action Key :=
  .sequence [
    .actor .UpdateState,
    .selector .state [
      (State.IDLE.value, .sequence [
        .actor .UpdateIdle,
        .selector .idleState [(IdleState.PATROL.value, .actor .Patrol), (IdleState.HOLD.value, .actor .Hold)]]),
      (State.CHASE.value, .sequence [.actor .Chase]),
      (State.ATTACK.value, .sequence [.actor .Attack]),
      (State.DIE.value, .sequence [.actor .Die])]]

/-- The heap that `InsertAI` leaves runs as its tree is written. -/
theorem InsertAI_spec : ∃ heap, MonsterBuilder.InsertAI 1 = some (heap, 0) ∧
    ∀ (w : Surroundings F) e, behavior.Run actors heap w heap.length 0 e = some (true, (aiTree.eval actors w e).2) := by
  obtain ⟨heap, hbuild, hroot, hrep⟩ := behavior.build_chain aiTree (by
    simp [aiTree, behavior.Tree.Distinct, behavior.DistinctAll, behavior.DistinctBranches, State.value,
      IdleState.value])
  have hcalls : behavior.BehaviorTreeBuilder.build MonsterBuilder.calls = some (some 0, heap) := hbuild
  have hinsert : MonsterBuilder.InsertAI 1 = some (heap, 0) := by
    rw [MonsterBuilder.InsertAI, if_pos rfl, hcalls]
  have hlength : (MonsterBuilder.InsertAI 1).map (·.1.length) = some 15 := by decide
  rw [hinsert] at hlength
  have hlength : heap.length = 15 := Option.some.inj hlength
  have hheight : aiTree.height = 5 := by decide
  exact ⟨heap, hinsert, fun w e => behavior.run_root hroot hrep (by omega) actors w e⟩

/-- A monster as the builder makes it: without a tree, or with that of `InsertAI`. -/
def Monster.Built (monster : Monster F) : Prop :=
  monster.ai = none ∨ monster.ai = MonsterBuilder.InsertAI 1

/-- A tick of a monster that was built returns, and is what the evaluation of its tree does. -/
theorem Tick_spec (hbuilt : s.self.Built) :
    Tick w s = .ok (if s.self.ai.isSome then (aiTree.eval actors w ⟨s, []⟩).2.state else s) := by
  unfold Tick
  obtain hnone | hinsert := hbuilt
  · simp [hnone]
  · obtain ⟨heap, hheap, hrun⟩ := InsertAI_spec (F := F)
    rw [hinsert, hheap]
    dsimp only
    rw [hrun]
    rfl

/-- A monster that was built by `MonsterBuilder` ticks without a fault. -/
theorem Tick_local (hbuilt : s.self.Built) : Outcome (Local s) (fun _ => False) (Tick w s) := by
  cases htick : Tick w s with
  | error fault =>
    rw [Tick_spec hbuilt] at htick
    cases htick
  | ok s' => exact Local.Tick htick

/-- A hit in range never reads a formula that was not set. -/
theorem hit_spec : Outcome (fun p => Local s p.2) (fun _ => False) (hit f w attacker state s) := by
  unfold hit
  split
  · rename_i hrange
    have hknown : ∀ value, state ≠ .other value := by
      rintro value rfl
      unfold DamageFormula.CheckRange at hrange
      split at hrange
      · cases hrange
      · simp [DamageFormula.rangeOf] at hrange
    unfold GetDamage
    split
    · exact Local.refl s
    · have hcur : ∀ fault, f.GetCurDamage attacker.typeCode state (ofInt 1) attacker.power ≠ .error fault := by
        intro fault hfault
        unfold DamageFormula.GetCurDamage at hfault
        split at hfault
        · cases hfault
        · cases hstate : state with
          | other value => exact hknown value hstate
          | _ => simp [hstate] at hfault
      split
      · rename_i fault hfault
        exact hcur fault hfault
      · exact Local.refl s
      · rename_i damageval _
        have hhurt : Local s (s.onMonster fun m => { m with currentHp := m.currentHp - damageval }) :=
          .of_same rfl rfl rfl
        have hafter : ∀ s₁ : Stage F, Local s s₁ → ∀ currentHP : F,
            Local s (s₁.send (.damage ⟨attacker.code, state, currentHP, damageval, s₁.self.monsterNumber⟩)) := by
          intro s₁ h₁ currentHP
          exact h₁.trans (.of_send fun i hi => by simpa [Output.concerns] using hi.symm)
        refine hafter _ ?_ _
        split
        · exact hhurt.trans .kill
        · exact hhurt
  · exact Local.refl s

end Defined

section Manager

variable {mm mm' : MonsterManager F} {infos : Int → Option (MonsterInfo F)} {number : Int}

variable (m exp k)

/-- Monsters stand under their numbers, which are used up, and are as the builder made
them. -/
def Numbered (mm : MonsterManager F) : Prop :=
  ∀ j monster, mm.monsters j = some monster →
    monster.monsterNumber = j ∧ j < mm.monKeyCount ∧ monster.Built

/-- What steps do to a monster between its `BeginPlay` and its `EndPlay`. -/
def Managed (m exp : Int) (k : Nat) (mm : MonsterManager F) : Prop :=
  ∃ monster, mm.monsters m = some monster ∧ Living m exp k ⟨monster, mm.outputs⟩

/-- A function of one monster, whatever it is, keeps the numbers, and another monster's
life. -/
theorem update_keeps {monster : Monster F} (hmonster : mm.monsters number = some monster)
    (hlocal : Local ⟨monster, mm.outputs⟩ s') (hnumbered : Numbered mm) :
    Numbered { mm with monsters := update mm.monsters number (some s'.self), outputs := s'.outputs } ∧
      (m ≠ number → Managed m exp k mm →
        Managed m exp k { mm with monsters := update mm.monsters number (some s'.self), outputs := s'.outputs }) := by
  obtain ⟨hnumber, hlt, hbuilt⟩ := hnumbered number monster hmonster
  refine ⟨fun j other hother => ?_, fun hne hmanaged => ?_⟩
  · by_cases hj : j = number
    · subst hj
      simp only [update_self, Option.some.injEq] at hother
      subst hother
      refine ⟨hlocal.number.trans hnumber, hlt, ?_⟩
      rw [Monster.Built, hlocal.ai]
      exact hbuilt
    · simp only [update_of_ne hj] at hother
      exact hnumbered j other hother
  · obtain ⟨other, hother, hliving⟩ := hmanaged
    obtain ⟨new, hnew, hquiet⟩ := hlocal.outputs
    refine ⟨other, (update_of_ne hne _ _).trans hother, hliving.of_life rfl hnew fun o ho => ?_⟩
    exact hquiet o ho m (hnumber ▸ hne)

/-- A step of the manager for one monster, which may be another one than `m`. Numbers stay right
in any case, and the lives of `m` where the step keeps them. -/
theorem onStage_keeps {g : Stage F → Except Fault (Stage F)} (hnumbered : Numbered mm)
    (hlocal : ∀ s : Stage F, s.self.Built → Outcome (Local s) (fun _ => False) (g s)) :
    Outcome (fun mm' => Numbered mm' ∧ (Managed m exp k mm →
      (m = number → ∀ s s', Living m exp k s → g s = .ok s' → Living m exp k s') → Managed m exp k mm'))
      (fun _ => False) (mm.onStage number g) := by
  unfold MonsterManager.onStage
  cases hmonster : mm.monsters number with
  | none => exact And.intro hnumbered fun hmanaged _ => hmanaged
  | some monster =>
    have hone := hlocal ⟨monster, mm.outputs⟩ (hnumbered number monster hmonster).2.2
    cases hg : g ⟨monster, mm.outputs⟩ with
    | error fault =>
      rw [hg] at hone
      exact hone.elim
    | ok s' =>
      rw [hg] at hone
      obtain ⟨hkept, hother⟩ := update_keeps m exp k hmonster hone hnumbered
      dsimp only
      rw [hg]
      refine And.intro hkept fun hmanaged hmine => ?_
      by_cases hm : m = number
      · subst hm
        obtain ⟨monster', hmonster', hliving⟩ := hmanaged
        obtain rfl := Option.some.inj (hmonster.symm.trans hmonster')
        exact ⟨s'.self, update_self _ _ _, hmine rfl _ _ hliving hg⟩
      · exact hother hm hmanaged

/-- One record of a hit list has a result, and keeps the numbers and the lives. -/
theorem damage_keeps {damaged_code : Int} {records : List (Record F)} (hnumbered : Numbered mm) :
    Outcome (fun p => Numbered p.2 ∧ (w.cm = true → Managed m exp k mm → Managed m exp k p.2)) (fun _ => False)
      (mm.damage f w attacker damaged_code state records) := by
  unfold MonsterManager.damage
  cases hmonster : mm.monsters damaged_code with
  | none => exact And.intro hnumbered fun _ => id
  | some monster =>
    have hone : Outcome _ _ (hit f w attacker state ⟨monster, mm.outputs⟩) := hit_spec
    cases hhit : hit f w attacker state ⟨monster, mm.outputs⟩ with
    | error fault =>
      rw [hhit] at hone
      exact hone.elim
    | ok p =>
      obtain ⟨record, s'⟩ := p
      rw [hhit] at hone
      obtain ⟨hkept, hother⟩ := update_keeps m exp k hmonster hone hnumbered
      dsimp only
      rw [hhit]
      refine And.intro hkept fun hcm hmanaged => ?_
      by_cases hm : m = damaged_code
      · subst hm
        obtain ⟨monster', hmonster', hliving⟩ := hmanaged
        obtain rfl := Option.some.inj (hmonster.symm.trans hmonster')
        refine ⟨s'.self, update_self _ _ _, ?_⟩
        unfold hit at hhit
        split at hhit
        · exact hliving.GetDamage hcm hhit
        · cases hhit
          exact hliving
      · exact hother hm hmanaged

/-- The packets that carry records are of no life. -/
theorem send_keeps {o : Output F} (hquiet : ∀ i, o.concerns i = false) (hnumbered : Numbered mm) :
    Numbered (mm.send o) ∧ (Managed m exp k mm → Managed m exp k (mm.send o)) := by
  refine ⟨hnumbered, fun ⟨monster, hmonster, hliving⟩ => ⟨monster, hmonster, ?_⟩⟩
  have hnew : (mm.send o).outputs = mm.outputs ++ [o] := rfl
  exact hliving.of_life rfl hnew (by simpa using hquiet m)

/-- The same for a single hit, with the message that tells others of it. -/
theorem DamageProcess_keeps {damaged_code : Int} (hnumbered : Numbered mm) :
    Outcome (fun mm' => Numbered mm' ∧ (w.cm = true → Managed m exp k mm → Managed m exp k mm')) (fun _ => False)
      (mm.DamageProcess f w attacker damaged_code state) := by
  unfold MonsterManager.DamageProcess
  refine (damage_keeps m exp k hnumbered).bind fun ⟨records, mm₁⟩ ⟨hkept, hmine⟩ => ?_
  dsimp only at hkept hmine ⊢
  cases records with
  | nil => exact And.intro hkept hmine
  | cons record rest =>
    dsimp only
    split
    · obtain ⟨hsent, hliving⟩ := send_keeps m exp k (o := .CON_DAMAGE record) (fun _ => rfl) hkept
      exact And.intro hsent fun hcm hmanaged => hliving (hmine hcm hmanaged)
    · exact And.intro hkept hmine

/-- The same for a list of hits, by induction on it. -/
theorem DamageProcessVector_keeps {damagevector : List (Int × AttackState)} (hnumbered : Numbered mm) :
    Outcome (fun mm' => Numbered mm' ∧ (w.cm = true → Managed m exp k mm → Managed m exp k mm')) (fun _ => False)
      (mm.DamageProcessVector f w attacker damagevector) := by
  unfold MonsterManager.DamageProcessVector
  refine Outcome.bind (Q := fun p => Numbered p.2 ∧ (w.cm = true → Managed m exp k mm → Managed m exp k p.2)) ?_ ?_
  · refine Outcome.foldlM_keeps ⟨hnumbered, fun _ => id⟩ ?_
    rintro ⟨records, mm₁⟩ ⟨damaged_code, attackType⟩ _ ⟨hkept, hmine⟩
    refine (damage_keeps m exp k hkept).imp (fun _ hnext => ?_) fun _ => id
    exact ⟨hnext.1, fun hcm hmanaged => hnext.2 hcm (hmine hcm hmanaged)⟩
  · rintro ⟨records, mm₁⟩ ⟨hkept, hmine⟩
    dsimp only at hkept hmine ⊢
    split
    · exact And.intro hkept hmine
    · split
      · obtain ⟨hsent, hliving⟩ := send_keeps m exp k (o := .CON_DAMAGE_VECTOR records) (fun _ => rfl) hkept
        exact And.intro hsent fun hcm hmanaged => hliving (hmine hcm hmanaged)
      · exact And.intro hkept hmine

/-- A spawned monster gets a number that no other one had. -/
theorem spawn_keeps {desc : MonsterSpawnDesc F} {memory : Monster F} (hnumbered : Numbered mm) :
    Numbered (mm.spawn infos desc memory) ∧ (Managed m exp k mm → Managed m exp k (mm.spawn infos desc memory)) := by
  have hcounted : Numbered { mm with monKeyCount := mm.monKeyCount + 1 } := fun j monster hmonster => by
    obtain ⟨hnumber, hlt, hbuilt⟩ := hnumbered j monster hmonster
    exact ⟨hnumber, hlt.trans (Int.lt_succ _), hbuilt⟩
  unfold MonsterManager.spawn
  dsimp only
  cases hcreate : MonsterBuilder.CreateMonster infos memory desc.monsterCode mm.monKeyCount with
  | none => exact ⟨hcounted, id⟩
  | some monster =>
    dsimp only
    split
    · exact ⟨hcounted, id⟩
    · obtain ⟨info, _, rfl⟩ := Option.map_eq_some_iff.mp hcreate
      refine ⟨fun j other hother => ?_, fun ⟨other, hother, hliving⟩ => ⟨other, ?_, hliving⟩⟩
      · by_cases hj : j = mm.monKeyCount
        · subst hj
          simp only [update_self, Option.some.injEq] at hother
          subst hother
          refine ⟨rfl, Int.lt_succ _, ?_⟩
          unfold Monster.Built
          dsimp only
          by_cases hcode : desc.monsterCode = 1
          · exact .inr (by rw [hcode])
          · exact .inl (if_neg hcode)
        · simp only [update_of_ne hj] at hother
          exact hcounted j other hother
      · have hlt := (hnumbered m other hother).2.1
        exact (update_of_ne hlt.ne _ _).trans hother

/-- New monsters are numbered by the count, and take nobody's place. -/
theorem Add_Spawn_Monster_keeps {desc : MonsterSpawnDesc F} {memory : Nat → Monster F} (hnumbered : Numbered mm) :
    Numbered (mm.Add_Spawn_Monster infos desc memory) ∧
      (Managed m exp k mm → Managed m exp k (mm.Add_Spawn_Monster infos desc memory)) := by
  unfold MonsterManager.Add_Spawn_Monster
  induction List.range desc.monsterCount generalizing mm with
  | nil => exact ⟨hnumbered, id⟩
  | cons i l ih =>
    obtain ⟨hkept, hmine⟩ : Numbered (mm.spawn infos desc (memory i)) ∧
        (Managed m exp k mm → Managed m exp k (mm.spawn infos desc (memory i))) := spawn_keeps m exp k hnumbered
    exact ⟨(ih hkept).1, fun hmanaged => (ih hkept).2 (hmine hmanaged)⟩

/-- The steps between `BeginPlay` and `EndPlay` of a monster, whose channel has a
`CharacterManager`. -/
def during (m : Int) (_ : MonsterManager F) : MonsterManager.Event F → Prop
  | .BeginPlay number _ => number ≠ m
  | .EndPlay number => number ≠ m
  | .Tick number w => number = m → w.cm = true
  | .DamageProcess w _ _ _ => w.cm = true
  | .DamageProcessVector w _ _ => w.cm = true
  | .Add_Spawn_Monster _ _ => True

/-- Every step is defined. It keeps the numbers and, while the monster plays, its life. -/
theorem next_keeps (hnumbered : Numbered mm) (e : MonsterManager.Event F) :
    ∃ mm', mm.next infos f e = some mm' ∧ Numbered mm' ∧
      (during m mm e → Managed m exp k mm → Managed m exp k mm') := by
  have hstage : ∀ (g : Stage F → Except Fault (Stage F)) (number : Int),
      (∀ s : Stage F, s.self.Built → Outcome (Local s) (fun _ => False) (g s)) →
      ∃ mm', (mm.onStage number g).toOption = some mm' ∧ Numbered mm' ∧ (Managed m exp k mm →
        (m = number → ∀ s s', Living m exp k s → g s = .ok s' → Living m exp k s') → Managed m exp k mm') := by
    intro g number hlocal
    obtain ⟨mm', hmm', hkept⟩ := (onStage_keeps m exp k hnumbered hlocal).returns fun _ => id
    exact ⟨mm', by rw [hmm']; rfl, hkept⟩
  cases e with
  | Add_Spawn_Monster desc memory =>
    have hspawn : Numbered (mm.Add_Spawn_Monster infos desc memory) ∧
        (Managed m exp k mm → Managed m exp k (mm.Add_Spawn_Monster infos desc memory)) :=
      Add_Spawn_Monster_keeps m exp k hnumbered
    exact ⟨_, rfl, hspawn.1, fun _ => hspawn.2⟩
  | BeginPlay number w =>
    obtain ⟨mm', hmm', hkept, hmine⟩ := hstage (fun s => .ok (BeginPlay w s)) number
      fun s _ => (Local.BeginPlay : Local s (BeginPlay w s))
    exact ⟨mm', hmm', hkept, fun hne hmanaged => hmine hmanaged fun hm => absurd hm.symm hne⟩
  | Tick number w =>
    obtain ⟨mm', hmm', hkept, hmine⟩ := hstage (Tick w) number fun s hbuilt => Tick_local hbuilt
    refine ⟨mm', hmm', hkept, fun hcm hmanaged => hmine hmanaged fun hm s s' hliving htick => ?_⟩
    exact hliving.Tick (hcm hm.symm) htick
  | EndPlay number =>
    obtain ⟨mm', hmm', hkept, hmine⟩ := hstage (fun s => .ok (EndPlay s)) number
      fun s _ => (Local.of_same rfl rfl rfl : Local s (EndPlay s))
    exact ⟨mm', hmm', hkept, fun hne hmanaged => hmine hmanaged fun hm => absurd hm.symm hne⟩
  | DamageProcess w attacker damaged_code attackType =>
    have hdamage : Outcome _ _ (mm.DamageProcess f w attacker damaged_code attackType) :=
      DamageProcess_keeps m exp k hnumbered
    obtain ⟨mm', hmm', hkept⟩ := hdamage.returns fun _ => id
    exact ⟨mm', by rw [MonsterManager.next, hmm']; rfl, hkept⟩
  | DamageProcessVector w attacker damagevector =>
    have hdamage : Outcome _ _ (mm.DamageProcessVector f w attacker damagevector) :=
      DamageProcessVector_keeps m exp k hnumbered
    obtain ⟨mm', hmm', hkept⟩ := hdamage.returns fun _ => id
    exact ⟨mm', by rw [MonsterManager.next, hmm']; rfl, hkept⟩

/-- Every event keeps all monsters under their own numbers. -/
theorem numbered_next {e : MonsterManager.Event F} (hnumbered : Numbered mm) (hnext : mm.next infos f e = some mm') :
    Numbered mm' := by
  obtain ⟨_, hdefined, hkept, _⟩ : ∃ mm₁, mm.next infos f e = some mm₁ ∧ Numbered mm₁ ∧
      (during 0 mm e → Managed 0 0 0 mm → Managed 0 0 0 mm₁) := next_keeps 0 0 0 hnumbered e
  obtain rfl := Option.some.inj (hdefined.symm.trans hnext)
  exact hkept

/-- In every state that a run reaches, a monster knows the number it is under. -/
theorem numbered_of_run {events : List (MonsterManager.Event F)}
    (hrun : Run (OfOption (MonsterManager.next infos f)) .start events mm) : Numbered mm := by
  refine hrun.invariant (fun j monster hmonster => ?_) fun _ _ _ hnumbered hnext => numbered_next hnumbered hnext
  cases hmonster

/-- From `BeginPlay` to `EndPlay` a monster lives one life after the other, whatever the
ticks and the damage requests between are. -/
theorem one_life_one_reward {before events : List (MonsterManager.Event F)} {mm₀ mm₁ : MonsterManager F}
    {monster : Monster F} {w : Surroundings F} {m : Int}
    (hbefore : Run (OfOption (MonsterManager.next infos f)) .start before mm₀)
    (hmonster : mm₀.monsters m = some monster) (hevents : monster.events = 0) (hmaxHp : ofInt 0 < monster.maxHp)
    (hcm : w.cm = true) (hbegin : mm₀.next infos f (.BeginPlay m w) = some mm₁)
    (hrun : Run (Guarded (during m) (OfOption (MonsterManager.next infos f))) mm₁ events mm') :
    ∃ monster', mm'.monsters m = some monster' ∧ (monster'.bAlive = true ↔ ofInt 0 < monster'.currentHp) ∧
      Lives m monster.exp monster'.bAlive ((mm'.outputs.drop mm₀.outputs.length).filter (·.concerns m)) := by
  have hnumbered : Numbered mm₀ := numbered_of_run hbefore
  have hnumber : monster.monsterNumber = m := (hnumbered m monster hmonster).1
  have hfirst : Managed m monster.exp mm₀.outputs.length mm₁ := by
    simp only [MonsterManager.next, MonsterManager.onStage, hmonster] at hbegin
    cases hbegin
    exact ⟨_, update_self _ _ _, Living.begin (s := ⟨monster, mm₀.outputs⟩) hnumber hevents hmaxHp hcm⟩
  have hnumbered₁ : Numbered mm₁ := numbered_of_run (run_concat_iff.mpr ⟨mm₀, hbefore, hbegin⟩)
  have hlast : Numbered mm' ∧ Managed m monster.exp mm₀.outputs.length mm' := by
    apply hrun.invariant ⟨hnumbered₁, hfirst⟩
    intro mm e mm' ⟨hkept, hmanaged⟩ ⟨hduring, hnext⟩
    obtain ⟨_, hdefined, hkept', hmanaged'⟩ : ∃ mm₂, mm.next infos f e = some mm₂ ∧ Numbered mm₂ ∧
        (during m mm e → Managed m monster.exp mm₀.outputs.length mm →
          Managed m monster.exp mm₀.outputs.length mm₂) := next_keeps m monster.exp mm₀.outputs.length hkept e
    obtain rfl := Option.some.inj (hdefined.symm.trans hnext)
    exact ⟨hkept', hmanaged' hduring hmanaged⟩
  obtain ⟨monster', hmonster', hliving⟩ := hlast.2
  exact ⟨monster', hmonster', hliving.alive, hliving.lives⟩

end Manager

section Example

/-- A place without a player, where a tick takes one second. -/
def field : Surroundings Int where
  cm := true
  SearchNearPlayer _ := (-1, 0)
  GetCharacter _ := none
  navi := false
  findRandomPointAroundCircle p _ := p
  findStraightPath _ _ := []
  idleTimeRange := 3
  delta := 1
  now := 0

/-- A table where a first combo does the power as damage, up to a distance of ten. -/
def plainFormula : DamageFormula Int where
  damages _ := some ⟨1, 0, 0, 0, 0, 0, 0, 0, 0, 0, 0, 0⟩
  ranges _ := some ⟨10, 0, 0, 0, 0, 0⟩

def slime (code : Int) : Option (MonsterInfo Int) :=
  if code = 1 then some ⟨1, "slime", 10, 1, 1, 25⟩ else none

/-- A player with a power of six. -/
def fencer (code : Int) : Attacker Int := ⟨code, 1, 6, .zero, true⟩

def blank : Monster Int :=
  ⟨0, 0, 0, "", false, 0, 0, 0, 0, 0, 0, .zero, 0, 0, .zero, .zero, false, false, .IDLE, .HOLD, 0, 0, 0, false, 0,
    [], none⟩

/-- A manager that spawned one slime. -/
def slimes : MonsterManager Int := MonsterManager.start.Add_Spawn_Monster slime ⟨1, 1, .zero, 0, 0⟩ fun _ => blank

/-- Two players hit the slime, and the second kills it. The first comes too late, before it
respawns. -/
def fight : List (MonsterManager.Event Int) :=
  [.Tick 0 field, .DamageProcess field (fencer 7) 0 .Combo1,
    .DamageProcessVector field (fencer 8) [(0, .Combo1), (0, .Combo1)], .Tick 0 field,
    .DamageProcess field (fencer 7) 0 .Combo1, .Tick 0 field]

theorem one_life_one_reward_fight :
    ∃ mm₁ mm' : MonsterManager Int, slimes.next slime plainFormula (.BeginPlay 0 field) = some mm₁ ∧
      Run (Guarded (during 0) (OfOption (MonsterManager.next slime plainFormula))) mm₁ fight mm' ∧
      (mm'.outputs.filter (·.concerns 0)).length = 6 ∧
      ∃ monster', mm'.monsters 0 = some monster' ∧ (monster'.bAlive = true ↔ 0 < monster'.currentHp) ∧
        Lives 0 25 monster'.bAlive ((mm'.outputs.drop slimes.outputs.length).filter (·.concerns 0)) := by
  have hspawned : Run (OfOption (MonsterManager.next slime plainFormula)) .start
      [.Add_Spawn_Monster ⟨1, 1, .zero, 0, 0⟩ fun _ => blank] slimes := run_singleton_iff.mpr rfl
  have hfight : ∃ mm₁ mm' : MonsterManager Int, slimes.next slime plainFormula (.BeginPlay 0 field) = some mm₁ ∧
      Run (Guarded (during 0) (OfOption (MonsterManager.next slime plainFormula))) mm₁ fight mm' ∧
      (mm'.outputs.filter (·.concerns 0)).length = 6 := by
    refine ⟨_, _, rfl, .cons ⟨fun _ => rfl, rfl⟩ <| .cons ⟨rfl, rfl⟩ <| .cons ⟨rfl, rfl⟩ <|
      .cons ⟨fun _ => rfl, rfl⟩ <| .cons ⟨rfl, rfl⟩ <| .cons ⟨fun _ => rfl, rfl⟩ <| .nil _, ?_⟩
    decide
  obtain ⟨mm₁, mm', hbegin, hrun, hlength⟩ := hfight
  have hhp : (0 : Int) < 10 := by decide
  refine ⟨mm₁, mm', hbegin, hrun, hlength, ?_⟩
  exact one_life_one_reward hspawned (show slimes.monsters 0 = some _ from rfl) rfl hhp rfl hbegin hrun

end Example

end AsioGameServer.monster

import AsioGameServer.Dungeon.Delivery
import AsioGameServer.Monster.Stage

open Function Number Transition

namespace AsioGameServer.dungeon

open monster (Monster MonsterManager Output Stage Surroundings Attacker AttackState Record DamageFormula MonsterInfo
  Numbered)

variable {F : Type} [Number F] {infos : Int → Option (MonsterInfo F)} {f : DamageFormula F}
  {sm : status.StatusManager F} {d d' : Dungeon F} {code : Int}

/-- What the rewards of a character sum up to. -/
def earned (code : Int) (rewards : List Reward) : Int :=
  ((rewards.filter (·.attacker = code)).map (·.exp)).sum

theorem earned_append (code : Int) (rewards rewards' : List Reward) :
    earned code (rewards ++ rewards') = earned code rewards + earned code rewards' := by
  simp [earned]

theorem earned_cons (code : Int) (reward : Reward) (rewards : List Reward) :
    earned code (reward :: rewards) = (if reward.attacker = code then reward.exp else 0) + earned code rewards := by
  unfold earned
  rw [List.filter_cons]
  by_cases hcode : reward.attacker = code <;> simp [hcode]

/-- The reward that is taken from those that wait. -/
theorem earned_eraseIdx (code : Int) {rewards : List Reward} {i : Nat} {reward : Reward}
    (hi : rewards[i]? = some reward) :
    earned code rewards =
      earned code (rewards.eraseIdx i) + (if reward.attacker = code then reward.exp else 0) := by
  obtain ⟨before, after, hsplit, herased, _⟩ := split_of_getElem? hi
  rw [herased, hsplit, earned_append, earned_append, earned_cons]
  omega

section Kills

variable {w : Surroundings F} {attacker : Attacker F} {state : AttackState} {s s' : Stage F}
  {mm mm' : MonsterManager F} {record : Option (Record F)} {records records' : List (Record F)}

/-- What a hit brings: if a monster that was alive lies dead after it, and the manager of the
attacker is there, the experience of the monster. -/
def killed (attacker : Attacker F) : Option (Monster F) → Option (Monster F) → List Reward
  | some mon, some mon' =>
    if mon.bAlive = true ∧ mon'.bAlive = false ∧ attacker.cm = true then [⟨attacker.code, mon.exp⟩] else []
  | _, _ => []

/-- What the hits of a damage packet bring, one after the other. -/
def kills (f : DamageFormula F) (w : Surroundings F) (attacker : Attacker F) :
    List (Int × AttackState) → MonsterManager F → List Reward
  | [], _ => []
  | (damaged_code, attackType) :: rest, mm =>
    match mm.damage f w attacker damaged_code attackType [] with
    | .error _ => []
    | .ok (_, mm') =>
      killed attacker (mm.monsters damaged_code) (mm'.monsters damaged_code) ++ kills f w attacker rest mm'

/-- What the kills of a step of the dungeon bring. Only damage packets kill. -/
def Dungeon.kills (f : DamageFormula F) (d : Dungeon F) : Event F → List Reward
  | .monsters (.DamageProcess w attacker damaged_code attackType) =>
    dungeon.kills f (found w) attacker [(damaged_code, attackType)] d.mm
  | .monsters (.DamageProcessVector w attacker damagevector) => dungeon.kills f (found w) attacker damagevector d.mm
  | _ => []

/-- The kills of a whole run, from its first step on. -/
def Dungeon.killsOf (infos : Int → Option (MonsterInfo F)) (f : DamageFormula F) (sm : status.StatusManager F)
    (d : Dungeon F) : List (Event F) → List Reward
  | [] => []
  | e :: events => d.kills f e ++
    match d.next infos f sm e with
    | none => []
    | some d' => d'.killsOf infos f sm events

/-- Nothing that was sent since brings anything. -/
def Unrewarded (outputs outputs' : List (Output F)) : Prop := outputs'.filterMap reward = outputs.filterMap reward

omit [Number F] in
theorem Unrewarded.refl (outputs : List (Output F)) : Unrewarded outputs outputs := rfl

omit [Number F] in
theorem Unrewarded.trans {outputs outputs' outputs'' : List (Output F)} (h : Unrewarded outputs outputs')
    (h' : Unrewarded outputs' outputs'') : Unrewarded outputs outputs'' := Eq.trans h' h

omit [Number F] in
theorem Unrewarded.send {o : Output F} (hnone : reward o = none) : Unrewarded s.outputs (s.send o).outputs := by
  simp [Unrewarded, Stage.send, hnone]

theorem Unrewarded.SetAlive (val : Bool) : Unrewarded s.outputs (monster.SetAlive w val s).outputs := by
  have hrespawn : ∀ s : Stage F, Unrewarded s.outputs (monster.Respawn w s).outputs := by
    intro s
    unfold monster.Respawn
    dsimp only
    split <;> split <;> first | exact Unrewarded.send rfl | rfl
  have honce : ∀ s : Stage F, Unrewarded s.outputs (monster.onAlive w val s).outputs := by
    intro s
    unfold monster.onAlive
    split
    · exact hrespawn s
    · unfold monster.Dead
      split
      · exact Unrewarded.send rfl
      · rfl
  have hall : ∀ (n : Nat) (s : Stage F), Unrewarded s.outputs ((monster.onAlive w val)^[n] s).outputs := by
    intro n
    induction n with
    | zero => exact fun _ => rfl
    | succ n ih => exact fun s => (honce s).trans (ih _)
  exact hall _ (s.onMonster ({ · with bAlive := val }))

/-- A tick rewards nobody. -/
theorem Unrewarded.Tick (htick : monster.Tick w s = .ok s') : Unrewarded s.outputs s'.outputs := by
  have hact : ∀ (action : monster.Action) (s : Stage F),
      Unrewarded s.outputs (monster.actors.act action w s).2.outputs := by
    intro action s
    cases action with
    | UpdateState =>
      obtain houtputs | ⟨_, hset⟩ := outputs_UpdateState (w := w) (s := s)
      · exact congrArg (List.filterMap reward) houtputs
      · have hlater := Unrewarded.SetAlive (w := w) (s := s.onMonster ({ · with state := .DIE })) true
        rw [← hset] at hlater
        exact hlater
    | UpdateIdle => exact congrArg (List.filterMap reward) outputs_UpdateIdle
    | Attack =>
      change Unrewarded s.outputs (monster.Attack w s).2.outputs
      unfold monster.Attack
      split
      · split <;> rfl
      · dsimp only
        split
        · exact Unrewarded.send rfl
        · rfl
    | Patrol | Hold | Chase | Die => rfl
  unfold monster.Tick at htick
  split at htick
  · cases htick
    rfl
  · split at htick
    · cases htick
    · rename_i hrun
      cases htick
      exact behavior.Run_keeps (P := fun s' : Stage F => Unrewarded s.outputs s'.outputs)
        (fun action _ hs => hs.trans (hact action _)) (.refl _) hrun

/-- A kill leaves the monster dead and rewards the attacker once, if its manager is there. -/
theorem rewards_kill (w : Surroundings F) (attacker : Attacker F) (s : Stage F) :
    (monster.kill w attacker s).self = { s.self with bAlive := false } ∧
    (monster.kill w attacker s).outputs.filterMap reward =
      s.outputs.filterMap reward ++ if attacker.cm then [⟨attacker.code, s.self.exp⟩] else [] := by
  have hdead : (monster.SetAlive w false s).self = { s.self with bAlive := false } := monster.self_onAlive_false _ _
  have hmute : Unrewarded s.outputs (monster.SetAlive w false s).outputs := .SetAlive false
  unfold monster.kill
  dsimp only
  split
  · refine ⟨hdead, ?_⟩
    rw [Stage.send, List.filterMap_append, hmute, hdead]
    rfl
  · exact ⟨hdead, by rw [hmute, List.append_nil]⟩

/-- A hit queues exactly one reward if it kills and the manager of the attacker is there, and
none otherwise. -/
theorem rewards_hit (hhit : monster.hit f w attacker state s = .ok (record, s')) :
    s'.outputs.filterMap reward = s.outputs.filterMap reward ++ killed attacker (some s.self) (some s'.self) := by
  have hspared : s' = s → s'.outputs.filterMap reward =
      s.outputs.filterMap reward ++ killed attacker (some s.self) (some s'.self) := by
    rintro rfl
    cases halive : s'.self.bAlive <;> simp [killed, halive]
  unfold monster.hit monster.GetDamage at hhit
  split at hhit
  · split at hhit
    · cases hhit
      exact hspared rfl
    · rename_i halive
      have halive : s.self.bAlive = true := by simpa using halive
      split at hhit
      · cases hhit
      · cases hhit
        exact hspared rfl
      · rename_i damageval _
        dsimp only at hhit
        split at hhit
        · cases hhit
          obtain ⟨hself, hrewards⟩ := rewards_kill w attacker
            (s.onMonster fun m => { m with currentHp := m.currentHp - damageval })
          rw [Stage.send, List.filterMap_append, hrewards, hself]
          simp only [killed, halive, Stage.onMonster, List.append_assoc, true_and]
          congr 1
          exact List.append_nil _
        · cases hhit
          simp [killed, halive, Stage.send, Stage.onMonster, reward]
  · cases hhit
    exact hspared rfl

/-- One entry of a damage packet queues what its hit brings, whatever was recorded before. -/
theorem rewards_damage {damaged_code : Int}
    (hdamage : mm.damage f w attacker damaged_code state records = .ok (records', mm')) :
    (∃ records'', mm.damage f w attacker damaged_code state [] = .ok (records'', mm')) ∧
      mm'.outputs.filterMap reward = mm.outputs.filterMap reward ++
        killed attacker (mm.monsters damaged_code) (mm'.monsters damaged_code) := by
  unfold MonsterManager.damage at hdamage ⊢
  cases hmonster : mm.monsters damaged_code with
  | none =>
    rw [hmonster] at hdamage
    cases hdamage
    exact ⟨⟨[], rfl⟩, by simp [killed]⟩
  | some mon =>
    rw [hmonster] at hdamage
    dsimp only at hdamage ⊢
    obtain ⟨⟨record, s'⟩, hhit, hresult⟩ := Outcome.bind_eq_ok_iff.mp hdamage
    obtain ⟨_, rfl⟩ := Prod.mk.inj (Except.ok.inj hresult)
    refine ⟨⟨[] ++ record.toList, Outcome.bind_eq_ok_iff.mpr ⟨_, hhit, rfl⟩⟩, ?_⟩
    simp only [update_self]
    exact rewards_hit hhit

/-- The entries of a damage packet queue what their hits bring, in this order. -/
theorem rewards_foldlM {damagevector : List (Int × AttackState)}
    (hloop : damagevector.foldlM (fun (records, mm) (damaged_code, attackType) =>
      MonsterManager.damage f w attacker damaged_code attackType records mm) (records, mm) = .ok (records', mm')) :
    mm'.outputs.filterMap reward = mm.outputs.filterMap reward ++ kills f w attacker damagevector mm := by
  induction damagevector generalizing records mm with
  | nil =>
    cases hloop
    exact (List.append_nil _).symm
  | cons entry damagevector ih =>
    obtain ⟨damaged_code, attackType⟩ := entry
    rw [List.foldlM_cons] at hloop
    obtain ⟨⟨records₁, mm₁⟩, hfirst, hrest⟩ := Outcome.bind_eq_ok_iff.mp hloop
    obtain ⟨⟨_, hsame⟩, hrewards⟩ := rewards_damage hfirst
    rw [ih hrest, hrewards, List.append_assoc]
    simp only [kills, hsame]

theorem rewards_DamageProcess {damaged_code : Int}
    (hnext : mm.DamageProcess f w attacker damaged_code state = .ok mm') :
    mm'.outputs.filterMap reward =
      mm.outputs.filterMap reward ++ kills f w attacker [(damaged_code, state)] mm := by
  unfold MonsterManager.DamageProcess at hnext
  obtain ⟨⟨records, mm₁⟩, hdamage, hsent⟩ := Outcome.bind_eq_ok_iff.mp hnext
  have hone : mm₁.outputs.filterMap reward =
      mm.outputs.filterMap reward ++ kills f w attacker [(damaged_code, state)] mm := by
    have hloop : [(damaged_code, state)].foldlM (fun (records, mm) (damaged_code, attackType) =>
        MonsterManager.damage f w attacker damaged_code attackType records mm) ([], mm) = .ok (records, mm₁) := by
      rw [List.foldlM_cons]
      exact Outcome.bind_eq_ok_iff.mpr ⟨_, hdamage, rfl⟩
    exact rewards_foldlM hloop
  rw [← hone]
  dsimp only at hsent
  split at hsent
  · cases hsent
    rfl
  · split at hsent <;> cases hsent
    · simp [MonsterManager.send, reward]
    · rfl

theorem rewards_DamageProcessVector {damagevector : List (Int × AttackState)}
    (hnext : mm.DamageProcessVector f w attacker damagevector = .ok mm') :
    mm'.outputs.filterMap reward = mm.outputs.filterMap reward ++ kills f w attacker damagevector mm := by
  unfold MonsterManager.DamageProcessVector at hnext
  obtain ⟨⟨records, mm₁⟩, hloop, hsent⟩ := Outcome.bind_eq_ok_iff.mp hnext
  rw [← rewards_foldlM hloop]
  dsimp only at hsent
  split at hsent
  · cases hsent
    rfl
  · split at hsent <;> cases hsent
    · simp [MonsterManager.send, reward]
    · rfl

omit [Number F] in
/-- A function of one monster that rewards nobody. -/
theorem Unrewarded.onStage {number : Int} {g : Stage F → Except monster.Fault (Stage F)}
    (hquiet : ∀ s s', g s = .ok s' → Unrewarded s.outputs s'.outputs) (hstage : mm.onStage number g = .ok mm') :
    Unrewarded mm.outputs mm'.outputs := by
  unfold MonsterManager.onStage at hstage
  split at hstage
  · cases hstage
    exact .refl _
  · rename_i mon _
    obtain ⟨s', hg, hresult⟩ := Outcome.bind_eq_ok_iff.mp hstage
    cases hresult
    exact hquiet _ _ hg

theorem outputs_Add_Spawn_Monster (desc : monster.MonsterSpawnDesc F) (memory : Nat → Monster F) :
    (mm.Add_Spawn_Monster infos desc memory).outputs = mm.outputs := by
  have hspawn : ∀ (mm : MonsterManager F) (mem : Monster F), (mm.spawn infos desc mem).outputs = mm.outputs := by
    intro mm mem
    unfold MonsterManager.spawn
    dsimp only
    split
    · rfl
    · split <;> rfl
  unfold MonsterManager.Add_Spawn_Monster
  induction List.range desc.monsterCount generalizing mm with
  | nil => rfl
  | cons i l ih => exact ih.trans (hspawn mm (memory i))

/-- A step of the dungeon queues the rewards of its kills and no others. -/
theorem rewards_next {e : Event F} (hnext : d.next infos f sm e = some d') :
    d'.mm.outputs.filterMap reward = d.mm.outputs.filterMap reward ++ d.kills f e := by
  have hmute : d'.mm = d.mm → d.kills f e = [] →
      d'.mm.outputs.filterMap reward = d.mm.outputs.filterMap reward ++ d.kills f e := by
    intro hsame hnone
    rw [hsame, hnone, List.append_nil]
  cases e with
  | monsters e =>
    simp only [Dungeon.next, Option.bind_eq_bind, Option.bind_eq_some_iff] at hnext
    obtain ⟨e', he, mm, hmm, hnext⟩ := hnext
    cases hnext
    change mm.outputs.filterMap reward = _
    have hquiet : Unrewarded d.mm.outputs mm.outputs → d.kills f (.monsters e) = [] →
        mm.outputs.filterMap reward = d.mm.outputs.filterMap reward ++ d.kills f (.monsters e) := by
      intro hsame hnone
      rw [hnone, List.append_nil]
      exact hsame
    cases e with
    | Add_Spawn_Monster desc memory =>
      cases he
      cases hmm
      exact hquiet (congrArg _ (outputs_Add_Spawn_Monster desc memory)) rfl
    | BeginPlay number w =>
      obtain ⟨_, ⟨⟩⟩ := Option.ite_none_right_eq_some.mp he
      refine hquiet (.onStage (fun s s' hg => ?_) (Outcome.toOption_eq_some_iff.mp hmm)) rfl
      cases hg
      exact .SetAlive (s := s.onMonster fun m => { m with events := m.events + 1 }) true
    | Tick number w =>
      cases he
      exact hquiet (.onStage (fun s s' htick => .Tick htick) (Outcome.toOption_eq_some_iff.mp hmm)) rfl
    | DamageProcess w attacker damaged_code attackType =>
      cases he
      exact rewards_DamageProcess (Outcome.toOption_eq_some_iff.mp hmm)
    | DamageProcessVector w attacker damagevector =>
      cases he
      exact rewards_DamageProcessVector (Outcome.toOption_eq_some_iff.mp hmm)
    | EndPlay number => cases he
  | InsertCharacter code => exact hmute (Dungeon.mm_next (fun _ heq => by cases heq) hnext) rfl
  | EraseCharacter key => exact hmute (Dungeon.mm_next (fun _ heq => by cases heq) hnext) rfl
  | PrevTick => exact hmute (Dungeon.mm_next (fun _ heq => by cases heq) hnext) rfl
  | award i cm session => exact hmute (Dungeon.mm_next (fun _ heq => by cases heq) hnext) rfl

/-- The awards that the monsters queue in a run are its kills, each once and in their order. -/
theorem rewards_of_run {events : List (Event F)} (hrun : Run (OfOption (Dungeon.next infos f sm)) d events d') :
    d'.mm.outputs.filterMap reward = d.mm.outputs.filterMap reward ++ d.killsOf infos f sm events := by
  induction hrun with
  | nil => exact (List.append_nil _).symm
  | @cons d d₁ d' e events hstep _ ih =>
    have hstep : d.next infos f sm e = some d₁ := hstep
    rw [ih, rewards_next hstep, List.append_assoc]
    simp only [Dungeon.killsOf, hstep]

end Kills

/-- A character has what it had in the beginning and what its kills brought, but for the
rewards that wait. -/
def Credited (sm : status.StatusManager F) (before : status.Character F) (code : Int) (d : Dungeon F) : Prop :=
  status.Conserves sm before (earned code (d.mm.outputs.filterMap reward) - earned code d.rewards) (d.levels code)

theorem Credited.next {before : status.Character F} {e : Event F} (h : Credited sm before code d)
    (hnumbered : Numbered d.mm) (hnext : d.next infos f sm e = some d') : Credited sm before code d' := by
  unfold Credited at h ⊢
  cases e with
  | monsters e =>
    obtain ⟨new, hnew, _, _, hd'⟩ := Dungeon.exists_queue hnumbered hnext
    have hrewards : d'.rewards = d.rewards ++ new.filterMap reward := by rw [hd']
    have hlevels : d'.levels = d.levels := by rw [hd']
    have hsum : earned code (d'.mm.outputs.filterMap reward) - earned code d'.rewards =
        earned code (d.mm.outputs.filterMap reward) - earned code d.rewards := by
      rw [hnew, hrewards, List.filterMap_append, earned_append, earned_append]
      omega
    rw [hsum, hlevels]
    exact h
  | InsertCharacter code =>
    cases hnext
    unfold Dungeon.InsertCharacter
    split <;> exact h
  | EraseCharacter key =>
    cases hnext
    exact h
  | PrevTick =>
    cases hnext
    rw [Dungeon.PrevTick_eq]
    exact h
  | award i cm session =>
    simp only [Dungeon.next, Option.bind_eq_bind, Option.bind_eq_some_iff] at hnext
    obtain ⟨reward, hreward, ⟨notices, level⟩, hlevel, hnext⟩ := hnext
    cases hnext
    have hwaited := earned_eraseIdx code hreward
    dsimp only
    by_cases hcode : reward.attacker = code
    · rw [if_pos hcode] at hwaited
      have hadd : (d.levels code).AddCurrentExp sm ⟨reward.exp, cm, session⟩ = .ok (notices, level) := by
        rw [← hcode]
        exact Outcome.toOption_eq_some_iff.mp hlevel
      have hstep : (d.levels code).next sm ⟨reward.exp, cm, session⟩ = some level := by
        rw [status.Character.next, hadd]
        rfl
      have hnow := h.next hstep
      rw [hcode, update_self]
      have hsum : earned code (d.mm.outputs.filterMap dungeon.reward) - earned code (d.rewards.eraseIdx i) =
          earned code (d.mm.outputs.filterMap dungeon.reward) - earned code d.rewards + reward.exp := by omega
      rw [hsum]
      exact hnow
    · rw [if_neg hcode] at hwaited
      rw [update_of_ne (Ne.symm hcode)]
      have hsum : earned code (d.mm.outputs.filterMap dungeon.reward) - earned code (d.rewards.eraseIdx i) =
          earned code (d.mm.outputs.filterMap dungeon.reward) - earned code d.rewards := by omega
      rw [hsum]
      exact h

/-- No kill is lost and none counts twice: the awards that the monsters queue in a run are, in
their order, one for each hit that leaves a living monster dead while its attacker's manager is
there. What a character gathered and what still waits for it are what it had in the beginning and
what its kills brought, whatever the order in which the awards are executed. -/
theorem kills_conserved {levels : Int → status.Character F} {events : List (Event F)}
    (hknown : (sm.statusInfos (levels code).characterTypeCode).isSome)
    (hreqExp : status.read sm.expReqInfos (levels code).level = .ok (levels code).reqExp)
    (hrun : Run (OfOption (Dungeon.next infos f sm)) (.start levels) events d) :
    d.mm.outputs.filterMap reward = (Dungeon.start levels).killsOf infos f sm events ∧
      (d.levels code).gathered sm + earned code d.rewards =
        (levels code).gathered sm + earned code ((Dungeon.start levels).killsOf infos f sm events) ∧
      status.read sm.expReqInfos (d.levels code).level = .ok (d.levels code).reqExp := by
  have hall : Numbered d.mm ∧ Credited sm (levels code) code d := by
    apply hrun.invariant
    · refine ⟨fun j mon hmonster => ?_, ?_⟩
      · cases hmonster
      · exact ⟨status.StatusManager.requirement_known hknown, hreqExp, (Int.add_zero _).symm⟩
    · rintro a e b ⟨hnumbered, hcredited⟩ hnext
      exact ⟨Dungeon.numbered_next hnumbered hnext, hcredited.next hnumbered hnext⟩
  obtain ⟨_, hcredited⟩ := hall
  have hgathered := hcredited.gathered
  have hqueued : d.mm.outputs.filterMap reward = (Dungeon.start levels).killsOf infos f sm events := rewards_of_run hrun
  rw [← hqueued]
  exact ⟨rfl, by omega, hcredited.reqExp⟩

section Example

/-- The second hit of the visit kills the slime, and the player is rewarded. -/
theorem kills_conserved_visit :
    ∃ d : Dungeon Int,
      Run (OfOption (Dungeon.next monster.slime monster.plainFormula status.tens)) (.start fun _ => status.beginner)
        (Dungeon.opening ++ Dungeon.visit ++ Dungeon.visit ++ [.award 0 true true]) d ∧
      d.rewards = [] ∧
      (Dungeon.start fun _ => status.beginner).killsOf monster.slime monster.plainFormula status.tens
        (Dungeon.opening ++ Dungeon.visit ++ Dungeon.visit ++ [.award 0 true true]) = [⟨7, 25⟩] ∧
      (d.levels 7).gathered status.tens = status.beginner.gathered status.tens + 25 := by
  have hrun : ∃ d : Dungeon Int,
      Run (OfOption (Dungeon.next monster.slime monster.plainFormula status.tens)) (.start fun _ => status.beginner)
        (Dungeon.opening ++ Dungeon.visit ++ Dungeon.visit ++ [.award 0 true true]) d ∧
      d.rewards = [] ∧ d.mm.outputs.filterMap reward = [⟨7, 25⟩] := by
    refine ⟨_, .cons rfl (.cons rfl (.cons rfl (.cons rfl (.cons rfl (.cons rfl (.cons rfl (.nil _))))))), ?_⟩
    decide
  obtain ⟨d, hrun, hnone, hqueued⟩ := hrun
  obtain ⟨hkills, hgathered, _⟩ := @kills_conserved Int _ _ _ _ d 7 _ _ (by decide) rfl hrun
  refine ⟨d, hrun, hnone, hkills.symm.trans hqueued, ?_⟩
  rw [← hkills, hqueued, hnone] at hgathered
  exact (Int.add_zero _).symm.trans hgathered

end Example

end AsioGameServer.dungeon

import AsioGameServer.Monster.Behaviour

open Function Number Transition

namespace AsioGameServer.monster

variable {F : Type} [Number F] {w : Surroundings F} {s s' s'' : Stage F} {m : Int} {f : DamageFormula F}
  {attacker : Attacker F} {state : AttackState}

section Attacks

/-- A broadcast of an attack of one monster. -/
def Output.attacks (m : Int) : Output F → Bool
  | .MONSTER_ATTACK number _ => number = m
  | _ => false

/-- Nothing is sent that says that the monster attacks. -/
def Quiet (m : Int) (s s' : Stage F) : Prop :=
  ∃ new, s'.outputs = s.outputs ++ new ∧ ∀ o ∈ new, o.attacks m = false

namespace Quiet

omit [Number F] in
/-- A step that sends nothing at all. -/
theorem of_same (houtputs : s'.outputs = s.outputs) : Quiet m s s' := ⟨[], by rw [houtputs, List.append_nil], by simp⟩

omit [Number F] in
theorem refl (s : Stage F) : Quiet m s s := of_same rfl

omit [Number F] in
/-- A step that sends one thing, which is no attack of the monster. -/
theorem of_send {o : Output F} (ho : o.attacks m = false) : Quiet m s (s.send o) := ⟨[o], rfl, by simpa using ho⟩

omit [Number F] in
/-- Steps that are quiet one by one are quiet together: what they send is what the first sends,
and then what the second does. -/
theorem trans (h : Quiet m s s') (h' : Quiet m s' s'') : Quiet m s s'' := by
  obtain ⟨new, hnew, hquiet⟩ := h
  obtain ⟨new', hnew', hquiet'⟩ := h'
  refine ⟨new ++ new', by rw [hnew', hnew, List.append_assoc], fun o ho => ?_⟩
  obtain ho | ho := List.mem_append.mp ho
  · exact hquiet o ho
  · exact hquiet' o ho

/-- A respawn may be announced, and its announcement is no attack. -/
theorem Respawn : Quiet m s (Respawn w s) := by
  unfold monster.Respawn
  dsimp only
  split <;> split <;> first | exact of_same rfl | exact ⟨[_], rfl, by simp [Output.attacks]⟩

omit [Number F] in
/-- A death is announced with the number of the monster, and is no attack either. -/
theorem Dead : Quiet m s (Dead w s) := by
  unfold monster.Dead
  split
  · exact of_send rfl
  · exact refl s

/-- The handlers of `bAlive` are called as often as they were subscribed, and each call is a
respawn or a death. -/
theorem SetAlive (val : Bool) : Quiet m s (SetAlive w val s) := by
  have hiterate : ∀ n (s : Stage F), Quiet m s ((onAlive w val)^[n] s) := by
    intro n
    induction n with
    | zero => exact refl
    | succ n ih =>
      intro s
      rw [iterate_succ_apply]
      refine Quiet.trans ?_ (ih _)
      unfold onAlive
      split
      · exact Respawn
      · exact Dead
  exact (of_same rfl).trans (hiterate _ _)

/-- `BeginPlay` subscribes the handler and sets the monster alive, which respawns it. -/
theorem BeginPlay : Quiet m s (BeginPlay w s) := by
  have hset : Quiet m s (monster.SetAlive w true (s.onMonster fun m => { m with events := m.events + 1 })) :=
    (of_same rfl).trans (SetAlive true)
  exact hset.trans (of_same rfl)

/-- `UpdateState` sends something only where it sets a dead monster alive again. -/
theorem UpdateState : Quiet m s (UpdateState w s).2 := by
  generalize hlook : monster.UpdateState w s = result
  have hlooks := UpdateState_looks w s
  rw [hlook] at hlooks
  cases hlooks with
  | respawns => exact (of_same rfl).trans (SetAlive true)
  | _ => exact of_same rfl

/-- `UpdateIdle` turns to holding where a path has ended and to patrolling where the time to hold
is over, and sends nothing. -/
theorem UpdateIdle : Quiet m s (UpdateIdle w s).2 := by
  unfold monster.UpdateIdle
  split
  · split
    · exact of_same rfl
    · exact refl s
  · split
    · exact refl s
    · dsimp only
      split <;> exact of_same rfl

/-- Monsters send attacks under their own number. -/
theorem Attack (hne : s.self.monsterNumber ≠ m) : Quiet m s (Attack w s).2 := by
  unfold monster.Attack
  split
  · split
    · exact refl s
    · exact of_same rfl
  · dsimp only
    split
    · refine ⟨[_], rfl, ?_⟩
      simp only [List.mem_singleton, forall_eq, Output.attacks, decide_eq_false_iff_not]
      exact hne
    · exact of_same rfl

/-- No action of another monster sends an attack under this number. `Attack` is the only one that
sends attacks. -/
theorem act (hne : s.self.monsterNumber ≠ m) (action : Action) : Quiet m s (actors.act action w s).2 := by
  cases action with
  | UpdateState => exact UpdateState
  | UpdateIdle => exact UpdateIdle
  | Patrol => exact of_same rfl
  | Hold => exact of_same rfl
  | Chase => exact of_same rfl
  | Attack => exact Attack hne
  | Die => exact of_same rfl

/-- A run of the tree of another monster. The invariant of the run is that the number of that
monster stays what it is. -/
theorem Tick (hne : s.self.monsterNumber ≠ m) (htick : Tick w s = .ok s') : Quiet m s s' := by
  unfold monster.Tick at htick
  split at htick
  · cases htick
    exact refl s
  · split at htick
    · cases htick
    · rename_i hrun
      cases htick
      refine (behavior.Run_keeps (P := fun s' => s'.self.monsterNumber = s.self.monsterNumber ∧ Quiet m s s') ?_
        ⟨rfl, refl s⟩ hrun).2
      rintro action s₁ ⟨hnumber, hquiet⟩
      exact ⟨(Local.act action).number.trans hnumber, hquiet.trans (act (hnumber ▸ hne) action)⟩

end Quiet

end Attacks

section Stages

/-- Hits change the hit points of a monster that is alive, and may end its life. -/
structure Wounded (monster monster' : Monster F) : Prop where
  same : monster' = { monster with bAlive := monster'.bAlive, currentHp := monster'.currentHp }
  dead : monster.bAlive = false → monster' = monster

/-- What others do to a monster, and what leaves the monsters meanwhile. -/
structure Struck (m : Int) (s s' : Stage F) : Prop where
  self : Wounded s.self s'.self
  quiet : Quiet m s s'

namespace Struck

omit [Number F] in
/-- What leaves a monster alone, such as anything that only other monsters do. -/
theorem of_quiet (hself : s'.self = s.self) (hquiet : Quiet m s s') : Struck m s s' :=
  ⟨⟨by rw [hself], fun _ => hself⟩, hquiet⟩

omit [Number F] in
theorem refl (s : Stage F) : Struck m s s := of_quiet rfl (.refl s)

omit [Number F] in
theorem of_send {o : Output F} (ho : o.attacks m = false) : Struck m s (s.send o) := of_quiet rfl (.of_send ho)

omit [Number F] in
/-- A monster that is alive may lose hit points, and its life. -/
theorem of_alive (halive : s.self.bAlive = true) (bAlive : Bool) (currentHp : F) :
    Struck m s (s.onMonster ({ · with bAlive, currentHp })) := by
  refine ⟨⟨rfl, fun hdead => ?_⟩, .of_same rfl⟩
  rw [halive] at hdead
  cases hdead

omit [Number F] in
/-- Hits in a row are hits. A monster that the first leaves dead is left as it is by the second. -/
theorem trans (h : Struck m s s') (h' : Struck m s' s'') : Struck m s s'' := by
  refine ⟨⟨?_, fun hdead => ?_⟩, h.quiet.trans h'.quiet⟩
  · rw [h'.self.same, h.self.same]
  · have hsame := h.self.dead hdead
    rw [← hsame]
    exact h'.self.dead (hsame ▸ hdead)

end Struck

/-- The end of a life is only said to others. -/
theorem self_onAlive_false (n : Nat) (s : Stage F) : ((onAlive w false)^[n] s).self = s.self := by
  induction n generalizing s with
  | zero => rfl
  | succ n ih =>
    rw [iterate_succ_apply, ih]
    change (Dead w s).self = s.self
    unfold Dead
    split <;> rfl

/-- A hit that ends a life sets `bAlive` and sends the reward to the attacker, if that one has a
manager. -/
theorem kill_struck (halive : s.self.bAlive = true) : Struck m s (kill w attacker s) := by
  have hset : Struck m s (SetAlive w false s) := by
    have hself : (SetAlive w false s).self = { s.self with bAlive := false } := self_onAlive_false _ _
    refine ⟨⟨by rw [hself], fun hdead => ?_⟩, .SetAlive false⟩
    rw [halive] at hdead
    cases hdead
  unfold kill
  dsimp only
  split
  · exact hset.trans (.of_send rfl)
  · exact hset

/-- `GetDamage` of a monster that is alive takes the damage off its hit points and kills it at
zero. A dead one is left alone. -/
theorem hit_struck {record : Option (Record F)} (hhit : hit f w attacker state s = .ok (record, s')) :
    Struck m s s' := by
  unfold hit at hhit
  split at hhit
  · unfold GetDamage at hhit
    split at hhit
    · cases hhit
      exact .refl s
    · rename_i hdead
      have halive : s.self.bAlive = true := by simpa using hdead
      split at hhit
      · cases hhit
      · cases hhit
        exact .refl s
      · rename_i damageval _
        cases hhit
        have hhurt : Struck m s (s.onMonster fun m => { m with currentHp := m.currentHp - damageval }) :=
          .of_alive halive s.self.bAlive (s.self.currentHp - damageval)
        refine Struck.trans ?_ (.of_send rfl)
        split
        · exact hhurt.trans (kill_struck halive)
        · exact hhurt
  · cases hhit
    exact .refl s

/-- One of the monsters, with what left them all. -/
def MonsterManager.stage (m : Int) (mm : MonsterManager F) : Option (Stage F) :=
  (mm.monsters m).map (⟨·, mm.outputs⟩)

/-- The steps between `BeginPlay` and `EndPlay` of a monster. -/
def playing (m : Int) (_ : MonsterManager F) : MonsterManager.Event F → Prop
  | .BeginPlay number _ | .EndPlay number => number ≠ m
  | _ => True

omit [Number F] in
/-- Ticks are among the steps between `BeginPlay` and `EndPlay`. -/
theorem playing_tick {number : Int} {mm : MonsterManager F} : playing m mm (.Tick number w) := trivial

/-- What a step of the manager is for a monster that plays: a run of its tree, or what others
do. -/
inductive Happens (m : Int) (s : Stage F) : MonsterManager.Event F → Stage F → Prop where
  | tick (w : Surroundings F) : Happens m s (.Tick m w) (runAI w s)
  | other {e : MonsterManager.Event F} (hother : ∀ w, e ≠ .Tick m w) {s' : Stage F} (hstruck : Struck m s s') :
      Happens m s e s'

variable {mm mm' : MonsterManager F} {infos : Int → Option (MonsterInfo F)} {number : Int}

omit [Number F] in
/-- A stage is a monster that the manager has and all that the manager has sent. -/
theorem stage_eq_some_iff : mm.stage m = some s ↔ mm.monsters m = some s.self ∧ s.outputs = mm.outputs := by
  unfold MonsterManager.stage
  rw [Option.map_eq_some_iff]
  constructor
  · rintro ⟨monster, hmonster, rfl⟩
    exact ⟨hmonster, rfl⟩
  · rintro ⟨hmonster, houtputs⟩
    exact ⟨s.self, hmonster, by rw [← houtputs]⟩

omit [Number F] in
/-- What is written back under a number is found there again. -/
theorem stage_update_self :
    { mm with monsters := update mm.monsters m (some s'.self), outputs := s'.outputs }.stage m = some s' :=
  stage_eq_some_iff.mpr ⟨update_self _ _ _, rfl⟩

omit [Number F] in
/-- What another monster sends goes to the same outputs. -/
theorem stage_update_other {t t' : Stage F} (hne : number ≠ m) (hstage : mm.stage m = some s)
    (hother : mm.stage number = some t) (hquiet : Quiet m t t') :
    ∃ s', { mm with monsters := update mm.monsters number (some t'.self), outputs := t'.outputs }.stage m = some s' ∧
      Struck m s s' := by
  obtain ⟨hmonster, houtputs⟩ := stage_eq_some_iff.mp hstage
  obtain ⟨_, houtputs'⟩ := stage_eq_some_iff.mp hother
  obtain ⟨new, hnew, hquiet⟩ := hquiet
  refine ⟨⟨s.self, t'.outputs⟩, stage_eq_some_iff.mpr ⟨?_, rfl⟩, ?_⟩
  · exact (update_of_ne (Ne.symm hne) _ _).trans hmonster
  · exact .of_quiet rfl ⟨new, by rw [hnew, houtputs, houtputs'], hquiet⟩

omit [Number F] in
/-- A step of the manager that is for another monster: this one stays as it is, and may see what
the other one sends. -/
theorem onStage_other {g : Stage F → Except Fault (Stage F)} (hne : number ≠ m) (hstage : mm.stage m = some s)
    (hquiet : ∀ t t', mm.stage number = some t → g t = .ok t' → Quiet m t t')
    (hdone : mm.onStage number g = .ok mm') : ∃ s', mm'.stage m = some s' ∧ Struck m s s' := by
  unfold MonsterManager.onStage at hdone
  split at hdone
  · cases hdone
    exact ⟨s, hstage, .refl s⟩
  · rename_i monster hmonster
    obtain ⟨t', hg, hdone⟩ := Outcome.bind_eq_ok_iff.mp hdone
    cases hdone
    have hother : mm.stage number = some ⟨monster, mm.outputs⟩ := stage_eq_some_iff.mpr ⟨hmonster, rfl⟩
    exact stage_update_other hne hstage hother (hquiet _ _ hother hg)

omit [Number F] in
/-- A step of the manager that is for this monster does to it what the function does. -/
theorem onStage_self {g : Stage F → Except Fault (Stage F)} (hstage : mm.stage m = some s)
    (hdone : mm.onStage m g = .ok mm') : ∃ s', g s = .ok s' ∧ mm'.stage m = some s' := by
  obtain ⟨hmonster, houtputs⟩ := stage_eq_some_iff.mp hstage
  unfold MonsterManager.onStage at hdone
  rw [hmonster, ← houtputs] at hdone
  obtain ⟨s', hg, hdone⟩ := Outcome.bind_eq_ok_iff.mp hdone
  cases hdone
  exact ⟨s', hg, stage_update_self⟩

/-- One record of a hit list, which may be about this monster, another one, or none that the
manager has. -/
theorem damage_struck {damaged_code : Int} {records records' : List (Record F)} (hstage : mm.stage m = some s)
    (hdamage : mm.damage f w attacker damaged_code state records = .ok (records', mm')) :
    ∃ s', mm'.stage m = some s' ∧ Struck m s s' := by
  unfold MonsterManager.damage at hdamage
  split at hdamage
  · cases hdamage
    exact ⟨s, hstage, .refl s⟩
  · rename_i monster hmonster
    obtain ⟨⟨record, t'⟩, hhit, hdamage⟩ := Outcome.bind_eq_ok_iff.mp hdamage
    cases hdamage
    have hother : mm.stage damaged_code = some ⟨monster, mm.outputs⟩ := stage_eq_some_iff.mpr ⟨hmonster, rfl⟩
    by_cases hcode : damaged_code = m
    · subst hcode
      obtain rfl : s = ⟨monster, mm.outputs⟩ := Option.some.inj (hstage.symm.trans hother)
      exact ⟨t', stage_update_self, hit_struck hhit⟩
    · exact stage_update_other hcode hstage hother (hit_struck hhit).quiet

omit [Number F] in
/-- What the manager itself sends goes to the outputs that all monsters share. -/
theorem send_struck {o : Output F} (ho : o.attacks m = false) (hstage : mm.stage m = some s) :
    ∃ s', (mm.send o).stage m = some s' ∧ Struck m s s' := by
  obtain ⟨hmonster, houtputs⟩ := stage_eq_some_iff.mp hstage
  exact ⟨s.send o, stage_eq_some_iff.mpr ⟨hmonster, by rw [Stage.send, houtputs]; rfl⟩, .of_send ho⟩

/-- A single hit: the record, and the message that tells others of it. -/
theorem DamageProcess_struck {damaged_code : Int} (hstage : mm.stage m = some s)
    (hdamage : mm.DamageProcess f w attacker damaged_code state = .ok mm') :
    ∃ s', mm'.stage m = some s' ∧ Struck m s s' := by
  obtain ⟨⟨records, mm₁⟩, hfirst, hdone⟩ := Outcome.bind_eq_ok_iff.mp hdamage
  obtain ⟨s₁, hstage₁, hstruck⟩ := damage_struck hstage hfirst
  dsimp only at hdone
  split at hdone
  · cases hdone
    exact ⟨s₁, hstage₁, hstruck⟩
  · cases hdone
    split
    · obtain ⟨s', hstage', hsent⟩ := send_struck (o := .CON_DAMAGE _) rfl hstage₁
      exact ⟨s', hstage', hstruck.trans hsent⟩
    · exact ⟨s₁, hstage₁, hstruck⟩

/-- A list of hits. The induction is on the list, and the message about all records is sent in the
end. -/
theorem DamageProcessVector_struck {damagevector : List (Int × AttackState)} (hstage : mm.stage m = some s)
    (hdamage : mm.DamageProcessVector f w attacker damagevector = .ok mm') :
    ∃ s', mm'.stage m = some s' ∧ Struck m s s' := by
  obtain ⟨⟨records, mm₁⟩, hfold, hdone⟩ := Outcome.bind_eq_ok_iff.mp hdamage
  have hfirst : ∃ s₁, mm₁.stage m = some s₁ ∧ Struck m s s₁ := by
    refine Outcome.ok (Outcome.foldlM_keeps (I := fun p => ∃ s', p.2.stage m = some s' ∧ Struck m s s')
      (E := fun _ => True) ⟨s, hstage, .refl s⟩ ?_) hfold
    rintro ⟨records, mm₂⟩ ⟨damaged_code, attackType⟩ _ ⟨s₂, hstage₂, hstruck₂⟩
    dsimp only
    cases hdamage : mm₂.damage f w attacker damaged_code attackType records with
    | error fault => trivial
    | ok p =>
      obtain ⟨s₃, hstage₃, hstruck₃⟩ := damage_struck hstage₂ hdamage
      exact ⟨s₃, hstage₃, hstruck₂.trans hstruck₃⟩
  obtain ⟨s₁, hstage₁, hstruck⟩ := hfirst
  dsimp only at hstage₁ hdone
  split at hdone
  · cases hdone
    exact ⟨s₁, hstage₁, hstruck⟩
  · cases hdone
    split
    · obtain ⟨s', hstage', hsent⟩ := send_struck (o := .CON_DAMAGE_VECTOR records) rfl hstage₁
      exact ⟨s', hstage', hstruck.trans hsent⟩
    · exact ⟨s₁, hstage₁, hstruck⟩

/-- A monster that is spawned gets a number of its own. -/
theorem spawn_stage {desc : MonsterSpawnDesc F} {memory : Monster F} (hstage : mm.stage m = some s) :
    (mm.spawn infos desc memory).stage m = some s := by
  obtain ⟨hmonster, houtputs⟩ := stage_eq_some_iff.mp hstage
  refine stage_eq_some_iff.mpr ?_
  unfold MonsterManager.spawn
  dsimp only
  split
  · exact ⟨hmonster, houtputs⟩
  · split
    · exact ⟨hmonster, houtputs⟩
    · rename_i hfree
      refine ⟨(update_of_ne ?_ _ _).trans hmonster, houtputs⟩
      rintro rfl
      simp [hmonster] at hfree

/-- `Add_Spawn_Monster` adds as many monsters as its descriptor says. None of them takes the place
of one that is there. -/
theorem Add_Spawn_Monster_stage {desc : MonsterSpawnDesc F} {memory : Nat → Monster F}
    (hstage : mm.stage m = some s) : (mm.Add_Spawn_Monster infos desc memory).stage m = some s := by
  unfold MonsterManager.Add_Spawn_Monster
  induction List.range desc.monsterCount generalizing mm with
  | nil => exact hstage
  | cons i l ih => exact ih (spawn_stage hstage)

/-- Every step of the manager is a tick of the monster, or something that others do to it. The
cases are those of the events; only `Tick` asks whose it is. -/
theorem happens_of_next {e : MonsterManager.Event F} (hnumbered : Numbered mm) (hstage : mm.stage m = some s)
    (hai : s.self.ai = MonsterBuilder.InsertAI 1) (hplaying : playing m mm e) (hnext : mm.next infos f e = some mm') :
    ∃ s', mm'.stage m = some s' ∧ Happens m s e s' := by
  have hothers : ∀ {number t}, number ≠ m → mm.stage number = some t → t.self.monsterNumber ≠ m := by
    intro number t hne ht
    rw [(hnumbered number t.self (stage_eq_some_iff.mp ht).1).1]
    exact hne
  cases e with
  | Add_Spawn_Monster desc memory =>
    cases hnext
    exact ⟨s, Add_Spawn_Monster_stage hstage, .other (by simp) (.refl s)⟩
  | BeginPlay number w =>
    have hdone := Outcome.toOption_eq_some_iff.mp hnext
    obtain ⟨s', hstage', hstruck⟩ := onStage_other hplaying hstage (fun t t' _ hbegin => by
      cases hbegin
      exact .BeginPlay) hdone
    exact ⟨s', hstage', .other (by simp) hstruck⟩
  | Tick number w =>
    have hdone := Outcome.toOption_eq_some_iff.mp hnext
    by_cases hnumber : number = m
    · subst hnumber
      obtain ⟨s', htick, hstage'⟩ := onStage_self hstage hdone
      rw [Tick_eq hai] at htick
      cases htick
      exact ⟨_, hstage', .tick w⟩
    · obtain ⟨s', hstage', hstruck⟩ := onStage_other hnumber hstage
        (fun t t' ht htick => .Tick (hothers hnumber ht) htick) hdone
      refine ⟨s', hstage', .other (fun w' heq => ?_) hstruck⟩
      exact hnumber (MonsterManager.Event.Tick.inj heq).1
  | EndPlay number =>
    have hdone := Outcome.toOption_eq_some_iff.mp hnext
    obtain ⟨s', hstage', hstruck⟩ := onStage_other hplaying hstage (fun t t' _ hend => by
      cases hend
      exact .of_same rfl) hdone
    exact ⟨s', hstage', .other (by simp) hstruck⟩
  | DamageProcess w attacker damaged_code attackType =>
    obtain ⟨s', hstage', hstruck⟩ := DamageProcess_struck hstage (Outcome.toOption_eq_some_iff.mp hnext)
    exact ⟨s', hstage', .other (by simp) hstruck⟩
  | DamageProcessVector w attacker damagevector =>
    obtain ⟨s', hstage', hstruck⟩ := DamageProcessVector_struck hstage (Outcome.toOption_eq_some_iff.mp hnext)
    exact ⟨s', hstage', .other (by simp) hstruck⟩

/-- The tree that a monster was built with is never replaced. -/
theorem Happens.ai {e : MonsterManager.Event F} (hai : s.self.ai = MonsterBuilder.InsertAI 1) (h : Happens m s e s') :
    s'.self.ai = MonsterBuilder.InsertAI 1 := by
  cases h with
  | tick w => exact (Local.Tick (Tick_eq hai)).ai.trans hai
  | other _ hstruck =>
    rw [hstruck.self.same]
    exact hai

/-- A monster with the tree of `InsertAI` in its manager. -/
structure Plays (m : Int) (s : Stage F) (mm : MonsterManager F) : Prop where
  numbered : Numbered mm
  stage : mm.stage m = some s
  ai : s.self.ai = MonsterBuilder.InsertAI 1

/-- A step of the manager, seen from a monster that plays. -/
theorem Plays.next {e : MonsterManager.Event F} (h : Plays m s mm) (hplaying : playing m mm e)
    (hnext : mm.next infos f e = some mm') : ∃ s', Plays m s' mm' ∧ Happens m s e s' := by
  obtain ⟨s', hstage', hhappens⟩ := happens_of_next h.numbered h.stage h.ai hplaying hnext
  exact ⟨s', ⟨numbered_next h.numbered hnext, hstage', hhappens.ai h.ai⟩, hhappens⟩

/-- A condition on a step of one monster. -/
def MonsterManager.Meets (m : Int) (ok : Stage F → MonsterManager.Event F → Prop) (mm : MonsterManager F)
    (e : MonsterManager.Event F) : Prop :=
  ∀ s, mm.stage m = some s → ok s e

/-- What a step does to one monster. -/
def MonsterManager.Does (m : Int) (P : Stage F → MonsterManager.Event F → Stage F → Prop) (mm : MonsterManager F)
    (e : MonsterManager.Event F) (mm' : MonsterManager F) : Prop :=
  ∀ s s', mm.stage m = some s → mm'.stage m = some s' → P s e s'

/-- A run of the manager is a run of each monster that plays. -/
theorem Plays.run_does {P : Stage F → MonsterManager.Event F → Stage F → Prop}
    {events : List (MonsterManager.Event F)} (h : Plays m s mm)
    (hrun : Run (Keeping (MonsterManager.Does m P) (Guarded (playing m) (OfOption (MonsterManager.next infos f))))
      mm events mm') : ∃ s', Plays m s' mm' ∧ Run (Keeping P (Happens m)) s events s' := by
  induction hrun generalizing s with
  | nil => exact ⟨s, h, .nil s⟩
  | cons hstep _ ih =>
    obtain ⟨hdoes, hplaying, hnext⟩ := hstep
    obtain ⟨s₁, h₁, hhappens⟩ := h.next hplaying hnext
    obtain ⟨s', h', hrest⟩ := ih h₁
    exact ⟨s', h', .cons ⟨hdoes s s₁ h.stage h₁.stage, hhappens⟩ hrest⟩

/-- The same without a condition on the steps. -/
theorem Plays.run {events : List (MonsterManager.Event F)} (h : Plays m s mm)
    (hrun : Run (Guarded (playing m) (OfOption (MonsterManager.next infos f))) mm events mm') :
    ∃ s', Plays m s' mm' ∧ Run (Happens m) s events s' := by
  obtain ⟨s', h', hrun'⟩ := h.run_does (P := fun _ _ _ => True)
    (hrun.mono fun _ _ _ hstep => ⟨fun _ _ _ _ => trivial, hstep⟩)
  exact ⟨s', h', hrun'.of_keeping⟩

/-- Where a condition says exactly what a step does to a monster, it does so for the runs of
the manager. -/
theorem Plays.run_meets_iff_does {ok : Stage F → MonsterManager.Event F → Prop}
    {P : Stage F → MonsterManager.Event F → Stage F → Prop} {events : List (MonsterManager.Event F)}
    (hok : ∀ s e s', Happens m s e s' → (ok s e ↔ P s e s')) (h : Plays m s mm) :
    Run (Guarded (MonsterManager.Meets m ok) (Guarded (playing m) (OfOption (MonsterManager.next infos f))))
        mm events mm' ↔
      Run (Keeping (MonsterManager.Does m P) (Guarded (playing m) (OfOption (MonsterManager.next infos f))))
        mm events mm' := by
  refine run_guarded_iff_keeping (fun mm => ∃ s, Plays m s mm) ?_ ?_ ⟨s, h⟩
  · rintro a e b ⟨s, h⟩ ⟨hplaying, hnext⟩
    obtain ⟨s', h', _⟩ := h.next hplaying hnext
    exact ⟨s', h'⟩
  · rintro a e b ⟨s, h⟩ ⟨hplaying, hnext⟩
    obtain ⟨s', h', hhappens⟩ := h.next hplaying hnext
    constructor
    · intro hmeets t t' ht ht'
      obtain rfl := Option.some.inj (h.stage.symm.trans ht)
      obtain rfl := Option.some.inj (h'.stage.symm.trans ht')
      exact (hok s e s' hhappens).mp (hmeets s ht)
    · intro hdoes t ht
      obtain rfl := Option.some.inj (h.stage.symm.trans ht)
      exact (hok s e s' hhappens).mpr (hdoes s s' ht h'.stage)

omit [Number F] in
/-- What the manager says of the life of a monster that plays. -/
theorem Plays.bAlive (h : Plays m s mm) : (mm.monsters m).map Monster.bAlive = some s.self.bAlive := by
  rw [(stage_eq_some_iff.mp h.stage).1]
  rfl

/-- A tick of a monster that plays is defined. -/
theorem Plays.tick (h : Plays m s mm) (infos : Int → Option (MonsterInfo F)) (f : DamageFormula F)
    (w : Surroundings F) :
    ∃ mm', Plays m (runAI w s) mm' ∧ mm.next infos f (.Tick m w) = some mm' := by
  obtain ⟨mm', hnext, _⟩ : ∃ mm₁, mm.next infos f (.Tick m w) = some mm₁ ∧ Numbered mm₁ ∧
      (during 0 mm (.Tick m w) → Managed 0 0 0 mm → Managed 0 0 0 mm₁) := next_keeps 0 0 0 h.numbered _
  obtain ⟨s', h', hhappens⟩ := h.next (e := .Tick m w) trivial hnext
  cases hhappens with
  | tick => exact ⟨mm', h', hnext⟩
  | other hother => exact absurd rfl (hother w)

/-- The ticks of one monster, with what it found. -/
def ticks (m : Int) (events : List (MonsterManager.Event F)) : List (Surroundings F) :=
  events.filterMap fun e =>
    match e with
    | .Tick number w => if number = m then some w else none
    | _ => none

omit [Number F] in
/-- A tick of the monster is one more of its ticks. -/
theorem ticks_concat_tick (events : List (MonsterManager.Event F)) :
    ticks m (events ++ [.Tick m w]) = ticks m events ++ [w] := by
  simp [ticks]

omit [Number F] in
/-- No other step is one of its ticks, not even a tick of another monster. -/
theorem ticks_concat_other {e : MonsterManager.Event F} (hother : ∀ w, e ≠ .Tick m w)
    (events : List (MonsterManager.Event F)) : ticks m (events ++ [e]) = ticks m events := by
  have hnone : ticks m [e] = [] := by
    cases e with
    | Tick number w =>
      have hne : number ≠ m := fun heq => hother w (by rw [heq])
      simp [ticks, hne]
    | _ => rfl
  rw [ticks, List.filterMap_append]
  exact (congrArg _ hnone).trans (List.append_nil _)

/-- A monster with the tree of `InsertAI` as it was when it began, after any steps of the
manager. -/
def Begun (infos : Int → Option (MonsterInfo F)) (f : DamageFormula F) (m : Int) (mon : Monster F)
    (mm : MonsterManager F) : Prop :=
  ∃ before mm₀ w, Run (OfOption (MonsterManager.next infos f)) .start before mm₀ ∧ mm₀.monsters m = some mon ∧
    mon.ai = MonsterBuilder.InsertAI 1 ∧ mon.events = 0 ∧ mm₀.next infos f (.BeginPlay m w) = some mm

/-- A monster that has just begun plays, in the state that `BeginPlay` leaves it in. -/
theorem Begun.plays {mon : Monster F} (h : Begun infos f m mon mm) :
    ∃ w outputs, mon.events = 0 ∧ Plays m (BeginPlay w ⟨mon, outputs⟩) mm := by
  obtain ⟨before, mm₀, w, hbefore, hmonster, hai, hevents, hbegin⟩ := h
  have hnumbered : Numbered mm₀ := numbered_of_run hbefore
  have hstage : mm₀.stage m = some ⟨mon, mm₀.outputs⟩ := stage_eq_some_iff.mpr ⟨hmonster, rfl⟩
  obtain ⟨s', hdone, hstage'⟩ := onStage_self hstage (Outcome.toOption_eq_some_iff.mp hbegin)
  cases hdone
  exact ⟨w, mm₀.outputs, hevents, numbered_next hnumbered hbegin, hstage', Local.BeginPlay.ai.trans hai⟩

end Stages

end AsioGameServer.monster

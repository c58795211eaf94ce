import AsioGameServer.Dungeon.State
import AsioGameServer.Lib.Replica
import AsioGameServer.Monster.Reward

open Function Number Transition Replica

namespace AsioGameServer.dungeon

open monster (Monster MonsterManager Output Stage Surroundings Attacker Record DamageFormula MonsterInfo Numbered)

variable {F : Type} [Number F]

/-- What the packets about a monster say of its life. -/
inductive Aspect where
  | CurrentHP | bAlive
deriving DecidableEq, Repr

inductive Fact (F : Type) where
  | CurrentHP (hp : F)
  | bAlive (val : Bool)
deriving DecidableEq, Repr

/-- Facts are about a monster, by its number, and an aspect. -/
abbrev Key := Int × Aspect

def fact (mon : Monster F) : Aspect → Fact F
  | .CurrentHP => .CurrentHP mon.currentHp
  | .bAlive => .bAlive mon.bAlive

/-- The facts about one monster, once it has begun. -/
def factsOf (mon : Monster F) (k : Key) : Option (Fact F) :=
  if k.1 = mon.monsterNumber ∧ mon.events = 1 then some (fact mon k.2) else none

/-- The facts about all monsters. -/
def facts (mm : MonsterManager F) (k : Key) : Option (Fact F) := (mm.monsters k.1).bind fun mon => factsOf mon k

def hpTold (number : Int) (hp : F) : Key × Fact F := ((number, .CurrentHP), .CurrentHP hp)

def aliveTold (number : Int) (val : Bool) : Key × Fact F := ((number, .bAlive), .bAlive val)

def recordTells (record : Record F) : Key × Fact F := hpTold record.damaged_code record.currentHP

/-- What a packet to all characters tells them. -/
def tells : Output F → List (Key × Fact F)
  | .RESPAWN_MONSTER monster => [hpTold monster.number monster.CurrentHP, aliveTold monster.number true]
  | .DIE number => [aliveTold number false]
  | .CON_DAMAGE record => [recordTells record]
  | .CON_DAMAGE_VECTOR records => records.map recordTells
  | .MONSTER_ATTACK _ _ | .AddCurrentExp _ _ _ | .damage _ => []

section Says

variable {mon mon' mon'' : Monster F} {told told' : List (Key × Fact F)}

omit [Number F] in
theorem factsOf_eq_some_iff {k : Key} {x : Fact F} :
    factsOf mon k = some x ↔ k.1 = mon.monsterNumber ∧ mon.events = 1 ∧ fact mon k.2 = x := by
  unfold factsOf
  split <;> simp_all

/-- What is told of the change of a monster is right, and is about it only. -/
structure Says (told : List (Key × Fact F)) (mon mon' : Monster F) : Prop where
  number : mon'.monsterNumber = mon.monsterNumber
  own : ∀ w ∈ told, w.1.1 = mon.monsterNumber
  leads : Leads (factsOf mon) told (factsOf mon')

namespace Says

omit [Number F] in
theorem trans (h : Says told mon mon') (h' : Says told' mon' mon'') : Says (told ++ told') mon mon'' := by
  refine ⟨h'.number.trans h.number, fun w hw => ?_, h.leads.write h'.leads⟩
  obtain hw | hw := List.mem_append.mp hw
  · exact h.own w hw
  · exact (h'.own w hw).trans h.number

omit [Number F] in
/-- A change that needs no packet. -/
theorem of_same (hnumber : mon'.monsterNumber = mon.monsterNumber) (hevents : mon'.events = mon.events)
    (hfact : mon.events = 1 → ∀ a, fact mon' a = fact mon a) : Says [] mon mon' := by
  refine ⟨hnumber, by simp, fun k x hx => ?_⟩
  obtain ⟨hk, hbegun, rfl⟩ := factsOf_eq_some_iff.mp hx
  have hbegun' : mon.events = 1 := hevents ▸ hbegun
  rw [apply_eq, last, Option.none_or, hfact hbegun']
  exact factsOf_eq_some_iff.mpr ⟨hk.trans hnumber, hbegun', rfl⟩

omit [Number F] in
theorem refl (mon : Monster F) : Says [] mon mon := of_same rfl rfl fun _ _ => rfl

omit [Number F] in
/-- A monster that has not begun is not spoken of yet. -/
theorem of_unbegun (hnumber : mon'.monsterNumber = mon.monsterNumber) (hbegun : mon'.events ≠ 1)
    (hown : ∀ w ∈ told, w.1.1 = mon.monsterNumber) : Says told mon mon' :=
  ⟨hnumber, hown, fun _ _ hx => absurd (factsOf_eq_some_iff.mp hx).2.1 hbegun⟩

omit [Number F] in
/-- Both aspects are told. -/
theorem of_both (hnumber : mon'.monsterNumber = mon.monsterNumber) :
    Says [hpTold mon.monsterNumber mon'.currentHp, aliveTold mon.monsterNumber mon'.bAlive] mon mon' := by
  refine ⟨hnumber, by simp [hpTold, aliveTold], fun k x hx => ?_⟩
  obtain ⟨hk, _, rfl⟩ := factsOf_eq_some_iff.mp hx
  obtain ⟨n, aspect⟩ := k
  obtain rfl : n = mon.monsterNumber := hk.trans hnumber
  rw [apply_eq]
  cases aspect <;> simp [last, hpTold, aliveTold, fact]

omit [Number F] in
/-- The death of a monster is told. -/
theorem of_alive (mon mon' : Monster F) (hnumber : mon'.monsterNumber = mon.monsterNumber)
    (hevents : mon'.events = mon.events)
    (hhp : mon'.currentHp = mon.currentHp) : Says [aliveTold mon.monsterNumber mon'.bAlive] mon mon' := by
  refine ⟨hnumber, by simp [aliveTold], fun k x hx => ?_⟩
  obtain ⟨hk, hbegun, rfl⟩ := factsOf_eq_some_iff.mp hx
  obtain ⟨n, aspect⟩ := k
  obtain rfl : n = mon.monsterNumber := hk.trans hnumber
  rw [apply_eq]
  cases aspect <;> simp [last, aliveTold, fact, factsOf, hhp, ← hevents, hbegun]

omit [Number F] in
/-- The hit points changed first and are told at the end. -/
theorem of_hp {hp : F} (h : Says told { mon with currentHp := hp } mon') :
    Says (told ++ [hpTold mon'.monsterNumber mon'.currentHp]) mon mon' := by
  refine ⟨h.number, fun w hw => ?_, fun k x hx => ?_⟩
  · obtain hw | hw := List.mem_append.mp hw
    · exact h.own w hw
    · rw [List.mem_singleton.mp hw]
      exact h.number
  · have hsaid := h.leads k x hx
    obtain ⟨hk, _, rfl⟩ := factsOf_eq_some_iff.mp hx
    obtain ⟨n, aspect⟩ := k
    obtain rfl : n = mon'.monsterNumber := hk
    rw [apply_append, apply_eq]
    cases aspect with
    | CurrentHP => simp [last, hpTold, fact]
    | bAlive =>
      rw [apply_eq] at hsaid
      rw [apply_eq]
      have hother : last [hpTold mon'.monsterNumber mon'.currentHp] (mon'.monsterNumber, Aspect.bAlive) = none := by
        simp [last, hpTold]
      rw [hother, Option.none_or]
      exact hsaid

end Says

end Says

section Speaks

variable {w : Surroundings F} {s s' s'' : Stage F} {f : DamageFormula F} {attacker : Attacker F}
  {state : monster.AttackState}

/-- The packets that leave a monster say how it changed. -/
def Speaks (s s' : Stage F) : Prop :=
  ∃ new, s'.outputs = s.outputs ++ new ∧ Says (new.flatMap tells) s.self s'.self

omit [Number F] in
theorem Speaks.trans (h : Speaks s s') (h' : Speaks s' s'') : Speaks s s'' := by
  obtain ⟨new, hnew, hmeant⟩ := h
  obtain ⟨new', hnew', hmeant'⟩ := h'
  refine ⟨new ++ new', by rw [hnew', hnew, List.append_assoc], ?_⟩
  rw [List.flatMap_append]
  exact hmeant.trans hmeant'

omit [Number F] in
theorem Speaks.of_same (houtputs : s'.outputs = s.outputs) (hmeant : Says [] s.self s'.self) : Speaks s s' :=
  ⟨[], by rw [houtputs, List.append_nil], hmeant⟩

omit [Number F] in
theorem Speaks.refl (s : Stage F) : Speaks s s := .of_same rfl (.refl _)

/-- A respawn gives all hit points, and says so and where it puts the monster. -/
theorem exists_Respawn (hcm : w.cm = true) (s : Stage F) :
    ∃ table : monster.MonsterTable F, (monster.Respawn w s).outputs = s.outputs ++ [.RESPAWN_MONSTER table] ∧
      table.number = s.self.monsterNumber ∧ table.CurrentHP = (monster.Respawn w s).self.currentHp ∧
      table.MaxHp = (monster.Respawn w s).self.currentHp ∧ table.position = (monster.Respawn w s).self.position ∧
      (monster.Respawn w s).self.monsterNumber = s.self.monsterNumber ∧
      (monster.Respawn w s).self.events = s.self.events ∧ (monster.Respawn w s).self.bAlive = s.self.bAlive := by
  unfold monster.Respawn
  rw [if_pos hcm]
  split <;> exact ⟨_, rfl, rfl, rfl, rfl, rfl, rfl, rfl, rfl⟩

/-- What the events of `bAlive` do, however many they are. A death tells no hit points. -/
structure Heard (val : Bool) (s s' : Stage F) : Prop where
  number : s'.self.monsterNumber = s.self.monsterNumber
  events : s'.self.events = s.self.events
  outputs : ∃ new, s'.outputs = s.outputs ++ new ∧
    ∀ t ∈ new.flatMap tells, t.1.1 = s.self.monsterNumber ∧ (val = false → t.1.2 = .bAlive)

theorem Heard.onAlive (hcm : w.cm = true) (val : Bool) (s : Stage F) : Heard val s (monster.onAlive w val s) := by
  cases val with
  | true =>
    obtain ⟨table, houtputs, htable, _, _, _, hnumber, hevents, _⟩ := exists_Respawn hcm s
    exact ⟨hnumber, hevents, _, houtputs, by simp [tells, hpTold, aliveTold, htable]⟩
  | false =>
    have hdead : monster.onAlive w false s = s.send (.DIE s.self.monsterNumber) := by
      simp [monster.onAlive, monster.Dead, hcm]
    rw [hdead]
    exact ⟨rfl, rfl, [.DIE s.self.monsterNumber], rfl, by simp [tells, aliveTold]⟩

theorem Heard.iterate (hcm : w.cm = true) (val : Bool) (n : Nat) (s : Stage F) :
    Heard val s ((monster.onAlive w val)^[n] s) := by
  induction n generalizing s with
  | zero => exact ⟨rfl, rfl, [], (List.append_nil _).symm, by simp⟩
  | succ n ih =>
    rw [iterate_succ_apply]
    have hone : Heard val s (monster.onAlive w val s) := .onAlive hcm val s
    have hothers : Heard val (monster.onAlive w val s) ((monster.onAlive w val)^[n] (monster.onAlive w val s)) := ih _
    obtain ⟨first, hfirst, htold⟩ := hone.outputs
    obtain ⟨rest, hrest, htold'⟩ := hothers.outputs
    refine ⟨hothers.number.trans hone.number, hothers.events.trans hone.events, first ++ rest,
      by rw [hrest, hfirst, List.append_assoc], fun t ht => ?_⟩
    rw [List.flatMap_append] at ht
    obtain ht | ht := List.mem_append.mp ht
    · exact htold t ht
    · exact ⟨(htold' t ht).1.trans hone.number, (htold' t ht).2⟩

theorem Heard.SetAlive (hcm : w.cm = true) (val : Bool) (s : Stage F) : Heard val s (monster.SetAlive w val s) := by
  have hheard : Heard val (s.onMonster ({ · with bAlive := val })) (monster.SetAlive w val s) := .iterate hcm val _ _
  exact ⟨hheard.number, hheard.events, hheard.outputs⟩

/-- A life that begins or ends is told, where the event of `BeginPlay` is there. -/
theorem Speaks.onAlive (hcm : w.cm = true) (val : Bool) (s : Stage F) :
    Speaks s (monster.onAlive w val (s.onMonster ({ · with bAlive := val }))) := by
  cases val with
  | true =>
    obtain ⟨table, houtputs, htable, hhp, _, _, hnumber, _, halive⟩ :=
      exists_Respawn hcm (s.onMonster ({ · with bAlive := true }))
    refine ⟨_, houtputs, ?_⟩
    have htold : [Output.RESPAWN_MONSTER table].flatMap tells =
        [hpTold s.self.monsterNumber (monster.Respawn w (s.onMonster ({ · with bAlive := true }))).self.currentHp,
          aliveTold s.self.monsterNumber
            (monster.Respawn w (s.onMonster ({ · with bAlive := true }))).self.bAlive] := by
      rw [← hhp, halive]
      simp [tells, htable, Stage.onMonster]
    rw [htold]
    exact .of_both hnumber
  | false =>
    refine ⟨[.DIE s.self.monsterNumber], ?_, ?_⟩
    · simp [monster.onAlive, monster.Dead, hcm, Stage.send, Stage.onMonster]
    · have hself : (monster.onAlive w false (s.onMonster ({ · with bAlive := false }))).self =
          { s.self with bAlive := false } := by
        simp [monster.onAlive, monster.Dead, hcm, Stage.send, Stage.onMonster]
      rw [hself]
      have hmeant : Says [aliveTold s.self.monsterNumber false] s.self { s.self with bAlive := false } :=
        .of_alive _ { s.self with bAlive := false } rfl rfl rfl
      simpa [tells] using hmeant

theorem Speaks.SetAlive (hcm : w.cm = true) (val : Bool) (s : Stage F) : Speaks s (monster.SetAlive w val s) := by
  by_cases hevents : s.self.events = 1
  · rw [monster.SetAlive_eq val hevents]
    exact .onAlive hcm val s
  · have hheard : Heard val s (monster.SetAlive w val s) := .SetAlive hcm val s
    obtain ⟨new, hnew, htold⟩ := hheard.outputs
    refine ⟨new, hnew, .of_unbegun hheard.number ?_ fun t ht => (htold t ht).1⟩
    rw [hheard.events]
    exact hevents

/-- The first event is inserted and called. -/
theorem BeginPlay_eq (hfresh : s.self.events = 0) : monster.BeginPlay w s =
    (monster.Respawn w (s.onMonster fun m => { m with events := m.events + 1, bAlive := true })).onMonster
      ({ · with bMove := false }) := by
  have hset : monster.SetAlive w true (s.onMonster fun m => { m with events := m.events + 1 }) =
      monster.Respawn w
        ((s.onMonster fun m => { m with events := m.events + 1 }).onMonster ({ · with bAlive := true })) :=
    monster.SetAlive_eq true (by simp [Stage.onMonster, hfresh])
  unfold monster.BeginPlay
  dsimp only
  rw [hset]
  rfl

theorem Speaks.BeginPlay (hcm : w.cm = true) (hevents : s.self.events = 0) : Speaks s (monster.BeginPlay w s) := by
  rw [BeginPlay_eq hevents]
  obtain ⟨table, houtputs, htable, hhp, _, _, hnumber, _, halive⟩ :=
    exists_Respawn hcm (s.onMonster fun m => { m with events := m.events + 1, bAlive := true })
  generalize monster.Respawn w (s.onMonster fun m => { m with events := m.events + 1, bAlive := true }) = s₁
    at houtputs hhp hnumber halive ⊢
  have htold : [Output.RESPAWN_MONSTER table].flatMap tells =
      [hpTold s.self.monsterNumber s₁.self.currentHp, aliveTold s.self.monsterNumber s₁.self.bAlive] := by
    rw [← hhp, halive]
    simp [tells, htable, Stage.onMonster]
  have hnumber' : (s₁.onMonster ({ · with bMove := false })).self.monsterNumber = s.self.monsterNumber := hnumber
  refine ⟨[.RESPAWN_MONSTER table], houtputs, ?_⟩
  rw [htold]
  exact .of_both hnumber'

/-- A monster that does not respawn sends nothing when it looks around. -/
theorem outputs_UpdateState : (monster.UpdateState w s).2.outputs = s.outputs ∨ s.self.bAlive = false ∧
    (monster.UpdateState w s).2 = monster.SetAlive w true (s.onMonster ({ · with state := .DIE })) := by
  unfold monster.UpdateState
  split
  · rename_i hdead
    dsimp only
    split
    · exact .inr ⟨hdead, rfl⟩
    · exact .inl rfl
  · refine .inl ?_
    have hattacking : (if s.self.bAttacking then
        s.onMonster ({ · with state := .ATTACK, bMove := false }) else s).outputs = s.outputs := by
      split <;> rfl
    dsimp only
    generalize (if s.self.bAttacking then s.onMonster ({ · with state := .ATTACK, bMove := false }) else s) = s₁
      at hattacking ⊢
    split
    · exact hattacking
    · split
      · split
        · split
          · exact hattacking
          · exact hattacking
        · exact hattacking
      · exact hattacking

theorem outputs_UpdateIdle : (monster.UpdateIdle w s).2.outputs = s.outputs := by
  unfold monster.UpdateIdle
  split
  · split <;> rfl
  · split
    · rfl
    · dsimp only
      split <;> rfl

theorem tells_Attack : ∃ new, (monster.Attack w s).2.outputs = s.outputs ++ new ∧ new.flatMap tells = [] := by
  unfold monster.Attack
  split
  · split <;> exact ⟨[], (List.append_nil _).symm, rfl⟩
  · dsimp only
    split
    · exact ⟨[_], rfl, rfl⟩
    · exact ⟨[], (List.append_nil _).symm, rfl⟩

/-- Nothing but `UpdateState` begins a life, and no actor ends one. -/
theorem Speaks.act (hcm : w.cm = true) (action : monster.Action) (s : Stage F) :
    Speaks s (monster.actors.act action w s).2 := by
  have hlife : ∀ s' : Stage F, s'.self.life = s.self.life → ∀ new, s'.outputs = s.outputs ++ new →
      new.flatMap tells = [] → Speaks s s' := by
    intro s' hsame new hnew htold
    simp only [Monster.life, Prod.mk.injEq] at hsame
    refine ⟨new, hnew, htold ▸ .of_same hsame.1 hsame.2.2.1 fun _ a => ?_⟩
    cases a with
    | CurrentHP => exact congrArg _ hsame.2.2.2.2.2.1
    | bAlive => exact congrArg _ hsame.2.2.2.2.1
  have hquiet : ∀ s' : Stage F, s'.self.life = s.self.life → s'.outputs = s.outputs → Speaks s s' :=
    fun s' hsame houtputs => hlife s' hsame [] (by rw [houtputs, List.append_nil]) rfl
  cases action with
  | UpdateState =>
    have hrespawn : (monster.UpdateState w s).2 =
        monster.SetAlive w true (s.onMonster ({ · with state := .DIE })) → Speaks s (monster.UpdateState w s).2 := by
      intro hset
      have hlater : Speaks s (s.onMonster ({ · with state := .DIE })) := hquiet _ rfl rfl
      rw [hset]
      exact hlater.trans (.SetAlive hcm true _)
    obtain hstill | ⟨_, hset⟩ := monster.Still.UpdateState (w := w) (s := s)
    · obtain houtputs | ⟨_, hset⟩ := outputs_UpdateState (w := w) (s := s)
      · exact hquiet _ hstill.life houtputs
      · exact hrespawn hset
    · exact hrespawn hset
  | UpdateIdle => exact hquiet _ monster.Still.UpdateIdle.life outputs_UpdateIdle
  | Patrol => exact hquiet _ (monster.life_follow _ _) rfl
  | Hold => exact hquiet _ rfl rfl
  | Chase => exact hquiet _ (monster.life_follow _ _) rfl
  | Attack =>
    obtain ⟨new, hnew, htold⟩ := tells_Attack (w := w) (s := s)
    exact hlife _ monster.Still.Attack.life new hnew htold
  | Die => exact hquiet _ rfl rfl

theorem Speaks.Tick (hcm : w.cm = true) (htick : monster.Tick w s = .ok s') : Speaks s s' := by
  unfold monster.Tick at htick
  split at htick
  · cases htick
    exact .refl s
  · split at htick
    · cases htick
    · rename_i hrun
      cases htick
      exact behavior.Run_keeps (P := Speaks s) (fun action _ hs => hs.trans (.act hcm action _)) (.refl s) hrun

/-- A hit says how the monster changed, where its record is sent as well. Only the record tells
hit points. -/
def Struck (record : Option (Record F)) (s s' : Stage F) : Prop :=
  ∃ new, s'.outputs = s.outputs ++ new ∧ (∀ t ∈ new.flatMap tells, t.1.2 = .bAlive) ∧
    Says (new.flatMap tells ++ record.toList.map recordTells) s.self s'.self

omit [Number F] in
theorem Struck.refl (s : Stage F) : Struck none s s := ⟨[], (List.append_nil _).symm, by simp, .refl _⟩

/-- The death that a hit may bring. -/
theorem exists_kill (hcm : w.cm = true) (s : Stage F) :
    ∃ new, (monster.kill w attacker s).outputs = s.outputs ++ new ∧ (∀ t ∈ new.flatMap tells, t.1.2 = .bAlive) ∧
      Says (new.flatMap tells) s.self (monster.kill w attacker s).self := by
  obtain ⟨new, hnew, hmeant⟩ := Speaks.SetAlive hcm false s
  obtain ⟨new', hnew', htold⟩ := (Heard.SetAlive hcm false s).outputs
  obtain rfl : new = new' := List.append_cancel_left (hnew.symm.trans hnew')
  unfold monster.kill
  dsimp only
  split
  · refine ⟨new ++ [.AddCurrentExp (monster.SetAlive w false s).self.monsterNumber attacker.code
      (monster.SetAlive w false s).self.exp], ?_, ?_⟩
    · exact (congrArg (· ++ [_]) hnew).trans (List.append_assoc _ _ _)
    · have hreward : ∀ n a e : Int, ([.AddCurrentExp n a e] : List (Output F)).flatMap tells = [] :=
        fun _ _ _ => rfl
      rw [List.flatMap_append, hreward, List.append_nil]
      exact ⟨fun t ht => (htold t ht).2 rfl, hmeant⟩
  · exact ⟨new, hnew, fun t ht => (htold t ht).2 rfl, hmeant⟩

theorem Struck.GetDamage {record : Option (Record F)} (hcm : w.cm = true)
    (hdamage : monster.GetDamage f w attacker state s = .ok (record, s')) : Struck record s s' := by
  unfold monster.GetDamage at hdamage
  split at hdamage
  · cases hdamage
    exact .refl s
  · split at hdamage
    · cases hdamage
    · cases hdamage
      exact .refl s
    · rename_i damageval _
      dsimp only at hdamage
      have hkill : ∀ s₀ : Stage F, ∃ new,
          (if s₀.self.currentHp ≤ ofInt 0 then monster.kill w attacker s₀ else s₀).outputs = s₀.outputs ++ new ∧
          (∀ t ∈ new.flatMap tells, t.1.2 = .bAlive) ∧ Says (new.flatMap tells) s₀.self
            (if s₀.self.currentHp ≤ ofInt 0 then monster.kill w attacker s₀ else s₀).self := by
        intro s₀
        split
        · exact exists_kill hcm s₀
        · exact ⟨[], (List.append_nil _).symm, by simp, .refl _⟩
      obtain ⟨new, hnew, hmute, hmeant⟩ := hkill (s.onMonster fun m => { m with currentHp := m.currentHp - damageval })
      generalize
          (if (s.onMonster fun m => { m with currentHp := m.currentHp - damageval }).self.currentHp ≤ ofInt 0 then
              monster.kill w attacker (s.onMonster fun m => { m with currentHp := m.currentHp - damageval })
            else s.onMonster fun m => { m with currentHp := m.currentHp - damageval }) = s₁ at hdamage hnew hmeant
      cases hdamage
      have htold : ∀ r : Record F, (new ++ [Output.damage r]).flatMap tells = new.flatMap tells := fun r => by
        rw [List.flatMap_append]
        exact List.append_nil _
      refine ⟨new ++ [.damage ⟨attacker.code, state, s₁.self.currentHp, damageval, s₁.self.monsterNumber⟩], ?_, ?_⟩
      · exact (congrArg (· ++ [_]) hnew).trans (List.append_assoc _ _ _)
      · rw [htold]
        exact ⟨hmute, Says.of_hp hmeant⟩

theorem Struck.hit {record : Option (Record F)} (hcm : w.cm = true)
    (hhit : monster.hit f w attacker state s = .ok (record, s')) : Struck record s s' := by
  unfold monster.hit at hhit
  split at hhit
  · exact .GetDamage hcm hhit
  · cases hhit
    exact .refl s

end Speaks

section Manager

variable {mm mm' : MonsterManager F} {infos : Int → Option (MonsterInfo F)} {f : DamageFormula F}
  {w : Surroundings F} {attacker : Attacker F} {state : monster.AttackState}

/-- What leaves the monsters says how they changed, where some more is told at the end. -/
def Announces (more : List (Key × Fact F)) (mm mm' : MonsterManager F) : Prop :=
  ∃ new, mm'.outputs = mm.outputs ++ new ∧ Leads (facts mm) (new.flatMap tells ++ more) (facts mm')

omit [Number F] in
theorem Announces.refl (mm : MonsterManager F) : Announces [] mm mm :=
  ⟨[], (List.append_nil _).symm, .refl _⟩

omit [Number F] in
/-- What is said of one monster is said among all. -/
theorem Says.leads_update {number : Int} {mon mon' : Monster F} {told : List (Key × Fact F)}
    {outputs : List (Output F)} (hmonster : mm.monsters number = some mon) (hnumber : mon.monsterNumber = number)
    (hmeant : Says told mon mon') :
    Leads (facts mm) told (facts { mm with monsters := update mm.monsters number (some mon'), outputs }) := by
  intro k x hx
  unfold facts at hx
  dsimp only at hx
  rw [apply_eq]
  by_cases hk : k.1 = number
  · rw [hk, update_self] at hx
    have hsaid := hmeant.leads k x hx
    rwa [apply_eq, show factsOf mon k = facts mm k by rw [facts, hk, hmonster]; rfl] at hsaid
  · rw [update_of_ne hk] at hx
    have hnone : last told k = none := last_eq_none fun t ht heq => hk (by rw [← heq, hmeant.own t ht, hnumber])
    rw [hnone, Option.none_or]
    exact hx

omit [Number F] in
theorem Announces.onStage {number : Int} {g : Stage F → Except monster.Fault (Stage F)} (hnumbered : Numbered mm)
    (hspeaks : ∀ mon s', mm.monsters number = some mon → g ⟨mon, mm.outputs⟩ = .ok s' → Speaks ⟨mon, mm.outputs⟩ s')
    (hnext : mm.onStage number g = .ok mm') : Announces [] mm mm' := by
  unfold MonsterManager.onStage at hnext
  split at hnext
  · cases hnext
    exact .refl mm
  · rename_i mon hmonster
    obtain ⟨s', hg, hnext⟩ := Outcome.bind_eq_ok_iff.mp hnext
    cases hnext
    obtain ⟨new, hnew, hmeant⟩ := hspeaks mon s' hmonster hg
    refine ⟨new, hnew, ?_⟩
    rw [List.append_nil]
    exact hmeant.leads_update hmonster (hnumbered number mon hmonster).1

omit [Number F] in
/-- What is told in steps one after the other, where nothing is left to be told. -/
theorem Announces.trans {mm'' : MonsterManager F} (h : Announces [] mm mm') (h' : Announces [] mm' mm'') :
    Announces [] mm mm'' := by
  obtain ⟨new, hnew, hleads⟩ := h
  obtain ⟨new', hnew', hleads'⟩ := h'
  refine ⟨new ++ new', by rw [hnew', hnew, List.append_assoc], ?_⟩
  rw [List.append_nil] at hleads hleads' ⊢
  rw [List.flatMap_append]
  exact hleads.write hleads'

/-- One more hit adds its record to those that will be told. -/
theorem Announces.damage {mm₀ : MonsterManager F} {damaged_code : Int} {records records' : List (Record F)}
    (hcm : w.cm = true) (hnumbered : Numbered mm) (h : Announces (records.map recordTells) mm₀ mm)
    (hdamage : mm.damage f w attacker damaged_code state records = .ok (records', mm')) :
    Announces (records'.map recordTells) mm₀ mm' ∧
      ∃ record : Option (Record F), records' = records ++ record.toList := by
  unfold MonsterManager.damage at hdamage
  split at hdamage
  · cases hdamage
    exact ⟨h, none, (List.append_nil _).symm⟩
  · rename_i mon hmonster
    obtain ⟨⟨record, s'⟩, hhit, hdamage⟩ := Outcome.bind_eq_ok_iff.mp hdamage
    cases hdamage
    refine ⟨?_, record, rfl⟩
    obtain ⟨new, hnew, hleads⟩ := h
    obtain ⟨new', hnew', hmute, hmeant⟩ := Struck.hit hcm hhit
    have hnew' : s'.outputs = mm.outputs ++ new' := hnew'
    refine ⟨new ++ new', by rw [hnew', hnew, List.append_assoc], ?_⟩
    have hone : Leads (facts mm) (new'.flatMap tells ++ record.toList.map recordTells)
        (facts { mm with monsters := update mm.monsters damaged_code (some s'.self), outputs := s'.outputs }) :=
      hmeant.leads_update hmonster (hnumbered damaged_code mon hmonster).1
    refine (hleads.write hone).congr fun k => ?_
    -- the deaths are told before the records that wait, which tell no deaths
    have hswap : last (new'.flatMap tells ++ records.map recordTells) k =
        last (records.map recordTells ++ new'.flatMap tells) k := by
      refine last_append_comm (fun t ht t' ht' heq => ?_) k
      obtain ⟨r, _, rfl⟩ := List.mem_map.mp ht'
      have halive := hmute t ht
      rw [heq] at halive
      cases halive
    have hmiddle := last_congr hswap (new.flatMap tells) (record.toList.map recordTells)
    simpa only [List.flatMap_append, List.map_append, List.append_assoc] using hmiddle

theorem Announces.DamageProcess {damaged_code : Int} (hcm : w.cm = true) (hnumbered : Numbered mm)
    (hnext : mm.DamageProcess f w attacker damaged_code state = .ok mm') : Announces [] mm mm' := by
  unfold MonsterManager.DamageProcess at hnext
  obtain ⟨⟨records, mm₁⟩, hdamage, hnext⟩ := Outcome.bind_eq_ok_iff.mp hnext
  have hnone : Announces (([] : List (Record F)).map recordTells) mm mm := .refl mm
  obtain ⟨hannounces, record, hrecords⟩ := Announces.damage hcm hnumbered hnone hdamage
  rw [List.nil_append] at hrecords
  subst hrecords
  cases record with
  | none =>
    cases hnext
    exact hannounces
  | some record =>
    have hsent : mm₁.send (.CON_DAMAGE record) = mm' := by simpa [hcm, pure, Except.pure] using hnext
    subst hsent
    obtain ⟨new, hnew, hleads⟩ := hannounces
    refine ⟨new ++ [.CON_DAMAGE record], ?_, ?_⟩
    · exact (congrArg (· ++ [_]) hnew).trans (List.append_assoc _ _ _)
    · rw [List.append_nil, List.flatMap_append]
      exact hleads

theorem Announces.DamageProcessVector {damagevector : List (Int × monster.AttackState)} (hcm : w.cm = true)
    (hnumbered : Numbered mm) (hnext : mm.DamageProcessVector f w attacker damagevector = .ok mm') :
    Announces [] mm mm' := by
  unfold MonsterManager.DamageProcessVector at hnext
  obtain ⟨⟨records, mm₁⟩, hloop, hnext⟩ := Outcome.bind_eq_ok_iff.mp hnext
  -- the loop: every record that was made so far is still to be told
  have hall : Numbered mm₁ ∧ Announces (records.map recordTells) mm mm₁ := by
    refine Outcome.ok (Outcome.foldlM_keeps (I := fun p => Numbered p.2 ∧ Announces (p.1.map recordTells) mm p.2)
      (E := fun _ => True) ⟨hnumbered, .refl mm⟩ ?_) hloop
    rintro ⟨records₀, mm₀⟩ ⟨damaged_code, attackType⟩ _ hp
    obtain ⟨hnumbered₀, hannounces⟩ := hp
    change Outcome _ _ (mm₀.damage f w attacker damaged_code attackType records₀)
    cases hdamage : mm₀.damage f w attacker damaged_code attackType records₀ with
    | error fault => trivial
    | ok p' =>
      exact ⟨((monster.damage_keeps 0 0 0 hnumbered₀).ok hdamage).1,
        (Announces.damage hcm hnumbered₀ hannounces hdamage).1⟩
  have hannounces := hall.2
  dsimp only at hnext
  split at hnext
  · rename_i hnone
    cases hnext
    rw [List.length_eq_zero_iff.mp hnone] at hannounces
    exact hannounces
  · have hsent : mm₁.send (.CON_DAMAGE_VECTOR records) = mm' := by simpa [hcm, pure, Except.pure] using hnext
    subst hsent
    obtain ⟨new, hnew, hleads⟩ := hannounces
    refine ⟨new ++ [.CON_DAMAGE_VECTOR records], ?_, ?_⟩
    · exact (congrArg (· ++ [_]) hnew).trans (List.append_assoc _ _ _)
    · have htold : ([.CON_DAMAGE_VECTOR records] : List (Output F)).flatMap tells = records.map recordTells :=
        List.append_nil _
      rw [List.append_nil, List.flatMap_append, htold]
      exact hleads

/-- A monster that is spawned has not begun. -/
theorem Announces.Add_Spawn_Monster {desc : monster.MonsterSpawnDesc F} {memory : Nat → Monster F} :
    Announces [] mm (mm.Add_Spawn_Monster infos desc memory) := by
  have hspawn : ∀ (mm : MonsterManager F) (mem : Monster F), Announces [] mm (mm.spawn infos desc mem) := by
    intro mm mem
    have hcounted : Announces [] mm { mm with monKeyCount := mm.monKeyCount + 1 } :=
      ⟨[], (List.append_nil _).symm, .refl _⟩
    unfold MonsterManager.spawn
    dsimp only
    cases hcreate : monster.MonsterBuilder.CreateMonster infos mem desc.monsterCode mm.monKeyCount with
    | none => exact hcounted
    | some mon =>
      dsimp only
      split
      · exact hcounted
      · obtain ⟨info, _, rfl⟩ := Option.map_eq_some_iff.mp hcreate
        refine ⟨[], (List.append_nil _).symm, fun k x hx => ?_⟩
        unfold facts at hx
        dsimp only at hx
        by_cases hk : k.1 = mm.monKeyCount
        · rw [hk, update_self, Option.bind_some] at hx
          exact absurd (factsOf_eq_some_iff.mp hx).2.1 (by simp)
        · rw [update_of_ne hk] at hx
          exact hx
  unfold MonsterManager.Add_Spawn_Monster
  induction List.range desc.monsterCount generalizing mm with
  | nil => exact .refl mm
  | cons i l ih => exact (hspawn mm (memory i)).trans ih

/-- Whatever happens to the monsters of a channel is told to its characters, in the packets that
the step sends. -/
theorem Announces.next {e e' : MonsterManager.Event F} (hnumbered : Numbered mm) (he : ofMonsters mm e = some e')
    (hnext : mm.next infos f e' = some mm') : Announces [] mm mm' := by
  cases e with
  | Add_Spawn_Monster desc memory =>
    cases he
    cases hnext
    exact .Add_Spawn_Monster
  | BeginPlay number w =>
    obtain ⟨hfresh, ⟨⟩⟩ := Option.ite_none_right_eq_some.mp he
    refine .onStage hnumbered (fun mon s' hmonster hg => ?_) (Outcome.toOption_eq_some_iff.mp hnext)
    cases hg
    rw [hmonster] at hfresh
    exact .BeginPlay rfl (by simpa using hfresh)
  | Tick number w =>
    cases he
    exact .onStage hnumbered (fun mon s' _ htick => .Tick rfl htick) (Outcome.toOption_eq_some_iff.mp hnext)
  | DamageProcess w attacker damaged_code attackType =>
    cases he
    exact .DamageProcess rfl hnumbered (Outcome.toOption_eq_some_iff.mp hnext)
  | DamageProcessVector w attacker damagevector =>
    cases he
    exact .DamageProcessVector rfl hnumbered (Outcome.toOption_eq_some_iff.mp hnext)
  | EndPlay number => cases he

end Manager

end AsioGameServer.dungeon

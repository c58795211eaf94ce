import AsioGameServer.Monster.Manager

open Function Number Transition

namespace AsioGameServer.monster

variable {F : Type} [Number F] {w : Surroundings F} {s s' s'' : Stage F} {m : Int} {k : Nat}

/-- What an output says about the life of one monster. -/
def Output.concerns (m : Int) : Output F → Bool
  | .RESPAWN_MONSTER monster => monster.number = m
  | .DIE number => number = m
  | .AddCurrentExp number _ _ => number = m
  | .damage record => record.damaged_code = m
  | .MONSTER_ATTACK _ _ | .CON_DAMAGE _ | .CON_DAMAGE_VECTOR _ => false

/-- Lives of a monster, one after the other: a respawn, the damage records of the hits that it
survives, and the hit that ends it with one `DIE`, at most one award, which is for the
attacker of that hit, and the record of that hit. Whether the last life has not ended is
told before the outputs. -/
inductive Lives (m exp : Int) : Bool → List (Output F) → Prop where
  | first (monster : MonsterTable F) : Lives m exp true [.RESPAWN_MONSTER monster]
  | hit {outputs : List (Output F)} (h : Lives m exp true outputs) (record : Record F)
      (hpos : ofInt 0 < record.currentHP) : Lives m exp true (outputs ++ [.damage record])
  | kill {outputs : List (Output F)} (h : Lives m exp true outputs) (record : Record F)
      (hpos : record.currentHP ≤ ofInt 0) : Lives m exp false (outputs ++ [.DIE m, .damage record])
  | award {outputs : List (Output F)} (h : Lives m exp true outputs) (record : Record F)
      (hpos : record.currentHP ≤ ofInt 0) :
      Lives m exp false (outputs ++ [.DIE m, .AddCurrentExp m record.attacker_code exp, .damage record])
  | respawn {outputs : List (Output F)} (h : Lives m exp false outputs) (monster : MonsterTable F) :
      Lives m exp true (outputs ++ [.RESPAWN_MONSTER monster])

/-- The members that life and death depend on. -/
def Monster.life (monster : Monster F) :
    Int × Int × Nat × F × Bool × F × Option (behavior.Heap Action Key × Nat) :=
  (monster.monsterNumber, monster.exp, monster.events, monster.maxHp, monster.bAlive, monster.currentHp, monster.ai)

/-- A search for a path sets the path only. -/
theorem Monster.life_FindPath (dest : Vector3 F) (monster : Monster F) :
    (monster.FindPath w dest).life = monster.life := by
  unfold Monster.FindPath
  split <;> rfl

/-- A movement sets the position and the flag of the movement only. -/
theorem Monster.life_Moving (delta : F) (monster : Monster F) : (monster.Moving delta).life = monster.life := by
  unfold Monster.Moving
  split <;> rfl

/-- A step along the path is a movement, and takes waypoints off the path. -/
theorem life_follow (delta : F) (monster : Monster F) : (follow delta monster).2.life = monster.life := by
  unfold follow
  split
  · rfl
  · dsimp only
    split
    · rfl
    · exact Monster.life_Moving _ _

/-- The life of the monster is left alone. -/
structure Still (s s' : Stage F) : Prop where
  life : s'.self.life = s.self.life
  outputs : ∃ new, s'.outputs = s.outputs ++ new ∧ ∀ o ∈ new, ∀ m, o.concerns m = false

namespace Still

omit [Number F] in
theorem of_life (hlife : s'.self.life = s.self.life) (houtputs : s'.outputs = s.outputs) : Still s s' :=
  ⟨hlife, [], by rw [houtputs, List.append_nil], by simp⟩

omit [Number F] in
theorem refl (s : Stage F) : Still s s := of_life rfl rfl

omit [Number F] in
theorem trans (h : Still s s') (h' : Still s' s'') : Still s s'' := by
  obtain ⟨new, hnew, hquiet⟩ := h.outputs
  obtain ⟨new', hnew', hquiet'⟩ := h'.outputs
  refine ⟨h'.life.trans h.life, new ++ new', by rw [hnew', hnew, List.append_assoc], fun o ho => ?_⟩
  obtain ho | ho := List.mem_append.mp ho
  · exact hquiet o ho
  · exact hquiet' o ho

theorem UpdateIdle : Still s (UpdateIdle w s).2 := by
  unfold monster.UpdateIdle
  split
  · split
    · exact of_life rfl rfl
    · exact refl s
  · split
    · exact refl s
    · dsimp only
      split
      · refine of_life ?_ rfl
        exact Monster.life_FindPath _ _
      · exact of_life rfl rfl

theorem Patrol : Still s (Patrol w s).2 := of_life (life_follow _ _) rfl

theorem Hold : Still s (Hold w s).2 := of_life rfl rfl

theorem Chase : Still s (Chase w s).2 := of_life (life_follow _ _) rfl

theorem Attack : Still s (Attack w s).2 := by
  unfold monster.Attack
  split
  · split
    · exact refl s
    · exact of_life rfl rfl
  · dsimp only
    split
    · exact ⟨rfl, [_], rfl, by simp [Output.concerns]⟩
    · exact of_life rfl rfl

theorem Die : Still s (Die w s).2 := of_life rfl rfl

/-- A monster that is alive looks around, and one that is dead waits, until it respawns. -/
theorem UpdateState : Still s (UpdateState w s).2 ∨
    s.self.bAlive = false ∧ (UpdateState w s).2 = SetAlive w true (s.onMonster ({ · with state := .DIE })) := by
  unfold monster.UpdateState
  split
  · rename_i hdead
    dsimp only
    split
    · exact .inr ⟨hdead, rfl⟩
    · exact .inl (of_life rfl rfl)
  · refine .inl ?_
    have hattacking : Still s
        (if s.self.bAttacking then s.onMonster ({ · with state := .ATTACK, bMove := false }) else s) := by
      split
      · exact of_life rfl rfl
      · exact refl s
    dsimp only
    refine hattacking.trans ?_
    generalize (if s.self.bAttacking then s.onMonster ({ · with state := .ATTACK, bMove := false }) else s) = s₁
    split
    · exact refl s₁
    · split
      · split
        · split
          · exact of_life rfl rfl
          · refine of_life ?_ rfl
            exact Monster.life_FindPath _ _
        · exact of_life rfl rfl
      · exact of_life rfl rfl

end Still

section Living

variable {exp : Int} {f : DamageFormula F} {attacker : Attacker F} {state : AttackState}
  {record : Option (Record F)}

/-- A monster between `BeginPlay` and `EndPlay`, with what it sent from one place of the
outputs on. -/
structure Living (m exp : Int) (k : Nat) (s : Stage F) : Prop where
  number : s.self.monsterNumber = m
  award : s.self.exp = exp
  events : s.self.events = 1
  maxHp : ofInt 0 < s.self.maxHp
  alive : s.self.bAlive = true ↔ ofInt 0 < s.self.currentHp
  length : k ≤ s.outputs.length
  lives : Lives m exp s.self.bAlive ((s.outputs.drop k).filter (·.concerns m))

theorem SetAlive_eq (val : Bool) (hevents : s.self.events = 1) :
    SetAlive w val s = onAlive w val (s.onMonster ({ · with bAlive := val })) := by
  unfold SetAlive
  dsimp only
  rw [show (s.onMonster ({ · with bAlive := val })).self.events = 1 from hevents]
  rfl

/-- A respawn fills the hit points and says so. -/
theorem Respawn_spec (hcm : w.cm = true) :
    ∃ table : MonsterTable F, table.number = s.self.monsterNumber ∧
      (Respawn w s).outputs = s.outputs ++ [.RESPAWN_MONSTER table] ∧
      (Respawn w s).self.life =
        (s.self.monsterNumber, s.self.exp, s.self.events, s.self.maxHp, s.self.bAlive, s.self.maxHp, s.self.ai) := by
  unfold Respawn
  rw [if_pos hcm]
  split
  · refine ⟨_, ?_, rfl, rfl⟩
    rfl
  · refine ⟨_, ?_, rfl, rfl⟩
    rfl

omit [Number F] in
/-- What was sent since is followed by what is sent now. -/
theorem sent_append {outputs new : List (Output F)} (hlength : k ≤ outputs.length) :
    ((outputs ++ new).drop k).filter (·.concerns m) =
      (outputs.drop k).filter (·.concerns m) ++ new.filter (·.concerns m) := by
  rw [List.drop_append_of_le_length hlength, List.filter_append]

namespace Living

/-- The monster goes on, with what it sends. -/
theorem of_sent (h : Living m exp k s) (hnumber : s'.self.monsterNumber = s.self.monsterNumber)
    (hexp : s'.self.exp = s.self.exp) (hevents : s'.self.events = s.self.events)
    (hmaxHp : s'.self.maxHp = s.self.maxHp) (halive : s'.self.bAlive = true ↔ ofInt 0 < s'.self.currentHp)
    {new : List (Output F)} (hnew : s'.outputs = s.outputs ++ new)
    (hlives : Lives m exp s'.self.bAlive
      ((s.outputs.drop k).filter (·.concerns m) ++ new.filter (·.concerns m))) : Living m exp k s' := by
  refine ⟨hnumber.trans h.number, hexp.trans h.award, hevents.trans h.events, hmaxHp ▸ h.maxHp, halive, ?_, ?_⟩
  · rw [hnew, List.length_append]
    exact Nat.le_trans h.length (Nat.le_add_right _ _)
  · rw [hnew, sent_append h.length]
    exact hlives

/-- The life of the monster is left alone, and whatever is sent does not concern it. -/
theorem of_life (h : Living m exp k s) (hlife : s'.self.life = s.self.life) {new : List (Output F)}
    (hnew : s'.outputs = s.outputs ++ new) (hquiet : ∀ o ∈ new, o.concerns m = false) : Living m exp k s' := by
  simp only [Monster.life, Prod.mk.injEq] at hlife
  obtain ⟨hnumber, hexp, hevents, hmaxHp, halive, hcurrentHp, _⟩ := hlife
  have hnone : new.filter (·.concerns m) = [] := List.filter_eq_nil_iff.mpr fun o ho => by simp [hquiet o ho]
  refine h.of_sent hnumber hexp hevents hmaxHp ?_ hnew ?_
  · rw [halive, hcurrentHp]
    exact h.alive
  · rw [hnone, List.append_nil, halive]
    exact h.lives

theorem still (h : Living m exp k s) (hs : Still s s') : Living m exp k s' := by
  obtain ⟨new, hnew, hquiet⟩ := hs.outputs
  exact h.of_life hs.life hnew fun o ho => hquiet o ho m

theorem SetAlive (h : Living m exp k s) (hcm : w.cm = true) (hdead : s.self.bAlive = false) :
    Living m exp k (SetAlive w true s) := by
  obtain ⟨table, htable, houtputs, hlife⟩ :=
    Respawn_spec (w := w) (s := s.onMonster ({ · with bAlive := true })) hcm
  rw [SetAlive_eq true h.events]
  change Living m exp k (Respawn w _)
  simp only [Monster.life, Prod.mk.injEq] at hlife
  obtain ⟨hnumber, hexp, hevents, hmaxHp, halive, hcurrentHp, _⟩ := hlife
  have hmine : ([.RESPAWN_MONSTER table] : List (Output F)).filter (·.concerns m) = [.RESPAWN_MONSTER table] := by
    simp [Output.concerns, htable.trans h.number]
  have hlives := h.lives
  rw [hdead] at hlives
  refine h.of_sent hnumber hexp hevents hmaxHp ?_ houtputs ?_
  · rw [halive, hcurrentHp]
    exact ⟨fun _ => h.maxHp, fun _ => rfl⟩
  · rw [hmine, halive]
    exact hlives.respawn table

/-- The first `Respawn`, of a monster that has not begun. -/
theorem begin (hnumber : s.self.monsterNumber = m) (hevents : s.self.events = 0) (hmaxHp : ofInt 0 < s.self.maxHp)
    (hcm : w.cm = true) : Living m s.self.exp s.outputs.length (BeginPlay w s) := by
  obtain ⟨table, htable, houtputs, hlife⟩ := Respawn_spec (w := w)
    (s := (s.onMonster fun m => { m with events := m.events + 1 }).onMonster ({ · with bAlive := true })) hcm
  have hset : monster.SetAlive w true (s.onMonster fun m => { m with events := m.events + 1 }) =
      Respawn w ((s.onMonster fun m => { m with events := m.events + 1 }).onMonster ({ · with bAlive := true })) :=
    SetAlive_eq true (by simp [Stage.onMonster, hevents])
  simp only [Monster.life, Prod.mk.injEq] at hlife
  obtain ⟨hnumber', hexp', hevents', hmaxHp', halive', hcurrentHp', _⟩ := hlife
  unfold BeginPlay
  dsimp only
  rw [hset]
  refine ⟨hnumber'.trans hnumber, hexp', hevents'.trans (by simp [Stage.onMonster, hevents]), hmaxHp' ▸ hmaxHp, ?_,
    ?_, ?_⟩
  · refine ⟨fun _ => ?_, fun _ => halive'⟩
    exact hmaxHp.trans_eq hcurrentHp'.symm
  · change s.outputs.length ≤ (Respawn w _).outputs.length
    rw [houtputs, List.length_append]
    exact Nat.le_add_right _ _
  · have hmine : ([.RESPAWN_MONSTER table] : List (Output F)).filter (·.concerns m) = [.RESPAWN_MONSTER table] := by
      simp [Output.concerns, htable.trans hnumber]
    change Lives m s.self.exp (Respawn w _).self.bAlive (((Respawn w _).outputs.drop s.outputs.length).filter _)
    rw [houtputs, halive']
    change Lives m s.self.exp true (((s.outputs ++ [Output.RESPAWN_MONSTER table]).drop s.outputs.length).filter _)
    rw [List.drop_left, hmine]
    exact .first table

/-- A hit that leaves some hit points adds its record only. -/
theorem hit (h : Living m exp k s) (halive : s.self.bAlive = true) {damageval : F} {entry : Record F}
    (hhp : ofInt 0 < s.self.currentHp - damageval) (hcode : entry.damaged_code = m)
    (hcurrentHP : entry.currentHP = s.self.currentHp - damageval) :
    Living m exp k ((s.onMonster fun m => { m with currentHp := m.currentHp - damageval }).send (.damage entry)) := by
  have hmine : ([.damage entry] : List (Output F)).filter (·.concerns m) = [.damage entry] := by
    simp [Output.concerns, hcode]
  have hlives := h.lives
  rw [halive] at hlives
  refine h.of_sent rfl rfl rfl rfl ⟨fun _ => hhp, fun _ => halive⟩ rfl ?_
  change Lives m exp s.self.bAlive _
  rw [hmine, halive]
  exact hlives.hit entry (hcurrentHP ▸ hhp)

/-- A hit that leaves none ends the life. -/
theorem kill (h : Living m exp k s) (halive : s.self.bAlive = true) (hcm : w.cm = true) {damageval : F}
    {entry : Record F} (hhp : s.self.currentHp - damageval ≤ ofInt 0) (hcode : entry.damaged_code = m)
    (hcurrentHP : entry.currentHP = s.self.currentHp - damageval) (hattacker : entry.attacker_code = attacker.code) :
    Living m exp k ((kill w attacker (s.onMonster fun m => { m with currentHp := m.currentHp - damageval })).send
      (.damage entry)) := by
  have hlives := h.lives
  rw [halive] at hlives
  have hset : monster.SetAlive w false (s.onMonster fun m => { m with currentHp := m.currentHp - damageval }) =
      ((s.onMonster fun m => { m with currentHp := m.currentHp - damageval }).onMonster
        ({ · with bAlive := false })).send (.DIE s.self.monsterNumber) := by
    refine (SetAlive_eq false ?_).trans (if_pos hcm)
    exact h.events
  have hdead : false = true ↔ ofInt 0 < s.self.currentHp - damageval := by simpa using hhp
  unfold monster.kill
  rw [hset]
  dsimp only
  split
  · have hmine : ([.DIE m, .AddCurrentExp m entry.attacker_code exp, .damage entry] : List (Output F)).filter
        (·.concerns m) = [.DIE m, .AddCurrentExp m entry.attacker_code exp, .damage entry] := by
      simp [Output.concerns, hcode]
    have hnew : s.outputs ++ [.DIE s.self.monsterNumber] ++ [.AddCurrentExp s.self.monsterNumber attacker.code
        s.self.exp] ++ [.damage entry] =
        s.outputs ++ [.DIE m, .AddCurrentExp m entry.attacker_code exp, .damage entry] := by
      simp [h.number, h.award, hattacker]
    refine h.of_sent rfl rfl rfl rfl hdead hnew ?_
    rw [hmine]
    exact hlives.award entry (hcurrentHP ▸ hhp)
  · have hmine : ([.DIE m, .damage entry] : List (Output F)).filter (·.concerns m) = [.DIE m, .damage entry] := by
      simp [Output.concerns, hcode]
    have hnew : s.outputs ++ [.DIE s.self.monsterNumber] ++ [.damage entry] =
        s.outputs ++ [.DIE m, .damage entry] := by simp [h.number]
    refine h.of_sent rfl rfl rfl rfl hdead hnew ?_
    rw [hmine]
    exact hlives.kill entry (hcurrentHP ▸ hhp)

end Living

/-- What `kill` leaves as it was. -/
theorem self_kill (hevents : s.self.events = 1) : (kill w attacker s).self = { s.self with bAlive := false } := by
  have hset : (SetAlive w false s).self = { s.self with bAlive := false } := by
    rw [SetAlive_eq false hevents]
    change (Dead w _).self = _
    unfold Dead
    split <;> rfl
  unfold kill
  dsimp only
  split
  · exact hset
  · exact hset

theorem Living.GetDamage (h : Living m exp k s) (hcm : w.cm = true)
    (hdamage : GetDamage f w attacker state s = .ok (record, s')) : Living m exp k s' := by
  unfold monster.GetDamage at hdamage
  split at hdamage
  · cases hdamage
    exact h
  · rename_i hdead
    have halive : s.self.bAlive = true := by simpa using hdead
    split at hdamage
    · cases hdamage
    · cases hdamage
      exact h
    · rename_i damageval _
      dsimp only at hdamage
      split at hdamage
      · rename_i hhp
        cases hdamage
        have hself :
          (monster.kill w attacker (s.onMonster fun m => { m with currentHp := m.currentHp - damageval })).self =
            { s.self with currentHp := s.self.currentHp - damageval, bAlive := false } := self_kill h.events
        rw [hself]
        exact h.kill halive hcm hhp h.number rfl rfl
      · rename_i hhp
        cases hdamage
        exact h.hit halive (lt_of_not_ge hhp) h.number rfl

/-- The actors keep a life going, and `UpdateState` begins a new one. -/
theorem Living.act (h : Living m exp k s) (hcm : w.cm = true) (action : Action) :
    Living m exp k (actors.act action w s).2 := by
  cases action with
  | UpdateState =>
    obtain hstill | ⟨hdead, hset⟩ := Still.UpdateState (w := w) (s := s)
    · exact h.still hstill
    · have hlater : Living m exp k (s.onMonster ({ · with state := .DIE })) := h.still (.of_life rfl rfl)
      exact hset ▸ hlater.SetAlive hcm hdead
  | UpdateIdle => exact h.still Still.UpdateIdle
  | Patrol => exact h.still Still.Patrol
  | Hold => exact h.still Still.Hold
  | Chase => exact h.still Still.Chase
  | Attack => exact h.still Still.Attack
  | Die => exact h.still Still.Die

theorem Living.Tick (h : Living m exp k s) (hcm : w.cm = true) (htick : Tick w s = .ok s') : Living m exp k s' := by
  unfold monster.Tick at htick
  split at htick
  · cases htick
    exact h
  · split at htick
    · cases htick
    · rename_i e hrun
      cases htick
      exact behavior.Run_keeps (P := Living m exp k) (fun action s hs => hs.act hcm action) h hrun

end Living

end AsioGameServer.monster

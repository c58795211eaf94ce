import AsioGameServer.Monster.Stage

open Function Number Transition

namespace AsioGameServer.monster

variable {F : Type} [Number F] {w : Surroundings F} {s s' : Stage F} {m : Int} {e : MonsterManager.Event F}

section Standing

/-- `UpdateState` finds a player near enough to attack, or nothing to look through. -/
def InReach (w : Surroundings F) (mon : Monster F) : Prop :=
  w.cm = true → Notices w mon ∧ (w.SearchNearPlayer mon.position).2 ≤ ofInt 100

theorem runAI_alone (halive : s.self.bAlive = true) (hcm : w.cm = false) : runAI w s = s.onMonster locked := by
  obtain ⟨found, s₁, hlooks, hrun⟩ := runAI_looks w s
  cases hlooks with
  | waits hdead | respawns hdead => exact absurd (hdead.symm.trans halive) Bool.false_ne_true
  | alone => exact hrun
  | chases _ hcm' | attacks _ hcm' | idles _ hcm' => exact absurd (hcm.symm.trans hcm') Bool.false_ne_true

/-- While a player is in reach, an attack goes on where it began. -/
theorem runAI_in_reach (halive : s.self.bAlive = true) (hreach : InReach w s.self)
    (hattacking : s.self.bAttacking = true ∨ (runAI w s).self.bAttacking = true) :
    (runAI w s).self.state = .ATTACK ∧ (runAI w s).self.position = s.self.position := by
  obtain ⟨found, s₁, hlooks, hrun⟩ := runAI_looks w s
  cases hlooks with
  | waits hdead | respawns hdead => exact absurd (hdead.symm.trans halive) Bool.false_ne_true
  | alone halive hcm =>
    rw [runAI_alone halive hcm] at hattacking ⊢
    unfold locked Stage.onMonster at hattacking ⊢
    dsimp only at hattacking ⊢
    cases hbefore : s.self.bAttacking with
    | true => exact ⟨rfl, rfl⟩
    | false => simp [hbefore] at hattacking
  | chases _ hcm _ hfar => exact absurd (hreach hcm).2 (not_le_of_gt hfar)
  | attacks =>
    rw [hrun, if_pos rfl]
    exact ⟨state_runState, runState_branched.stands rfl⟩
  | idles _ hcm hnone => exact absurd (hreach hcm).1 hnone

/-- Out of reach the attack is left, and the flag stays. -/
theorem runAI_out_of_reach (halive : s.self.bAlive = true) (hout : ¬ InReach w s.self) :
    (runAI w s).self.state ≠ .ATTACK ∧ (runAI w s).self.bAttacking = s.self.bAttacking := by
  obtain ⟨found, s₁, hlooks, hrun⟩ := runAI_looks w s
  have hleft : ∀ state : State, state ≠ .ATTACK → s₁.self.state = state → s₁.self.bAttacking = s.self.bAttacking →
      (runState w s₁).self.state ≠ .ATTACK ∧ (runState w s₁).self.bAttacking = s.self.bAttacking := by
    intro state hne hstate hattacking
    have hstate' : s₁.self.state ≠ .ATTACK := hstate ▸ hne
    rw [state_runState, (runState_branched.attack hstate').1]
    exact ⟨hstate', hattacking⟩
  cases hlooks with
  | waits hdead | respawns hdead => exact absurd (hdead.symm.trans halive) Bool.false_ne_true
  | alone _ hcm =>
    refine absurd (fun hcm' => ?_) hout
    exact absurd (hcm.symm.trans hcm') Bool.false_ne_true
  | chases =>
    rw [hrun, if_pos rfl]
    exact hleft .CHASE (by simp) rfl rfl
  | attacks _ _ hnotices hnear => exact absurd (fun _ => ⟨hnotices, hnear⟩) hout
  | idles =>
    rw [hrun, if_pos rfl]
    refine hleft .IDLE (by simp) rfl ?_
    unfold locked Stage.onMonster
    dsimp only
    split <;> rfl

/-- In an attack a player is in reach at every tick. -/
def StaysInReach (m : Int) (s : Stage F) (e : MonsterManager.Event F) : Prop :=
  ∀ w, e = .Tick m w → s.self.bAlive = true → s.self.bAttacking = true → InReach w s.self

/-- The ticks of an attack, from the one that begins it to the one that ends it, leave the
monster in its place. -/
def StandsStill (m : Int) (s : Stage F) (e : MonsterManager.Event F) (s' : Stage F) : Prop :=
  ∀ w, e = .Tick m w → s.self.bAlive = true → s.self.bAttacking = true ∨ s'.self.bAttacking = true →
    s'.self.state = .ATTACK ∧ s'.self.position = s.self.position

theorem staysInReach_iff_standsStill (hhappens : Happens m s e s') : StaysInReach m s e ↔ StandsStill m s e s' := by
  cases hhappens with
  | tick w =>
    constructor
    · intro hstays _ htick halive hattacking
      obtain ⟨-, rfl⟩ := MonsterManager.Event.Tick.inj htick
      by_cases hreach : InReach w s.self
      · exact runAI_in_reach halive hreach hattacking
      · rw [(runAI_out_of_reach halive hreach).2, or_self] at hattacking
        exact absurd (hstays w rfl halive hattacking) hreach
    · intro hstands _ htick halive hattacking
      obtain ⟨-, rfl⟩ := MonsterManager.Event.Tick.inj htick
      by_contra hout
      exact (runAI_out_of_reach halive hout).1 (hstands w rfl halive (.inl hattacking)).1
  | other hother => exact ⟨fun _ w htick => absurd htick (hother w), fun _ w htick => absurd htick (hother w)⟩

variable {infos : Int → Option (MonsterInfo F)} {f : DamageFormula F} {mon : Monster F} {mm mm' : MonsterManager F}
  {events : List (MonsterManager.Event F)}

/-- A monster stands still in its attacks in the runs where a player stays in reach. -/
theorem attacks_standing_still_iff (hbegun : Begun infos f m mon mm) :
    Run (Keeping (MonsterManager.Does m (StandsStill m)) (Guarded (playing m) (OfOption (MonsterManager.next infos f))))
        mm events mm' ↔
      Run (Guarded (MonsterManager.Meets m (StaysInReach m))
        (Guarded (playing m) (OfOption (MonsterManager.next infos f)))) mm events mm' := by
  obtain ⟨w₀, outputs, -, hplays⟩ := hbegun.plays
  exact (hplays.run_meets_iff_does fun s e s' => staysInReach_iff_standsStill).symm

end Standing

section Example

/-- A slime that stands at the 99. -/
def standing : MonsterManager Int :=
  MonsterManager.start.Add_Spawn_Monster slime ⟨1, 1, .zero, 0, 0⟩ fun _ => { blank with position := ⟨99, 0, 0⟩ }

/-- A player in reach. -/
def beside : Surroundings Int := { field with SearchNearPlayer := fun _ => (-2, 50) }

/-- A player who went away, with the way to them. -/
def away : Surroundings Int :=
  { field with
    SearchNearPlayer := fun _ => (-2, 500)
    GetCharacter := fun _ => some ⟨599, 0, 0⟩
    navi := true
    findStraightPath := fun _ _ => [⟨-1, 0, 0⟩, ⟨-1, 0, 0⟩] }

theorem standing_begun {mm : MonsterManager Int}
    (hbegin : standing.next slime plainFormula (.BeginPlay 0 field) = some mm) :
    ∃ mon, Begun slime plainFormula 0 mon mm := by
  have hspawned : Run (OfOption (MonsterManager.next slime plainFormula)) .start
      [.Add_Spawn_Monster ⟨1, 1, .zero, 0, 0⟩ fun _ => { blank with position := ⟨99, 0, 0⟩ }] standing :=
    run_singleton_iff.mpr rfl
  exact ⟨_, _, standing, field, hspawned, rfl, rfl, rfl, hbegin⟩

theorem attacks_standing_still_beside :
    ∃ mm mm', standing.next slime plainFormula (.BeginPlay 0 field) = some mm ∧
      Run (Keeping (MonsterManager.Does 0 (StandsStill 0))
        (Guarded (playing 0) (OfOption (MonsterManager.next slime plainFormula))))
        mm [.Tick 0 beside, .Tick 0 beside] mm' := by
  have hstays : ∀ mm, MonsterManager.Meets 0 (StaysInReach 0) mm (.Tick 0 beside) := by
    intro mm s hs w htick halive hattacking hcm
    obtain ⟨-, rfl⟩ := MonsterManager.Event.Tick.inj htick
    exact ⟨⟨show (-2 : Int) ≠ -1 by decide, show (50 : Int) < 1000 by decide⟩, show (50 : Int) ≤ 100 by decide⟩
  have hruns : ∃ mm mm', standing.next slime plainFormula (.BeginPlay 0 field) = some mm ∧
      Run (Guarded (MonsterManager.Meets 0 (StaysInReach 0))
        (Guarded (playing 0) (OfOption (MonsterManager.next slime plainFormula))))
        mm [.Tick 0 beside, .Tick 0 beside] mm' :=
    ⟨_, _, rfl, .cons ⟨hstays _, trivial, rfl⟩ <| .cons ⟨hstays _, trivial, rfl⟩ <| .nil _⟩
  obtain ⟨mm, mm', hbegin, hruns⟩ := hruns
  obtain ⟨mon, hbegun⟩ := standing_begun hbegin
  exact ⟨mm, mm', hbegin, (attacks_standing_still_iff hbegun).mpr hruns⟩

/-- The slime attacks, the player goes away, and the slime follows with the attack still on. -/
theorem not_attacks_standing_still :
    ∃ mon mm mm₁ mm', Begun slime plainFormula 0 mon mm ∧ mm.next slime plainFormula (.Tick 0 beside) = some mm₁ ∧
      mm₁.next slime plainFormula (.Tick 0 away) = some mm' ∧
      (mm₁.monsters 0).map (fun mon => (mon.bAlive, mon.bAttacking, mon.state, mon.position)) =
        some (true, true, .ATTACK, ⟨99, 0, 0⟩) ∧
      (mm'.monsters 0).map (fun mon => (mon.bAlive, mon.bAttacking, mon.state, mon.position)) =
        some (true, true, .CHASE, ⟨100, 0, 0⟩) ∧
      ¬ Run (Keeping (MonsterManager.Does 0 (StandsStill 0))
        (Guarded (playing 0) (OfOption (MonsterManager.next slime plainFormula))))
        mm [.Tick 0 beside, .Tick 0 away] mm' := by
  have hruns : ∃ mm mm₁ mm' s₁ s', standing.next slime plainFormula (.BeginPlay 0 field) = some mm ∧
      mm.next slime plainFormula (.Tick 0 beside) = some mm₁ ∧ mm₁.next slime plainFormula (.Tick 0 away) = some mm' ∧
      mm₁.stage 0 = some s₁ ∧ mm'.stage 0 = some s' ∧
      (s₁.self.bAlive, s₁.self.bAttacking, s₁.self.state, s₁.self.position) = (true, true, .ATTACK, ⟨99, 0, 0⟩) ∧
      (s'.self.bAlive, s'.self.bAttacking, s'.self.state, s'.self.position) = (true, true, .CHASE, ⟨100, 0, 0⟩) :=
    ⟨_, _, _, _, _, rfl, rfl, rfl, rfl, rfl, rfl, rfl⟩
  obtain ⟨mm, mm₁, mm', s₁, s', hbegin, hbeside, haway, hs₁, hs', hstands, hfollows⟩ := hruns
  obtain ⟨mon, hbegun⟩ := standing_begun hbegin
  refine ⟨mon, mm, mm₁, mm', hbegun, hbeside, haway, ?_, ?_, ?_⟩
  · rw [(stage_eq_some_iff.mp hs₁).1]
    exact congrArg some hstands
  · rw [(stage_eq_some_iff.mp hs').1]
    exact congrArg some hfollows
  · rintro (_ | ⟨⟨_, _, hbeside'⟩, (_ | ⟨⟨hdoes, _, haway'⟩, _⟩)⟩)
    obtain rfl := Option.some.inj (hbeside.symm.trans hbeside')
    obtain rfl := Option.some.inj (haway.symm.trans haway')
    have hstate := (hdoes s₁ s' hs₁ hs' away rfl (congrArg (·.1) hstands) (.inl (congrArg (·.2.1) hstands))).1
    exact absurd (hstate.symm.trans (congrArg (·.2.2.1) hfollows)) (by simp)

end Example

section CoolTime

theorem Quiet.runIdle : Quiet m s (runIdle w s) := by
  refine (Quiet.UpdateIdle (w := w)).trans ?_
  unfold monster.runIdle
  dsimp only
  split <;> exact .of_same rfl

/-- What an attack that begins leaves. -/
structure Attacks (w : Surroundings F) (s s' : Stage F) : Prop where
  before : s.self.bAttacking = false
  attacking : s'.self.bAttacking = true
  attackCoolTime : s'.self.attackCoolTime = w.now
  outputs : ∃ target, s'.outputs = s.outputs ++ [.MONSTER_ATTACK s.self.monsterNumber target]

theorem state_SetAlive_true (w : Surroundings F) (s : Stage F) :
    (SetAlive w true s).self.state = s.self.state ∨ (SetAlive w true s).self.state = .IDLE := by
  unfold SetAlive
  dsimp only
  cases (s.onMonster ({ · with bAlive := true })).self.events with
  | zero => exact .inl rfl
  | succ n =>
    right
    rw [iterate_succ_apply']
    change (Respawn w _).self.state = _
    unfold Respawn
    dsimp only
    split <;> split <;> rfl

theorem runState_sends (m : Int) (w : Surroundings F) (s : Stage F) :
    Quiet m s (runState w s) ∨ s.self.state = .ATTACK ∧ Attacks w s (runState w s) := by
  unfold runState
  cases hstate : s.self.state with
  | IDLE => exact .inl .runIdle
  | CHASE => exact .inl (.of_same rfl)
  | DIE => exact .inl (.of_same rfl)
  | ATTACK =>
    unfold Attack
    dsimp only
    split
    · split <;> exact .inl (.of_same rfl)
    · rename_i hbefore
      split
      · exact .inr ⟨rfl, ⟨by simpa using hbefore, rfl, rfl, s.self.targetCode, rfl⟩⟩
      · exact .inl (.of_same rfl)

/-- A tick sends an attack only where one begins, of a monster that is alive. -/
theorem runAI_sends (m : Int) (w : Surroundings F) (s : Stage F) :
    Quiet m s (runAI w s) ∨ s.self.bAlive = true ∧ Attacks w s (runAI w s) := by
  obtain ⟨found, s₁, hlooks, hrun⟩ := runAI_looks w s
  have hquiet : Quiet m s s₁ := by
    cases hlooks with
    | respawns => exact (Quiet.of_same rfl).trans (.SetAlive true)
    | _ => exact .of_same rfl
  rw [hrun]
  split
  · rename_i hfound
    obtain hstill | ⟨hstate, hattacks⟩ := runState_sends m w s₁
    · exact .inl (hquiet.trans hstill)
    · cases hlooks with
      | alone => cases hfound
      | attacks halive =>
        exact .inr ⟨halive, hattacks.before, hattacks.attacking, hattacks.attackCoolTime, hattacks.outputs⟩
      | respawns =>
        obtain hsame | hidle := state_SetAlive_true w (s.onMonster ({ · with state := .DIE }))
        · cases hsame.symm.trans hstate
        · cases hidle.symm.trans hstate
      | _ => cases hstate
  · exact .inl hquiet

theorem Looks.attack {found : Bool} {s₁ : Stage F} (h : Looks w s (found, s₁)) (halive : s.self.bAlive = true) :
    s₁.self.bAttacking = s.self.bAttacking ∧ s₁.self.attackCoolTime = s.self.attackCoolTime := by
  cases h with
  | waits hdead | respawns hdead => exact absurd (hdead.symm.trans halive) Bool.false_ne_true
  | chases => exact ⟨rfl, rfl⟩
  | attacks => exact ⟨rfl, rfl⟩
  | _ =>
    unfold locked Stage.onMonster
    dsimp only
    split <;> exact ⟨rfl, rfl⟩

/-- An attack stays as it is until its cool time is over. -/
theorem runAI_attacking (halive : s.self.bAlive = true) (hattacking : s.self.bAttacking = true) :
    (runAI w s).self.bAttacking = true ∧ (runAI w s).self.attackCoolTime = s.self.attackCoolTime ∨
      ¬ w.now - s.self.attackCoolTime < lit 17 1 := by
  obtain ⟨found, s₁, hlooks, hrun⟩ := runAI_looks w s
  obtain ⟨hsame, htime⟩ := hlooks.attack halive
  rw [← hsame] at hattacking
  rw [hrun, ← htime]
  split
  · by_cases hstate : s₁.self.state = .ATTACK
    · unfold runState
      rw [hstate]
      unfold Attack
      dsimp only
      rw [if_pos hattacking]
      split
      · exact .inl ⟨hattacking, rfl⟩
      · rename_i hover
        exact .inr hover
    · have hbranched : Branched s₁.self (runState w s₁).self := runState_branched
      obtain ⟨hsame', htime'⟩ := hbranched.attack hstate
      exact .inl ⟨hsame'.trans hattacking, htime'⟩
  · exact .inl ⟨hattacking, rfl⟩

variable {infos : Int → Option (MonsterInfo F)} {f : DamageFormula F} {mon : Monster F}

/-- The broadcasts of its attacks that a step adds. -/
def MonsterManager.attacks (m : Int) (mm mm' : MonsterManager F) : List (Output F) :=
  (mm'.outputs.drop mm.outputs.length).filter (·.attacks m)

/-- The clock readings of the ticks of a monster. -/
def clocks (m : Int) (events : List (MonsterManager.Event F)) : List F := (ticks m events).map Surroundings.now

/-- The dead do not come back. -/
def StaysDead (s : Stage F) (_ : MonsterManager.Event F) (s' : Stage F) : Prop :=
  s.self.bAlive = false → s'.self.bAlive = false

/-- Since an attack at a time the monster is in it, or died, or a tick came after its cool
time. -/
def Cooling (t₁ : F) (readings : List F) (s : Stage F) : Prop :=
  s.self.bAlive = true →
    s.self.bAttacking = true ∧ s.self.attackCoolTime = t₁ ∨ ∃ t ∈ readings, ¬ t - t₁ < lit 17 1

namespace Cooling

variable {t₁ : F} {readings : List F}

theorem tick (h : Cooling t₁ readings s) (hdead : StaysDead s (.Tick m w) (runAI w s)) :
    Cooling t₁ (readings ++ [w.now]) (runAI w s) := by
  intro halive'
  have halive : s.self.bAlive = true := by
    by_contra hnot
    exact absurd ((hdead (by simpa using hnot)).symm.trans halive') Bool.false_ne_true
  obtain ⟨hattacking, htime⟩ | ⟨t, ht, hover⟩ := h halive
  · obtain ⟨hattacking', htime'⟩ | hover := runAI_attacking (w := w) halive hattacking
    · exact .inl ⟨hattacking', htime'.trans htime⟩
    · exact .inr ⟨w.now, by simp, by rwa [htime] at hover⟩
  · exact .inr ⟨t, by simp [ht], hover⟩

theorem struck (h : Cooling t₁ readings s) (hstruck : Struck m s s') : Cooling t₁ readings s' := by
  intro halive'
  have halive : s.self.bAlive = true := by
    by_contra hnot
    rw [hstruck.self.dead (by simpa using hnot)] at halive'
    exact hnot halive'
  rw [hstruck.self.same]
  exact h halive

theorem run {events : List (MonsterManager.Event F)} (h : Cooling t₁ [] s)
    (hrun : Run (Keeping StaysDead (Happens m)) s events s') : Cooling t₁ (clocks m events) s' := by
  refine hrun.invariant_trace (fun past s => Cooling t₁ (clocks m past) s) h ?_
  rintro past a e b ha ⟨hdead, hhappens⟩
  cases hhappens with
  | tick w =>
    have hlast : clocks m (past ++ [.Tick m w]) = clocks m past ++ [w.now] := by
      simp [clocks, ticks_concat_tick]
    rw [hlast]
    exact ha.tick hdead
  | other hother hstruck =>
    rw [clocks, ticks_concat_other hother]
    exact ha.struck hstruck

end Cooling

variable {mm mm' mm₁ mm₂ mm₃ mm₄ : MonsterManager F} {e₁ e₂ : MonsterManager.Event F}
  {before between : List (MonsterManager.Event F)}

/-- A step that sends an attack of a monster is a tick in which it begins one. -/
theorem Plays.attacks (h : Plays m s mm) (h' : Plays m s' mm') (hhappens : Happens m s e s')
    (hattacks : mm.attacks m mm' ≠ []) :
    ∃ w, e = .Tick m w ∧ s.self.bAlive = true ∧ s'.self.bAlive = true ∧ Attacks w s s' ∧
      (mm.attacks m mm').length = 1 := by
  have hnew : ∀ new, s'.outputs = s.outputs ++ new → mm.attacks m mm' = new.filter (·.attacks m) := by
    intro new hnew
    unfold MonsterManager.attacks
    rw [← (stage_eq_some_iff.mp h.stage).2, ← (stage_eq_some_iff.mp h'.stage).2, hnew, List.drop_left]
  have hquiet : ¬ Quiet m s s' := by
    rintro ⟨new, houtputs, hquiet⟩
    refine hattacks ((hnew new houtputs).trans (List.filter_eq_nil_iff.mpr fun o ho => ?_))
    rw [hquiet o ho]
    exact Bool.false_ne_true
  cases hhappens with
  | tick w =>
    obtain hstill | ⟨halive, hbegins⟩ := runAI_sends m w s
    · exact absurd hstill hquiet
    · obtain ⟨target, houtputs⟩ := hbegins.outputs
      refine ⟨w, rfl, halive, bAlive_runAI halive, hbegins, ?_⟩
      rw [hnew _ houtputs] at hattacks ⊢
      cases hmine : (Output.MONSTER_ATTACK (F := F) s.self.monsterNumber target).attacks m with
      | true => rw [List.filter_singleton, hmine, cond_true, List.length_singleton]
      | false => simp [hmine] at hattacks
  | other _ hstruck => exact absurd hstruck.quiet hquiet

/-- Two attacks that a monster sends in one life are at least the cool time apart, and a tick
sends one at most. -/
theorem attacks_apart [MonotoneSub F] (hbegun : Begun infos f m mon mm)
    (hbefore : Run (Guarded (playing m) (OfOption (MonsterManager.next infos f))) mm before mm₁)
    (hfirst : Guarded (playing m) (OfOption (MonsterManager.next infos f)) mm₁ e₁ mm₂)
    (hattacks₁ : mm₁.attacks m mm₂ ≠ [])
    (hbetween : Run (Keeping (MonsterManager.Does m StaysDead)
      (Guarded (playing m) (OfOption (MonsterManager.next infos f)))) mm₂ between mm₃)
    (hsecond : Guarded (playing m) (OfOption (MonsterManager.next infos f)) mm₃ e₂ mm₄)
    (hattacks₂ : mm₃.attacks m mm₄ ≠ [])
    (hclocks : (clocks m (e₁ :: (between ++ [e₂]))).Pairwise (· ≤ ·)) :
    ∃ w₁ w₂, e₁ = .Tick m w₁ ∧ e₂ = .Tick m w₂ ∧ (mm₁.attacks m mm₂).length = 1 ∧ (mm₃.attacks m mm₄).length = 1 ∧
      ¬ w₂.now - w₁.now < lit 17 1 := by
  obtain ⟨w₀, outputs, -, hplays⟩ := hbegun.plays
  obtain ⟨s₁, hplays₁, _⟩ := hplays.run hbefore
  obtain ⟨s₂, hplays₂, hhappens₁⟩ := hplays₁.next hfirst.1 hfirst.2
  obtain ⟨s₃, hplays₃, hrun⟩ := hplays₂.run_does hbetween
  obtain ⟨s₄, hplays₄, hhappens₂⟩ := hplays₃.next hsecond.1 hsecond.2
  obtain ⟨w₁, rfl, -, halive₂, hbegins₁, hone₁⟩ := hplays₁.attacks hplays₂ hhappens₁ hattacks₁
  obtain ⟨w₂, rfl, halive₃, -, hbegins₂, hone₂⟩ := hplays₃.attacks hplays₄ hhappens₂ hattacks₂
  refine ⟨w₁, w₂, rfl, rfl, hone₁, hone₂, fun hsoon => ?_⟩
  have hcooling : Cooling w₁.now (clocks m between) s₃ :=
    Cooling.run (fun _ => .inl ⟨hbegins₁.attacking, hbegins₁.attackCoolTime⟩) hrun
  obtain ⟨hattacking, -⟩ | ⟨t, ht, hover⟩ := hcooling halive₃
  · exact absurd (hbegins₂.before.symm.trans hattacking) Bool.false_ne_true
  · have hlast : clocks m (between ++ [.Tick m w₂]) = clocks m between ++ [w₂.now] := by
      simp [clocks, ticks_concat_tick]
    have hsorted : (clocks m between ++ [w₂.now]).Pairwise (· ≤ ·) := by
      rw [← hlast]
      exact hclocks.sublist (((List.sublist_cons_self _ _).filterMap _).map _)
    have hle : t ≤ w₂.now := (List.pairwise_append.mp hsorted).2.2 t ht w₂.now (by simp)
    exact hover (lt_of_le_of_lt (MonotoneSub.sub_le_sub_right hle w₁.now) hsoon)

end CoolTime

section Example

/-- The slime attacks again when it has its player back. -/
theorem attacks_apart_standing :
    ∃ mm₁ mm₂ mm₃ mm₄ : MonsterManager Int, mm₁.next slime plainFormula (.Tick 0 beside) = some mm₂ ∧
      mm₁.attacks 0 mm₂ ≠ [] ∧
      Run (OfOption (MonsterManager.next slime plainFormula)) mm₂ [.Tick 0 away, .Tick 0 { beside with now := 2 }] mm₃ ∧
      mm₃.next slime plainFormula (.Tick 0 { beside with now := 2 }) = some mm₄ ∧ mm₃.attacks 0 mm₄ ≠ [] ∧
      ¬ (2 : Int) - 0 < lit 17 1 := by
  have hruns : ∃ mm₁ mm₂ mm₃ mm₄ mm₅ : MonsterManager Int,
      standing.next slime plainFormula (.BeginPlay 0 field) = some mm₁ ∧
      mm₁.next slime plainFormula (.Tick 0 beside) = some mm₂ ∧ (mm₁.attacks 0 mm₂).length = 1 ∧
      mm₂.next slime plainFormula (.Tick 0 away) = some mm₃ ∧ (mm₂.monsters 0).map Monster.bAlive = some true ∧
      mm₃.next slime plainFormula (.Tick 0 { beside with now := 2 }) = some mm₄ ∧
      (mm₃.monsters 0).map Monster.bAlive = some true ∧
      mm₄.next slime plainFormula (.Tick 0 { beside with now := 2 }) = some mm₅ ∧ (mm₄.attacks 0 mm₅).length = 1 :=
    ⟨_, _, _, _, _, rfl, rfl, rfl, rfl, rfl, rfl, rfl, rfl, rfl⟩
  obtain ⟨mm₁, mm₂, mm₃, mm₄, mm₅, hbegin, hfirst, hone₁, haway, halive₂, hback, halive₃, hsecond, hone₂⟩ := hruns
  obtain ⟨mon, hbegun⟩ := standing_begun hbegin
  have hstays : ∀ (mm mm' : MonsterManager Int) e, (mm.monsters 0).map Monster.bAlive = some true →
      MonsterManager.Does 0 StaysDead mm e mm' := by
    intro mm mm' e halive s s' hs _ hdead
    rw [(stage_eq_some_iff.mp hs).1, Option.map_some, hdead] at halive
    cases halive
  have hattacks₁ : mm₁.attacks 0 mm₂ ≠ [] := List.ne_nil_of_length_pos (by omega)
  have hattacks₂ : mm₄.attacks 0 mm₅ ≠ [] := List.ne_nil_of_length_pos (by omega)
  obtain ⟨w₁, w₂, htick₁, htick₂, -, -, hapart⟩ := attacks_apart hbegun (.nil mm₁) ⟨playing_tick, hfirst⟩ hattacks₁
    (.cons ⟨hstays _ _ _ halive₂, playing_tick, haway⟩ <| .cons ⟨hstays _ _ _ halive₃, playing_tick, hback⟩ <| .nil _)
    ⟨playing_tick, hsecond⟩ hattacks₂ (by decide)
  obtain ⟨-, rfl⟩ := MonsterManager.Event.Tick.inj htick₁
  obtain ⟨-, rfl⟩ := MonsterManager.Event.Tick.inj htick₂
  exact ⟨mm₁, mm₂, mm₄, mm₅, hfirst, hattacks₁, .cons haway <| .cons hback <| .nil _, hsecond, hattacks₂, hapart⟩

end Example

end AsioGameServer.monster

import AsioGameServer.Monster.Stage

open Function Number Transition

namespace AsioGameServer.monster

variable {F : Type} [Number F] {w : Surroundings F} {s s' : Stage F} {m : Int} {r time : F}
  {e : MonsterManager.Event F}

/-- Times as `curRespawnTime` adds them, one after the other. -/
def sum (ds : List F) : F := ds.foldl (· + ·) (ofInt 0)

theorem sum_concat (ds : List F) (d : F) : sum (ds ++ [d]) = sum ds + d := by
  simp [sum]

/-- A monster that began, with the time until its respawn. Its time since the death is zero
while it is alive. -/
structure Timed (r : F) (s : Stage F) : Prop where
  events : s.self.events = 1
  respawnTime : s.self.respawnTime = r
  alive : s.self.bAlive = true → s.self.curRespawnTime = ofInt 0

/-- A monster that is dead, with the time since its death. -/
structure Waiting (r time : F) (s : Stage F) : Prop where
  timed : Timed r s
  dead : s.self.bAlive = false
  curRespawnTime : s.self.curRespawnTime = time

/-- What a respawn sets. -/
theorem self_respawned (w : Surroundings F) (hevents : s.self.events = 1) :
    ∃ position, (SetAlive w true s).self = { s.self with
      bAlive := true, curRespawnTime := ofInt 0, currentHp := s.self.maxHp, state := .IDLE, bAttacking := false,
      position } := by
  rw [SetAlive_eq true hevents]
  change ∃ position, (Respawn w _).self = _
  unfold Respawn
  dsimp only
  split <;> split <;> exact ⟨_, rfl⟩

namespace Timed

/-- `UpdateState` lets only the dead wait. -/
theorem looks (h : Timed r s) {found : Bool} {s₁ : Stage F} (hlooks : Looks w s (found, s₁)) :
    Timed r s₁ ∧ (s₁.self.bAlive = true → s₁.self.state = .DIE → found = false) := by
  cases hlooks with
  | waits hdead _ =>
    refine ⟨⟨h.events, h.respawnTime, h.alive⟩, fun halive _ => ?_⟩
    exact absurd (hdead.symm.trans halive) Bool.false_ne_true
  | respawns =>
    obtain ⟨position, hself⟩ := self_respawned w (s := s.onMonster ({ · with state := .DIE })) h.events
    constructor
    · constructor
      · rw [hself]
        exact h.events
      · rw [hself]
        exact h.respawnTime
      · rw [hself]
        exact fun _ => rfl
    · rw [hself]
      exact fun _ => nofun
  | alone =>
    refine ⟨?_, fun _ _ => rfl⟩
    unfold locked Stage.onMonster
    dsimp only
    split
    · exact ⟨h.events, h.respawnTime, h.alive⟩
    · exact h
  | chases => exact ⟨⟨h.events, h.respawnTime, h.alive⟩, fun _ => nofun⟩
  | attacks => exact ⟨⟨h.events, h.respawnTime, h.alive⟩, fun _ => nofun⟩
  | idles =>
    refine ⟨?_, fun _ => nofun⟩
    unfold locked Stage.onMonster
    dsimp only
    split <;> exact ⟨h.events, h.respawnTime, h.alive⟩

theorem runState (h : Timed r s) (hstate : s.self.bAlive = true → s.self.state ≠ .DIE) : Timed r (runState w s) := by
  have hbranched : Branched s.self (monster.runState w s).self := runState_branched
  have hsame := hbranched.same
  refine ⟨?_, ?_, fun halive => ?_⟩
  · rw [hsame]
    exact h.events
  · rw [hsame]
    exact h.respawnTime
  · rw [hsame] at halive
    rw [hbranched.time (hstate halive)]
    exact h.alive halive

theorem runAI (h : Timed r s) : Timed r (runAI w s) := by
  obtain ⟨found, s₁, hlooks, hrun⟩ := runAI_looks w s
  obtain ⟨htimed, hstate⟩ := h.looks hlooks
  rw [hrun]
  split
  · rename_i hfound
    refine htimed.runState fun halive hdie => ?_
    rw [hstate halive hdie] at hfound
    cases hfound
  · exact htimed

theorem struck (h : Timed r s) (hstruck : Struck m s s') : Timed r s' := by
  have hsame := hstruck.self.same
  refine ⟨?_, ?_, fun halive => ?_⟩
  · rw [hsame]
    exact h.events
  · rw [hsame]
    exact h.respawnTime
  · cases hdead : s.self.bAlive with
    | false =>
      rw [hstruck.self.dead hdead, hdead] at halive
      cases halive
    | true =>
      rw [hsame]
      exact h.alive hdead

theorem happens (h : Timed r s) (hhappens : Happens m s e s') : Timed r s' := by
  cases hhappens with
  | tick w => exact h.runAI
  | other _ hstruck => exact h.struck hstruck

/-- The first `Respawn`. -/
theorem begin (hevents : s.self.events = 0) : Timed s.self.respawnTime (BeginPlay w s) := by
  obtain ⟨position, hself⟩ := self_respawned w (s := s.onMonster fun m => { m with events := m.events + 1 })
    (by simp [Stage.onMonster, hevents])
  have hbegin : (BeginPlay w s).self =
      { (SetAlive w true (s.onMonster fun m => { m with events := m.events + 1 })).self with bMove := false } := rfl
  rw [hself] at hbegin
  constructor
  · rw [hbegin]
    simp [Stage.onMonster, hevents]
  · rw [hbegin]
    rfl
  · rw [hbegin]
    exact fun _ => rfl

end Timed

/-- A monster that is alive dies of hits only. -/
theorem Timed.dies (h : Timed r s) (halive : s.self.bAlive = true) (hhappens : Happens m s e s')
    (hdead : s'.self.bAlive = false) : Waiting r (sum []) s' := by
  refine ⟨h.happens hhappens, hdead, ?_⟩
  cases hhappens with
  | tick w => exact absurd ((bAlive_runAI halive).symm.trans hdead) Bool.false_ne_true.symm
  | other _ hstruck =>
    rw [hstruck.self.same]
    exact h.alive halive

namespace Waiting

/-- A tick before the time is over adds to it. -/
theorem tick_early (h : Waiting r time s) (htime : time ≤ r) : Waiting r (time + w.delta) (runAI w s) := by
  have hrun : monster.runAI w s = (Die w (s.onMonster ({ · with state := .DIE }))).2 := by
    rw [runAI_dead h.dead, h.timed.respawnTime, h.curRespawnTime, if_neg (not_lt_of_ge htime)]
  refine ⟨h.timed.runAI, ?_, ?_⟩
  · rw [hrun]
    exact h.dead
  · rw [hrun]
    exact congrArg (· + w.delta) h.curRespawnTime

theorem struck (h : Waiting r time s) (hstruck : Struck m s s') : Waiting r time s' := by
  have hself := hstruck.self.dead h.dead
  refine ⟨h.timed.struck hstruck, ?_, ?_⟩
  · rw [hself]
    exact h.dead
  · rw [hself]
    exact h.curRespawnTime

/-- The first tick after the time is over brings the monster back. -/
theorem tick_late (h : Waiting r time s) (htime : r < time) :
    (runAI w s).self.bAlive = true ∧ (runAI w s).self.currentHp = (runAI w s).self.maxHp ∧
      (runAI w s).self.state = .IDLE := by
  have hrun : monster.runAI w s = runState w (SetAlive w true (s.onMonster ({ · with state := .DIE }))) := by
    rw [runAI_dead h.dead, h.timed.respawnTime, h.curRespawnTime, if_pos htime]
  obtain ⟨position, hself⟩ := self_respawned w (s := s.onMonster ({ · with state := .DIE })) h.timed.events
  rw [hrun, runState_branched.same]
  dsimp only
  rw [hself]
  exact ⟨rfl, rfl, rfl⟩

end Waiting

section Manager

variable {infos : Int → Option (MonsterInfo F)} {f : DamageFormula F} {mon : Monster F}
  {mm₁ mm₂ mm₃ mm₄ : MonsterManager F} {life after : List (MonsterManager.Event F)}

/-- How long the ticks of a monster were. -/
def deltas (m : Int) (events : List (MonsterManager.Event F)) : List F := (ticks m events).map Surroundings.delta

theorem waiting_of_run (h : Waiting r (sum []) s) (hrun : Run (Happens m) s after s')
    (hwaits : ∀ i < (deltas m after).length, sum ((deltas m after).take i) ≤ r) :
    Waiting r (sum (deltas m after)) s' := by
  refine hrun.invariant_trace (fun past s => (∀ i < (deltas m past).length, sum ((deltas m past).take i) ≤ r) →
    Waiting r (sum (deltas m past)) s) (fun _ => h) ?_ hwaits
  intro past a e b ha hhappens hwaits
  cases hhappens with
  | tick w =>
    have hlast : deltas m (past ++ [.Tick m w]) = deltas m past ++ [w.delta] := by
      simp [deltas, ticks_concat_tick]
    rw [hlast] at hwaits ⊢
    rw [sum_concat]
    have hearlier : ∀ i ≤ (deltas m past).length, sum ((deltas m past).take i) ≤ r := fun i hi => by
      have hi' := hwaits i (by simp; omega)
      rwa [List.take_append_of_le_length hi] at hi'
    refine (ha fun i hi => hearlier i (Nat.le_of_lt hi)).tick_early ?_
    have hnow := hearlier _ (Nat.le_refl _)
    rwa [List.take_length] at hnow
  | other hother hstruck =>
    have hlast : deltas m (past ++ [e]) = deltas m past := by rw [deltas, ticks_concat_other hother]; rfl
    rw [hlast] at hwaits ⊢
    exact (ha hwaits).struck hstruck

/-- A monster that died and did not respawn at an earlier tick respawns at a tick if and only
if the ticks before it, since its death, took longer than its respawn time. -/
theorem respawns_on_time (hbegun : Begun infos f m mon mm₁)
    (hlife : Run (Guarded (playing m) (OfOption (MonsterManager.next infos f))) mm₁ life mm₂)
    (halive : (mm₂.monsters m).map Monster.bAlive = some true)
    (hdies : Guarded (playing m) (OfOption (MonsterManager.next infos f)) mm₂ e mm₃)
    (hdead : (mm₃.monsters m).map Monster.bAlive = some false)
    (hrun : Run (Guarded (playing m) (OfOption (MonsterManager.next infos f))) mm₃ after mm₄)
    (hwaits : ∀ i < (deltas m after).length, sum ((deltas m after).take i) ≤ mon.respawnTime) :
    (mm₄.monsters m).map Monster.bAlive = some false ∧
      ∀ w, ∃ mm₅ mon', mm₄.next infos f (.Tick m w) = some mm₅ ∧ mm₅.monsters m = some mon' ∧
        (mon'.bAlive = true ↔ mon.respawnTime < sum (deltas m after)) ∧
        (mon'.bAlive = true → mon'.currentHp = mon'.maxHp ∧ mon'.state = .IDLE) := by
  obtain ⟨w₀, outputs, hevents, hplays₁⟩ := hbegun.plays
  obtain ⟨s₂, hplays₂, hlife⟩ := hplays₁.run hlife
  obtain ⟨s₃, hplays₃, hdies⟩ := hplays₂.next hdies.1 hdies.2
  obtain ⟨s₄, hplays₄, hrun⟩ := hplays₃.run hrun
  have hfirst : Timed mon.respawnTime (BeginPlay w₀ ⟨mon, outputs⟩) := Timed.begin (s := ⟨mon, outputs⟩) hevents
  have htimed : Timed mon.respawnTime s₂ := hlife.invariant hfirst fun _ _ _ h hhappens => h.happens hhappens
  rw [hplays₂.bAlive] at halive
  rw [hplays₃.bAlive] at hdead
  have hwaiting : Waiting mon.respawnTime (sum (deltas m after)) s₄ :=
    waiting_of_run (htimed.dies (Option.some.inj halive) hdies (Option.some.inj hdead)) hrun hwaits
  refine ⟨by rw [hplays₄.bAlive, hwaiting.dead], fun w => ?_⟩
  obtain ⟨mm₅, hplays₅, htick⟩ := hplays₄.tick infos f w
  refine ⟨mm₅, _, htick, (stage_eq_some_iff.mp hplays₅.stage).1, ?_⟩
  obtain hlate | hearly := lt_or_ge mon.respawnTime (sum (deltas m after))
  · obtain ⟨hback, hhp, hstate⟩ := hwaiting.tick_late hlate (w := w)
    exact ⟨⟨fun _ => hlate, fun _ => hback⟩, fun _ => ⟨hhp, hstate⟩⟩
  · have hstill := (hwaiting.tick_early hearly (w := w)).dead
    rw [hstill]
    exact ⟨⟨nofun, fun hlate => absurd hlate (not_lt_of_ge hearly)⟩, nofun⟩

end Manager

section Example

/-- A manager that spawned one slime, which respawns after two seconds. -/
def lateSlimes : MonsterManager Int :=
  MonsterManager.start.Add_Spawn_Monster slime ⟨1, 1, .zero, 0, 2⟩ fun _ => blank

def blow : MonsterManager.Event Int := .DamageProcess field (fencer 7) 0 .Combo1

/-- The second hit kills the slime, a third one comes too late, and it respawns at the fourth
tick. -/
theorem respawns_on_time_slime :
    ∃ mm₁ mm₄ mm₅ mon', lateSlimes.next slime plainFormula (.BeginPlay 0 field) = some mm₁ ∧
      Run (OfOption (MonsterManager.next slime plainFormula)) mm₁
        ([.Tick 0 field, blow, blow] ++ [.Tick 0 field, blow, .Tick 0 field, .Tick 0 field]) mm₄ ∧
      (mm₄.monsters 0).map Monster.bAlive = some false ∧
      mm₄.next slime plainFormula (.Tick 0 field) = some mm₅ ∧ mm₅.monsters 0 = some mon' ∧
      mon'.bAlive = true ∧ mon'.currentHp = mon'.maxHp := by
  have hlife : ∃ mm₁ mm₂ mm₃ mm₄ : MonsterManager Int,
      lateSlimes.next slime plainFormula (.BeginPlay 0 field) = some mm₁ ∧
      Run (Guarded (playing 0) (OfOption (MonsterManager.next slime plainFormula))) mm₁ [.Tick 0 field, blow] mm₂ ∧
      (mm₂.monsters 0).map Monster.bAlive = some true ∧
      Guarded (playing 0) (OfOption (MonsterManager.next slime plainFormula)) mm₂ blow mm₃ ∧
      (mm₃.monsters 0).map Monster.bAlive = some false ∧
      Run (Guarded (playing 0) (OfOption (MonsterManager.next slime plainFormula))) mm₃
        [.Tick 0 field, blow, .Tick 0 field, .Tick 0 field] mm₄ :=
    ⟨_, _, _, _, rfl, .cons ⟨trivial, rfl⟩ <| .cons ⟨trivial, rfl⟩ <| .nil _, rfl, ⟨trivial, rfl⟩, rfl,
      .cons ⟨trivial, rfl⟩ <| .cons ⟨trivial, rfl⟩ <| .cons ⟨trivial, rfl⟩ <| .cons ⟨trivial, rfl⟩ <| .nil _⟩
  obtain ⟨mm₁, mm₂, mm₃, mm₄, hbegin, hlife, halive, hdies, hdead, hrun⟩ := hlife
  have hspawned : Run (OfOption (MonsterManager.next slime plainFormula)) .start
      [.Add_Spawn_Monster ⟨1, 1, .zero, 0, 2⟩ fun _ => blank] lateSlimes := run_singleton_iff.mpr rfl
  obtain ⟨hstill, hback⟩ := respawns_on_time ⟨_, lateSlimes, field, hspawned, rfl, rfl, rfl, hbegin⟩ hlife halive
    hdies hdead hrun (by decide)
  obtain ⟨mm₅, mon', htick, hmon', hiff, hfresh⟩ := hback field
  have halive' : mon'.bAlive = true := hiff.mpr (by decide)
  refine ⟨mm₁, mm₄, mm₅, mon', hbegin, ?_, hstill, htick, hmon', halive', (hfresh halive').1⟩
  refine run_append_iff.mpr ⟨mm₃, ?_, hrun.of_guarded⟩
  exact run_append_iff.mpr ⟨mm₂, hlife.of_guarded, run_singleton_iff.mpr hdies.2⟩

end Example

end AsioGameServer.monster

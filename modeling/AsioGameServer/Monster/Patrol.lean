import AsioGameServer.Monster.Attack

open Function Number Transition

namespace AsioGameServer.monster

variable {F : Type} [Number F] {w : Surroundings F} {s s' s₁ : Stage F} {m : Int} {found : Bool}
  {e : MonsterManager.Event F}

/-- The waypoints that `FindPath` computes for a patrol. -/
def waypoints (w : Surroundings F) (mon : Monster F) : List (Vector3 F) :=
  let destination := w.findRandomPointAroundCircle mon.position.ToGLLocation (ofInt 15)
  (w.findStraightPath mon.position.ToGLLocation destination.ToUnrealLocation.ToGLLocation).map Vector3.ToUnrealLocation

/-- In a tick `UpdateIdle` goes from `HOLD` to `PATROL`. -/
structure StartsPatrol (w : Surroundings F) (s : Stage F) : Prop where
  found : (UpdateState w s).1 = true
  idle : (UpdateState w s).2.self.state = .IDLE
  hold : (UpdateState w s).2.self.idleState = .HOLD
  patrol : (UpdateIdle w (UpdateState w s).2).2.self.idleState = .PATROL

/-- The path of a patrol that starts is its own. -/
def OwnPath (m : Int) (s : Stage F) (e : MonsterManager.Event F) (_ : Stage F) : Prop :=
  ∀ w, e = .Tick m w → StartsPatrol w s →
    (UpdateIdle w (UpdateState w s).2).2.self.paths = waypoints w (UpdateState w s).2.self

/-- Where a tick starts a patrol, no waypoint is left. -/
def NothingLeft (m : Int) (s : Stage F) (e : MonsterManager.Event F) : Prop :=
  ∀ w, e = .Tick m w → StartsPatrol w s → s.self.paths = []

/-- `UpdateIdle` adds the path of a patrol to what is there. -/
theorem paths_UpdateIdle (hhold : s.self.idleState = .HOLD) (hpatrol : (UpdateIdle w s).2.self.idleState = .PATROL) :
    (UpdateIdle w s).2.self.paths = s.self.paths ++ waypoints w s.self := by
  unfold UpdateIdle at hpatrol ⊢
  rw [hhold] at hpatrol ⊢
  dsimp only at hpatrol ⊢
  split at hpatrol
  · exact absurd (hhold.symm.trans hpatrol) (by simp)
  · rename_i htime
    rw [if_neg htime]
    split at hpatrol
    · rename_i hnavi
      rw [if_pos hnavi]
      dsimp only [Stage.onMonster]
      unfold Monster.FindPath
      rw [if_pos hnavi]
      rfl
    · exact absurd (hhold.symm.trans hpatrol) (by simp)

omit [Number F] in
/-- `UpdateState` leaves alone what a monster does while it is idle. -/
theorem way_locked (mon : Monster F) : (locked mon).idleState = mon.idleState ∧ (locked mon).paths = mon.paths := by
  unfold locked
  split <;> exact ⟨rfl, rfl⟩

/-- A respawn leaves the way of the life before. -/
theorem way_SetAlive_true (w : Surroundings F) (s : Stage F) :
    (SetAlive w true s).self.idleState = s.self.idleState ∧ (SetAlive w true s).self.paths = s.self.paths := by
  have hiterate : ∀ n (s : Stage F), ((onAlive w true)^[n] s).self.idleState = s.self.idleState ∧
      ((onAlive w true)^[n] s).self.paths = s.self.paths := by
    intro n
    induction n with
    | zero => exact fun s => ⟨rfl, rfl⟩
    | succ n ih =>
      intro s
      obtain ⟨hidle, hpaths⟩ := ih (onAlive w true s)
      rw [iterate_succ_apply, hidle, hpaths]
      change (Respawn w s).self.idleState = _ ∧ (Respawn w s).self.paths = _
      unfold Respawn
      dsimp only
      split <;> split <;> exact ⟨rfl, rfl⟩
  exact hiterate _ _

/-- `UpdateState` leaves the way alone where it does not chase. -/
theorem Looks.way {p : Bool × Stage F} (h : Looks w s p) :
    p.2.self.idleState = s.self.idleState ∧ (p.2.self.state ≠ .CHASE → p.2.self.paths = s.self.paths) := by
  cases h with
  | waits => exact ⟨rfl, fun _ => rfl⟩
  | respawns =>
    obtain ⟨hidle, hpaths⟩ := way_SetAlive_true w (s.onMonster ({ · with state := .DIE }))
    exact ⟨hidle, fun _ => hpaths⟩
  | alone => exact ⟨(way_locked _).1, fun _ => (way_locked _).2⟩
  | chases => exact ⟨rfl, fun hstate => absurd rfl hstate⟩
  | attacks => exact ⟨rfl, fun _ => rfl⟩
  | idles => exact ⟨(way_locked _).1, fun _ => (way_locked _).2⟩

/-- No path is searched where the state is updated. -/
theorem StartsPatrol.paths (h : StartsPatrol w s) :
    (UpdateState w s).2.self.paths = s.self.paths := by
  have hstate : (UpdateState w s).2.self.state ≠ .CHASE := by
    rw [h.idle]
    simp
  exact (UpdateState_looks w s).way.2 hstate

/-- The condition on the state before the tick says exactly what the tick does to the path. -/
theorem nothingLeft_iff_ownPath : NothingLeft m s e ↔ OwnPath m s e s' := by
  have hpaths : ∀ w, StartsPatrol w s → (UpdateIdle w (UpdateState w s).2).2.self.paths =
      s.self.paths ++ waypoints w (UpdateState w s).2.self := by
    intro w hstarts
    rw [paths_UpdateIdle hstarts.hold hstarts.patrol, hstarts.paths]
  constructor
  · intro hnothing w htick hstarts
    rw [hpaths w hstarts, hnothing w htick hstarts, List.nil_append]
  · intro hown w htick hstarts
    exact List.append_left_eq_self.mp ((hpaths w hstarts).symm.trans (hown w htick hstarts))

section Chases

/-- `UpdateState` finds a player to chase. -/
structure Chases (w : Surroundings F) (mon : Monster F) : Prop where
  alive : mon.bAlive = true
  cm : w.cm = true
  notices : Notices w mon
  far : ofInt 100 < (w.SearchNearPlayer mon.position).2

/-- A monster that chased in `HOLD` and does not go on has no waypoint left. -/
def EndsChase (m : Int) (s : Stage F) (e : MonsterManager.Event F) : Prop :=
  ∀ w, e = .Tick m w → s.self.state = .CHASE → s.self.idleState = .HOLD → ¬ Chases w s.self → s.self.paths = []

/-- In `HOLD` only a chase has waypoints. -/
def Held (s : Stage F) : Prop := s.self.idleState = .HOLD → s.self.state = .CHASE ∨ s.self.paths = []

/-- A monster that begins without a path holds the invariant. -/
theorem Held.begin (hpaths : s.self.paths = []) : Held (BeginPlay w s) := by
  have hway : (BeginPlay w s).self.paths = s.self.paths :=
    (way_SetAlive_true w (s.onMonster fun m => { m with events := m.events + 1 })).2
  exact fun _ => .inr (hway.trans hpaths)

/-- A monster that sees somebody to chase is in the state for it after `UpdateState`. -/
theorem Looks.chasing {p : Bool × Stage F} (h : Looks w s p) (hchases : Chases w s.self) : p.2.self.state = .CHASE := by
  cases h with
  | waits hdead | respawns hdead => exact absurd (hdead.symm.trans hchases.alive) Bool.false_ne_true
  | alone _ hcm => exact absurd (hcm.symm.trans hchases.cm) Bool.false_ne_true
  | chases => rfl
  | attacks _ _ _ hnear => exact absurd hchases.far (not_lt_of_ge hnear)
  | idles _ _ hnone => exact absurd hchases.notices hnone

/-- A monster that does not chase has nothing left in `HOLD` when it looked. -/
theorem Held.looks (h : Held s) (hends : EndsChase m s (.Tick m w)) (hlooks : Looks w s (found, s₁))
    (hstate : s₁.self.state ≠ .CHASE) (hhold : s₁.self.idleState = .HOLD) : s₁.self.paths = [] := by
  obtain ⟨hidle, hpaths⟩ := hlooks.way
  have hhold' : s.self.idleState = .HOLD := hidle.symm.trans hhold
  refine (hpaths hstate).trans ?_
  obtain hchase | hempty := h hhold'
  · exact hends w rfl hchase hhold' fun hchases => hstate (hlooks.chasing hchases)
  · exact hempty

/-- A step along the path does not change whether a monster patrols or holds. -/
theorem idleState_follow (delta : F) (mon : Monster F) : (follow delta mon).2.idleState = mon.idleState := by
  have hmoving : ∀ mon : Monster F, (mon.Moving delta).idleState = mon.idleState := fun mon => by
    unfold Monster.Moving
    split <;> rfl
  unfold follow
  split
  · rfl
  · dsimp only
    split
    · rfl
    · exact hmoving _

/-- A monster that holds after its idle branch has no path, if none was left to it. -/
theorem paths_runIdle (h : s.self.idleState = .HOLD → s.self.paths = [])
    (hhold : (runIdle w s).self.idleState = .HOLD) :
    (runIdle w s).self.paths = [] := by
  have hupdate : (UpdateIdle w s).2.self.idleState = .HOLD → (UpdateIdle w s).2.self.paths = [] := by
    unfold UpdateIdle
    split
    · rename_i hpatrol
      split
      · rename_i hpaths
        exact fun _ => hpaths
      · exact fun hhold => absurd (hpatrol.symm.trans hhold) (by simp)
    · rename_i hhold
      split
      · exact fun _ => h hhold
      · dsimp only
        split
        · exact nofun
        · exact fun _ => h hhold
  unfold runIdle at hhold ⊢
  dsimp only at hhold ⊢
  split
  · rename_i hpatrol
    rw [hpatrol] at hhold
    exact absurd (hpatrol.symm.trans ((idleState_follow _ _).symm.trans hhold)) (by simp)
  · rename_i hhold
    exact hupdate hhold

/-- Every branch keeps the invariant, if a monster that holds and does not chase comes to its
branch without a path. -/
theorem Held.runState (hempty : s.self.state ≠ .CHASE → s.self.idleState = .HOLD → s.self.paths = []) :
    Held (runState w s) := by
  intro hhold
  rw [state_runState]
  by_cases hstate : s.self.state = .CHASE
  · exact .inl hstate
  · right
    unfold monster.runState at hhold ⊢
    cases hstate' : s.self.state with
    | IDLE =>
      rw [hstate'] at hhold
      exact paths_runIdle (hempty hstate) hhold
    | CHASE => exact absurd hstate' hstate
    | ATTACK =>
      rw [hstate'] at hhold
      have hway : (Attack w s).2.self.idleState = s.self.idleState ∧ (Attack w s).2.self.paths = s.self.paths := by
        unfold Attack
        split
        · split <;> exact ⟨rfl, rfl⟩
        · dsimp only
          split <;> exact ⟨rfl, rfl⟩
      exact hway.2.trans (hempty hstate (hway.1.symm.trans hhold))
    | DIE =>
      rw [hstate'] at hhold
      exact hempty hstate hhold

/-- A tick keeps the invariant where the chase, if there was one, ends with its path. -/
theorem Held.tick (h : Held s) (hends : EndsChase m s (.Tick m w)) : Held (runAI w s) := by
  obtain ⟨found, s₁, hlooks, hrun⟩ := runAI_looks w s
  rw [hrun]
  split
  · exact Held.runState (h.looks hends hlooks)
  · intro hhold
    by_cases hstate : s₁.self.state = .CHASE
    · exact .inl hstate
    · exact .inr (h.looks hends hlooks hstate hhold)

omit [Number F] in
/-- Hits leave the path of a monster alone. -/
theorem Held.struck (h : Held s) (hstruck : Struck m s s') : Held s' := by
  unfold Held
  rw [hstruck.self.same]
  exact h

/-- Under the invariant, a condition on chases is enough for every step of the run. -/
theorem Held.nothingLeft (h : Held s) (hends : EndsChase m s e) : NothingLeft m s e := by
  rintro w rfl hstarts
  have hstate : (UpdateState w s).2.self.state ≠ .CHASE := by
    rw [hstarts.idle]
    simp
  exact hstarts.paths.symm.trans (h.looks hends (UpdateState_looks w s) hstate hstarts.hold)

variable {infos : Int → Option (MonsterInfo F)} {f : DamageFormula F} {mon : Monster F} {mm mm' : MonsterManager F}
  {events : List (MonsterManager.Event F)}

/-- The patrols of a monster follow their own paths in the runs where none starts with
waypoints left, such as those where no chase in `HOLD` ends with waypoints. -/
theorem patrols_follow_own_path_iff (hbegun : Begun infos f m mon mm) :
    (Run (Keeping (MonsterManager.Does m (OwnPath m)) (Guarded (playing m) (OfOption (MonsterManager.next infos f))))
        mm events mm' ↔
      Run (Guarded (MonsterManager.Meets m (NothingLeft m))
        (Guarded (playing m) (OfOption (MonsterManager.next infos f)))) mm events mm') ∧
    (mon.paths = [] →
      Run (Guarded (MonsterManager.Meets m (EndsChase m))
        (Guarded (playing m) (OfOption (MonsterManager.next infos f)))) mm events mm' →
      Run (Guarded (MonsterManager.Meets m (NothingLeft m))
        (Guarded (playing m) (OfOption (MonsterManager.next infos f)))) mm events mm') := by
  obtain ⟨w₀, outputs, -, hplays⟩ := hbegun.plays
  refine ⟨(hplays.run_meets_iff_does fun s e s' _ => nothingLeft_iff_ownPath).symm, fun hpaths hrun => ?_⟩
  have hheld : Held (BeginPlay w₀ ⟨mon, outputs⟩) := Held.begin (s := ⟨mon, outputs⟩) hpaths
  refine hrun.mono_of_invariant (fun mm => ∃ s, Plays m s mm ∧ Held s) ⟨_, hplays, hheld⟩ ?_
  rintro a e b ⟨s, hs, hheld⟩ ⟨hends, hplaying, hnext⟩
  obtain ⟨s', hs', hhappens⟩ := hs.next hplaying hnext
  refine ⟨⟨s', hs', ?_⟩, fun t ht => ?_, hplaying, hnext⟩
  · cases hhappens with
    | tick w => exact hheld.tick (hends s hs.stage)
    | other _ hstruck => exact hheld.struck hstruck
  · obtain rfl := Option.some.inj (hs.stage.symm.trans ht)
    exact hheld.nothingLeft (hends s ht)

end Chases

section Example

/-- A player who went away, with a way of two more corners. -/
def farAway : Surroundings Int :=
  { away with findStraightPath := fun _ _ => [⟨-1, 0, 0⟩, ⟨-1, 0, 0⟩, ⟨-7, 0, 0⟩] }

/-- Nobody is there for five seconds, and a way leads on to the 300. -/
def quiet : Surroundings Int :=
  { field with
    navi := true
    findStraightPath := fun _ _ => [⟨-1, 0, 0⟩, ⟨-3, 0, 0⟩]
    delta := 5 }

theorem patrols_follow_own_path_quiet :
    ∃ mm mm', standing.next slime plainFormula (.BeginPlay 0 field) = some mm ∧
      Run (Keeping (MonsterManager.Does 0 (OwnPath 0))
        (Guarded (playing 0) (OfOption (MonsterManager.next slime plainFormula))))
        mm [.Tick 0 quiet, .Tick 0 quiet] mm' ∧
      (mm'.monsters 0).map Monster.paths = some [⟨300, 0, 0⟩] := by
  have hruns : ∃ mm mm₁ mm' s s₁, standing.next slime plainFormula (.BeginPlay 0 field) = some mm ∧
      mm.next slime plainFormula (.Tick 0 quiet) = some mm₁ ∧ mm₁.next slime plainFormula (.Tick 0 quiet) = some mm' ∧
      mm.stage 0 = some s ∧ s.self.paths = [] ∧ mm₁.stage 0 = some s₁ ∧ s₁.self.paths = [] ∧
      (mm'.monsters 0).map Monster.paths = some [⟨300, 0, 0⟩] :=
    ⟨_, _, _, _, _, rfl, rfl, rfl, rfl, rfl, rfl, rfl, rfl⟩
  obtain ⟨mm, mm₁, mm', s, s₁, hbegin, hfirst, hsecond, hs, hempty, hs₁, hempty₁, hpaths⟩ := hruns
  obtain ⟨mon, hbegun⟩ := standing_begun hbegin
  have hnothing : ∀ {mm : MonsterManager Int} {s e}, mm.stage 0 = some s → s.self.paths = [] →
      MonsterManager.Meets 0 (NothingLeft 0) mm e := by
    intro mm s e hs hempty t ht _ _ _
    obtain rfl := Option.some.inj (hs.symm.trans ht)
    exact hempty
  refine ⟨mm, mm', hbegin, (patrols_follow_own_path_iff hbegun).1.mpr ?_, hpaths⟩
  exact .cons ⟨hnothing hs hempty, playing_tick, hfirst⟩ <| .cons ⟨hnothing hs₁ hempty₁, playing_tick, hsecond⟩ <|
    .nil _

/-- The slime gives up a chase with two waypoints left, waits, and patrols along them. -/
theorem not_patrols_follow_own_path :
    ∃ mon mm mm', Begun slime plainFormula 0 mon mm ∧
      Run (Guarded (playing 0) (OfOption (MonsterManager.next slime plainFormula))) mm
        [.Tick 0 farAway, .Tick 0 quiet, .Tick 0 quiet] mm' ∧
      (mm'.monsters 0).map (fun mon => (mon.idleState, mon.paths)) =
        some (.PATROL, [⟨700, 0, 0⟩, ⟨100, 0, 0⟩, ⟨300, 0, 0⟩]) ∧
      ¬ Run (Keeping (MonsterManager.Does 0 (OwnPath 0))
        (Guarded (playing 0) (OfOption (MonsterManager.next slime plainFormula)))) mm
        [.Tick 0 farAway, .Tick 0 quiet, .Tick 0 quiet] mm' := by
  have hruns : ∃ mm mm₁ mm₂ mm' s₂ s', standing.next slime plainFormula (.BeginPlay 0 field) = some mm ∧
      mm.next slime plainFormula (.Tick 0 farAway) = some mm₁ ∧ mm₁.next slime plainFormula (.Tick 0 quiet) = some mm₂ ∧
      mm₂.next slime plainFormula (.Tick 0 quiet) = some mm' ∧ mm₂.stage 0 = some s₂ ∧ mm'.stage 0 = some s' ∧
      StartsPatrol quiet s₂ ∧
      (UpdateIdle quiet (UpdateState quiet s₂).2).2.self.paths = [⟨100, 0, 0⟩, ⟨700, 0, 0⟩, ⟨100, 0, 0⟩, ⟨300, 0, 0⟩] ∧
      waypoints quiet (UpdateState quiet s₂).2.self = [⟨100, 0, 0⟩, ⟨300, 0, 0⟩] ∧
      (s'.self.idleState, s'.self.paths) = (.PATROL, [⟨700, 0, 0⟩, ⟨100, 0, 0⟩, ⟨300, 0, 0⟩]) :=
    ⟨_, _, _, _, _, _, rfl, rfl, rfl, rfl, rfl, rfl, ⟨rfl, rfl, rfl, rfl⟩, rfl, rfl, rfl⟩
  obtain ⟨mm, mm₁, mm₂, mm', s₂, s', hbegin, hfar, hwaits, hquiet, hs₂, hs', hstarts, hpaths, hown, hlast⟩ := hruns
  obtain ⟨mon, hbegun⟩ := standing_begun hbegin
  refine ⟨mon, mm, mm', hbegun, ?_, ?_, ?_⟩
  · exact .cons ⟨playing_tick, hfar⟩ <| .cons ⟨playing_tick, hwaits⟩ <| .cons ⟨playing_tick, hquiet⟩ <| .nil _
  · rw [(stage_eq_some_iff.mp hs').1]
    exact congrArg some hlast
  · rintro (_ | ⟨⟨_, _, hfar'⟩, (_ | ⟨⟨_, _, hwaits'⟩, (_ | ⟨⟨hdoes, _, hquiet'⟩, _⟩)⟩)⟩)
    obtain rfl := Option.some.inj (hfar.symm.trans hfar')
    obtain rfl := Option.some.inj (hwaits.symm.trans hwaits')
    obtain rfl := Option.some.inj (hquiet.symm.trans hquiet')
    have hsame := hdoes s₂ s' hs₂ hs' quiet rfl hstarts
    rw [hpaths, hown] at hsame
    exact absurd (congrArg List.length hsame) (by simp)

end Example

end AsioGameServer.monster

import AsioGameServer.Lib.Stopwatch
import AsioGameServer.Monster.Patrol
import AsioGameServer.Monster.Respawn

open Number Stopwatch Transition

namespace AsioGameServer.monster

variable {F : Type} [Number F] {w : Surroundings F} {s s' s₁ : Stage F} {m : Int} {found : Bool} {r first : F}

/-- `UpdateState` finds nothing to do but to be idle: nobody is near, or the monster is just
back from the dead. -/
def Idles (w : Surroundings F) (mon : Monster F) : Prop :=
  if mon.bAlive then w.cm = true ∧ ¬ Notices w mon else mon.respawnTime < mon.curRespawnTime

instance (w : Surroundings F) (mon : Monster F) : Decidable (Idles w mon) := by
  unfold Idles Notices
  infer_instance

/-- What the idle branch keeps of a monster beside its way. -/
def Monster.idling (mon : Monster F) : IdleState × F × F := (mon.idleState, mon.idleTime, mon.curIdleTime)

/-- What an idle tick makes of it. -/
def rested (w : Surroundings F) (mon : Monster F) : IdleState × F × F :=
  match mon.idleState with
  | .PATROL => if mon.paths = [] then (.HOLD, w.idleTimeRange, ofInt 0 + w.delta) else mon.idling
  | .HOLD =>
    if mon.idleTime ≤ mon.curIdleTime ∧ w.navi = true then (.PATROL, mon.idleTime, mon.curIdleTime)
    else (.HOLD, mon.idleTime, mon.curIdleTime + w.delta)

section Tick

theorem idling_follow (delta : F) (mon : Monster F) : (follow delta mon).2.idling = mon.idling := by
  have hmoving : ∀ mon : Monster F, (mon.Moving delta).idling = mon.idling := fun mon => by
    unfold Monster.Moving
    split <;> rfl
  unfold follow
  split
  · rfl
  · dsimp only
    split
    · rfl
    · exact hmoving _

theorem idling_runIdle : (runIdle w s).self.idling = rested w s.self := by
  unfold runIdle UpdateIdle rested
  cases hidle : s.self.idleState with
  | PATROL =>
    dsimp only
    by_cases hpaths : s.self.paths = []
    · rw [if_pos hpaths, if_pos hpaths]
      rfl
    · rw [if_neg hpaths, if_neg hpaths]
      dsimp only
      rw [hidle]
      exact idling_follow _ _
  | HOLD =>
    dsimp only
    by_cases htime : s.self.idleTime ≤ s.self.curIdleTime
    · rw [if_neg (not_lt_of_ge htime)]
      cases hnavi : w.navi with
      | true =>
        have hpath : ∀ dest (mon : Monster F), (mon.FindPath w dest).idleTime = mon.idleTime ∧
            (mon.FindPath w dest).curIdleTime = mon.curIdleTime := fun dest mon => by
          unfold Monster.FindPath
          split <;> exact ⟨rfl, rfl⟩
        rw [if_pos rfl, if_pos ⟨htime, rfl⟩]
        refine (idling_follow _ _).trans ?_
        exact Prod.ext rfl (Prod.ext (hpath _ _).1 (hpath _ _).2)
      | false =>
        rw [if_neg Bool.false_ne_true, if_neg fun h => Bool.false_ne_true h.2]
        dsimp only [Stage.onMonster]
        rw [hidle]
        rfl
    · rw [if_pos (lt_of_not_ge htime), if_neg fun h => htime h.1]
      dsimp only
      rw [hidle]
      exact Prod.ext hidle rfl

/-- The other branches leave it. -/
theorem idling_runState (hstate : s.self.state ≠ .IDLE) : (runState w s).self.idling = s.self.idling := by
  unfold runState
  cases hstate' : s.self.state with
  | IDLE => exact absurd hstate' hstate
  | CHASE => exact idling_follow _ _
  | ATTACK =>
    unfold Attack
    dsimp only
    split
    · split <;> rfl
    · split <;> rfl
  | DIE => rfl

omit [Number F] in
theorem idling_locked (mon : Monster F) : (locked mon).idling = mon.idling := by
  unfold locked
  split <;> rfl

/-- `UpdateState` chooses the branch and leaves the rest to it. -/
theorem Looks.rests (hevents : s.self.events = 1) (h : Looks w s (found, s₁)) :
    s₁.self.idling = s.self.idling ∧
      (Idles w s.self → found = true ∧ s₁.self.state = .IDLE ∧ s₁.self.paths = s.self.paths) ∧
      (found = true → s₁.self.state = .IDLE → Idles w s.self) := by
  unfold Idles
  cases h with
  | waits hdead htime =>
    rw [if_neg (by simp [hdead])]
    exact ⟨rfl, fun hover => absurd hover (not_lt_of_ge htime), fun _ hstate => by cases hstate⟩
  | respawns hdead htime =>
    obtain ⟨position, hself⟩ := self_respawned w (s := s.onMonster ({ · with state := .DIE })) hevents
    rw [if_neg (by simp [hdead]), hself]
    exact ⟨rfl, fun _ => ⟨rfl, rfl, rfl⟩, fun _ _ => htime⟩
  | alone halive hcm =>
    rw [if_pos halive]
    refine ⟨idling_locked _, fun hidles => ?_, fun hfound => by cases hfound⟩
    exact absurd (hcm.symm.trans hidles.1) Bool.false_ne_true
  | chases halive _ hnotices =>
    rw [if_pos halive]
    exact ⟨rfl, fun hidles => absurd hnotices hidles.2, fun _ hstate => by cases hstate⟩
  | attacks halive _ hnotices =>
    rw [if_pos halive]
    exact ⟨rfl, fun hidles => absurd hnotices hidles.2, fun _ hstate => by cases hstate⟩
  | idles halive hcm hnone =>
    rw [if_pos halive]
    exact ⟨idling_locked _, fun _ => ⟨rfl, rfl, (way_locked _).2⟩, fun _ _ => ⟨hcm, hnone⟩⟩

/-- An idle tick looks at these members only. -/
theorem rested_congr {mon mon' : Monster F} (hidling : mon'.idling = mon.idling) (hpaths : mon'.paths = mon.paths) :
    rested w mon' = rested w mon := by
  obtain ⟨hstate, htimes⟩ := Prod.mk.inj hidling
  obtain ⟨htime, hcur⟩ := Prod.mk.inj htimes
  unfold rested
  rw [hstate, htime, hcur, hpaths, hidling]

/-- A tick is an idle one, or it leaves the hold as it was. -/
theorem idling_runAI (hevents : s.self.events = 1) :
    (runAI w s).self.idling = if Idles w s.self then rested w s.self else s.self.idling := by
  obtain ⟨found, s₁, hlooks, hrun⟩ := runAI_looks w s
  obtain ⟨hidling, hidles, hbusy⟩ := hlooks.rests hevents
  rw [hrun]
  split
  · rename_i hfound
    split
    · rename_i hidle
      obtain ⟨-, hstate, hpaths⟩ := hidles hidle
      unfold runState
      rw [hstate]
      exact idling_runIdle.trans (rested_congr hidling hpaths)
    · rename_i hbusy'
      exact (idling_runState fun hstate => hbusy' (hbusy hfound hstate)).trans hidling
  · rename_i hfound
    rw [if_neg fun hidle => hfound (hidles hidle).1]
    exact hidling

theorem idleState_runAI (hevents : s.self.events = 1) :
    (runAI w s).self.idleState = (if Idles w s.self then rested w s.self else s.self.idling).1 := by
  rw [← idling_runAI hevents]
  rfl

theorem ends_hold (hevents : s.self.events = 1) (hhold : s.self.idleState = .HOLD) :
    (runAI w s).self.idleState = .PATROL ↔
      Idles w s.self ∧ w.navi = true ∧ s.self.idleTime ≤ s.self.curIdleTime := by
  rw [idleState_runAI hevents]
  split
  · rename_i hidles
    unfold rested
    rw [hhold]
    dsimp only
    split
    · rename_i hends
      exact ⟨fun _ => ⟨hidles, hends.2, hends.1⟩, fun _ => rfl⟩
    · rename_i hholds
      exact ⟨fun hstate => absurd hstate (by simp), fun hends => absurd ⟨hends.2.2, hends.2.1⟩ hholds⟩
  · rename_i hbusy
    exact ⟨fun hstate => absurd (hhold.symm.trans hstate) (by simp), fun hends => absurd hends.1 hbusy⟩

theorem starts_hold (hevents : s.self.events = 1) (hpatrol : s.self.idleState = .PATROL) :
    (runAI w s).self.idleState = .HOLD ↔ Idles w s.self ∧ s.self.paths = [] := by
  rw [idleState_runAI hevents]
  split
  · rename_i hidles
    unfold rested
    rw [hpatrol]
    dsimp only
    split
    · rename_i hpaths
      exact ⟨fun _ => ⟨hidles, hpaths⟩, fun _ => rfl⟩
    · rename_i hpaths
      exact ⟨fun hstate => absurd (hpatrol.symm.trans hstate) (by simp), fun hends => absurd hends.2 hpaths⟩
  · rename_i hbusy
    exact ⟨fun hstate => absurd (hpatrol.symm.trans hstate) (by simp), fun hends => absurd hends.1 hbusy⟩

end Tick

/-- An idle tick: whether a hold starts in it, the time drawn for that, and how long it was. -/
structure Rest (F : Type) where
  starts : Bool
  drawn : F
  delta : F

def restOf (w : Surroundings F) (mon : Monster F) : Rest F :=
  ⟨mon.idleState = .PATROL ∧ mon.paths = [], w.idleTimeRange, w.delta⟩

/-- The idle ticks of one monster. -/
def MonsterManager.rest (m : Int) (mm : MonsterManager F) : MonsterManager.Event F → Option (Rest F)
  | .Tick number w =>
    if number = m then
      (mm.monsters m).bind fun mon => if Idles w mon then some (restOf w mon) else none
    else none
  | _ => none

/-- The time drawn for the hold, and how long the idle ticks since its start were. -/
def timeToHold (first : F) (rests : List (Rest F)) : F := (started Rest.starts rests).elim first Rest.drawn

def timeHeld (rests : List (Rest F)) : F := sum ((lap Rest.starts rests).map Rest.delta)

/-- A hold knows its times. -/
def Holds (first : F) (rests : List (Rest F)) (s : Stage F) : Prop :=
  s.self.idleState = .HOLD → s.self.idleTime = timeToHold first rests ∧ s.self.curIdleTime = timeHeld rests

namespace Holds

variable {rests : List (Rest F)}

theorem congr (h : Holds first rests s) (hidling : s'.self.idling = s.self.idling) : Holds first rests s' := by
  obtain ⟨hstate, htimes⟩ := Prod.mk.inj hidling
  obtain ⟨htime, hcur⟩ := Prod.mk.inj htimes
  unfold Holds
  rw [hstate, htime, hcur]
  exact h

/-- A monster begins as it was constructed. -/
theorem begin {mon : Monster F} {outputs : List (Output F)} (hevents : mon.events = 0)
    (hfresh : mon.curIdleTime = ofInt 0) : Holds mon.idleTime [] (BeginPlay w ⟨mon, outputs⟩) := by
  obtain ⟨position, hself⟩ := self_respawned w
    (s := (⟨mon, outputs⟩ : Stage F).onMonster fun m => { m with events := m.events + 1 })
    (by simp [Stage.onMonster, hevents])
  have hidling : (BeginPlay w ⟨mon, outputs⟩).self.idling = mon.idling := by
    change (SetAlive w true _).self.idling = _
    rw [hself]
    rfl
  obtain ⟨-, htimes⟩ := Prod.mk.inj hidling
  obtain ⟨htime, hcur⟩ := Prod.mk.inj htimes
  exact fun _ => ⟨htime, hcur.trans hfresh⟩

/-- An idle tick starts a hold, goes on with it or ends it. -/
theorem rest (h : Holds first rests s) (hidling : s'.self.idling = rested w s.self) :
    Holds first (rests ++ [restOf w s.self]) s' := by
  unfold rested at hidling
  intro hhold
  have hstate' : s'.self.idling.1 = .HOLD := hhold
  cases hidle : s.self.idleState with
  | PATROL =>
    rw [hidle] at hidling
    dsimp only at hidling
    by_cases hpaths : s.self.paths = []
    · rw [if_pos hpaths] at hidling
      obtain ⟨-, htimes⟩ := Prod.mk.inj hidling
      obtain ⟨htime, hcur⟩ := Prod.mk.inj htimes
      have hstarts : (restOf w s.self).starts = true := by simp [restOf, hidle, hpaths]
      rw [timeToHold, timeHeld, started_start hstarts, lap_start hstarts]
      exact ⟨htime, hcur⟩
    · rw [if_neg hpaths] at hidling
      rw [hidling] at hstate'
      exact absurd (hidle.symm.trans hstate') (by simp)
  | HOLD =>
    rw [hidle] at hidling
    dsimp only at hidling
    by_cases hends : s.self.idleTime ≤ s.self.curIdleTime ∧ w.navi = true
    · rw [if_pos hends] at hidling
      rw [hidling] at hstate'
      cases hstate'
    · rw [if_neg hends] at hidling
      obtain ⟨-, htimes⟩ := Prod.mk.inj hidling
      obtain ⟨htime, hcur⟩ := Prod.mk.inj htimes
      obtain ⟨hbefore, hcur'⟩ := h hidle
      have hon : (restOf w s.self).starts = false := by simp [restOf, hidle]
      rw [timeToHold, timeHeld, started_on hon, lap_on hon, List.map_append]
      refine ⟨htime.trans hbefore, hcur.trans ?_⟩
      rw [hcur']
      exact (sum_concat _ _).symm

end Holds

section Manager

variable {infos : Int → Option (MonsterInfo F)} {f : DamageFormula F} {mon : Monster F}
  {mm₀ mm mm' : MonsterManager F} {e : MonsterManager.Event F} {events : List (MonsterManager.Event F)}

/-- What the idle ticks of a run were. -/
def MonsterManager.rests (infos : Int → Option (MonsterInfo F)) (f : DamageFormula F) (m : Int) (mm : MonsterManager F)
    (events : List (MonsterManager.Event F)) : List (Rest F) :=
  seen (MonsterManager.next infos f) (MonsterManager.rest m) mm events

/-- A monster that plays and holds as long as it has to. -/
structure Idling (m : Int) (r first : F) (rests : List (Rest F)) (s : Stage F) (mm : MonsterManager F) : Prop where
  plays : Plays m s mm
  timed : Timed r s
  holds : Holds first rests s

theorem Plays.rest_tick (h : Plays m s mm) :
    mm.rest m (.Tick m w) = if Idles w s.self then some (restOf w s.self) else none := by
  unfold MonsterManager.rest
  dsimp only
  rw [if_pos rfl, (stage_eq_some_iff.mp h.stage).1, Option.bind_some]

theorem rest_other (hother : ∀ w, e ≠ .Tick m w) : mm.rest m e = none := by
  cases e with
  | Tick number w =>
    refine if_neg ?_
    rintro rfl
    exact hother w rfl
  | _ => rfl

theorem Idling.next {rests : List (Rest F)} (h : Idling m r first rests s mm) (hplaying : playing m mm e)
    (hnext : mm.next infos f e = some mm') :
    ∃ s', Idling m r first (rests ++ (mm.rest m e).toList) s' mm' := by
  obtain ⟨s', hplays, hhappens⟩ := h.plays.next hplaying hnext
  refine ⟨s', hplays, h.timed.happens hhappens, ?_⟩
  cases hhappens with
  | tick w =>
    have hidling := idling_runAI (w := w) h.timed.events
    rw [h.plays.rest_tick]
    split at hidling
    · rename_i hidles
      rw [if_pos hidles]
      exact h.holds.rest hidling
    · rename_i hbusy
      rw [if_neg hbusy, Option.toList_none, List.append_nil]
      exact h.holds.congr hidling
  | other hother hstruck =>
    rw [rest_other hother, Option.toList_none, List.append_nil]
    refine h.holds.congr ?_
    rw [hstruck.self.same]
    rfl

theorem idling_of_run (h : Idling m r first [] s mm₀)
    (hrun : Run (Guarded (playing m) (OfOption (MonsterManager.next infos f))) mm₀ events mm) :
    ∃ s', Idling m r first (MonsterManager.rests infos f m mm₀ events) s' mm := by
  have hall : Run (OfOption (MonsterManager.next infos f)) mm₀ events mm ∧
      ∃ s', Idling m r first (MonsterManager.rests infos f m mm₀ events) s' mm := by
    refine hrun.invariant_trace (fun past mm => Run (OfOption (MonsterManager.next infos f)) mm₀ past mm ∧
      ∃ s', Idling m r first (MonsterManager.rests infos f m mm₀ past) s' mm) ⟨.nil mm₀, s, h⟩ ?_
    rintro past a e b ⟨hpast, s', hidling⟩ ⟨hplaying, hnext⟩
    refine ⟨run_concat_iff.mpr ⟨a, hpast, hnext⟩, ?_⟩
    rw [MonsterManager.rests, seen_concat hpast]
    exact hidling.next hplaying hnext
  exact hall.2

/-- A monster goes from a hold to a patrol exactly in the idle ticks with a navigation before
which it held for the time drawn, and from a patrol to a hold exactly in those without a
waypoint. -/
theorem holds_on_time (hbegun : Begun infos f m mon mm₀) (hfresh : mon.curIdleTime = ofInt 0)
    (hrun : Run (Guarded (playing m) (OfOption (MonsterManager.next infos f))) mm₀ events mm) (w : Surroundings F) :
    ∃ mm' mon' mon'', mm.monsters m = some mon' ∧ mm.next infos f (.Tick m w) = some mm' ∧
      mm'.monsters m = some mon'' ∧
      (mon'.idleState = .HOLD → (mon''.idleState = .PATROL ↔ Idles w mon' ∧ w.navi = true ∧
        timeToHold mon.idleTime (MonsterManager.rests infos f m mm₀ events) ≤
          timeHeld (MonsterManager.rests infos f m mm₀ events))) ∧
      (mon'.idleState = .PATROL → (mon''.idleState = .HOLD ↔ Idles w mon' ∧ mon'.paths = [])) := by
  obtain ⟨w₀, outputs, hevents, hplays⟩ := hbegun.plays
  have hbegin : Idling m mon.respawnTime mon.idleTime [] (BeginPlay w₀ ⟨mon, outputs⟩) mm₀ :=
    ⟨hplays, Timed.begin (s := ⟨mon, outputs⟩) hevents, Holds.begin hevents hfresh⟩
  obtain ⟨s, hidling⟩ := idling_of_run hbegin hrun
  obtain ⟨mm', hplays', htick⟩ := hidling.plays.tick infos f w
  refine ⟨mm', s.self, (runAI w s).self, (stage_eq_some_iff.mp hidling.plays.stage).1, htick,
    (stage_eq_some_iff.mp hplays'.stage).1, fun hhold => ?_, fun hpatrol => ?_⟩
  · obtain ⟨htime, hcur⟩ := hidling.holds hhold
    rw [← htime, ← hcur]
    exact ends_hold hidling.timed.events hhold
  · exact starts_hold hidling.timed.events hpatrol

end Manager

section Example

/-- Two seconds in which nobody is there, with a way to where the slime is. -/
def resting : Surroundings Int := { field with navi := true, findStraightPath := fun _ _ => [.zero], delta := 2 }

/-- The slime attacks, dies and comes back. -/
def disturbed : List (MonsterManager.Event Int) :=
  [.Tick 0 resting, .Tick 0 beside, blow, blow, .Tick 0 resting, .Tick 0 resting, .Tick 0 resting, .Tick 0 resting]

/-- The slime holds for its five seconds, to which neither the attack nor the death adds. -/
theorem holds_on_time_disturbed :
    ∃ mm₀ mm mm' : MonsterManager Int, lateSlimes.next slime plainFormula (.BeginPlay 0 field) = some mm₀ ∧
      Run (OfOption (MonsterManager.next slime plainFormula)) mm₀ disturbed mm ∧
      (mm.monsters 0).map Monster.idleState = some .HOLD ∧
      mm.next slime plainFormula (.Tick 0 resting) = some mm' ∧
      (mm'.monsters 0).map Monster.idleState = some .PATROL := by
  have hrun : ∃ mm₀ mm mon mon', lateSlimes.next slime plainFormula (.BeginPlay 0 field) = some mm₀ ∧
      lateSlimes.monsters 0 = some mon ∧ mon.ai = MonsterBuilder.InsertAI 1 ∧ mon.events = 0 ∧ mon.curIdleTime = 0 ∧
      Run (Guarded (playing 0) (OfOption (MonsterManager.next slime plainFormula))) mm₀ disturbed mm ∧
      timeToHold mon.idleTime (MonsterManager.rests slime plainFormula 0 mm₀ disturbed) = 5 ∧
      timeHeld (MonsterManager.rests slime plainFormula 0 mm₀ disturbed) = 6 ∧
      mm.monsters 0 = some mon' ∧ mon'.idleState = .HOLD ∧ Idles resting mon' :=
    ⟨_, _, _, _, rfl, rfl, rfl, rfl, rfl,
      .cons ⟨trivial, rfl⟩ <| .cons ⟨trivial, rfl⟩ <| .cons ⟨trivial, rfl⟩ <| .cons ⟨trivial, rfl⟩ <|
        .cons ⟨trivial, rfl⟩ <| .cons ⟨trivial, rfl⟩ <| .cons ⟨trivial, rfl⟩ <| .cons ⟨trivial, rfl⟩ <| .nil _,
      rfl, rfl, rfl, rfl, by decide⟩
  obtain ⟨mm₀, mm, mon, mon', hbegin, hmon, hai, hevents, hfresh, hrun, htime, hheld, hmon', hhold, hidles⟩ := hrun
  have hspawned : Run (OfOption (MonsterManager.next slime plainFormula)) .start
      [.Add_Spawn_Monster ⟨1, 1, .zero, 0, 2⟩ fun _ => blank] lateSlimes := run_singleton_iff.mpr rfl
  obtain ⟨mm', mon₁, mon₂, hmon₁, htick, hmon₂, hends, -⟩ :=
    holds_on_time ⟨_, lateSlimes, field, hspawned, hmon, hai, hevents, hbegin⟩ hfresh hrun resting
  obtain rfl := Option.some.inj (hmon'.symm.trans hmon₁)
  have hpatrol : mon₂.idleState = .PATROL := (hends hhold).mpr ⟨hidles, rfl, by rw [htime, hheld]; decide⟩
  exact ⟨mm₀, mm, mm', hbegin, hrun.of_guarded, by rw [hmon', ← hhold]; rfl, htick, by rw [hmon₂, ← hpatrol]; rfl⟩

end Example

end AsioGameServer.monster

import AsioGameServer.Monster.Reward

open Number

namespace AsioGameServer.monster

variable {F : Type} [Number F] {w : Surroundings F} {s : Stage F}

section Tree

/-- The branch of a monster that is idle. -/
def runIdle (w : Surroundings F) (s : Stage F) : Stage F :=
  let s := (UpdateIdle w s).2
  match s.self.idleState with
  | .PATROL => (Patrol w s).2
  | .HOLD => (Hold w s).2

/-- The branch that the selector takes after `UpdateState`. -/
def runState (w : Surroundings F) (s : Stage F) : Stage F :=
  match s.self.state with
  | .IDLE => runIdle w s
  | .CHASE => (Chase w s).2
  | .ATTACK => (Attack w s).2
  | .DIE => (Die w s).2

/-- One run of the tree of `InsertAI`. -/
def runAI (w : Surroundings F) (s : Stage F) : Stage F :=
  if (UpdateState w s).1 then runState w (UpdateState w s).2 else (UpdateState w s).2

/-- `UpdateIdle` never fails, so that the branch after it is always tried. -/
theorem UpdateIdle_true : (UpdateIdle w s).1 = true := by
  unfold UpdateIdle
  split
  · split <;> rfl
  · split
    · rfl
    · dsimp only
      split <;> rfl

/-- A branch of one actor. -/
theorem eval_branch (action : Action) (calls : List (Action × Bool)) :
    ((behavior.Tree.sequence [.actor action]).eval actors w ⟨s, calls⟩).2.state = (actors.act action w s).2 := by
  rw [behavior.Tree.eval, behavior.evalAll_singleton, behavior.Tree.eval, behavior.Actors.call]

/-- The branch of the tree for `IDLE`, as one function on stages. -/
theorem eval_idle (calls : List (Action × Bool)) :
    ((behavior.Tree.sequence [.actor .UpdateIdle,
      .selector .idleState [(IdleState.PATROL.value, .actor .Patrol), (IdleState.HOLD.value, .actor .Hold)]]).eval
        actors w ⟨s, calls⟩).2.state = runIdle w s := by
  rw [behavior.Tree.eval, behavior.evalAll_actor_cons]
  change (if (UpdateIdle w s).1 then _ else _) = _
  rw [if_pos UpdateIdle_true, behavior.evalAll_singleton, behavior.Tree.eval]
  unfold runIdle
  change (behavior.evalBranch actors w (UpdateIdle w s).2.self.idleState.value _ ⟨(UpdateIdle w s).2, _⟩).2.state = _
  generalize (UpdateIdle w s).2 = s₁
  dsimp only
  cases s₁.self.idleState with
  | PATROL => rfl
  | HOLD => rfl

/-- The whole tree, as one function on stages: one `UpdateState`, and where it succeeds the branch
of the state that it leaves. -/
theorem eval_aiTree (calls : List (Action × Bool)) : (aiTree.eval actors w ⟨s, calls⟩).2.state = runAI w s := by
  unfold runAI aiTree
  rw [behavior.Tree.eval, behavior.evalAll_actor_cons]
  change (if (UpdateState w s).1 then _ else _) = _
  congr 1
  rw [behavior.evalAll_singleton, behavior.Tree.eval]
  unfold runState
  change (behavior.evalBranch actors w (UpdateState w s).2.self.state.value _ ⟨(UpdateState w s).2, _⟩).2.state = _
  generalize (UpdateState w s).2 = s₁
  cases s₁.self.state with
  | IDLE => exact eval_idle _
  | CHASE => exact eval_branch .Chase _
  | ATTACK => exact eval_branch .Attack _
  | DIE => exact eval_branch .Die _

/-- A tick of a monster with the tree of `InsertAI`. -/
theorem Tick_eq (hai : s.self.ai = MonsterBuilder.InsertAI 1) : Tick w s = .ok (runAI w s) := by
  obtain ⟨heap, hinsert, _⟩ := InsertAI_spec (F := F)
  rw [Tick_spec (.inr hai), eval_aiTree, hai, hinsert, Option.isSome_some, if_pos rfl]

end Tree

section Looking

/-- `SearchNearPlayer` finds someone who is near enough to be noticed. -/
def Notices (w : Surroundings F) (monster : Monster F) : Prop :=
  (w.SearchNearPlayer monster.position).1 ≠ -1 ∧ (w.SearchNearPlayer monster.position).2 < ofInt 1000

/-- A monster that is in an attack stops. -/
def locked (monster : Monster F) : Monster F :=
  if monster.bAttacking then { monster with state := .ATTACK, bMove := false } else monster

/-- What `UpdateState` gives, by the way it goes. -/
inductive Looks (w : Surroundings F) (s : Stage F) : Bool × Stage F → Prop where
  | waits (hdead : s.self.bAlive = false) (htime : s.self.curRespawnTime ≤ s.self.respawnTime) :
      Looks w s (true, s.onMonster ({ · with state := .DIE }))
  | respawns (hdead : s.self.bAlive = false) (htime : s.self.respawnTime < s.self.curRespawnTime) :
      Looks w s (true, SetAlive w true (s.onMonster ({ · with state := .DIE })))
  | alone (halive : s.self.bAlive = true) (hcm : w.cm = false) : Looks w s (false, s.onMonster locked)
  | chases (halive : s.self.bAlive = true) (hcm : w.cm = true) (hnotices : Notices w s.self)
      (hfar : ofInt 100 < (w.SearchNearPlayer s.self.position).2) (paths : List (Vector3 F)) :
      Looks w s (true, s.onMonster ({ · with
        state := .CHASE, bMove := true, targetCode := (w.SearchNearPlayer s.self.position).1, paths }))
  | attacks (halive : s.self.bAlive = true) (hcm : w.cm = true) (hnotices : Notices w s.self)
      (hnear : (w.SearchNearPlayer s.self.position).2 ≤ ofInt 100) :
      Looks w s (true, s.onMonster ({ · with
        state := .ATTACK, bMove := false, targetCode := (w.SearchNearPlayer s.self.position).1 }))
  | idles (halive : s.self.bAlive = true) (hcm : w.cm = true) (hnone : ¬ Notices w s.self) :
      Looks w s (true, s.onMonster fun monster => { locked monster with state := .IDLE })

omit [Number F] in
theorem overwrite_locked {f : Monster F → Monster F}
    (hf : ∀ monster state bMove, f { monster with state, bMove } = f monster) (s : Stage F) :
    (s.onMonster locked).onMonster f = s.onMonster f := by
  unfold locked Stage.onMonster
  dsimp only
  split
  · rw [hf]
  · rfl

/-- `UpdateState` as a relation, with one case for each way through it. -/
theorem UpdateState_looks (w : Surroundings F) (s : Stage F) : Looks w s (UpdateState w s) := by
  unfold UpdateState
  split
  · rename_i hdead
    dsimp only
    split
    · rename_i htime
      exact .respawns hdead htime
    · rename_i htime
      exact .waits hdead (le_of_not_gt htime)
  · rename_i halive
    have halive : s.self.bAlive = true := by simpa using halive
    have hlocked : (if s.self.bAttacking then s.onMonster ({ · with state := .ATTACK, bMove := false }) else s) =
        s.onMonster locked := by
      unfold locked Stage.onMonster
      split <;> simp_all
    have hposition : (s.onMonster locked).self.position = s.self.position := by
      unfold locked Stage.onMonster
      dsimp only
      split <;> rfl
    simp only [hlocked]
    split
    · rename_i hcm
      exact .alone halive hcm
    · rename_i hcm
      have hcm : w.cm = true := by simpa using hcm
      simp only [hposition]
      split
      · rename_i hnotices
        split
        · rename_i hfar
          have hchase : ∀ paths, Looks w s (true, (s.onMonster locked).onMonster ({ · with
              state := .CHASE, bMove := true, targetCode := (w.SearchNearPlayer s.self.position).1, paths })) := by
            intro paths
            rw [overwrite_locked fun _ _ _ => rfl]
            exact .chases halive hcm hnotices hfar paths
          split
          · exact hchase []
          · rename_i position _
            unfold Monster.FindPath
            split
            · exact hchase _
            · exact hchase []
        · rename_i hnear
          rw [overwrite_locked fun _ _ _ => rfl]
          exact .attacks halive hcm hnotices (le_of_not_gt hnear)
      · rename_i hnone
        exact .idles halive hcm hnone

/-- The tree looks first, and takes a branch unless it is alone. -/
theorem runAI_looks (w : Surroundings F) (s : Stage F) :
    ∃ found s₁, Looks w s (found, s₁) ∧ runAI w s = if found then runState w s₁ else s₁ :=
  ⟨(UpdateState w s).1, (UpdateState w s).2, UpdateState_looks w s, rfl⟩

/-- The dead wait for their respawn. -/
theorem runAI_dead (hdead : s.self.bAlive = false) :
    runAI w s = if s.self.respawnTime < s.self.curRespawnTime then
        runState w (SetAlive w true (s.onMonster ({ · with state := .DIE })))
      else (Die w (s.onMonster ({ · with state := .DIE }))).2 := by
  unfold runAI UpdateState
  rw [if_pos hdead]
  dsimp only
  rw [if_pos rfl]
  split
  · rename_i htime
    exact (if_pos htime).symm
  · rename_i htime
    exact (if_neg htime).symm

end Looking

section Branches

variable {mon mon' mon'' : Monster F}

/-- A monster that is idle or chases changes its way and its idle time. -/
def Walked (mon mon' : Monster F) : Prop :=
  mon' = { mon with
    position := mon'.position, forward := mon'.forward, bMove := mon'.bMove,
    bChangePosition := mon'.bChangePosition, idleState := mon'.idleState, idleTime := mon'.idleTime,
    curIdleTime := mon'.curIdleTime, paths := mon'.paths }

namespace Walked

omit [Number F] in
/-- What a monster walks in two steps. -/
theorem trans (h : Walked mon mon') (h' : Walked mon' mon'') : Walked mon mon'' := by
  unfold Walked at *
  rw [h', h]

theorem FindPath (dest : Vector3 F) : Walked mon (mon.FindPath w dest) := by
  unfold Monster.FindPath
  split <;> rfl

theorem Moving (delta : F) : Walked mon (mon.Moving delta) := by
  unfold Monster.Moving
  split <;> rfl

theorem follow (delta : F) : Walked mon (follow delta mon).2 := by
  unfold monster.follow
  split
  · rfl
  · dsimp only
    split
    · rfl
    · rename_i rest front _ _
      have hturned : Walked mon ({ mon with paths := front :: rest }.SetForward (front - mon.position)) := rfl
      exact hturned.trans (Moving delta)

theorem UpdateIdle : Walked s.self (UpdateIdle w s).2.self := by
  unfold monster.UpdateIdle
  split
  · split <;> rfl
  · split
    · rfl
    · dsimp only
      split
      · have hmoving : Walked s.self (s.onMonster ({ · with bMove := true })).self := rfl
        exact hmoving.trans ((FindPath _).trans rfl)
      · rfl

theorem runIdle : Walked s.self (runIdle w s).self := by
  refine (UpdateIdle (w := w)).trans ?_
  unfold monster.runIdle
  dsimp only
  split
  · exact follow _
  · rfl

end Walked

/-- What the branches of the tree leave as it was: all that is not about the way, the idle
time, the attack and the time until the respawn. -/
structure Branched (mon mon' : Monster F) : Prop where
  same : mon' = { mon with
    position := mon'.position, forward := mon'.forward, bMove := mon'.bMove,
    bChangePosition := mon'.bChangePosition, idleState := mon'.idleState, idleTime := mon'.idleTime,
    curIdleTime := mon'.curIdleTime, bAttacking := mon'.bAttacking,
    attackCoolTime := mon'.attackCoolTime, paths := mon'.paths, curRespawnTime := mon'.curRespawnTime }
  attack : mon.state ≠ .ATTACK →
    mon'.bAttacking = mon.bAttacking ∧ mon'.attackCoolTime = mon.attackCoolTime
  stands : mon.state = .ATTACK → mon'.position = mon.position
  time : mon.state ≠ .DIE → mon'.curRespawnTime = mon.curRespawnTime

omit [Number F] in
/-- Where the monster does not attack, all that its branch does is to walk. -/
theorem Walked.branched (h : Walked mon mon') (hstate : mon.state ≠ .ATTACK) :
    Branched mon mon' := by
  unfold Walked at h
  refine ⟨?_, fun _ => ?_, fun hattack => absurd hattack hstate, fun _ => ?_⟩
  · rw [h]
  · rw [h]
    exact ⟨rfl, rfl⟩
  · rw [h]

/-- The branch that the state selects does no more than this, whichever it is. -/
theorem runState_branched : Branched s.self (runState w s).self := by
  unfold runState
  cases hstate : s.self.state with
  | IDLE => exact Walked.runIdle.branched (by simp [hstate])
  | CHASE => exact (Walked.follow _).branched (by simp [hstate])
  | ATTACK =>
    have hnot : s.self.state ≠ .ATTACK → False := fun hne => hne hstate
    unfold Attack
    dsimp only
    split
    · split <;> exact ⟨rfl, fun hne => (hnot hne).elim, fun _ => rfl, fun _ => rfl⟩
    · split <;> exact ⟨rfl, fun hne => (hnot hne).elim, fun _ => rfl, fun _ => rfl⟩
  | DIE => exact ⟨rfl, fun _ => ⟨rfl, rfl⟩, fun _ => rfl, fun hne => absurd hstate hne⟩

/-- The branches leave life and death to `UpdateState`. -/
theorem bAlive_runState : (runState w s).self.bAlive = s.self.bAlive := by
  rw [runState_branched.same]

/-- The branches leave the state to `UpdateState`. -/
theorem state_runState : (runState w s).self.state = s.self.state := by
  rw [runState_branched.same]

/-- The tree leaves a monster that is alive alive. -/
theorem bAlive_runAI (halive : s.self.bAlive = true) : (runAI w s).self.bAlive = true := by
  obtain ⟨found, s₁, hlooks, hrun⟩ := runAI_looks w s
  have hfirst : s₁.self.bAlive = true := by
    cases hlooks with
    | waits hdead | respawns hdead => exact absurd (hdead.symm.trans halive) Bool.false_ne_true
    | chases => exact halive
    | attacks => exact halive
    | _ =>
      unfold locked Stage.onMonster
      dsimp only
      split <;> exact halive
  rw [hrun]
  split
  · exact bAlive_runState.trans hfirst
  · exact hfirst

end Branches

end AsioGameServer.monster

import AsioGameServer.Character.Motion
import AsioGameServer.FlatBuffers.Moves
import AsioGameServer.Monster.State
import AsioGameServer.Packet

open Number

namespace AsioGameServer.movement

open flatbuffers (FlatBufferBuilder)
open world (Motion)
open monster (Monster)

variable {F : Type} [Number F]

/-- A `Character`, as far as its movement goes. -/
structure Character (F : Type) where
  code : Int
  motion : Motion F
deriving DecidableEq, Repr

namespace Character

def Moving (delta : F) (ch : Character F) : Character F := { ch with motion := ch.motion.Moving delta }

def GetMoveInfo (ch : Character F) (fbb : FlatBufferBuilder (FB.Move F)) (vec : List Nat) :
    Character F × FlatBufferBuilder (FB.Move F) × List Nat :=
  if ch.motion.bChangePosition then
    let moveb := addMove ch.code ch.motion.bMove ch.motion.forward ch.motion.position ch.motion.currentSpeed fbb
    ({ ch with motion.bChangePosition := false }, moveb.1, vec ++ [moveb.2])
  else (ch, fbb, vec)

/-- The character is where no packet has said that it is. -/
def flagged (ch : Character F) : Bool := ch.motion.bChangePosition

def unflag (ch : Character F) : Character F := { ch with motion.bChangePosition := false }

/-- What is reported of the character. -/
def move (ch : Character F) : FB.Move F :=
  ⟨ch.code, if ch.motion.bMove then .MOVING else .STOP, some ch.motion.position, some ch.motion.forward,
    ch.motion.currentSpeed⟩

end Character

namespace Monster

def GetMoveInfo (mon : Monster F) (fbb : FlatBufferBuilder (FB.Move F)) (vec : List Nat) :
    Monster F × FlatBufferBuilder (FB.Move F) × List Nat :=
  if mon.bChangePosition then
    let moveb := addMove mon.monsterNumber mon.bMove mon.forward mon.position mon.speed fbb
    ({ mon with bChangePosition := false }, moveb.1, vec ++ [moveb.2])
  else (mon, fbb, vec)

def unflag (mon : Monster F) : Monster F := { mon with bChangePosition := false }

/-- What is reported of the monster. -/
def move (mon : Monster F) : FB.Move F :=
  ⟨mon.monsterNumber, if mon.bMove then .MOVING else .STOP, some mon.position, some mon.forward, mon.speed⟩

end Monster

/-- A `CharacterManager`, with its characters in the order of the iteration, the packets that
wait to be sent to all characters, and those that were sent. -/
structure CharacterManager (F : Type) where
  characters : List (Int × Option (Character F))
  bMovable : Bool
  saveTime : F
  req_send_all : List (Packet_Symbal × FlatBufferBuilder (FB.Move F))
  sent : List (Packet_Symbal × FlatBufferBuilder (FB.Move F))

namespace CharacterManager

def SendAllCharacter (symbol : Packet_Symbal) (fbb : FlatBufferBuilder (FB.Move F)) (s : CharacterManager F) :
    CharacterManager F :=
  { s with sent := s.sent ++ [(symbol, fbb)] }

def Async_SendAllCharacter (symbol : Packet_Symbal) (fbb : FlatBufferBuilder (FB.Move F)) (s : CharacterManager F) :
    CharacterManager F :=
  { s with req_send_all := s.req_send_all ++ [(symbol, fbb)] }

/-- The loop that moves the characters, where an expired entry has no result. -/
def move (delta : F) (s : CharacterManager F) : Option (CharacterManager F) := do
  let characters ← s.characters.mapM fun entry => do return (entry.1, some ((← entry.2).Moving delta))
  return { s with saveTime := s.saveTime + delta, characters }

/-- What is done when the time has come. -/
def broadcast (s : CharacterManager F) : Option (CharacterManager F) := do
  let moves ← Gathering.gather Character.GetMoveInfo s.characters
  let s := { s with saveTime := ofInt 0, characters := moves.seen }
  if moves.total > 0 then
    return (← moves.packets).foldl (fun s fbb => s.SendAllCharacter .MOVING_VECTOR fbb) s
  else return s

/-- `CharacterManager::Tick`. The requests that `PrevTick` handles may do anything. -/
def Tick (PrevTick : CharacterManager F → Option (CharacterManager F)) (delta : F) (s : CharacterManager F) :
    Option (CharacterManager F) := do
  let s ← PrevTick s
  if s.bMovable then
    let s ← s.move delta
    if s.saveTime > lit 4 1 then s.broadcast else return s
  else return s

end CharacterManager

/-- A `MonsterManager`, with its monsters in the order of the iteration, and the `Channel` above
it, if there is one, by the `CharacterManager` in it, if there is one. -/
structure MonsterManager (F : Type) where
  monsters : List (Int × Option (Monster F))
  saveTime : F
  channel : Option (Option (CharacterManager F))

namespace MonsterManager

def broadcast (s : MonsterManager F) : Option (MonsterManager F) := do
  let moves ← Gathering.gather Monster.GetMoveInfo s.monsters
  let s := { s with saveTime := ofInt 0, monsters := moves.seen }
  if moves.total > 0 then
    match s.channel with
    | some (some cm) =>
      let cm := (← moves.packets).foldl (fun cm fbb => cm.Async_SendAllCharacter .MONSTER_MOVING_VECTOR fbb) cm
      return { s with channel := some (some cm) }
    | _ => return s
  else return s

/-- `MonsterManager::Tick`. -/
def Tick (PrevTick : MonsterManager F → Option (MonsterManager F)) (delta : F) (s : MonsterManager F) :
    Option (MonsterManager F) := do
  let s ← PrevTick s
  let s := { s with saveTime := s.saveTime + delta }
  if s.saveTime > lit 4 1 then s.broadcast else return s

end MonsterManager

open Gathering (live Reports Reported entryOf exists_reported reports_of_adds)

theorem Character.reports : Reports (Character.GetMoveInfo (F := F)) (entryOf flagged move) unflag := by
  refine reports_of_adds (fun ch fbb => addMove_spec _ _ _ _ _ fbb) fun ch hflagged => ?_
  simp only [← hflagged]

theorem Monster.reports :
    Reports (Monster.GetMoveInfo (F := F)) (entryOf monster.Monster.bChangePosition move) unflag := by
  refine reports_of_adds (fun mon fbb => addMove_spec _ _ _ _ _ fbb) fun mon hflagged => ?_
  simp only [← hflagged]

/-- A character is moved with its flag set, and none loses the flag by that. -/
theorem Character.flagged_Moving {delta : F} {ch : Character F}
    (h : (ch.Moving delta).motion.position ≠ ch.motion.position ∨ ch.flagged = true) :
    (ch.Moving delta).flagged = true := by
  obtain ⟨hposition, hflag⟩ : ch.motion.accelerate.position = ch.motion.position ∧
      ch.motion.accelerate.bChangePosition = ch.motion.bChangePosition := by
    unfold Motion.accelerate Motion.SetForward
    split_ifs <;> exact ⟨rfl, rfl⟩
  unfold Moving Motion.Moving at h
  unfold flagged Moving Motion.Moving
  dsimp only at h ⊢
  split
  · rfl
  · rename_i hspeed
    rw [if_neg hspeed] at h
    rw [hflag]
    exact h.resolve_left (not_not.mpr hposition)

theorem Monster.flagged_Moving {delta : F} {mon : Monster F}
    (h : (mon.Moving delta).position ≠ mon.position ∨ mon.bChangePosition = true) :
    (mon.Moving delta).bChangePosition = true := by
  unfold monster.Monster.Moving at h ⊢
  split
  · rfl
  · rename_i hmove
    rw [if_neg hmove] at h
    exact h.resolve_left (not_not.mpr rfl)

namespace CharacterManager

variable {PrevTick : CharacterManager F → Option (CharacterManager F)} {delta : F} {s s₁ : CharacterManager F}
  {members : List (Int × Character F)}

omit [Number F] in
theorem foldl_SendAllCharacter (symbol : Packet_Symbal) (packets : List (FlatBufferBuilder (FB.Move F)))
    (s : CharacterManager F) :
    packets.foldl (fun s fbb => s.SendAllCharacter symbol fbb) s =
      { s with sent := s.sent ++ packets.map (symbol, ·) } := by
  induction packets generalizing s with
  | nil => simp
  | cons fbb packets ih =>
    rw [List.foldl_cons, ih]
    simp [SendAllCharacter]

omit [Number F] in
theorem foldl_Async_SendAllCharacter (symbol : Packet_Symbal) (packets : List (FlatBufferBuilder (FB.Move F)))
    (s : CharacterManager F) :
    packets.foldl (fun s fbb => s.Async_SendAllCharacter symbol fbb) s =
      { s with req_send_all := s.req_send_all ++ packets.map (symbol, ·) } := by
  induction packets generalizing s with
  | nil => simp
  | cons fbb packets ih =>
    rw [List.foldl_cons, ih]
    simp [Async_SendAllCharacter]

/-- All characters are moved before any of them is asked. -/
theorem move_live (hlive : s.characters = live members) :
    s.move delta = some { s with
      saveTime := s.saveTime + delta
      characters := live (members.map fun e => (e.1, e.2.Moving delta)) } := by
  have hloop : (live members).mapM (fun entry => do return (entry.1, some ((← entry.2).Moving delta))) =
      some (live (members.map fun e => (e.1, e.2.Moving delta))) := by
    induction members generalizing s with
    | nil => rfl
    | cons e members ih =>
      have hrest := ih (s := { s with characters := live members }) rfl
      rw [live, List.map_cons, List.mapM_cons]
      exact congrArg (fun rest => do return (e.1, some (e.2.Moving delta)) :: (← rest)) hrest
  rw [move, hlive, hloop]
  rfl

theorem exists_broadcast (hlive : s.characters = live members) :
    ∃ s' packets, s.broadcast = some s' ∧ s'.sent = s.sent ++ packets.map (.MOVING_VECTOR, ·) ∧
      Reported Character.GetMoveInfo Character.flagged Character.move Character.unflag members s'.characters
        packets := by
  obtain ⟨moves, packets, hgather, hpackets, htotal, hreported⟩ :=
    exists_reported Character.reports (fun _ => rfl) members
  by_cases hsome : moves.total > 0
  · refine ⟨{ s with
      saveTime := ofInt 0
      characters := moves.seen
      sent := s.sent ++ packets.map (.MOVING_VECTOR, ·) }, packets, ?_, rfl, hreported⟩
    simp only [broadcast, hlive, hgather, hpackets, Option.bind_eq_bind, Option.bind_some, if_pos hsome,
      foldl_SendAllCharacter, Option.pure_def]
  · have hnil : members = [] := List.eq_nil_of_length_eq_zero (by omega)
    subst hnil
    refine ⟨{ s with saveTime := ofInt 0, characters := moves.seen }, [], ?_, (List.append_nil _).symm, hreported.nil⟩
    simp only [broadcast, hlive, hgather, Option.bind_eq_bind, Option.bind_some, if_neg hsome, Option.pure_def]

/-- A tick that broadcasts reports the characters after they moved. -/
theorem exists_tick (hprev : PrevTick s = some s₁) (hlive : s₁.characters = live members)
    (hmovable : s₁.bMovable = true) (hdue : s₁.saveTime + delta > lit 4 1) :
    ∃ s' packets, s.Tick PrevTick delta = some s' ∧ s'.sent = s₁.sent ++ packets.map (.MOVING_VECTOR, ·) ∧
      Reported Character.GetMoveInfo Character.flagged Character.move Character.unflag
        (members.map fun e => (e.1, e.2.Moving delta)) s'.characters packets := by
  obtain ⟨s', packets, hbroadcast, hsent, hreported⟩ := exists_broadcast (s := { s₁ with
    saveTime := s₁.saveTime + delta
    characters := live (members.map fun e => (e.1, e.2.Moving delta)) }) rfl
  refine ⟨s', packets, ?_, hsent, hreported⟩
  simp only [Tick, hprev, Option.bind_eq_bind, Option.bind_some, if_pos hmovable, move_live hlive, if_pos hdue,
    hbroadcast]

/-- A tick that does not broadcast sends nothing and takes no flag back. -/
theorem exists_tick_of_not_due (hprev : PrevTick s = some s₁) (hlive : s₁.characters = live members)
    (hmovable : s₁.bMovable = true) (hdue : ¬ s₁.saveTime + delta > lit 4 1) :
    ∃ s', s.Tick PrevTick delta = some s' ∧ s'.sent = s₁.sent ∧
      s'.characters = live (members.map fun e => (e.1, e.2.Moving delta)) ∧
      ∀ e ∈ members, e.2.flagged = true → (e.2.Moving delta).flagged = true := by
  refine ⟨{ s₁ with
    saveTime := s₁.saveTime + delta
    characters := live (members.map fun e => (e.1, e.2.Moving delta)) }, ?_, rfl, rfl, fun e _ hflagged => ?_⟩
  · simp only [Tick, hprev, Option.bind_eq_bind, Option.bind_some, if_pos hmovable, move_live hlive, if_neg hdue,
      Option.pure_def]
  · exact Character.flagged_Moving (.inr hflagged)

end CharacterManager

namespace MonsterManager

variable {PrevTick : MonsterManager F → Option (MonsterManager F)} {delta : F} {s s₁ : MonsterManager F}
  {members : List (Int × Monster F)} {cm : CharacterManager F}

theorem exists_broadcast (hlive : s.monsters = live members) (hchannel : s.channel = some (some cm)) :
    ∃ s' cm' packets, s.broadcast = some s' ∧ s'.channel = some (some cm') ∧
      cm'.req_send_all = cm.req_send_all ++ packets.map (.MONSTER_MOVING_VECTOR, ·) ∧
      Reported Monster.GetMoveInfo monster.Monster.bChangePosition Monster.move Monster.unflag members s'.monsters
        packets := by
  obtain ⟨moves, packets, hgather, hpackets, htotal, hreported⟩ :=
    exists_reported Monster.reports (fun _ => rfl) members
  by_cases hsome : moves.total > 0
  · refine ⟨{ s with
      saveTime := ofInt 0
      monsters := moves.seen
      channel := some (some { cm with
        req_send_all := cm.req_send_all ++ packets.map (.MONSTER_MOVING_VECTOR, ·) }) }, _, packets, ?_, rfl, rfl,
      hreported⟩
    simp only [broadcast, hlive, hgather, hchannel, hpackets, Option.bind_eq_bind, Option.bind_some, if_pos hsome,
      CharacterManager.foldl_Async_SendAllCharacter, Option.pure_def]
  · have hnil : members = [] := List.eq_nil_of_length_eq_zero (by omega)
    subst hnil
    refine ⟨{ s with saveTime := ofInt 0, monsters := moves.seen }, cm, [], ?_, hchannel, (List.append_nil _).symm,
      hreported.nil⟩
    simp only [broadcast, hlive, hgather, Option.bind_eq_bind, Option.bind_some, if_neg hsome, Option.pure_def]

theorem exists_tick (hprev : PrevTick s = some s₁) (hlive : s₁.monsters = live members)
    (hchannel : s₁.channel = some (some cm)) (hdue : s₁.saveTime + delta > lit 4 1) :
    ∃ s' cm' packets, s.Tick PrevTick delta = some s' ∧ s'.channel = some (some cm') ∧
      cm'.req_send_all = cm.req_send_all ++ packets.map (.MONSTER_MOVING_VECTOR, ·) ∧
      Reported Monster.GetMoveInfo monster.Monster.bChangePosition Monster.move Monster.unflag members s'.monsters
        packets := by
  obtain ⟨s', cm', packets, hbroadcast, hrest⟩ :=
    exists_broadcast (s := { s₁ with saveTime := s₁.saveTime + delta }) hlive hchannel
  refine ⟨s', cm', packets, ?_, hrest⟩
  simp only [Tick, hprev, Option.bind_eq_bind, Option.bind_some, if_pos hdue, hbroadcast]

end MonsterManager

/-- A tick that broadcasts reports each character that changed its position, and each monster,
exactly once. What moves is flagged, and stays so until then. -/
theorem movements_reported :
    (∀ (PrevTick : CharacterManager F → Option (CharacterManager F)) (delta : F) (s s₁ : CharacterManager F)
      (members : List (Int × Character F)), PrevTick s = some s₁ → s₁.characters = live members →
      s₁.bMovable = true → s₁.saveTime + delta > lit 4 1 →
      ∃ s' packets, s.Tick PrevTick delta = some s' ∧ s'.sent = s₁.sent ++ packets.map (.MOVING_VECTOR, ·) ∧
        Reported Character.GetMoveInfo Character.flagged Character.move Character.unflag
          (members.map fun e => (e.1, e.2.Moving delta)) s'.characters packets) ∧
    (∀ (PrevTick : MonsterManager F → Option (MonsterManager F)) (delta : F) (s s₁ : MonsterManager F)
      (cm : CharacterManager F) (members : List (Int × Monster F)), PrevTick s = some s₁ →
      s₁.monsters = live members → s₁.channel = some (some cm) → s₁.saveTime + delta > lit 4 1 →
      ∃ s' cm' packets, s.Tick PrevTick delta = some s' ∧ s'.channel = some (some cm') ∧
        cm'.req_send_all = cm.req_send_all ++ packets.map (.MONSTER_MOVING_VECTOR, ·) ∧
        Reported Monster.GetMoveInfo monster.Monster.bChangePosition Monster.move Monster.unflag members s'.monsters
          packets) ∧
    (∀ (delta : F) (ch : Character F), (ch.Moving delta).motion.position ≠ ch.motion.position ∨ ch.flagged = true →
      (ch.Moving delta).flagged = true) ∧
    ∀ (delta : F) (mon : Monster F), (mon.Moving delta).position ≠ mon.position ∨ mon.bChangePosition = true →
      (mon.Moving delta).bChangePosition = true :=
  ⟨fun _ _ _ _ _ hprev hlive hmovable hdue => CharacterManager.exists_tick hprev hlive hmovable hdue,
    fun _ _ _ _ _ _ hprev hlive hchannel hdue => MonsterManager.exists_tick hprev hlive hchannel hdue,
    fun _ _ h => Character.flagged_Moving h, fun _ _ h => Monster.flagged_Moving h⟩

section Example

/-- A character with a given speed. -/
def walker (code speed : Int) : Character Int := ⟨code, ⟨.zero, .zero, .zero, ⟨1, 0, 0⟩, true, false, speed, 10⟩⟩

/-- A monster that moved. -/
def roaming : Monster Int :=
  { code := 1, monsterNumber := 3, exp := 0, nickname := "", bAlive := true, events := 0, maxHp := 1, currentHp := 1,
    respawnTime := 0, curRespawnTime := 0, respawnRange := 0, respawnPosition := .zero, power := 0, speed := 2,
    position := ⟨4, 0, 0⟩, forward := ⟨1, 0, 0⟩, bMove := true, bChangePosition := true, state := .IDLE,
    idleState := .PATROL, targetCode := 0, idleTime := 0, curIdleTime := 0, bAttacking := false, attackCoolTime := 0,
    paths := [], ai := none }

/-- A manager of two characters, one of which stands. -/
def pair : CharacterManager Int := ⟨live [(7, walker 7 5), (8, walker 8 0)], true, 0, [], []⟩

theorem movements_reported_pair :
    (∃ (s' : CharacterManager Int) (packets : List (FlatBufferBuilder (FB.Move Int))),
      pair.Tick some 1 = some s' ∧ s'.sent = packets.map (.MOVING_VECTOR, ·) ∧
      packets.flatMap FlatBufferBuilder.contents = [⟨7, .MOVING, some ⟨5, 0, 0⟩, some ⟨1, 0, 0⟩, 5⟩]) ∧
    (∃ (s' : MonsterManager Int) (cm' : CharacterManager Int) (packets : List (FlatBufferBuilder (FB.Move Int))),
      MonsterManager.Tick some 1 ⟨live [(3, roaming)], 0, some (some pair)⟩ = some s' ∧
      s'.channel = some (some cm') ∧ cm'.req_send_all = packets.map (.MONSTER_MOVING_VECTOR, ·) ∧
      packets.flatMap FlatBufferBuilder.contents = [⟨3, .MOVING, some ⟨4, 0, 0⟩, some ⟨1, 0, 0⟩, 2⟩]) ∧
    ((walker 7 5).Moving 1).flagged = true ∧ (roaming.Moving 1).bChangePosition = true := by
  obtain ⟨hcharacters, hmonsters, hwalk, hroam⟩ := movements_reported (F := Int)
  refine ⟨?_, ?_, hwalk 1 _ (.inl (by decide)), hroam 1 _ (.inl (by decide))⟩
  · obtain ⟨s', packets, htick, hsent, h⟩ :=
      hcharacters some 1 pair pair [(7, walker 7 5), (8, walker 8 0)] rfl rfl rfl (by decide)
    exact ⟨s', packets, htick, hsent, h.reported.trans (by decide)⟩
  · obtain ⟨s', cm', packets, htick, hchannel, hreq, h⟩ :=
      hmonsters some 1 _ ⟨live [(3, roaming)], 0, some (some pair)⟩ pair [(3, roaming)] rfl rfl rfl (by decide)
    exact ⟨s', cm', packets, htick, hchannel, hreq, h.reported⟩

end Example

end AsioGameServer.movement

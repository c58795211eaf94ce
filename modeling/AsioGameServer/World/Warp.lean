import AsioGameServer.World.Scene
import AsioGameServer.Lib.Outcome
import Mathlib.Data.List.Induction

open Function Number Transition

namespace AsioGameServer.world

variable {F : Type} [Number F] {delta : F} {m : Motion F}

namespace Motion

/-- A step that does not change a position: it has no speed, or what it adds is lost. -/
def Nil (delta speed : F) (forward position : Vector3 F) : Prop :=
  speed = ofInt 0 ∨ position + (forward.scale delta).scale speed = position

instance (delta speed : F) (forward position : Vector3 F) : Decidable (Nil delta speed forward position) :=
  inferInstanceAs (Decidable (_ ∨ _))

/-- A character that moves has no speed, and one that does not move is not near to its
destination, or has no speed to get there. -/
def Rests (delta : F) (m : Motion F) : Prop :=
  if m.bMove then Nil delta (min m.currentSpeed m.maxSpeed) m.forward m.position
  else m.dest.Distance m.position < ofInt 10 → Nil delta m.maxSpeed (m.dest - m.position).Normalize m.position

instance (delta : F) (m : Motion F) : Decidable (m.Rests delta) := inferInstanceAs (Decidable (ite _ _ _))

/-- What `Moving` sets before it moves. -/
theorem accelerate_spec (delta : F) (m : Motion F) :
    m.accelerate.position = m.position ∧ m.accelerate.dest = m.dest ∧ m.accelerate.bMove = m.bMove ∧
      m.accelerate.maxSpeed = m.maxSpeed ∧
      (m.Rests delta ↔ Nil delta m.accelerate.currentSpeed m.accelerate.forward m.position) := by
  unfold accelerate Rests
  by_cases hmove : m.bMove = true
  · rw [if_pos hmove, if_pos hmove]
    split
    · rename_i hspeed
      simp [min_eq_right (le_of_lt hspeed)]
    · rename_i hspeed
      simp [min_eq_left (le_of_not_gt hspeed)]
  · rw [if_neg hmove, if_neg hmove]
    split
    · rename_i hnear
      simp [SetForward, hnear]
    · rename_i hfar
      simp [Nil, hfar]

theorem Moving_position_iff : (m.Moving delta).position = m.position ↔ m.Rests delta := by
  obtain ⟨hposition, _, _, _, hrests⟩ := accelerate_spec delta m
  rw [hrests]
  unfold Moving Nil
  dsimp only
  split
  · rename_i hspeed
    simp [hspeed, hposition]
  · rename_i hspeed
    simp [not_not.mp hspeed, hposition]

/-- What `Moving` leaves to its next call. -/
theorem Moving_spec (delta : F) (m : Motion F) :
    (m.Moving delta).dest = m.dest ∧ (m.Moving delta).bMove = m.bMove ∧ (m.Moving delta).maxSpeed = m.maxSpeed ∧
      (m.bMove = true → (m.Moving delta).currentSpeed = min m.currentSpeed m.maxSpeed ∧
        (m.Moving delta).forward = m.forward) := by
  have hmoved : (m.Moving delta).dest = m.accelerate.dest ∧ (m.Moving delta).bMove = m.accelerate.bMove ∧
      (m.Moving delta).maxSpeed = m.accelerate.maxSpeed ∧
      (m.Moving delta).currentSpeed = m.accelerate.currentSpeed ∧
      (m.Moving delta).forward = m.accelerate.forward := by
    unfold Moving
    dsimp only
    split <;> simp
  obtain ⟨hdest, hmove, hmax, hspeed, hforward⟩ := hmoved
  obtain ⟨_, hdest', hmove', hmax', _⟩ := accelerate_spec delta m
  refine ⟨hdest.trans hdest', hmove.trans hmove', hmax.trans hmax', fun hmoving => ?_⟩
  rw [hspeed, hforward]
  unfold accelerate
  rw [if_pos hmoving]
  split
  · rename_i hfast
    exact ⟨(min_eq_right (le_of_lt hfast)).symm, rfl⟩
  · rename_i hslow
    exact ⟨(min_eq_left (le_of_not_gt hslow)).symm, rfl⟩

theorem Rests.Moving (h : m.Rests delta) : (m.Moving delta).Rests delta := by
  obtain ⟨hdest, hmove, hmax, hspeed⟩ := Moving_spec delta m
  have hposition : (m.Moving delta).position = m.position := Moving_position_iff.mpr h
  unfold Rests at h ⊢
  rw [hmove, hdest, hmax, hposition]
  by_cases hmoving : m.bMove = true
  · obtain ⟨hsame, hforward⟩ := hspeed hmoving
    rw [if_pos hmoving] at h ⊢
    rw [hsame, hforward, min_assoc, min_self]
    exact h
  · rw [if_neg hmoving] at h ⊢
    exact h

/-- The functions that wait for one character, one after the other. -/
def calls (funcs : List (MovingFunction F)) (m : Motion F) : Motion F := funcs.foldl (fun m func => func.call m) m

/-- Of the functions, the last one sets the height, and nothing else of the position. -/
theorem calls_position (funcs : List (MovingFunction F)) (m : Motion F) :
    (m.calls funcs).position = { m.position with z := (funcs.getLast?).elim m.position.z (·.position.z) } := by
  induction funcs using List.reverseRecOn with
  | nil => rfl
  | append_singleton funcs func ih =>
    rw [calls, List.foldl_concat, List.getLast?_concat]
    change { (m.calls funcs).position with z := func.position.z } = _
    rw [ih]
    rfl

end Motion

namespace Scene

variable {s s' s₁ : Scene F} {code : Int} {n : Nat}

section Folds

theorem motions_calls (funcs : List (MovingFunction F)) (s : Scene F) :
    (funcs.foldl (fun s func => s.onMotion func.character func.call) s).motions code =
      (s.motions code).calls (funcs.filter fun func => func.character = code) := by
  induction funcs generalizing s with
  | nil => rfl
  | cons func funcs ih =>
    rw [List.foldl_cons, ih]
    by_cases hcode : func.character = code
    · subst hcode
      simp [onMotion, Motion.calls]
    · simp [onMotion, hcode, update_of_ne (Ne.symm hcode)]

theorem motions_Moving {characters : List Int} (hrests : code ∈ characters → (s.motions code).Rests delta) :
    ((characters.foldl (fun s code => s.onMotion code (·.Moving delta)) s).motions code).position =
      (s.motions code).position := by
  induction characters generalizing s with
  | nil => rfl
  | cons other characters ih =>
    rw [List.foldl_cons]
    by_cases hcode : other = code
    · subst hcode
      have hrests := hrests List.mem_cons_self
      have hsame : (s.onMotion other (·.Moving delta)).motions other = (s.motions other).Moving delta :=
        update_self _ _ _
      rw [ih fun _ => hsame ▸ hrests.Moving, hsame, Motion.Moving_position_iff.mpr hrests]
    · have hsame : (s.onMotion other (·.Moving delta)).motions code = s.motions code :=
        update_of_ne (Ne.symm hcode) _ _
      rw [ih fun hmem => hsame ▸ hrests (List.mem_cons_of_mem _ hmem), hsame]

theorem position_InsertCharacter (characters : List Int) (s : Scene F) :
    ((characters.foldl InsertCharacter s).motions code).position = (s.motions code).position := by
  induction characters generalizing s with
  | nil => rfl
  | cons other characters ih =>
    rw [List.foldl_cons, ih]
    by_cases hcode : other = code
    · subst hcode
      simp [InsertCharacter, onMotion, Motion.SetMoveCancel, Motion.SetWarpPosition]
    · simp [InsertCharacter, onMotion, update_of_ne (Ne.symm hcode)]

omit [Number F] in
theorem motions_Escape {characters : List Int} {mapCode : Int} (hnot : code ∉ characters) (s : Scene F) :
    (characters.foldl (Escape mapCode) s).motions code = s.motions code := by
  induction characters generalizing s with
  | nil => rfl
  | cons other characters ih =>
    obtain ⟨hne, hnot⟩ := not_or.mp (List.mem_cons.not.mp hnot)
    rw [List.foldl_cons, ih hnot]
    exact update_of_ne hne _ _

end Folds

/-- The steps that leave a character alone until the next `MOVING` of it is applied: no other
warp, no escape, and no function that was sent as number `n` or later. -/
def UntilNextMove (code : Int) (n : Nat) (s : Scene F) : Event F → Prop
  | .request character (.REQ_PORTAL _ _) => character ≠ code
  | .updateChannel id => ∀ channel ∈ s.now.channels[id]?, code ∉ channel.req_func_list
  | .tickManager id _ => ∀ func ∈ s.functions id, func.character = code → func.number < n
  | _ => True

/-- What a manager that ticks does to the character comes to nothing: the functions that still
wait in it set the height that the character has, and the character rests if it is there. -/
def Undisturbed (code : Int) (s : Scene F) : Event F → Prop
  | .tickManager id delta => ∀ cm ∈ s.now.manager id,
    let waiting := (s.functions id).filter fun func => func.character = code
    (∀ func ∈ waiting.getLast?, func.position.z = (s.motions code).position.z) ∧
      (cm.bMovable → code ∈ cm.characters → ((s.motions code).calls waiting).Rests delta)
  | _ => True

theorem position_tickManager {id : Nat} (hundisturbed : s.Undisturbed code (.tickManager id delta))
    (htick : s.tickManager id delta = .ok s') : (s'.motions code).position = (s.motions code).position := by
  unfold tickManager at htick
  cases hcm : s.now.manager id with
  | none =>
    rw [hcm] at htick
    cases htick
    rfl
  | some cm =>
    obtain ⟨hheight, hrests⟩ := hundisturbed cm hcm
    have hposition : ((s.motions code).calls
        ((s.functions id).filter fun func => func.character = code)).position = (s.motions code).position := by
      rw [Motion.calls_position]
      cases hlast : ((s.functions id).filter fun func => func.character = code).getLast? with
      | none => rfl
      | some func => simp [hheight func hlast]
    rw [hcm] at htick
    dsimp only at htick
    split at htick
    · rename_i hmovable
      split at htick
      · cases htick
        rw [motions_Moving, motions_calls]
        · exact hposition
        · intro hmem
          rw [motions_calls]
          exact hrests hmovable hmem
      · cases htick
    · cases htick
      rw [motions_calls]
      exact hposition

omit [Number F] in
theorem motions_warp {character : Int} {request : World.Request}
    (hother : ∀ gateNumber currentMapCode, request = .REQ_PORTAL gateNumber currentMapCode → character ≠ code) :
    (s.warp character request).motions code = s.motions code := by
  cases request with
  | REQ_PORTAL gateNumber currentMapCode =>
    unfold warp
    dsimp only
    split
    · rfl
    · split
      · exact update_of_ne (Ne.symm (hother _ _ rfl)) _ _
      · rfl
  | _ => rfl

omit [Number F] in
/-- A `MOVING` that comes in only waits. -/
theorem motions_MOVING {character : Int} {position forward : Vector3 F} {speed : F} {moving : Bool}
    (hmoving : s.MOVING character position forward speed moving = .ok s') : s'.motions = s.motions := by
  unfold MOVING at hmoving
  split at hmoving
  · split at hmoving
    · cases hmoving
    · split at hmoving
      · cases hmoving
        rfl
      · split at hmoving
        · cases hmoving
          rfl
        · cases hmoving
          rfl
  · cases hmoving
    rfl

/-- No other step changes the position. -/
theorem position_next {e : Event F} (huntil : s.UntilNextMove code n e) (hundisturbed : s.Undisturbed code e)
    (hnext : s.next e = some s') : (s'.motions code).position = (s.motions code).position := by
  have hstep : s.step e = .ok s' := Outcome.toOption_eq_some_iff.mp hnext
  cases e with
  | request character request =>
    obtain ⟨now, _, hdone⟩ := Outcome.bind_eq_ok_iff.mp hstep
    cases hdone
    dsimp only
    split
    · rw [motions_warp]
      rintro _ _ rfl
      exact huntil
    · rfl
  | MOVING character position forward speed moving =>
    rw [motions_MOVING hstep]
  | closeSession character =>
    cases hstep
    rfl
  | disconnect character =>
    simp only [step] at hstep
    split at hstep
    · obtain ⟨now, _, hdone⟩ := Outcome.bind_eq_ok_iff.mp hstep
      cases hdone
      rfl
    · cases hstep
      rfl
  | updateChannel id =>
    obtain ⟨now, _, hdone⟩ := Outcome.bind_eq_ok_iff.mp hstep
    dsimp only at hdone
    split at hdone
    · cases hdone
      rfl
    · rename_i channel hchannel
      split at hdone
      · cases hdone
        rfl
      · cases hdone
        have hescape : code ∉ channel.req_func_list := huntil channel hchannel
        change ((channel.req_func_list.foldl (Escape channel.mapCode)
          (channel.req_Insert_list.foldl InsertCharacter s)).motions code).position = _
        rw [motions_Escape hescape, position_InsertCharacter]
  | tickManager id delta => exact position_tickManager hundisturbed hstep

/-- A request of a character in the game for a portal that is there and leads elsewhere than
the client says to be. -/
structure Takes (s : Scene F) (code gateNumber currentMapCode : Int) : Prop where
  session : (s.now.characters code).session = true
  user : (s.now.characters code).user = true
  portal : ∃ destCode, (s.now.maps (s.now.characters code).mapKey).bind (·.GetPortal gateNumber) = some destCode ∧
    destCode ≠ currentMapCode

omit [Number F] in
theorem position_warp {gateNumber currentMapCode : Int} (htakes : s.Takes code gateNumber currentMapCode)
    (hwarp : s.On_Read code (.REQ_PORTAL gateNumber currentMapCode) = .ok s₁) :
    (s₁.motions code).position = s.portalPosition (s.now.characters code).mapKey gateNumber := by
  obtain ⟨destCode, hportal, hne⟩ := htakes.portal
  unfold On_Read at hwarp
  rw [if_pos ⟨htakes.session, htakes.user⟩] at hwarp
  obtain ⟨now, _, hdone⟩ := Outcome.bind_eq_ok_iff.mp hwarp
  cases hdone
  simp [warp, hportal, hne, onMotion]

/-- From a warp on the character is where the portal says, before it is inserted and after
that, until a `MOVING` that was sent later is applied, as long as no manager disturbs it. -/
theorem warp_lands_at_portal {gateNumber currentMapCode : Int} {events : List (Event F)}
    (htakes : s.Takes code gateNumber currentMapCode)
    (hwarp : s.On_Read code (.REQ_PORTAL gateNumber currentMapCode) = .ok s₁)
    (hrun : Run (Guarded (Undisturbed code) (Guarded (UntilNextMove code s₁.sent) (OfOption Scene.next)))
      s₁ events s') :
    (s'.motions code).position = s.portalPosition (s.now.characters code).mapKey gateNumber := by
  have hfirst := position_warp htakes hwarp
  apply hrun.invariant hfirst
  intro s₂ e s₃ hbefore ⟨hundisturbed, huntil, hnext⟩
  exact (position_next huntil hundisturbed hnext).trans hbefore

section Example

/-- Two maps, with a portal from the first to the second, and characters who stand still. -/
def twoMaps : Scene Int where
  now := {
    maps := fun mapKey =>
      if mapKey = 1 then some ⟨1, 10, [], [(1, 2)]⟩ else if mapKey = 2 then some ⟨2, 10, [], []⟩ else none
    channels := []
    characters := fun _ => ⟨0, 0, none, true, true⟩ }
  motions _ := ⟨.zero, .zero, .zero, .zero, false, false, 0, 5⟩
  functions _ := []
  sent := 0
  portalPosition _ _ := ⟨100, 200, 300⟩
  escapeCoordinates _ := .zero

/-- A character enters the first map. -/
def entering : List (Event Int) := [.request 7 (.REQ_ENTER_MAP 1), .updateChannel 0, .updateChannel 0]

/-- The old channel lets it go, and the new one, which begins, takes it in. -/
def changing : List (Event Int) := [.updateChannel 0, .updateChannel 1, .updateChannel 1]

theorem warp_lands_at_portal_standing :
    ∃ s s₁ s' : Scene Int, Run (OfOption Scene.next) twoMaps entering s ∧
      s.On_Read 7 (.REQ_PORTAL 1 1) = .ok s₁ ∧
      Run (Guarded (Undisturbed 7) (Guarded (UntilNextMove 7 s₁.sent) (OfOption Scene.next))) s₁
        (changing ++ [.tickManager 1 10]) s' ∧
      (s'.motions 7).position = ⟨100, 200, 300⟩ := by
  have hrun : ∃ s s₁ s' : Scene Int, Run (OfOption Scene.next) twoMaps entering s ∧ s.Takes 7 1 1 ∧
      s.On_Read 7 (.REQ_PORTAL 1 1) = .ok s₁ ∧
      Run (Guarded (Undisturbed 7) (Guarded (UntilNextMove 7 s₁.sent) (OfOption Scene.next))) s₁
        (changing ++ [.tickManager 1 10]) s' := by
    have hnone : ∀ (o : Option Channel) (channel : Channel), o.map Channel.req_func_list = some [] →
        channel ∈ o → 7 ∉ channel.req_func_list := by
      rintro _ channel hempty rfl
      simp [Option.some.inj hempty]
    refine ⟨_, _, _, run_ofOption_iff.mpr rfl, ⟨rfl, rfl, 2, rfl, by decide⟩, rfl,
      .cons ⟨trivial, fun channel => hnone _ channel rfl, rfl⟩ <|
        .cons ⟨trivial, fun channel => hnone _ channel rfl, rfl⟩ <|
      .cons ⟨trivial, fun channel => hnone _ channel rfl, rfl⟩ <|
      .cons ⟨fun cm hcm => ⟨fun func hfunc => (by cases hfunc), fun _ _ => by decide +kernel⟩,
        fun func hfunc => (by cases hfunc), rfl⟩ <| .nil _⟩
  obtain ⟨s, s₁, s', henter, htakes, hwarp, hrun⟩ := hrun
  have hportal : s.portalPosition (s.now.characters 7).mapKey 1 = ⟨100, 200, 300⟩ := by
    rw [run_ofOption_iff] at henter
    cases henter
    rfl
  exact ⟨s, s₁, s', henter, hwarp, hrun, hportal ▸ warp_lands_at_portal htakes hwarp hrun⟩

/-- A character that moves goes on in the old channel, and a `MOVING` that waits there changes
the height, even after the warp. -/
theorem warp_lands_elsewhere :
    (∃ s s₁ s' : Scene Int, Run (OfOption Scene.next) twoMaps
        (entering ++ [.MOVING 7 ⟨3, 0, 0⟩ ⟨1, 0, 0⟩ 5 true, .tickManager 0 1]) s ∧ s.Takes 7 1 1 ∧
      s.On_Read 7 (.REQ_PORTAL 1 1) = .ok s₁ ∧
      Run (OfOption Scene.next) s₁ (.tickManager 0 1 :: changing) s' ∧
      (s'.now.characters 7).cm = some 1 ∧ (s'.motions 7).position = ⟨105, 200, 300⟩) ∧
    ∃ s s₁ s' : Scene Int, Run (OfOption Scene.next) twoMaps
        (entering ++ [.MOVING 7 ⟨3, 0, 0⟩ ⟨1, 0, 0⟩ 5 true]) s ∧ s.Takes 7 1 1 ∧
      s.On_Read 7 (.REQ_PORTAL 1 1) = .ok s₁ ∧
      Run (OfOption Scene.next) s₁ (changing ++ [.tickManager 0 1]) s' ∧
      (s'.now.characters 7).cm = some 1 ∧ (s'.motions 7).position = ⟨100, 200, 0⟩ := by
  simp only [run_ofOption_iff]
  constructor
  · refine ⟨_, _, _, rfl, ⟨rfl, rfl, 2, rfl, by decide⟩, rfl, rfl, ?_, ?_⟩
    · rfl
    · rfl
  · refine ⟨_, _, _, rfl, ⟨rfl, rfl, 2, rfl, by decide⟩, rfl, rfl, ?_, ?_⟩
    · rfl
    · rfl

end Example

end Scene

end AsioGameServer.world

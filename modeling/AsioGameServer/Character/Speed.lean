import AsioGameServer.Lib.Reals
import AsioGameServer.World.Warp
import Mathlib.Tactic.Linarith
import Mathlib.Tactic.NormNum
import Mathlib.Tactic.Ring

open Number Transition

namespace AsioGameServer.world

variable {delta : ℝ} {m m' : Motion ℝ}

section Vectors

noncomputable def length (v : Vector3 ℝ) : ℝ := √(v.x * v.x + v.y * v.y + v.z * v.z)

theorem length_nonneg (v : Vector3 ℝ) : 0 ≤ length v := Real.sqrt_nonneg _

theorem length_scale (v : Vector3 ℝ) (s : ℝ) : length (v.scale s) = length v * |s| := by
  have hsquares : v.x * s * (v.x * s) + v.y * s * (v.y * s) + v.z * s * (v.z * s) =
      (v.x * v.x + v.y * v.y + v.z * v.z) * (s * s) := by
    ring
  unfold length Vector3.scale
  dsimp only
  rw [hsquares, Real.sqrt_mul' _ (mul_self_nonneg s), Real.sqrt_mul_self_eq_abs]

/-- How far a position is moved. -/
theorem Distance_add (u v : Vector3 ℝ) : (u + v).Distance u = length v := by
  change √((u.x + v.x - u.x) * (u.x + v.x - u.x) + (u.y + v.y - u.y) * (u.y + v.y - u.y) +
    (u.z + v.z - u.z) * (u.z + v.z - u.z)) = _
  rw [add_sub_cancel_left, add_sub_cancel_left, add_sub_cancel_left]
  rfl

/-- A vector that is not too short gets the length one. -/
theorem Normalize_of_lt {v : Vector3 ℝ} (hlong : (lit 1 8 : ℝ) < v.x * v.x + v.y * v.y + v.z * v.z) :
    v.Normalize = v.scale (1 / length v) := by
  refine (if_pos hlong).trans ?_
  rw [ofInt_real, Int.cast_one]
  rfl

theorem Distance_self (u : Vector3 ℝ) : u.Distance u = 0 := by
  change √((u.x - u.x) * (u.x - u.x) + (u.y - u.y) * (u.y - u.y) + (u.z - u.z) * (u.z - u.z)) = 0
  simp

end Vectors

namespace Motion

/-- What happens to a motion: a function of a `MOVING` packet is called, and `Moving`. -/
inductive Event where
  | call (func : MovingFunction ℝ)
  | tick (delta : ℝ) (hdelta : 0 ≤ delta)

/-- What an event does. -/
noncomputable def next (m : Motion ℝ) : Event → Motion ℝ
  | .call func => func.call m
  | .tick delta _ => m.Moving delta

def Step (m : Motion ℝ) (event : Event) (m' : Motion ℝ) : Prop := m.next event = m'

/-- A step of `Moving` that advances the position is not faster than the character can be. -/
def WithinSpeed (m : Motion ℝ) (event : Event) (m' : Motion ℝ) : Prop :=
  match event with
  | .call _ => True
  | .tick delta _ => m'.currentSpeed ≠ 0 →
    |m'.currentSpeed| ≤ m.maxSpeed ∧ m'.position.Distance m.position ≤ m.maxSpeed * delta * length m'.forward

/-- A character that moves by the speed of its last packet does not run backwards too fast. -/
def ForwardEnough (m : Motion ℝ) : Event → Prop
  | .call _ => True
  | .tick _ _ => m.bMove = true → -m.maxSpeed ≤ m.currentSpeed

/-- The speed that `Moving` moves with. -/
theorem accelerate_currentSpeed (m : Motion ℝ) :
    (m.bMove = true ∧ m.accelerate.currentSpeed = min m.currentSpeed m.maxSpeed) ∨
      (m.bMove = false ∧ (m.accelerate.currentSpeed = m.maxSpeed ∨ m.accelerate.currentSpeed = 0)) := by
  unfold accelerate
  cases hmove : m.bMove with
  | true =>
    refine .inl ⟨rfl, ?_⟩
    rw [if_pos rfl]
    split
    · rename_i hfast
      exact (min_eq_right hfast.le).symm
    · rename_i hslow
      exact (min_eq_left (le_of_not_gt hslow)).symm
  | false =>
    refine .inr ⟨rfl, ?_⟩
    rw [if_neg Bool.false_ne_true]
    split
    · exact .inl rfl
    · exact .inr (by rw [ofInt_real, Int.cast_zero])

/-- Where `Moving` leads to, by the speed and the direction that it leaves. -/
theorem Moving_position (delta : ℝ) (m : Motion ℝ) :
    (m.Moving delta).currentSpeed = m.accelerate.currentSpeed ∧
      (m.Moving delta).position.Distance m.position =
        |(m.Moving delta).currentSpeed| * |delta| * length (m.Moving delta).forward := by
  obtain ⟨hposition, _⟩ := accelerate_spec delta m
  unfold Moving
  dsimp only
  rw [ofInt_real, Int.cast_zero]
  split
  · refine ⟨rfl, ?_⟩
    dsimp only
    rw [hposition, Distance_add, length_scale, length_scale]
    ring
  · rename_i hspeed
    refine ⟨rfl, ?_⟩
    rw [hposition, Distance_self, not_not.mp hspeed, abs_zero, zero_mul, zero_mul]

theorem maxSpeed_next (m : Motion ℝ) (event : Event) : (m.next event).maxSpeed = m.maxSpeed := by
  cases event with
  | call _ => rfl
  | tick delta _ =>
    obtain ⟨_, _, hmax, _⟩ := Moving_spec delta m
    exact hmax

/-- One event keeps the speed within its bound exactly where no speed is too far below zero. -/
theorem withinSpeed_iff (hmax : 0 ≤ m.maxSpeed) (event : Event) :
    m.ForwardEnough event ↔ m.WithinSpeed event (m.next event) := by
  cases event with
  | call _ => exact Iff.rfl
  | tick delta hdelta =>
    obtain ⟨hspeed, hdistance⟩ := Moving_position delta m
    have hbounded : m.WithinSpeed (.tick delta hdelta) (m.Moving delta) ↔
        ((m.Moving delta).currentSpeed ≠ 0 → |(m.Moving delta).currentSpeed| ≤ m.maxSpeed) := by
      refine ⟨fun h hne => (h hne).1, fun h hne => ⟨h hne, ?_⟩⟩
      rw [hdistance, abs_of_nonneg hdelta]
      gcongr
      · exact length_nonneg _
      · exact h hne
    change m.ForwardEnough (.tick delta hdelta) ↔ m.WithinSpeed (.tick delta hdelta) (m.Moving delta)
    rw [hbounded, hspeed]
    obtain ⟨hmove, hmin⟩ | ⟨hstop, hsame⟩ := accelerate_currentSpeed m
    · rw [hmin, abs_le]
      constructor
      · intro h _
        exact ⟨le_min (h hmove) (by linarith), min_le_right _ _⟩
      · intro h _
        by_contra hback
        have hless : m.currentSpeed < -m.maxSpeed := lt_of_not_ge hback
        have hleft : min m.currentSpeed m.maxSpeed = m.currentSpeed := min_eq_left (by linarith)
        rw [hleft] at h
        exact hback (h (by linarith)).1
    · refine ⟨fun _ _ => ?_, fun _ hmove => by simp [hstop] at hmove⟩
      obtain hfull | hzero := hsame
      · rw [hfull, abs_of_nonneg hmax]
      · rw [hzero, abs_zero]
        exact hmax

/-- The runs in which no step is too fast are those in which no character is moved with a speed
that is too far below zero. -/
theorem speed_bounded_iff {events : List Event} (hmax : 0 ≤ m.maxSpeed) :
    Run (Guarded ForwardEnough Step) m events m' ↔ Run (Keeping WithinSpeed Step) m events m' := by
  apply run_guarded_iff_keeping (fun m => 0 ≤ m.maxSpeed) _ _ hmax
  · rintro m event _ hmax rfl
    rw [maxSpeed_next]
    exact hmax
  · rintro m event _ hmax rfl
    exact withinSpeed_iff hmax event

/-- A packet that moves a character does not ask for a speed that is too far below zero. -/
def Sound (maxSpeed : ℝ) : Event → Prop
  | .call func => func.moving = true → -maxSpeed ≤ func.speed
  | .tick _ _ => True

/-- Packets that are sound are enough. -/
theorem speed_bounded_of_sound {events : List Event} (hmax : 0 ≤ m.maxSpeed)
    (hstart : m.bMove = true → -m.maxSpeed ≤ m.currentSpeed) (hsound : ∀ event ∈ events, Sound m.maxSpeed event)
    (hrun : Run Step m events m') : Run (Keeping WithinSpeed Step) m events m' := by
  rw [← speed_bounded_iff hmax]
  induction hrun with
  | nil => exact .nil _
  | @cons m _ m' event events hstep _ ih =>
    obtain rfl := hstep
    have hsame : (m.next event).maxSpeed = m.maxSpeed := maxSpeed_next m event
    have hfirst : Sound m.maxSpeed event := hsound event List.mem_cons_self
    have hnext : (m.next event).bMove = true → -m.maxSpeed ≤ (m.next event).currentSpeed := by
      cases event with
      | call func => exact hfirst
      | tick delta _ =>
        obtain ⟨_, hmove, _, hspeed⟩ := Moving_spec delta m
        intro hmoving
        have hmoving : m.bMove = true := hmove.symm.trans hmoving
        change -m.maxSpeed ≤ (m.Moving delta).currentSpeed
        rw [(hspeed hmoving).1]
        exact le_min (hstart hmoving) (by linarith)
    have hforward : m.ForwardEnough event := by
      cases event with
      | call _ => trivial
      | tick _ _ => exact hstart
    refine .cons ⟨hforward, rfl⟩ (ih (hsame ▸ hmax) (hsame ▸ hnext) fun other hother => ?_)
    rw [hsame]
    exact hsound other (List.mem_cons_of_mem _ hother)

section Example

/-- A character that stands where it stopped. -/
noncomputable def resting (maxSpeed : ℝ) : Motion ℝ := ⟨.zero, .zero, .zero, .zero, false, false, 0, maxSpeed⟩

/-- A packet that moves it along an axis. -/
noncomputable def along (speed : ℝ) : MovingFunction ℝ := ⟨1, .zero, ⟨1, 0, 0⟩, speed, true, 0⟩

theorem speed_bounded_resting :
    Run (Keeping WithinSpeed Step) (resting 300) [.call (along 1000), .tick 1 zero_le_one]
      (((resting 300).next (.call (along 1000))).next (.tick 1 zero_le_one)) := by
  apply (speed_bounded_iff (by norm_num [resting])).mp
  refine .cons ⟨trivial, rfl⟩ (.cons ⟨fun _ => ?_, rfl⟩ (.nil _))
  norm_num [resting, next, MovingFunction.call, along, SetForward]

/-- A speed below zero is not cut: the character runs backwards at more than three times its
speed. -/
theorem not_speed_bounded :
    ∃ m', Run Step (resting 300) [.call (along (-1000)), .tick 1 zero_le_one] m' ∧ 0 ≤ (resting 300).maxSpeed ∧
      m'.currentSpeed = -1000 ∧ ¬ |m'.currentSpeed| ≤ m'.maxSpeed ∧
      m'.position.Distance (resting 300).position = 1000 ∧ m'.maxSpeed * 1 * length m'.forward = 300 := by
  set m := (resting 300).next (.call (along (-1000))) with hm
  obtain ⟨_, _, hmax, hspeed⟩ := Moving_spec 1 m
  obtain ⟨hsame, hforward⟩ := hspeed rfl
  have hcut : min m.currentSpeed m.maxSpeed = -1000 := min_eq_left (by norm_num [hm, resting, next, along,
    MovingFunction.call, SetForward])
  have hmaxSpeed : m.maxSpeed = 300 := rfl
  have hunit : length m.forward = 1 := by
    have hlong : (lit 1 8 : ℝ) < 1 * 1 + 0 * 0 + 0 * 0 := by
      change ((1 : Int) : ℝ) / 10 ^ 8 < 1 * 1 + 0 * 0 + 0 * 0
      norm_num
    change length (Vector3.Normalize ⟨1, 0, 0⟩) = 1
    rw [Normalize_of_lt hlong, length_scale]
    norm_num [length]
  refine ⟨m.Moving 1, .cons rfl (.cons rfl (.nil _)), by norm_num [resting], hsame.trans hcut, ?_, ?_, ?_⟩
  · rw [hsame, hcut, hmax, hmaxSpeed]
    norm_num
  · change (m.Moving 1).position.Distance m.position = 1000
    rw [(Moving_position 1 m).2, hsame, hcut, hforward, hunit]
    norm_num
  · rw [hmax, hmaxSpeed, hforward, hunit]
    norm_num

end Example

end Motion

end AsioGameServer.world

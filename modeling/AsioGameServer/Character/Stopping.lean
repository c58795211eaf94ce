import AsioGameServer.Character.Speed
import AsioGameServer.Lib.Overshoot

open Number Transition

namespace AsioGameServer.world

variable {delta : ℝ} {m m' : Motion ℝ} {deltas : List ℝ}

theorem Distance_eq_length (u v : Vector3 ℝ) : u.Distance v = length (u - v) := rfl

theorem length_sub_comm (u v : Vector3 ℝ) : length (u - v) = length (v - u) := by
  change √((u.x - v.x) * (u.x - v.x) + (u.y - v.y) * (u.y - v.y) + (u.z - v.z) * (u.z - v.z)) =
    √((v.x - u.x) * (v.x - u.x) + (v.y - u.y) * (v.y - u.y) + (v.z - u.z) * (v.z - u.z))
  congr 1
  ring

namespace Motion

/-- How far a character is from where it stops. -/
noncomputable def remaining (m : Motion ℝ) : ℝ := m.position.Distance m.dest

theorem remaining_nonneg (m : Motion ℝ) : 0 ≤ m.remaining := Real.sqrt_nonneg _

/-- A direction is made the length one where it is longer than that. -/
theorem lit_lt_iff (m : Motion ℝ) :
    let way := m.dest - m.position
    (lit 1 8 : ℝ) < way.x * way.x + way.y * way.y + way.z * way.z ↔ 1 / 10 ^ 4 < m.remaining := by
  intro way
  have hsame : m.remaining = length way := length_sub_comm _ _
  have hlit : (lit 1 8 : ℝ) = (1 / 10 ^ 4) ^ 2 := by
    change ((1 : Int) : ℝ) / 10 ^ 8 = (1 / 10 ^ 4) ^ 2
    norm_num
  rw [hsame, length, Real.lt_sqrt (by norm_num), hlit]

/-- The position after `Moving`, whether the speed is zero or not. -/
theorem position_Moving (delta : ℝ) (m : Motion ℝ) :
    (m.Moving delta).position = m.position + (m.accelerate.forward.scale delta).scale m.accelerate.currentSpeed := by
  obtain ⟨hposition, _⟩ := accelerate_spec delta m
  unfold Moving
  dsimp only
  rw [ofInt_real, Int.cast_zero]
  split
  · dsimp only
    rw [hposition]
  · rename_i hspeed
    rw [not_not.mp hspeed, hposition]
    ext
    · exact (by ring : m.position.x = m.position.x + m.accelerate.forward.x * delta * 0)
    · exact (by ring : m.position.y = m.position.y + m.accelerate.forward.y * delta * 0)
    · exact (by ring : m.position.z = m.position.z + m.accelerate.forward.z * delta * 0)

theorem near_iff (m : Motion ℝ) : m.dest.Distance m.position < ofInt 10 ↔ m.remaining < 10 := by
  rw [ofInt_real, Distance_eq_length, length_sub_comm, remaining, Distance_eq_length]
  norm_num

theorem accelerate_near (hstop : m.bMove = false) (hnear : m.remaining < 10) :
    m.accelerate.currentSpeed = m.maxSpeed ∧ m.accelerate.forward = (m.dest - m.position).Normalize := by
  unfold accelerate
  rw [hstop, if_neg Bool.false_ne_true, if_pos ((near_iff m).mpr hnear)]
  exact ⟨rfl, rfl⟩

/-- Far from where it stops a character stays. -/
theorem remaining_far (delta : ℝ) (hstop : m.bMove = false) (hfar : 10 ≤ m.remaining) :
    (m.Moving delta).remaining = m.remaining := by
  have hposition : (m.Moving delta).position = m.position := by
    apply Moving_position_iff.mpr
    unfold Rests
    rw [hstop, if_neg Bool.false_ne_true, near_iff]
    exact fun hnear => absurd hfar (not_le_of_gt hnear)
  rw [remaining, hposition, (Moving_spec delta m).1, remaining]

/-- A direction of the length one leads past the destination where that is nearer than the
step. -/
theorem remaining_near (delta : ℝ) (hstop : m.bMove = false) (hnear : m.remaining < 10)
    (hlong : 1 / 10 ^ 4 < m.remaining) :
    (m.Moving delta).remaining = Overshoot.step (m.maxSpeed * delta) m.remaining := by
  obtain ⟨hspeed, hforward⟩ := accelerate_near hstop hnear
  rw [Normalize_of_lt ((lit_lt_iff m).mpr hlong)] at hforward
  rw [remaining, position_Moving, (Moving_spec delta m).1, hspeed, hforward]
  exact Overshoot.sqrt_step (lt_trans (by norm_num) hlong)

/-- A direction that is too short is taken as it is. -/
theorem remaining_close (delta : ℝ) (hstop : m.bMove = false) (hclose : m.remaining ≤ 1 / 10 ^ 4) :
    (m.Moving delta).remaining = m.remaining * |1 - m.maxSpeed * delta| := by
  have hnear : m.remaining < 10 := lt_of_le_of_lt hclose (by norm_num)
  obtain ⟨hspeed, hforward⟩ := accelerate_near hstop hnear
  have hshort : ¬ (lit 1 8 : ℝ) < (m.dest - m.position).x * (m.dest - m.position).x +
      (m.dest - m.position).y * (m.dest - m.position).y + (m.dest - m.position).z * (m.dest - m.position).z :=
    fun hlong => absurd ((lit_lt_iff m).mp hlong) (not_lt_of_ge hclose)
  rw [Vector3.Normalize, if_neg hshort] at hforward
  have hleft : m.position + ((m.dest - m.position).scale delta).scale m.maxSpeed - m.dest =
      (m.position - m.dest).scale (1 - m.maxSpeed * delta) := by
    ext
    · exact (by ring : m.position.x + (m.dest.x - m.position.x) * delta * m.maxSpeed - m.dest.x =
        (m.position.x - m.dest.x) * (1 - m.maxSpeed * delta))
    · exact (by ring : m.position.y + (m.dest.y - m.position.y) * delta * m.maxSpeed - m.dest.y =
        (m.position.y - m.dest.y) * (1 - m.maxSpeed * delta))
    · exact (by ring : m.position.z + (m.dest.z - m.position.z) * delta * m.maxSpeed - m.dest.z =
        (m.position.z - m.dest.z) * (1 - m.maxSpeed * delta))
  rw [remaining, position_Moving, (Moving_spec delta m).1, hspeed, hforward, Distance_eq_length, hleft, length_scale]
  rfl

/-- The step is not longer than twice the way that is left, where `Moving` goes that way: the
direction has a length of its own where the way is very short. -/
def Short (m : Motion ℝ) (delta : ℝ) : Prop :=
  m.remaining < ofInt 10 →
    if lit 1 4 < m.remaining then m.maxSpeed * delta ≤ 2 * m.remaining
    else m.remaining = 0 ∨ m.maxSpeed * delta ≤ 2

theorem short_iff : m.Short delta ↔ (m.remaining < 10 →
    if 1 / 10 ^ 4 < m.remaining then m.maxSpeed * delta ≤ 2 * m.remaining
    else m.remaining = 0 ∨ m.maxSpeed * delta ≤ 2) := by
  rw [Short, ofInt_real, lit_real, Int.cast_ofNat, Int.cast_one]

theorem remaining_le_iff (hstop : m.bMove = false) (hmax : 0 ≤ m.maxSpeed) (hdelta : 0 ≤ delta) :
    m.Short delta ↔ (m.Moving delta).remaining ≤ m.remaining := by
  have hstep : 0 ≤ m.maxSpeed * delta := mul_nonneg hmax hdelta
  have hnonneg : 0 ≤ m.remaining := remaining_nonneg m
  rw [short_iff]
  obtain hfar | hnear := le_or_gt 10 m.remaining
  · rw [remaining_far delta hstop hfar]
    exact ⟨fun _ => le_rfl, fun _ hless => absurd hless (not_lt_of_ge hfar)⟩
  · obtain hclose | hlong := le_or_gt m.remaining (1 / 10 ^ 4)
    · rw [remaining_close delta hstop hclose, if_neg (not_lt_of_ge hclose)]
      constructor
      · intro hshort
        obtain hzero | hle := hshort hnear
        · rw [hzero, zero_mul]
        · have habs : |1 - m.maxSpeed * delta| ≤ 1 := abs_le.mpr ⟨by linarith, by linarith⟩
          exact mul_le_of_le_one_right hnonneg habs
      · intro hle _
        obtain hzero | hpos := hnonneg.eq_or_lt
        · exact .inl hzero.symm
        · have habs : |1 - m.maxSpeed * delta| ≤ 1 := (mul_le_iff_le_one_right hpos).mp hle
          refine .inr ?_
          linarith [(abs_le.mp habs).1]
    · rw [remaining_near delta hstop hnear hlong, if_pos hlong, Overshoot.step, abs_le]
      constructor
      · intro hshort
        have hle := hshort hnear
        exact ⟨by linarith, by linarith⟩
      · intro hle _
        linarith [hle.1]

/-- A call of `Moving`. -/
def Tick (m : Motion ℝ) (delta : ℝ) (m' : Motion ℝ) : Prop := 0 ≤ delta ∧ m.Moving delta = m'

/-- A character is not further from where it stops than before. -/
def Approaches (m : Motion ℝ) (_ : ℝ) (m' : Motion ℝ) : Prop := m'.remaining ≤ m.remaining

/-- A character that stops gets no further from where it stops exactly by steps that are not
longer than twice the way that is left. -/
theorem stopping_converges_iff (hstop : m.bMove = false) (hmax : 0 ≤ m.maxSpeed) :
    (∀ delta, 0 ≤ delta → (m.Short delta ↔ (m.Moving delta).position.Distance m.dest ≤ m.position.Distance m.dest)) ∧
      (Run (Guarded Short Tick) m deltas m' ↔ Run (Keeping Approaches Tick) m deltas m') ∧
      (Run (Guarded Short Tick) m deltas m' → m'.position.Distance m.dest ≤ m.position.Distance m.dest) := by
  have hinv : ∀ (m : Motion ℝ) (delta : ℝ) (m' : Motion ℝ), (m.bMove = false ∧ 0 ≤ m.maxSpeed) → Tick m delta m' →
      m'.bMove = false ∧ 0 ≤ m'.maxSpeed := by
    rintro m delta _ ⟨hstop, hmax⟩ ⟨_, rfl⟩
    obtain ⟨_, hsame, hsame', _⟩ := Moving_spec delta m
    exact ⟨hsame.trans hstop, hsame' ▸ hmax⟩
  have hiff : Run (Guarded Short Tick) m deltas m' ↔ Run (Keeping Approaches Tick) m deltas m' := by
    apply run_guarded_iff_keeping (fun m => m.bMove = false ∧ 0 ≤ m.maxSpeed) hinv _ ⟨hstop, hmax⟩
    rintro m delta _ ⟨hstop, hmax⟩ ⟨hdelta, rfl⟩
    exact remaining_le_iff hstop hmax hdelta
  refine ⟨fun delta hdelta => ?_, hiff, fun hrun => ?_⟩
  · have hone := remaining_le_iff hstop hmax hdelta
    rwa [remaining, remaining, (Moving_spec delta m).1] at hone
  · have hkept : m'.dest = m.dest ∧ m'.remaining ≤ m.remaining := by
      apply (hiff.mp hrun).invariant_trace (fun _ u => u.dest = m.dest ∧ u.remaining ≤ m.remaining) ⟨rfl, le_rfl⟩
      rintro _ u delta _ ⟨hdest, hle⟩ ⟨hcloser, _, rfl⟩
      exact ⟨(Moving_spec delta u).1.trans hdest, le_trans hcloser hle⟩
    obtain ⟨hdest, hle⟩ := hkept
    rwa [remaining, remaining, hdest] at hle

section Example

/-- A character that stops on an axis. -/
noncomputable def stopping (x maxSpeed : ℝ) : Motion ℝ :=
  ⟨.zero, ⟨x, 0, 0⟩, .zero, .zero, false, false, 0, maxSpeed⟩

theorem remaining_stopping {x : ℝ} (hx : 0 ≤ x) (maxSpeed : ℝ) : (stopping x maxSpeed).remaining = x := by
  change √((ofInt 0 - x) * (ofInt 0 - x) + (ofInt 0 - 0) * (ofInt 0 - 0) + (ofInt 0 - 0) * (ofInt 0 - 0)) = x
  rw [ofInt_real, Int.cast_zero, show (0 - x) * (0 - x) + (0 - 0) * (0 - 0) + (0 - 0) * (0 - 0) = x * x by ring]
  exact Real.sqrt_mul_self hx

theorem stopping_converges_stopping :
    Run (Keeping Approaches Tick) (stopping 8 300) [1 / 20] ((stopping 8 300).Moving (1 / 20)) := by
  have hmax : 0 ≤ (stopping 8 300).maxSpeed := by norm_num [stopping]
  apply (stopping_converges_iff rfl hmax).2.1.mp
  refine .cons ⟨short_iff.mpr fun _ => ?_, by norm_num, rfl⟩ (.nil _)
  rw [remaining_stopping (by norm_num) _, if_pos (by norm_num)]
  norm_num [stopping]

/-- With twenty frames a second a character that is 5 away is 10 away after a tick, and stays
there. -/
theorem not_stopping_converges :
    ∃ m₁ m₂, (stopping 5 300).bMove = false ∧ 0 ≤ (stopping 5 300).maxSpeed ∧ Run Tick (stopping 5 300) [1 / 20] m₁ ∧
      Run Tick (stopping 5 300) [1 / 20, 1 / 20] m₂ ∧ (stopping 5 300).remaining = 5 ∧
      m₁.remaining = 10 ∧ m₂.remaining = 10 := by
  have hfive : (stopping 5 300).remaining = 5 := remaining_stopping (by norm_num) _
  have hten : ((stopping 5 300).Moving (1 / 20)).remaining = 10 := by
    rw [remaining_near _ rfl (by rw [hfive]; norm_num) (by rw [hfive]; norm_num), hfive, Overshoot.step]
    norm_num [stopping]
  have hstays : (((stopping 5 300).Moving (1 / 20)).Moving (1 / 20)).remaining = 10 := by
    have hstop : ((stopping 5 300).Moving (1 / 20)).bMove = false := (Moving_spec _ _).2.1
    rw [remaining_far _ hstop hten.ge, hten]
  have hdelta : (0 : ℝ) ≤ 1 / 20 := by norm_num
  refine ⟨_, _, rfl, by norm_num [stopping], .cons ⟨hdelta, rfl⟩ (.nil _), ?_, hfive, hten, hstays⟩
  exact .cons ⟨hdelta, rfl⟩ (.cons ⟨hdelta, rfl⟩ (.nil _))

end Example

end Motion

end AsioGameServer.world

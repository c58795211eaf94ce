import AsioGameServer.Lib.Overshoot
import AsioGameServer.Lib.Reals
import AsioGameServer.Monster.Behaviour
import Mathlib.Tactic.NormNum

open Function Number

namespace AsioGameServer.monster

variable {delta : ℝ} {mon : Monster ℝ} {front : Vector3 ℝ} {rest : List (Vector3 ℝ)}

theorem Distance_nonneg (u v : Vector3 ℝ) : 0 ≤ u.Distance v := Real.sqrt_nonneg _

/-- The direction to a point that is not too near has the length one. -/
theorem Normalize_far {u v : Vector3 ℝ} (hfar : 5 ≤ u.Distance v) :
    (v - u).Normalize =
      (v - u).scale (1 / √((v.x - u.x) * (v.x - u.x) + (v.y - u.y) * (v.y - u.y) + (v.z - u.z) * (v.z - u.z))) := by
  have hroot : (5 : ℝ) ≤ √((u.x - v.x) * (u.x - v.x) + (u.y - v.y) * (u.y - v.y) + (u.z - v.z) * (u.z - v.z)) := hfar
  have hsquares : (5 : ℝ) ^ 2 ≤ (u.x - v.x) * (u.x - v.x) + (u.y - v.y) * (u.y - v.y) + (u.z - v.z) * (u.z - v.z) :=
    (Real.le_sqrt' (by norm_num)).mp hroot
  have hsmall : (lit 1 8 : ℝ) < 5 ^ 2 := by
    change ((1 : Int) : ℝ) / 10 ^ 8 < 5 ^ 2
    norm_num
  have hsum : (v.x - u.x) * (v.x - u.x) + (v.y - u.y) * (v.y - u.y) + (v.z - u.z) * (v.z - u.z) > lit 1 8 := by
    have hsame : (v.x - u.x) * (v.x - u.x) + (v.y - u.y) * (v.y - u.y) + (v.z - u.z) * (v.z - u.z) =
        (u.x - v.x) * (u.x - v.x) + (u.y - v.y) * (u.y - v.y) + (u.z - v.z) * (u.z - v.z) := by
      ring
    rw [hsame]
    exact lt_of_lt_of_le hsmall hsquares
  refine (if_pos hsum).trans ?_
  rw [ofInt_real, Int.cast_one]
  rfl

/-- A step towards a waypoint that is not reached. -/
theorem follow_far (delta : ℝ) (hmove : mon.bMove = true) (hpaths : mon.paths = front :: rest)
    (hfar : 5 ≤ mon.position.Distance front) :
    (follow delta mon).2.bMove = true ∧ (follow delta mon).2.speed = mon.speed ∧
      (follow delta mon).2.paths = front :: rest ∧
      (follow delta mon).2.position.Distance front =
        Overshoot.step (mon.speed * delta) (mon.position.Distance front) := by
  have hnot : ¬ mon.position.Distance front < ofInt 5 := by
    rw [ofInt_real]
    exact not_lt_of_ge (by exact_mod_cast hfar)
  have hfollow : follow delta mon = (true, (mon.SetForward (front - mon.position)).Moving delta) := by
    unfold follow
    rw [hpaths]
    dsimp only
    rw [if_neg hnot]
    dsimp only
    rw [← hpaths]
  rw [hfollow, Monster.Moving, if_pos (show (mon.SetForward (front - mon.position)).bMove = true from hmove)]
  refine ⟨hmove, rfl, hpaths, ?_⟩
  dsimp only [Monster.SetForward]
  rw [Normalize_far hfar]
  exact Overshoot.sqrt_step (lt_of_lt_of_le (by norm_num) hfar)

/-- A waypoint that is reached goes. -/
theorem paths_follow_near (hpaths : mon.paths = front :: rest) (hnear : mon.position.Distance front < 5) :
    (follow delta mon).2.paths = rest := by
  have hmoving : ∀ mon : Monster ℝ, (mon.Moving delta).paths = mon.paths := fun mon => by
    unfold Monster.Moving
    split <;> rfl
  have hnear' : mon.position.Distance front < ofInt 5 := by
    rw [ofInt_real]
    exact_mod_cast hnear
  unfold follow
  rw [hpaths]
  dsimp only
  rw [if_pos hnear']
  cases rest with
  | nil => rfl
  | cons => exact hmoving _

/-- What `Patrol` and `Chase` do in each tick. -/
noncomputable def walk (delta : ℝ) (mon : Monster ℝ) : Monster ℝ := (follow delta mon).2

/-- The way to a waypoint that was not reached so far. -/
theorem walk_iterate (hmove : mon.bMove = true) (hpaths : mon.paths = front :: rest) (n : Nat)
    (hfar : ∀ i < n, 5 ≤ (Overshoot.step (mon.speed * delta))^[i] (mon.position.Distance front)) :
    ((walk delta)^[n] mon).bMove = true ∧ ((walk delta)^[n] mon).speed = mon.speed ∧
      ((walk delta)^[n] mon).paths = front :: rest ∧
      ((walk delta)^[n] mon).position.Distance front =
        (Overshoot.step (mon.speed * delta))^[n] (mon.position.Distance front) := by
  induction n with
  | zero => exact ⟨hmove, rfl, hpaths, rfl⟩
  | succ n ih =>
    obtain ⟨hmove', hspeed, hpaths', hdistance⟩ := ih fun i hi => hfar i (Nat.lt_succ_of_lt hi)
    have hfar' := hfar n (Nat.lt_succ_self n)
    rw [← hdistance] at hfar'
    obtain ⟨hmove'', hspeed', hpaths'', hdistance'⟩ := follow_far delta hmove' hpaths' hfar'
    rw [hspeed] at hspeed' hdistance'
    rw [iterate_succ_apply', iterate_succ_apply']
    exact ⟨hmove'', hspeed', hpaths'', hdistance'.trans (by rw [hdistance])⟩

/-- The waypoint in front is kept until it is near, and goes then. -/
def Reaches (act : Stage ℝ → Bool × Stage ℝ) (s : Stage ℝ) (front : Vector3 ℝ) (rest : List (Vector3 ℝ)) : Prop :=
  ∃ n, (∀ i ≤ n, ((fun s => (act s).2)^[i] s).self.paths = front :: rest) ∧
    ((fun s => (act s).2)^[n] s).self.position.Distance front < 5 ∧
    ((fun s => (act s).2)^[n + 1] s).self.paths = rest

theorem reaches_walk_iff {act : Stage ℝ → Bool × Stage ℝ} {s : Stage ℝ} (hact : ∀ s, (act s).2.self = walk delta s.self)
    (hmove : s.self.bMove = true) (hpaths : s.self.paths = front :: rest) (hspeed : 0 < s.self.speed)
    (hdelta : 0 < delta) :
    Reaches act s front rest ↔ ∃ k : Nat, |s.self.position.Distance front - k * (s.self.speed * delta)| < 5 := by
  have hself : ∀ n, ((fun s => (act s).2)^[n] s).self = (walk delta)^[n] s.self := by
    intro n
    have hsemiconj : Semiconj Stage.self (fun s => (act s).2) (walk delta) := hact
    exact hsemiconj.iterate_right n s
  have hiterate := Overshoot.exists_iterate_step_lt_iff (r := 5) (mul_pos hspeed hdelta).le
    (Distance_nonneg s.self.position front)
  simp only [nsmul_eq_mul] at hiterate
  rw [← hiterate]
  unfold Reaches
  simp only [hself]
  constructor
  · rintro ⟨n, -, hnear, -⟩
    by_contra hnone
    push Not at hnone
    rw [(walk_iterate hmove hpaths n fun i _ => hnone i).2.2.2] at hnear
    exact absurd hnear (not_lt_of_ge (hnone n))
  · intro hexists
    classical
    have hfar : ∀ i < Nat.find hexists,
        5 ≤ (Overshoot.step (s.self.speed * delta))^[i] (s.self.position.Distance front) :=
      fun i hi => not_lt.mp (Nat.find_min hexists hi)
    have hway := fun i (hi : i ≤ Nat.find hexists) =>
      walk_iterate hmove hpaths i fun j hj => hfar j (Nat.lt_of_lt_of_le hj hi)
    have hnear : ((walk delta)^[Nat.find hexists] s.self).position.Distance front < 5 := by
      rw [(hway _ (Nat.le_refl _)).2.2.2]
      exact Nat.find_spec hexists
    refine ⟨Nat.find hexists, fun i hi => (hway i hi).2.2.1, hnear, ?_⟩
    rw [iterate_succ_apply']
    exact paths_follow_near (hway _ (Nat.le_refl _)).2.2.1 hnear

section Waypoints

variable {w : Surroundings ℝ} {s : Stage ℝ}

/-- A waypoint is reached if and only if some number of whole steps of a tick ends near it. -/
theorem waypoint_reached_iff (hmove : s.self.bMove = true) (hpaths : s.self.paths = front :: rest)
    (hspeed : 0 < s.self.speed) (hdelta : 0 < w.delta) :
    (Reaches (Patrol w) s front rest ↔ ∃ k : Nat, |s.self.position.Distance front - k * (s.self.speed * w.delta)| < 5) ∧
      (Reaches (Chase w) s front rest ↔
        ∃ k : Nat, |s.self.position.Distance front - k * (s.self.speed * w.delta)| < 5) :=
  ⟨reaches_walk_iff (fun _ => rfl) hmove hpaths hspeed hdelta,
    reaches_walk_iff (fun _ => rfl) hmove hpaths hspeed hdelta⟩

/-- Steps shorter than ten reach every waypoint. -/
theorem waypoint_reached_of_short_step {act : Stage ℝ → Bool × Stage ℝ} (hact : ∀ s, (act s).2.self = walk delta s.self)
    (hmove : s.self.bMove = true) (hpaths : s.self.paths = front :: rest) (hspeed : 0 < s.self.speed)
    (hdelta : 0 < delta)
    (hshort : s.self.speed * delta < 10) : Reaches act s front rest := by
  refine (reaches_walk_iff hact hmove hpaths hspeed hdelta).mpr ?_
  have hnear := Overshoot.exists_near_of_step_lt (r := 5) (mul_pos hspeed hdelta)
    (Distance_nonneg s.self.position front) (by linarith)
  simpa only [nsmul_eq_mul] using hnear

end Waypoints

section Example

/-- Twenty frames a second. -/
noncomputable def frames : Surroundings ℝ where
  cm := false
  SearchNearPlayer _ := (-1, 0)
  GetCharacter _ := none
  navi := false
  findRandomPointAroundCircle p _ := p
  findStraightPath _ _ := []
  idleTimeRange := 3
  delta := 1 / 20
  now := 0

/-- A monster with a speed of 300, and one waypoint in front. -/
noncomputable def walker (x : ℝ) : Stage ℝ :=
  ⟨⟨1, 0, 0, "", true, 1, 1, 1, 1, 0, 0, .zero, 0, 300, ⟨0, 0, 0⟩, .zero, true, false, .IDLE, .PATROL, 0, 0, 0, false,
    0, [⟨x, 0, 0⟩], none⟩, []⟩

theorem Distance_walker {x : ℝ} (hx : 0 ≤ x) : (walker x).self.position.Distance ⟨x, 0, 0⟩ = x := by
  change √((0 - x) * (0 - x) + (0 - 0) * (0 - 0) + (0 - 0) * (0 - 0)) = x
  rw [show (0 - x) * (0 - x) + (0 - 0) * (0 - 0) + (0 - 0) * (0 - 0) = x * x by ring]
  exact Real.sqrt_mul_self hx

theorem step_walker (x : ℝ) : (walker x).self.speed * frames.delta = 15 := by
  change (300 : ℝ) * (1 / 20) = 15
  norm_num

theorem walker_moves (x : ℝ) : 0 < (walker x).self.speed ∧ 0 < frames.delta := by
  change (0 : ℝ) < 300 ∧ (0 : ℝ) < 1 / 20
  norm_num

theorem waypoint_reached_walker :
    Reaches (Patrol frames) (walker 33) ⟨33, 0, 0⟩ [] ∧ Reaches (Chase frames) (walker 33) ⟨33, 0, 0⟩ [] := by
  obtain ⟨hspeed, hdelta⟩ := walker_moves 33
  obtain ⟨hpatrol, hchase⟩ := waypoint_reached_iff (s := walker 33) (w := frames) rfl rfl hspeed hdelta
  have hnear : ∃ k : Nat, |(walker 33).self.position.Distance ⟨33, 0, 0⟩ -
      k * ((walker 33).self.speed * frames.delta)| < 5 := by
    refine ⟨2, ?_⟩
    rw [Distance_walker (by norm_num), step_walker]
    norm_num [abs_lt]
  exact ⟨hpatrol.mpr hnear, hchase.mpr hnear⟩

/-- From 37.5 steps of 15 lead to 22.5 and 7.5, and then from one side of the waypoint to the
other. -/
theorem not_waypoint_reached :
    ¬ Reaches (Patrol frames) (walker (75 / 2)) ⟨75 / 2, 0, 0⟩ [] ∧
      ¬ Reaches (Chase frames) (walker (75 / 2)) ⟨75 / 2, 0, 0⟩ [] := by
  obtain ⟨hspeed, hdelta⟩ := walker_moves (75 / 2)
  have hfar : ¬ ∃ k : Nat, |(walker (75 / 2)).self.position.Distance ⟨75 / 2, 0, 0⟩ -
      k * ((walker (75 / 2)).self.speed * frames.delta)| < 5 := by
    rintro ⟨k, hk⟩
    rw [Distance_walker (by norm_num), step_walker, abs_lt] at hk
    obtain hfew | hmany := Nat.lt_or_ge k 3
    · have hle : (k : ℝ) ≤ 2 := by exact_mod_cast Nat.le_of_lt_succ hfew
      linarith
    · have hle : (3 : ℝ) ≤ k := by exact_mod_cast hmany
      linarith
  exact ⟨fun hreaches => hfar ((reaches_walk_iff (fun _ => rfl) rfl rfl hspeed hdelta).mp hreaches),
    fun hreaches => hfar ((reaches_walk_iff (fun _ => rfl) rfl rfl hspeed hdelta).mp hreaches)⟩

end Example

end AsioGameServer.monster

import AsioGameServer.Lib.Nearest
import AsioGameServer.Login.Registration
import AsioGameServer.Monster.Behaviour

open Number

namespace AsioGameServer.monster

variable {F : Type} [Number F] {w : Surroundings F} {s : Stage F}

def MAX_flt : F := ofInt 340282346600000000000000000000000000000

/-- The characters of a manager under their codes, in the order of its map, where some are
gone. -/
structure CharacterManager (F : Type) where
  characters : List (Int × Option (Vector3 F))
  nodup : (characters.map Prod.fst).Nodup

namespace CharacterManager

def SearchNearPlayer (vec : Vector3 F) (cm : CharacterManager F) : Int × F :=
  cm.characters.foldl
    (fun (code, min) (key, ch) =>
      match ch with
      | none => (code, min)
      | some position =>
        let distance := position.Distance vec
        if distance < min then (key, distance) else (code, min))
    (-1, MAX_flt)

def GetCharacter (key : Int) (cm : CharacterManager F) : Option (Vector3 F) := (cm.characters.lookup key).join

/-- A monster in a channel with these characters. -/
def surround (w : Surroundings F) (cm : CharacterManager F) : Surroundings F :=
  { w with
    cm := true
    SearchNearPlayer := fun vec => cm.SearchNearPlayer vec
    GetCharacter := fun key => cm.GetCharacter key }

/-- The characters that are there. -/
def live (cm : CharacterManager F) : List (Int × Vector3 F) := cm.characters.filterMap fun (key, ch) => ch.map (key, ·)

/-- A character that is there and than which none is nearer. -/
def IsNearest (cm : CharacterManager F) (vec : Vector3 F) (code : Int) : Prop :=
  ∃ position, (code, position) ∈ cm.live ∧ ∀ other ∈ cm.live, position.Distance vec ≤ other.2.Distance vec

/-- The search says whether someone is there, and finds one who is nearest. -/
def Finds (cm : CharacterManager F) (vec : Vector3 F) : Prop :=
  ((cm.SearchNearPlayer vec).1 = -1 ↔ cm.live = []) ∧
    (cm.live ≠ [] → cm.IsNearest vec (cm.SearchNearPlayer vec).1)

/-- `UpdateState` turns to a nearest player where one is closer than 1000, and to nobody
otherwise. -/
def Reacts (cm : CharacterManager F) (w : Surroundings F) (s : Stage F) : Prop :=
  ((∃ c ∈ cm.live, c.2.Distance s.self.position < ofInt 1000) →
    ((UpdateState (cm.surround w) s).2.self.state = .CHASE ∨ (UpdateState (cm.surround w) s).2.self.state = .ATTACK) ∧
      cm.IsNearest s.self.position (UpdateState (cm.surround w) s).2.self.targetCode) ∧
  ((∀ c ∈ cm.live, ¬ c.2.Distance s.self.position < ofInt 1000) →
    (UpdateState (cm.surround w) s).2.self.state = .IDLE)

/-- The first of the nearest players has the code that stands for nobody. -/
def Hidden (cm : CharacterManager F) (vec : Vector3 F) : Prop :=
  ∃ position before after, cm.live = before ++ (-1, position) :: after ∧
    (∀ c ∈ before, position.Distance vec < c.2.Distance vec) ∧ ∀ c ∈ after, position.Distance vec ≤ c.2.Distance vec

end CharacterManager

variable {cm : CharacterManager F} {vec : Vector3 F}

/-- The codes of the characters that are there, with their distances. -/
def CharacterManager.distances (vec : Vector3 F) (cm : CharacterManager F) : List (Int × F) :=
  cm.live.map fun c => (c.1, c.2.Distance vec)

theorem SearchNearPlayer_eq : cm.SearchNearPlayer vec = Nearest.search (-1) MAX_flt (cm.distances vec) := by
  unfold CharacterManager.SearchNearPlayer CharacterManager.distances CharacterManager.live Nearest.search
  generalize ((-1, MAX_flt) : Int × F) = best
  induction cm.characters generalizing best with
  | nil => rfl
  | cons entry characters ih =>
    obtain ⟨key, ch⟩ := entry
    rw [List.foldl_cons, List.filterMap_cons]
    cases ch with
    | none => exact ih best
    | some position => exact ih _

/-- The characters and their distances are in the same order. -/
theorem hidden_iff_isFirst : cm.Hidden vec ↔ ∃ distance, Nearest.IsFirst (cm.distances vec) (-1, distance) := by
  unfold CharacterManager.Hidden CharacterManager.distances Nearest.IsFirst
  constructor
  · rintro ⟨position, before, after, hsplit, hbefore, hafter⟩
    refine ⟨position.Distance vec, before.map fun c => (c.1, c.2.Distance vec),
      after.map fun c => (c.1, c.2.Distance vec),
      ?_, ?_, ?_⟩
    · rw [hsplit, List.map_append, List.map_cons]
    · exact List.forall_mem_map.mpr hbefore
    · exact List.forall_mem_map.mpr hafter
  · rintro ⟨distance, before, after, hsplit, hbefore, hafter⟩
    obtain ⟨before', rest, hsplit', rfl, hrest⟩ := List.map_eq_append_iff.mp hsplit
    obtain ⟨c, after', rfl, hc, rfl⟩ := List.map_eq_cons_iff.mp hrest
    obtain ⟨code, position⟩ := c
    obtain ⟨rfl, rfl⟩ := Prod.mk.inj hc
    refine ⟨position, before', after', hsplit', fun c hc => ?_, fun c hc => ?_⟩
    · exact hbefore _ (List.mem_map_of_mem hc)
    · exact hafter _ (List.mem_map_of_mem hc)

theorem Looks.reacts {p : Bool × Stage F} (h : Looks w s p) (halive : s.self.bAlive = true) (hcm : w.cm = true) :
    (Notices w s.self → (p.2.self.state = .CHASE ∨ p.2.self.state = .ATTACK) ∧
      p.2.self.targetCode = (w.SearchNearPlayer s.self.position).1) ∧
        (¬ Notices w s.self → p.2.self.state = .IDLE) := by
  cases h with
  | waits hdead | respawns hdead => exact absurd (hdead.symm.trans halive) Bool.false_ne_true
  | alone _ hnone => exact absurd (hnone.symm.trans hcm) Bool.false_ne_true
  | chases _ _ hnotices => exact ⟨fun _ => ⟨.inl rfl, rfl⟩, fun hnot => absurd hnotices hnot⟩
  | attacks _ _ hnotices => exact ⟨fun _ => ⟨.inr rfl, rfl⟩, fun hnot => absurd hnotices hnot⟩
  | idles _ _ hnone => exact ⟨fun hnotices => absurd hnotices hnone, fun _ => rfl⟩

theorem mem_distances_iff {code : Int} {distance : F} :
    (code, distance) ∈ cm.distances vec ↔
      ∃ position, (code, position) ∈ cm.live ∧ position.Distance vec = distance := by
  unfold CharacterManager.distances
  simp

/-- The search where nobody is there. -/
theorem finds_reacts_of_empty (hlive : cm.live = []) (hsearch : (cm.SearchNearPlayer s.self.position).1 = -1)
    (halive : s.self.bAlive = true) : cm.Finds s.self.position ∧ cm.Reacts w s := by
  have hnot : ¬ Notices (cm.surround w) s.self := fun hnotices => hnotices.1 hsearch
  refine ⟨⟨⟨fun _ => hlive, fun _ => hsearch⟩, fun hne => absurd hlive hne⟩, ?_, fun _ => ?_⟩
  · rintro ⟨c, hc, _⟩
    rw [hlive] at hc
    cases hc
  · exact ((UpdateState_looks (cm.surround w) s).reacts halive rfl).2 hnot

/-- The search where it finds someone who is not taken for nobody. -/
theorem finds_reacts_of_first
    (hfirst : Nearest.IsFirst (cm.distances s.self.position) (cm.SearchNearPlayer s.self.position))
    (hcode : (cm.SearchNearPlayer s.self.position).1 ≠ -1) (halive : s.self.bAlive = true) :
    cm.Finds s.self.position ∧ cm.Reacts w s := by
  obtain ⟨position, hmem, hdistance⟩ := mem_distances_iff.mp hfirst.mem
  have hle : ∀ c ∈ cm.live, (cm.SearchNearPlayer s.self.position).2 ≤ c.2.Distance s.self.position :=
    fun c hc => hfirst.le (c.1, c.2.Distance s.self.position) (List.mem_map_of_mem hc)
  have hnearest : cm.IsNearest s.self.position (cm.SearchNearPlayer s.self.position).1 :=
    ⟨position, hmem, fun c hc => hdistance.trans_le (hle c hc)⟩
  have hlooks := (UpdateState_looks (cm.surround w) s).reacts halive rfl
  refine ⟨⟨⟨fun hnone => absurd hnone hcode, fun hempty => ?_⟩, fun _ => hnearest⟩, ?_, fun hfar => ?_⟩
  · rw [hempty] at hmem
    cases hmem
  · rintro ⟨c, hc, hclose⟩
    obtain ⟨hstate, htarget⟩ := hlooks.1 ⟨hcode, lt_of_le_of_lt (hle c hc) hclose⟩
    rw [htarget]
    exact ⟨hstate, hnearest⟩
  · refine hlooks.2 fun hnotices => hfar _ hmem ?_
    rw [hdistance]
    exact hnotices.2

/-- Monsters notice the players around them where none of these is hidden. -/
theorem notices_nearby_iff (hlt : ∀ c ∈ cm.live, c.2.Distance s.self.position < MAX_flt)
    (halive : s.self.bAlive = true) :
    (cm.Finds s.self.position ∧ cm.Reacts w s) ↔ ¬ cm.Hidden s.self.position := by
  have htop : ∀ y ∈ cm.distances s.self.position, y.2 < MAX_flt := List.forall_mem_map.mpr hlt
  have hspec := @Nearest.search_spec _ _ _ (-1 : Int) _ _ htop
  rw [← SearchNearPlayer_eq] at hspec
  obtain ⟨hempty, hsearch⟩ | hfirst := hspec
  · refine ⟨fun _ hhidden => ?_, fun _ => ?_⟩
    · obtain ⟨distance, hhidden⟩ := hidden_iff_isFirst.mp hhidden
      exact absurd hhidden.mem (by simp [hempty])
    · exact finds_reacts_of_empty (List.map_eq_nil_iff.mp hempty) (by rw [hsearch]) halive
  · constructor
    · rintro ⟨⟨hnone, _⟩, _⟩ hhidden
      obtain ⟨distance, hhidden⟩ := hidden_iff_isFirst.mp hhidden
      have hempty := hnone.mp (congrArg Prod.fst (hfirst.unique hhidden))
      exact absurd hfirst.mem (by simp [CharacterManager.distances, hempty])
    · intro hseen
      refine finds_reacts_of_first hfirst (fun hcode => hseen ?_) halive
      generalize cm.SearchNearPlayer s.self.position = result at hfirst hcode
      obtain ⟨_, distance⟩ := result
      obtain rfl : _ = (-1 : Int) := hcode
      exact hidden_iff_isFirst.mpr ⟨distance, hfirst⟩

section Example

/-- One player, next to the origin. -/
def lonePlayer (code : Int) : CharacterManager Int := ⟨[(code, some ⟨1, 0, 0⟩)], by simp⟩

/-- A slime at the origin that is alive. -/
def awake : Stage Int := ⟨{ blank with bAlive := true }, []⟩

theorem lonePlayer_near (code : Int) :
    ∀ c ∈ (lonePlayer code).live, c.2.Distance awake.self.position < MAX_flt := by
  intro c hc
  have hc' : c ∈ [(code, (⟨1, 0, 0⟩ : Vector3 Int))] := hc
  rw [List.mem_singleton.mp hc']
  change (1 : Int) < 340282346600000000000000000000000000000
  decide

theorem notices_nearby_second_player :
    (lonePlayer (-2)).Finds awake.self.position ∧ (lonePlayer (-2)).Reacts field awake := by
  refine (notices_nearby_iff (lonePlayer_near (-2)) rfl).mpr ?_
  rintro ⟨position, before, after, hsplit, _⟩
  have hmem : ((-1 : Int), position) ∈ (lonePlayer (-2)).live := by rw [hsplit]; simp
  have hmem' : ((-1 : Int), position) ∈ [((-2 : Int), (⟨1, 0, 0⟩ : Vector3 Int))] := hmem
  simp at hmem'

/-- The first code that a login gives out is the one that stands for nobody, and the slime
does not notice the player who has it. -/
theorem not_notices_nearby :
    (∃ t, login.Players.emptyServer.loginOn_Read 0 = some t ∧ t.queries.map login.Load.code = [-1]) ∧
      (∀ c ∈ (lonePlayer (-1)).live, c.2.Distance awake.self.position < MAX_flt) ∧
      (lonePlayer (-1)).SearchNearPlayer awake.self.position = (-1, 1) ∧
      (UpdateState ((lonePlayer (-1)).surround field) awake).2.self.state = .IDLE ∧
      ¬ ((lonePlayer (-1)).Finds awake.self.position ∧ (lonePlayer (-1)).Reacts field awake) := by
  refine ⟨⟨_, rfl, rfl⟩, lonePlayer_near (-1), by decide, by decide, ?_⟩
  rintro ⟨⟨hnone, _⟩, _⟩
  have hempty : [((-1 : Int), (⟨1, 0, 0⟩ : Vector3 Int))] = [] := hnone.mp (by decide)
  cases hempty

end Example

end AsioGameServer.monster

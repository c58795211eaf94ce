import AsioGameServer.Dungeon.Facts
import AsioGameServer.Status.Experience

open Function Number Transition

namespace AsioGameServer.dungeon

open monster (Monster MonsterManager Output DamageFormula MonsterInfo Numbered)

variable {F : Type} [Number F] {infos : Int → Option (MonsterInfo F)} {f : DamageFormula F}
  {sm : status.StatusManager F} {d d' : Dungeon F} {code : Int}

namespace Dungeon

omit [Number F] in
/-- Everybody gets what waited. -/
theorem PrevTick_eq (d : Dungeon F) :
    d.PrevTick = { d with
      req_send_all := []
      characters := d.characters.map fun ch => { ch with received := ch.received ++ d.req_send_all.map .toAll } } := by
  have hsent : ∀ (packets : List (Output F)) (d : Dungeon F), packets.foldl SendAllCharacter d =
      { d with characters := d.characters.map fun ch =>
          { ch with received := ch.received ++ packets.map .toAll } } := by
    intro packets
    induction packets with
    | nil => simp
    | cons packet packets ih =>
      intro d
      rw [List.foldl_cons, ih]
      simp [SendAllCharacter]
  exact hsent d.req_send_all { d with req_send_all := [] }

/-- A step of the monsters goes on from what left them before. -/
theorem exists_queue {e : MonsterManager.Event F} (hnumbered : Numbered d.mm)
    (hnext : d.next infos f sm (.monsters e) = some d') :
    ∃ new, d'.mm.outputs = d.mm.outputs ++ new ∧ Numbered d'.mm ∧
      Replica.Leads (facts d.mm) (new.flatMap tells) (facts d'.mm) ∧
      d' = { d with
        mm := d'.mm
        req_send_all := d.req_send_all ++ new.filter isPacket
        rewards := d.rewards ++ new.filterMap reward } := by
  simp only [Dungeon.next, Option.bind_eq_bind, Option.bind_eq_some_iff] at hnext
  obtain ⟨e', he, mm, hmm, hnext⟩ := hnext
  cases hnext
  obtain ⟨new, hnew, hleads⟩ := Announces.next hnumbered he hmm
  rw [List.append_nil] at hleads
  refine ⟨new, hnew, monster.numbered_next hnumbered hmm, hleads, ?_⟩
  simp [Dungeon.queue, hnew]

/-- The other steps leave the monsters alone. -/
theorem mm_next {e : Event F} (hother : ∀ e', e ≠ .monsters e') (hnext : d.next infos f sm e = some d') :
    d'.mm = d.mm := by
  cases e with
  | monsters e' => exact absurd rfl (hother e')
  | InsertCharacter code =>
    cases hnext
    unfold Dungeon.InsertCharacter
    split <;> rfl
  | EraseCharacter key =>
    cases hnext
    rfl
  | PrevTick =>
    cases hnext
    rw [PrevTick_eq]
  | award i cm session =>
    simp only [Dungeon.next, Option.bind_eq_bind, Option.bind_eq_some_iff] at hnext
    obtain ⟨reward, _, ⟨notices, level⟩, _, hnext⟩ := hnext
    cases hnext
    rfl

theorem numbered_next {e : Event F} (hnumbered : Numbered d.mm) (hnext : d.next infos f sm e = some d') :
    Numbered d'.mm := by
  by_cases hother : ∀ e', e ≠ .monsters e'
  · rw [mm_next hother hnext]
    exact hnumbered
  · push Not at hother
    obtain ⟨e', rfl⟩ := hother
    obtain ⟨_, _, hkept, _⟩ := exists_queue hnumbered hnext
    exact hkept

theorem numbered_of_run {levels : Int → status.Character F} {events : List (Event F)}
    (hrun : Run (OfOption (Dungeon.next infos f sm)) (.start levels) events d) : Numbered d.mm := by
  refine hrun.invariant (fun j monster hmonster => ?_) fun _ _ _ hnumbered hnext => numbered_next hnumbered hnext
  cases hmonster

/-- What a character has got that was inserted at some time: the snapshot of that time, and after it
the packets that waited then or left the monsters since, but for those that still wait. -/
structure Served (code : Int) (d₀ d : Dungeon F) (sent : List (Output F)) : Prop where
  client : ∀ ch, ch ∈ d.characters ∧ ch.code = code ↔
    ch = ⟨code, (Make_FBB_All_Monster d₀.mm 10).2.map .RESPAWN_MONSTER_VEC ++ sent.map .toAll⟩
  since : d₀.mm.outputs.length ≤ d.mm.outputs.length
  packets : sent ++ d.req_send_all =
    d₀.req_send_all ++ (d.mm.outputs.drop d₀.mm.outputs.length).filter isPacket

theorem Served.begin (hnew : code ∉ d.characters.map Client.code) : Served code d (d.InsertCharacter code) [] := by
  rw [Dungeon.InsertCharacter, if_neg hnew]
  refine ⟨fun ch => ?_, le_refl _, by simp⟩
  constructor
  · rintro ⟨hch, hcode⟩
    obtain hch | hch := List.mem_append.mp hch
    · exact absurd (hcode ▸ List.mem_map_of_mem hch) hnew
    · simpa using hch
  · rintro rfl
    exact ⟨List.mem_append_right _ (by simp), rfl⟩

theorem Served.next {d₀ : Dungeon F} {sent : List (Output F)} {e : Event F} (h : Served code d₀ d sent)
    (hnumbered : Numbered d.mm) (hstays : e ≠ .EraseCharacter code) (hnext : d.next infos f sm e = some d') :
    ∃ sent', Served code d₀ d' sent' := by
  have hclient := h.client
  cases e with
  | monsters e =>
    obtain ⟨new, hnew, _, _, hd'⟩ := exists_queue hnumbered hnext
    rw [hd']
    refine ⟨sent, h.client, ?_, ?_⟩
    · rw [hnew, List.length_append]
      exact h.since.trans (Nat.le_add_right _ _)
    · dsimp only
      rw [hnew, List.drop_append_of_le_length h.since, List.filter_append, ← List.append_assoc, h.packets,
        List.append_assoc]
  | InsertCharacter other =>
    cases hnext
    refine ⟨sent, ?_⟩
    unfold Dungeon.InsertCharacter
    split
    · exact h
    · rename_i hother
      obtain ⟨hmember, _⟩ := (hclient _).mpr rfl
      have hne : other ≠ code := fun heq => hother (heq ▸ List.mem_map_of_mem hmember)
      refine ⟨fun ch => ?_, h.since, h.packets⟩
      rw [← hclient ch]
      constructor
      · rintro ⟨hch, hcode⟩
        obtain hch | hch := List.mem_append.mp hch
        · exact ⟨hch, hcode⟩
        · rw [List.mem_singleton.mp hch] at hcode
          exact absurd hcode hne
      · exact fun ⟨hch, hcode⟩ => ⟨List.mem_append_left _ hch, hcode⟩
  | EraseCharacter key =>
    cases hnext
    have hne : code ≠ key := fun heq => hstays (heq ▸ rfl)
    refine ⟨sent, fun ch => ?_, h.since, h.packets⟩
    rw [← hclient ch]
    constructor
    · exact fun ⟨hch, hcode⟩ => ⟨List.mem_of_mem_filter hch, hcode⟩
    · exact fun ⟨hch, hcode⟩ => ⟨List.mem_filter.mpr ⟨hch, by simp [hcode, hne]⟩, hcode⟩
  | PrevTick =>
    cases hnext
    rw [PrevTick_eq]
    refine ⟨sent ++ d.req_send_all, fun ch => ?_, h.since, by simpa using h.packets⟩
    rw [List.map_append, ← List.append_assoc]
    constructor
    · rintro ⟨hch, hcode⟩
      obtain ⟨before, hbefore, rfl⟩ := List.mem_map.mp hch
      rw [(hclient before).mp ⟨hbefore, hcode⟩]
    · rintro rfl
      obtain ⟨hch, hcode⟩ := (hclient _).mpr rfl
      exact ⟨List.mem_map.mpr ⟨_, hch, rfl⟩, hcode⟩
  | award i cm session =>
    simp only [Dungeon.next, Option.bind_eq_bind, Option.bind_eq_some_iff] at hnext
    obtain ⟨reward, _, ⟨notices, level⟩, _, hnext⟩ := hnext
    cases hnext
    exact ⟨sent, h.client, h.since, h.packets⟩

/-- As long as it stays, a character that enters a dungeon gets the monsters as they were, and after
that every packet about them exactly once and in order: those that waited when it came and those
that left the monsters since. -/
theorem packets_delivered {levels : Int → status.Character F} {before after : List (Event F)} {d₀ d₁ : Dungeon F}
    (hbefore : Run (OfOption (Dungeon.next infos f sm)) (.start levels) before d₀)
    (hnew : code ∉ d₀.characters.map Client.code) (henter : d₀.next infos f sm (.InsertCharacter code) = some d₁)
    (hafter : Run (Guarded (fun _ e => e ≠ .EraseCharacter code) (OfOption (Dungeon.next infos f sm))) d₁ after d) :
    ∃ sent, Served code d₀ d sent := by
  have hnumbered : Numbered d₀.mm := numbered_of_run hbefore
  have hentered : Numbered d₁.mm ∧ ∃ sent, Served code d₀ d₁ sent := by
    refine ⟨numbered_next hnumbered henter, [], ?_⟩
    cases henter
    exact .begin hnew
  have hlast : Numbered d.mm ∧ ∃ sent, Served code d₀ d sent := by
    apply hafter.invariant hentered
    rintro a e b ⟨hkept, sent, hserved⟩ ⟨hstays, hnext⟩
    exact ⟨numbered_next hkept hnext, hserved.next hkept hstays hnext⟩
  exact hlast.2

section Example

/-- A dungeon with a slime. -/
def opening : List (Event Int) :=
  [.monsters (.Add_Spawn_Monster ⟨1, 1, .zero, 0, 0⟩ fun _ => monster.blank), .monsters (.BeginPlay 0 monster.field)]

/-- A player hits the slime. -/
def visit : List (Event Int) := [.monsters (.DamageProcess monster.field (monster.fencer 7) 0 .Combo1), .PrevTick]

theorem packets_delivered_visit :
    ∃ d₀ d₁ d : Dungeon Int,
      Run (OfOption (Dungeon.next monster.slime monster.plainFormula status.tens)) (.start fun _ => status.beginner)
        opening d₀ ∧
      d₀.next monster.slime monster.plainFormula status.tens (.InsertCharacter 7) = some d₁ ∧
      Run (Guarded (fun _ e => e ≠ .EraseCharacter 7)
        (OfOption (Dungeon.next monster.slime monster.plainFormula status.tens))) d₁ visit d ∧
      d.mm.outputs.length = 3 ∧ ∃ sent, Served 7 d₀ d sent := by
  have hrun : ∃ d₀ d₁ d : Dungeon Int,
      Run (OfOption (Dungeon.next monster.slime monster.plainFormula status.tens)) (.start fun _ => status.beginner)
        opening d₀ ∧
      7 ∉ d₀.characters.map Client.code ∧
      d₀.next monster.slime monster.plainFormula status.tens (.InsertCharacter 7) = some d₁ ∧
      Run (Guarded (fun _ e => e ≠ .EraseCharacter 7)
        (OfOption (Dungeon.next monster.slime monster.plainFormula status.tens))) d₁ visit d ∧
      d.mm.outputs.length = 3 := by
    refine ⟨_, _, _, .cons rfl (.cons rfl (.nil _)), List.not_mem_nil, rfl,
      .cons ⟨nofun, rfl⟩ (.cons ⟨nofun, rfl⟩ (.nil _)), ?_⟩
    decide
  obtain ⟨d₀, d₁, d, hbefore, hnew, henter, hafter, hlength⟩ := hrun
  exact ⟨d₀, d₁, d, hbefore, henter, hafter, hlength, packets_delivered hbefore hnew henter hafter⟩

end Example

end Dungeon

end AsioGameServer.dungeon

import AsioGameServer.Monster.Reward
import AsioGameServer.Monster.Stage
import AsioGameServer.Tables.Records

open Function Number Rows

namespace AsioGameServer.tables

open monster (AttackState Attacker Damage DamageFormula Monster Range Record Stage Surroundings)

variable {F : Type}

/-- The constructor of `DamageFormula`, which loads two tables. -/
def DamageFormula.load (fmt : Format F) (memory memory' : Row → Nat → F) (damages ranges : Option (List Row)) :
    Except Fault (DamageFormula F) := do
  let damages ← loadTable (readDamage fmt memory) damages
  let ranges ← loadTable (readRange fmt memory') ranges
  return ⟨damages, ranges⟩

/-- The place of an attack in the records. -/
def place : AttackState → Option Nat
  | .Combo1 => some 0
  | .Combo2 => some 1
  | .Combo3 => some 2
  | .Skill1 => some 3
  | .Skill2 => some 4
  | .Skill3 => some 5
  | .other _ => none

/-- What a cell of a row says. -/
def column (fmt : Format F) (row : Row) (i : Nat) : Option F := row[i]?.bind fun c => fmt.stof c.2

section Records

variable {fmt : Format F} {memory : Row → Nat → F} {row : Row} {code : Int} {x : F} {i : Nat}

/-- The members of a record are the cells of its row. -/
theorem readRecord_column {β : Type} {size offset : Nat} {build : (Nat → F) → β} {record : β}
    (h : readRecord fmt size offset build memory row = .ok (code, record)) :
    ∃ temp, record = build temp ∧ ∀ i x, column fmt row (offset + i) = some x → temp i = x := by
  unfold readRecord at h
  obtain ⟨temp, htemp, h⟩ := Outcome.bind_eq_ok_iff.mp h
  obtain ⟨_, _, h⟩ := Outcome.bind_eq_ok_iff.mp h
  obtain ⟨_, _, h⟩ := Outcome.bind_eq_ok_iff.mp h
  cases h
  refine ⟨temp, rfl, fun i x hx => ?_⟩
  obtain ⟨c, hc, hx⟩ := Option.bind_eq_some_iff.mp hx
  have hcell := (overlay_ok htemp).2.1 i c (by rw [List.getElem?_drop]; exact hc)
  rw [hx, Nat.zero_add] at hcell
  exact (Option.some.inj hcell).symm

end Records

section Hits

variable [Number F] {fmt : Format F} {memory memory' : Row → Nat → F} {damages ranges : Option (List Row)}
  {f : DamageFormula F} {w : Surroundings F} {attacker : Attacker F} {state : AttackState} {s : Stage F} {k : Nat}

/-- A hit that the rows of the tables give nothing for. -/
inductive Misses (fmt : Format F) (memory memory' : Row → Nat → F) (damages ranges : List Row) (attacker : Attacker F)
    (state : AttackState) (target : Monster F) : Prop where
  | dead (hdead : target.bAlive = false)
  | unknown (hstate : place state = none)
  | unarmed (hnone : ∀ row, ¬ First (readRange fmt memory') ranges attacker.typeCode row)
  | far {k : Nat} {row : Row} {reach : F} (hstate : place state = some k)
      (hrow : First (readRange fmt memory') ranges attacker.typeCode row) (hreach : column fmt row (1 + k) = some reach)
      (hfar : reach ≤ attacker.position.Distance target.position)
  | harmless (hnone : ∀ row, ¬ First (readDamage fmt memory) damages attacker.typeCode row)

/-- A hit that they give a damage for: the target is nearer than the reach of the attack, and the
damage is its base and what it grows in one level, times the power. -/
inductive Lands (fmt : Format F) (memory memory' : Row → Nat → F) (damages ranges : List Row) (attacker : Attacker F)
    (state : AttackState) (target : Monster F) : F → Prop where
  | near {k : Nat} {row row' : Row} {reach base growth : F} (halive : target.bAlive = true)
      (hstate : place state = some k) (hrow : First (readRange fmt memory') ranges attacker.typeCode row)
      (hreach : column fmt row (1 + k) = some reach) (hnear : attacker.position.Distance target.position < reach)
      (hrow' : First (readDamage fmt memory) damages attacker.typeCode row')
      (hbase : column fmt row' (1 + k) = some base) (hgrowth : column fmt row' (7 + k) = some growth) :
      Lands fmt memory memory' damages ranges attacker state target ((base + growth * ofInt 1) * attacker.power)

omit [Number F] in
theorem rangeOf_ofFloats (temp : Nat → F) (hk : place state = some k) :
    DamageFormula.rangeOf (Range.ofFloats temp) state = some (temp k) := by
  cases state <;> cases hk <;> rfl

theorem GetCurDamage_ofFloats {code : Int} (temp : Nat → F) (hdamage : f.damages code = some (Damage.ofFloats temp))
    (hk : place state = some k) (level power : F) :
    f.GetCurDamage code state level power = .ok (some ((temp k + temp (6 + k) * level) * power)) := by
  unfold DamageFormula.GetCurDamage
  rw [hdamage]
  cases state <;> cases hk <;> rfl

theorem CheckRange_unknown (hstate : place state = none) (code : Int) (fromPos toPos : Vector3 F) :
    f.CheckRange code state fromPos toPos = false := by
  unfold DamageFormula.CheckRange
  cases state with
  | other value => split <;> rfl
  | _ => cases hstate

/-- The hit points after a hit. -/
theorem GetDamage_lands {damageval : F} (halive : s.self.bAlive = true)
    (hcur : f.GetCurDamage attacker.typeCode state (ofInt 1) attacker.power = .ok (some damageval)) :
    ∃ s', monster.GetDamage f w attacker state s =
        .ok (some ⟨attacker.code, state, s.self.currentHp - damageval, damageval, s.self.monsterNumber⟩, s') ∧
      s'.self.currentHp = s.self.currentHp - damageval := by
  have hkill : ∀ s : Stage F, (monster.kill w attacker s).self = { s.self with bAlive := false } := fun s => by
    have hset : (monster.SetAlive w false s).self = { s.self with bAlive := false } := monster.self_onAlive_false _ _
    unfold monster.kill
    dsimp only
    split <;> exact hset
  unfold monster.GetDamage
  rw [if_neg (by simp [halive]), hcur]
  dsimp only
  split
  · rw [hkill]
    exact ⟨_, rfl, congrArg Monster.currentHp (hkill _)⟩
  · exact ⟨_, rfl, rfl⟩

section Loaded

variable (hload : DamageFormula.load fmt memory memory' damages ranges = .ok f)
include hload

omit [Number F] in
theorem load_tables :
    (∀ code v, f.damages code = some v ↔ Leads (readDamage fmt memory) (damages.getD []) code v) ∧
      ∀ code v, f.ranges code = some v ↔ Leads (readRange fmt memory') (ranges.getD []) code v := by
  obtain ⟨_, hdamages, hload⟩ := Outcome.bind_eq_ok_iff.mp hload
  obtain ⟨_, hranges, hload⟩ := Outcome.bind_eq_ok_iff.mp hload
  cases hload
  exact ⟨fun _ _ => loadTable_ok hdamages, fun _ _ => loadTable_ok hranges⟩

omit [Number F] in
theorem load_unarmed {code : Int} (hnone : ∀ row, ¬ First (readRange fmt memory') (ranges.getD []) code row) :
    f.ranges code = none := by
  refine Option.eq_none_iff_forall_ne_some.mpr fun range hrange => ?_
  obtain ⟨row, hrow, _⟩ := leads_iff_first.mp (((load_tables hload).2 code range).mp hrange)
  exact hnone row hrow

omit [Number F] in
theorem load_harmless {code : Int} (hnone : ∀ row, ¬ First (readDamage fmt memory) (damages.getD []) code row) :
    f.damages code = none := by
  refine Option.eq_none_iff_forall_ne_some.mpr fun damage hdamage => ?_
  obtain ⟨row, hrow, _⟩ := leads_iff_first.mp (((load_tables hload).1 code damage).mp hdamage)
  exact hnone row hrow

omit [Number F] in
/-- The reach of an attack is the cell of the first row of the type. -/
theorem load_reach {code : Int} {row : Row} {reach : F} (hk : place state = some k)
    (hrow : First (readRange fmt memory') (ranges.getD []) code row) (hreach : column fmt row (1 + k) = some reach) :
    ∃ range, f.ranges code = some range ∧ DamageFormula.rangeOf range state = some reach := by
  obtain ⟨range, hread⟩ := hrow.readable
  obtain ⟨temp, rfl, hcolumn⟩ := readRecord_column hread
  refine ⟨_, ((load_tables hload).2 code _).mpr (leads_iff_first.mpr ⟨row, hrow, hread⟩), ?_⟩
  rw [rangeOf_ofFloats temp hk, hcolumn k reach hreach]

theorem load_damage {code : Int} {row : Row} {base growth : F} (hk : place state = some k)
    (hrow : First (readDamage fmt memory) (damages.getD []) code row) (hbase : column fmt row (1 + k) = some base)
    (hgrowth : column fmt row (7 + k) = some growth) (level power : F) :
    f.GetCurDamage code state level power = .ok (some ((base + growth * level) * power)) := by
  obtain ⟨damage, hread⟩ := hrow.readable
  obtain ⟨temp, rfl, hcolumn⟩ := readRecord_column hread
  have hgrowth' : column fmt row (1 + (6 + k)) = some growth := by
    rw [← hgrowth]
    congr 1
    omega
  rw [GetCurDamage_ofFloats temp (((load_tables hload).1 code _).mpr (leads_iff_first.mpr ⟨row, hrow, hread⟩)) hk,
    hcolumn k base hbase, hcolumn (6 + k) growth hgrowth']

end Loaded

theorem CheckRange_eq {code : Int} {reach : F} {fromPos toPos : Vector3 F}
    (hreach : ∃ range, f.ranges code = some range ∧ DamageFormula.rangeOf range state = some reach) :
    f.CheckRange code state fromPos toPos = decide (fromPos.Distance toPos < reach) := by
  obtain ⟨range, hrange, hreach⟩ := hreach
  rw [DamageFormula.CheckRange, hrange]
  dsimp only
  rw [hreach]

/-- A hit takes from a monster what the tables say, or nothing. -/
theorem hits_follow_tables (hload : DamageFormula.load fmt memory memory' damages ranges = .ok f)
    (w : Surroundings F) (s : Stage F) :
    (Misses fmt memory memory' (damages.getD []) (ranges.getD []) attacker state s.self →
      monster.hit f w attacker state s = .ok (none, s)) ∧
    ∀ damage, Lands fmt memory memory' (damages.getD []) (ranges.getD []) attacker state s.self damage →
      ∃ s', monster.hit f w attacker state s =
          .ok (some ⟨attacker.code, state, s.self.currentHp - damage, damage, s.self.monsterNumber⟩, s') ∧
        s'.self.currentHp = s.self.currentHp - damage := by
  have hmiss : f.CheckRange attacker.typeCode state attacker.position s.self.position = false →
      monster.hit f w attacker state s = .ok (none, s) := fun hmiss => by
    rw [monster.hit, hmiss]
    rfl
  have hnothing : monster.GetDamage f w attacker state s = .ok (none, s) →
      monster.hit f w attacker state s = .ok (none, s) := fun hnothing => by
    rw [monster.hit, hnothing]
    exact ite_self _
  refine ⟨fun hmisses => ?_, fun damage hlands => ?_⟩
  · cases hmisses with
    | dead hdead => exact hnothing (by rw [monster.GetDamage, if_pos hdead])
    | unknown hstate => exact hmiss (CheckRange_unknown hstate _ _ _)
    | unarmed hnone =>
      refine hmiss ?_
      rw [DamageFormula.CheckRange, load_unarmed hload hnone]
    | far hstate hrow hreach hfar =>
      refine hmiss ((CheckRange_eq (load_reach hload hstate hrow hreach)).trans ?_)
      exact decide_eq_false (not_lt_of_ge hfar)
    | harmless hnone =>
      refine hnothing ?_
      rw [monster.GetDamage, DamageFormula.GetCurDamage, load_harmless hload hnone]
      exact ite_self _
  · cases hlands with
    | near halive hstate hrow hreach hnear hrow' hbase hgrowth =>
      rw [monster.hit, if_pos ((CheckRange_eq (load_reach hload hstate hrow hreach)).trans (decide_eq_true hnear))]
      exact GetDamage_lands halive (load_damage hload hstate hrow' hbase hgrowth _ _)

end Hits

section Example

def damageRows : List Row := [rowOf ["1", "2", "3", "4", "5", "6", "7", "1", "1", "1", "1", "1", "1"]]

def rangeRows : List Row := [rowOf ["1", "10", "12", "10", "10", "10", "10"]]

/-- The second combo of a player with a power of six takes 24 of 30 hit points. -/
theorem hits_follow_tables_combo :
    ∃ f s', DamageFormula.load plain (fun _ _ => 0) (fun _ _ => 0) (some damageRows) (some rangeRows) = .ok f ∧
      monster.hit f monster.field (monster.fencer 7) .Combo2
        ⟨{ monster.blank with bAlive := true, currentHp := 30 }, []⟩ =
        .ok (some ⟨7, .Combo2, 6, 24, 0⟩, s') ∧ s'.self.currentHp = 6 := by
  have hload : ∃ f, DamageFormula.load plain (fun _ _ => 0) (fun _ _ => 0) (some damageRows) (some rangeRows) = .ok f :=
    ⟨_, rfl⟩
  obtain ⟨f, hload⟩ := hload
  have hlands : Lands plain (fun _ _ => 0) (fun _ _ => 0) damageRows rangeRows (monster.fencer 7) .Combo2
      { monster.blank with bAlive := true, currentHp := 30 } ((3 + 1 * ofInt 1) * (monster.fencer 7).power) := by
    have hnear : (monster.fencer 7).position.Distance monster.blank.position < 12 := by decide
    exact .near rfl rfl (.here rfl) rfl hnear (.here rfl) rfl rfl
  obtain ⟨s', hhit, hhp⟩ := (hits_follow_tables hload monster.field
    ⟨{ monster.blank with bAlive := true, currentHp := 30 }, []⟩).2 _ hlands
  exact ⟨f, s', hload, hhit, hhp⟩

end Example

end AsioGameServer.tables

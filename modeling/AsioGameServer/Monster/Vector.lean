import AsioGameServer.Monster.Reward

open Function Number

namespace AsioGameServer.monster

variable {F : Type} [Number F] {f : DamageFormula F} {w : Surroundings F} {attacker : Attacker F}
  {mm : MonsterManager F}

/-- The packets that answer a damage request. -/
def Output.answers : Output F → Bool
  | .CON_DAMAGE _ | .CON_DAMAGE_VECTOR _ => true
  | _ => false

omit [Number F] in
theorem filter_answers_eq_nil {sent : List (Output F)} (hsent : ∀ o ∈ sent, o.answers = false) :
    sent.filter Output.answers = [] :=
  List.filter_eq_nil_iff.mpr fun o ho => by simp [hsent o ho]

omit [Number F] in
theorem filter_not_answers_eq_self {sent : List (Output F)} (hsent : ∀ o ∈ sent, o.answers = false) :
    sent.filter (! ·.answers) = sent :=
  List.filter_eq_self.mpr fun o ho => by simp [hsent o ho]

/-- A function of a monster that does not look at what left before, and that answers no request. -/
def Unanswering (g : Stage F → Stage F) : Prop :=
  ∀ mon, ∃ mon' new, (∀ o ∈ new, o.answers = false) ∧ ∀ outputs, g ⟨mon, outputs⟩ = ⟨mon', outputs ++ new⟩

namespace Unanswering

omit [Number F] in
theorem id : Unanswering (F := F) fun s => s :=
  fun mon => ⟨mon, [], by simp, fun outputs => by rw [List.append_nil]⟩

omit [Number F] in
theorem onMonster (g : Monster F → Monster F) : Unanswering (Stage.onMonster g) :=
  fun mon => ⟨g mon, [], by simp, fun outputs => by rw [List.append_nil]; rfl⟩

omit [Number F] in
theorem send {o : Monster F → Output F} (ho : ∀ mon, (o mon).answers = false) :
    Unanswering fun s => s.send (o s.self) :=
  fun mon => ⟨mon, [o mon], by simp [ho], fun _ => rfl⟩

omit [Number F] in
theorem comp {g h : Stage F → Stage F} (hg : Unanswering g) (hh : Unanswering h) : Unanswering fun s => h (g s) := by
  intro mon
  obtain ⟨mon₁, new₁, hnew₁, hg⟩ := hg mon
  obtain ⟨mon₂, new₂, hnew₂, hh⟩ := hh mon₁
  refine ⟨mon₂, new₁ ++ new₂, fun o ho => ?_, fun outputs => ?_⟩
  · exact (List.mem_append.mp ho).elim (hnew₁ o) (hnew₂ o)
  · dsimp only
    rw [hg, hh, List.append_assoc]

omit [Number F] in
theorem ite {g h : Stage F → Stage F} {c : Monster F → Prop} [DecidablePred c] (hg : Unanswering g)
    (hh : Unanswering h) : Unanswering fun s => if c s.self then g s else h s := by
  intro mon
  by_cases hc : c mon
  · simpa only [hc, if_true] using hg mon
  · simpa only [hc, if_false] using hh mon

theorem SetAlive_false : Unanswering (SetAlive w false) := by
  have hdead : Unanswering (onAlive w false) := by
    change Unanswering (Dead w)
    unfold Dead
    split
    · exact send (o := fun mon => .DIE mon.monsterNumber) fun _ => rfl
    · exact id
  have hiterate : ∀ n, Unanswering (onAlive w false)^[n] := by
    intro n
    induction n with
    | zero => exact id
    | succ n ih => exact hdead.comp ih
  intro mon
  exact (onMonster _).comp (hiterate mon.events) mon

theorem kill : Unanswering (kill w attacker) := by
  unfold monster.kill
  dsimp only
  split
  · exact SetAlive_false.comp
      (send (o := fun mon => .AddCurrentExp mon.monsterNumber attacker.code mon.exp) fun _ => rfl)
  · exact SetAlive_false

end Unanswering

/-- A hit returns, and does not look at what left before. -/
theorem hit_eq (f : DamageFormula F) (w : Surroundings F) (attacker : Attacker F) (state : AttackState)
    (mon : Monster F) :
    ∃ record mon' new, (∀ o ∈ new, o.answers = false) ∧
      ∀ outputs, hit f w attacker state ⟨mon, outputs⟩ = .ok (record, ⟨mon', outputs ++ new⟩) := by
  have hreturns : ∀ outputs, ∃ p, hit f w attacker state ⟨mon, outputs⟩ = .ok p ∧ Local ⟨mon, outputs⟩ p.2 :=
    fun outputs => hit_spec.returns fun _ => id
  by_cases hrange : f.CheckRange attacker.typeCode state attacker.position mon.position
  · simp only [hit, hrange, if_true] at hreturns ⊢
    cases halive : mon.bAlive with
    | false =>
      refine ⟨none, mon, [], by simp, fun outputs => ?_⟩
      rw [GetDamage, if_pos halive, List.append_nil]
    | true =>
      simp only [GetDamage, halive, Bool.true_eq_false, if_false] at hreturns ⊢
      cases hcur : f.GetCurDamage attacker.typeCode state (ofInt 1) attacker.power with
      | error fault =>
        obtain ⟨p, hp, _⟩ := hreturns []
        simp only [hcur] at hp
        cases hp
      | ok cur =>
        cases cur with
        | none => exact ⟨none, mon, [], by simp, fun outputs => by rw [List.append_nil]⟩
        | some damageval =>
          have hhurt : Unanswering fun s : Stage F =>
              let s := s.onMonster fun m => { m with currentHp := m.currentHp - damageval }
              if s.self.currentHp ≤ ofInt 0 then kill w attacker s else s :=
            (Unanswering.onMonster _).comp (.ite (c := fun mon => mon.currentHp ≤ ofInt 0) .kill .id)
          obtain ⟨mon', new, hnew, hhurt⟩ := hhurt mon
          refine ⟨some ⟨attacker.code, state, mon'.currentHp, damageval, mon'.monsterNumber⟩, mon',
            new ++ [.damage ⟨attacker.code, state, mon'.currentHp, damageval, mon'.monsterNumber⟩], ?_, ?_⟩
          · simpa [or_imp, forall_and, Output.answers] using hnew
          · intro outputs
            dsimp only at hhurt ⊢
            rw [hhurt, Stage.send, List.append_assoc]
  · exact ⟨none, mon, [], by simp, fun outputs => by rw [hit, if_neg hrange, List.append_nil]⟩

/-- One entry of a damage packet, whatever left before. -/
theorem damage_eq (f : DamageFormula F) (w : Surroundings F) (attacker : Attacker F) (damaged_code : Int)
    (attackType : AttackState) (mm : MonsterManager F) :
    ∃ record monsters new, (∀ o ∈ new, o.answers = false) ∧ ∀ outputs records,
      MonsterManager.damage f w attacker damaged_code attackType records { mm with outputs } =
        .ok (records ++ Option.toList record, { mm with monsters, outputs := outputs ++ new }) := by
  unfold MonsterManager.damage
  dsimp only
  split
  · exact ⟨none, mm.monsters, [], by simp, fun outputs records => by simp⟩
  · rename_i mon _
    obtain ⟨record, mon', new, hnew, hhit⟩ := hit_eq f w attacker attackType mon
    refine ⟨record, update mm.monsters damaged_code (some mon'), new, hnew, fun outputs records => ?_⟩
    rw [hhit]
    rfl

/-- The packet of the record that one request gave. -/
def answer (w : Surroundings F) (record : Option (Record F)) : List (Output F) :=
  if w.cm then record.toList.map .CON_DAMAGE else []

theorem DamageProcess_eq {damaged_code : Int} {attackType : AttackState} {outputs outputs' : List (Output F)}
    {record : Option (Record F)} {monsters : Int → Option (Monster F)}
    (hdamage : MonsterManager.damage f w attacker damaged_code attackType [] { mm with outputs } =
      .ok (record.toList, { mm with monsters, outputs := outputs' })) :
    MonsterManager.DamageProcess f w attacker damaged_code attackType { mm with outputs } =
      .ok { mm with monsters, outputs := outputs' ++ answer w record } := by
  unfold MonsterManager.DamageProcess answer
  rw [hdamage]
  cases record with
  | none => simp [bind, Except.bind, pure, Except.pure]
  | some record =>
    cases w.cm with
    | true => rfl
    | false => simp [bind, Except.bind, pure, Except.pure]

/-- The loop over the entries of a damage packet does what the requests do one after the
other, and keeps the records that they send. -/
theorem damage_foldlM (f : DamageFormula F) (w : Surroundings F) (attacker : Attacker F)
    (damagevector : List (Int × AttackState)) (mm : MonsterManager F) :
    ∃ records monsters sent, sent.filter Output.answers = (if w.cm then records.map .CON_DAMAGE else []) ∧
      (∀ outputs earlier, damagevector.foldlM (fun (records, mm) (damaged_code, attackType) =>
          MonsterManager.damage f w attacker damaged_code attackType records mm) (earlier, { mm with outputs }) =
        .ok (earlier ++ records, { mm with monsters, outputs := outputs ++ sent.filter (! ·.answers) })) ∧
      ∀ outputs, damagevector.foldlM (fun mm (damaged_code, attackType) =>
          MonsterManager.DamageProcess f w attacker damaged_code attackType mm) { mm with outputs } =
        .ok { mm with monsters, outputs := outputs ++ sent } := by
  induction damagevector generalizing mm with
  | nil => exact ⟨[], mm.monsters, [], by simp, by simp [pure, Except.pure], by simp [pure, Except.pure]⟩
  | cons entry damagevector ih =>
    obtain ⟨damaged_code, attackType⟩ := entry
    obtain ⟨record, monsters₁, new, hnew, hdamage⟩ := damage_eq f w attacker damaged_code attackType mm
    obtain ⟨records, monsters, sent, hsent, hvector, hsingle⟩ := ih { mm with monsters := monsters₁ }
    have hanswers : (answer w record).filter Output.answers = answer w record := by
      unfold answer
      split
      · exact List.filter_eq_self.mpr (by simp [Output.answers])
      · rfl
    have hnot : (answer w record).filter (! ·.answers) = [] := by
      unfold answer
      split
      · exact List.filter_eq_nil_iff.mpr (by simp [Output.answers])
      · rfl
    refine ⟨record.toList ++ records, monsters, new ++ answer w record ++ sent, ?_, ?_, ?_⟩
    · rw [List.filter_append, List.filter_append, filter_answers_eq_nil hnew, hanswers, hsent, List.nil_append]
      unfold answer
      split
      · rw [List.map_append]
      · rfl
    · intro outputs earlier
      rw [List.foldlM_cons]
      dsimp only
      rw [hdamage]
      change List.foldlM _
        (earlier ++ record.toList, { mm with monsters := monsters₁, outputs := outputs ++ new }) _ = _
      rw [hvector, List.filter_append, List.filter_append, filter_not_answers_eq_self hnew, hnot, List.append_nil,
        List.append_assoc, List.append_assoc]
    · intro outputs
      rw [List.foldlM_cons]
      dsimp only
      rw [DamageProcess_eq (hdamage outputs [])]
      change List.foldlM _ { mm with monsters := monsters₁, outputs := outputs ++ new ++ answer w record } _ = _
      rw [hsingle, List.append_assoc, List.append_assoc, List.append_assoc]

/-- A damage packet does what its entries do as requests of their own, and is answered with
the records that answer these, in one packet where there are any. -/
theorem DamageProcessVector_agrees (f : DamageFormula F) (w : Surroundings F) (attacker : Attacker F)
    (damagevector : List (Int × AttackState)) (mm : MonsterManager F) :
    ∃ mm' sent records, damagevector.foldlM (fun mm (damaged_code, attackType) =>
        MonsterManager.DamageProcess f w attacker damaged_code attackType mm) mm = .ok mm' ∧
      mm'.outputs = mm.outputs ++ sent ∧ sent.filter Output.answers = records.map .CON_DAMAGE ∧
      MonsterManager.DamageProcessVector f w attacker damagevector mm = .ok { mm' with
        outputs := mm.outputs ++ sent.filter (! ·.answers) ++
          if records = [] then [] else [.CON_DAMAGE_VECTOR records] } := by
  obtain ⟨records, monsters, sent, hsent, hvector, hsingle⟩ := damage_foldlM f w attacker damagevector mm
  refine ⟨{ mm with monsters, outputs := mm.outputs ++ sent }, sent, if w.cm then records else [],
    hsingle mm.outputs, rfl, ?_, ?_⟩
  · rw [hsent]
    split <;> rfl
  · unfold MonsterManager.DamageProcessVector
    rw [hvector mm.outputs []]
    change (if records.length = 0 then _ else _) = _
    cases records with
    | nil => simp [pure, Except.pure]
    | cons record records =>
      rw [if_neg (by simp)]
      cases w.cm with
      | true => rfl
      | false => simp [pure, Except.pure]

end AsioGameServer.monster

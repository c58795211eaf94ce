import AsioGameServer.Status.Manager
import AsioGameServer.Lib.Thresholds

open Function Number Transition Thresholds

namespace AsioGameServer.status

variable {F : Type} [Number F] {sm : StatusManager F} {c c' : Character F} {award : Award}

section Steps

/-- The requirement of a level, where `SetStatus` leaves that of a character whose type it
does not know. -/
def StatusManager.requirement (sm : StatusManager F) (c : Character F) (level : Int) : Except Fault Int :=
  if (sm.statusInfos c.characterTypeCode).isSome then read sm.expReqInfos level else .ok c.reqExp

omit [Number F] in
/-- A requirement that is not in the table cannot be read. -/
theorem StatusManager.requirement_error {level : Int} {fault : Fault} (h : sm.requirement c level = .error fault) :
    fault = .outOfRange := by
  unfold StatusManager.requirement read at h
  split at h
  · split at h
    · cases h
      rfl
    · cases h
  · cases h

/-- What a character has of a level: a new requirement, and otherwise what it had. -/
structure Leveled (c c' : Character F) (reqExp : Int) : Prop where
  characterTypeCode : c'.characterTypeCode = c.characterTypeCode
  level : c'.level = c.level
  currentExp : c'.currentExp = c.currentExp
  reqExp : c'.reqExp = reqExp

/-- `SetStatus` returns exactly where the requirement of the level can be read. -/
theorem SetStatus_spec (sm : StatusManager F) (c : Character F) :
    (∃ known c' reqExp, sm.SetStatus c = .ok (known, c') ∧ sm.requirement c c.level = .ok reqExp ∧
      Leveled c c' reqExp) ∨
    sm.SetStatus c = .error .outOfRange ∧ sm.requirement c c.level = .error .outOfRange := by
  unfold StatusManager.SetStatus StatusManager.requirement
  cases hinfo : sm.statusInfos c.characterTypeCode with
  | none => exact .inl ⟨false, c, c.reqExp, rfl, rfl, rfl, rfl, rfl, rfl⟩
  | some info =>
    cases hread : read sm.expReqInfos c.level with
    | ok reqExp => exact .inl ⟨true, _, reqExp, rfl, rfl, rfl, rfl, rfl, rfl⟩
    | error fault =>
      refine .inr ?_
      have hrequirement : sm.requirement c c.level = .error fault := by
        simp [StatusManager.requirement, hinfo, hread]
      obtain rfl := StatusManager.requirement_error hrequirement
      exact ⟨rfl, rfl⟩

/-- A value of an `int`. -/
def InInt (n : Int) : Prop := INT_MIN ≤ n ∧ n ≤ INT_MAX

instance (n : Int) : Decidable (InInt n) := inferInstanceAs (Decidable (_ ∧ _))

theorem int_of_inInt {n : Int} (h : InInt n) : int n = .ok n := if_pos h

theorem int_of_not_inInt {n : Int} (h : ¬ InInt n) : int n = .error .overflow := if_neg h

/-- What an award does: it stays below the requirement, or the level goes up once. -/
inductive Awarded (sm : StatusManager F) (c : Character F) (value : Int) : Except Fault (Character F) → Prop where
  | overflow (h : ¬ (InInt (c.currentExp + value) ∧ (c.reqExp ≤ c.currentExp + value →
      InInt (c.currentExp + value - c.reqExp) ∧ InInt (c.level + 1)))) :
    Awarded sm c value (.error .overflow)
  | below {c' : Character F} (hsum : InInt (c.currentExp + value)) (hbelow : c.currentExp + value < c.reqExp)
      (hc' : Leveled { c with currentExp := c.currentExp + value } c' c.reqExp) : Awarded sm c value (.ok c')
  | outOfRange (hsum : InInt (c.currentExp + value)) (hreached : c.reqExp ≤ c.currentExp + value)
      (hrest : InInt (c.currentExp + value - c.reqExp)) (hlevel : InInt (c.level + 1))
      (hread : sm.requirement c (c.level + 1) = .error .outOfRange) : Awarded sm c value (.error .outOfRange)
  | levelUp {c' : Character F} {reqExp : Int} (hsum : InInt (c.currentExp + value))
      (hreached : c.reqExp ≤ c.currentExp + value) (hrest : InInt (c.currentExp + value - c.reqExp))
      (hlevel : InInt (c.level + 1)) (hread : sm.requirement c (c.level + 1) = .ok reqExp)
      (hc' : Leveled { c with currentExp := c.currentExp + value - c.reqExp, level := c.level + 1 } c' reqExp) :
    Awarded sm c value (.ok c')

/-- `AddCurrentExp` in cases: sums that do not fit into an `int`, an award that stays below
`reqExp`, and one that raises the level, with the next requirement read inside the table or
outside of it. -/
theorem AddCurrentExp_spec (sm : StatusManager F) (award : Award) (c : Character F) :
    Awarded sm c award.value ((c.AddCurrentExp sm award).map Prod.snd) := by
  unfold Character.AddCurrentExp
  by_cases hsum : InInt (c.currentExp + award.value)
  · rw [int_of_inInt hsum]
    by_cases hreached : c.reqExp ≤ c.currentExp + award.value
    · simp only [bind, Except.bind, ge_iff_le, if_pos hreached]
      unfold Character.LevelUp
      by_cases hrest : InInt (c.currentExp + award.value - c.reqExp)
      · by_cases hlevel : InInt (c.level + 1)
        · simp only [int_of_inInt hrest, int_of_inInt hlevel, bind, Except.bind]
          obtain ⟨known, c', reqExp, hset, hread, hc'⟩ | ⟨hset, hread⟩ := SetStatus_spec sm
            { c with currentExp := c.currentExp + award.value - c.reqExp, level := c.level + 1 }
          · rw [hset]
            exact .levelUp hsum hreached hrest hlevel hread hc'
          · rw [hset]
            exact .outOfRange hsum hreached hrest hlevel hread
        · simp only [int_of_inInt hrest, int_of_not_inInt hlevel, bind, Except.bind]
          exact .overflow fun h => hlevel (h.2 hreached).2
      · simp only [int_of_not_inInt hrest, bind, Except.bind]
        exact .overflow fun h => hrest (h.2 hreached).1
    · simp only [bind, Except.bind, ge_iff_le, if_neg hreached]
      exact .below hsum (lt_of_not_ge hreached) ⟨rfl, rfl, rfl, rfl⟩
  · rw [int_of_not_inInt hsum]
    exact .overflow fun h => hsum h.1

end Steps

section Awards

/-- An award, which has no result where it is not defined. -/
def Character.next (sm : StatusManager F) (c : Character F) (award : Award) : Option (Character F) :=
  ((c.AddCurrentExp sm award).map Prod.snd).toOption

/-- The experience is below the requirement of the level. -/
structure Normal (sm : StatusManager F) (c : Character F) : Prop where
  level : INT_MIN ≤ c.level
  nonneg : 0 ≤ c.currentExp
  below : c.currentExp < c.reqExp
  reqExp : sm.requirement c c.level = .ok c.reqExp

/-- The award does not get past the requirement of the next level. -/
def Settles (sm : StatusManager F) (c : Character F) (award : Award) : Prop :=
  c.currentExp + award.value ≤ INT_MAX ∧ (c.currentExp + award.value < c.reqExp ∨
    c.level < INT_MAX ∧ ∃ reqExp, sm.requirement c (c.level + 1) = .ok reqExp ∧
      c.currentExp + award.value < c.reqExp + reqExp)

omit [Number F] in
/-- What the next level requires depends on the type and the level. -/
theorem StatusManager.requirement_congr (htype : c'.characterTypeCode = c.characterTypeCode)
    (hreqExp : sm.statusInfos c.characterTypeCode = none → c'.reqExp = c.reqExp) :
    sm.requirement c' = sm.requirement c := by
  funext level
  unfold StatusManager.requirement
  rw [htype]
  cases hinfo : sm.statusInfos c.characterTypeCode with
  | none => simp [hreqExp hinfo]
  | some _ => rfl

/-- What an award that is defined changes. -/
theorem next_spec (hnext : c.next sm award = some c') :
    sm.requirement c' = sm.requirement c ∧ InInt (c.currentExp + award.value) ∧
      (c.currentExp + award.value < c.reqExp ∧ c'.level = c.level ∧ c'.reqExp = c.reqExp ∧
          c'.currentExp = c.currentExp + award.value ∨
        c.reqExp ≤ c.currentExp + award.value ∧ InInt (c.level + 1) ∧ c'.level = c.level + 1 ∧
          c'.currentExp + c.reqExp = c.currentExp + award.value ∧
          sm.requirement c c'.level = .ok c'.reqExp) := by
  have hspec := AddCurrentExp_spec sm award c
  have hresult : (c.AddCurrentExp sm award).map Prod.snd = .ok c' := Outcome.toOption_eq_some_iff.mp hnext
  rw [hresult] at hspec
  cases hspec with
  | below hsum hbelow hc' =>
    refine ⟨StatusManager.requirement_congr hc'.characterTypeCode fun _ => hc'.reqExp, hsum, .inl ?_⟩
    exact ⟨hbelow, hc'.level, hc'.reqExp, hc'.currentExp⟩
  | @levelUp _ reqExp hsum hreached hrest hlevel hread hc' =>
    refine ⟨StatusManager.requirement_congr hc'.characterTypeCode fun hinfo => ?_, hsum, .inr ?_⟩
    · simp only [StatusManager.requirement, hinfo, Option.isSome_none, Bool.false_eq_true, if_false,
        Except.ok.injEq] at hread
      exact hc'.reqExp.trans hread.symm
    · have hcurrentExp := hc'.currentExp
      have hlevel' := hc'.level
      dsimp only at hcurrentExp hlevel'
      refine ⟨hreached, hlevel, hlevel', by omega, ?_⟩
      rw [hlevel', hc'.reqExp, hread]

/-- An award settles exactly when it is defined and leaves less than the requirement. -/
theorem settles_iff (hnormal : Normal sm c) (hvalue : 0 ≤ award.value) :
    Settles sm c award ↔ ∃ c', c.next sm award = some c' ∧ c'.currentExp < c'.reqExp := by
  have hmin : INT_MIN ≤ 0 := by decide
  have hlevel := hnormal.level
  have hnonneg := hnormal.nonneg
  have hbelow := hnormal.below
  constructor
  · rintro ⟨hmax, hsettled⟩
    have hspec := AddCurrentExp_spec sm award c
    unfold Character.next
    generalize (c.AddCurrentExp sm award).map Prod.snd = result at hspec
    cases hspec with
    | overflow h =>
      refine absurd ⟨⟨by omega, hmax⟩, fun hreached => ⟨⟨by omega, by omega⟩, ⟨by omega, ?_⟩⟩⟩ h
      obtain hless | ⟨hlevel', _⟩ := hsettled <;> omega
    | below _ hless hc' =>
      refine ⟨_, rfl, ?_⟩
      rw [hc'.currentExp, hc'.reqExp]
      exact hless
    | outOfRange _ hreached _ _ hread =>
      obtain hless | ⟨_, reqExp, hreqExp, _⟩ := hsettled
      · omega
      · rw [hread] at hreqExp
        cases hreqExp
    | @levelUp _ reqExp _ hreached _ _ hread hc' =>
      obtain hless | ⟨_, reqExp', hreqExp, hless⟩ := hsettled
      · omega
      · rw [hread] at hreqExp
        cases hreqExp
        refine ⟨_, rfl, ?_⟩
        rw [hc'.currentExp, hc'.reqExp]
        dsimp only
        omega
  · rintro ⟨c', hnext, hbelow'⟩
    obtain ⟨_, hsum, ⟨hless, _⟩ | ⟨_, hlevel', hup, hrest, hread⟩⟩ := next_spec hnext
    · exact ⟨hsum.2, .inl hless⟩
    · have hmax := hlevel'.2
      refine ⟨hsum.2, .inr ⟨by omega, c'.reqExp, hup ▸ hread, by omega⟩⟩

/-- A character stays normal where the award settles below the next threshold. -/
theorem Normal.next (hnormal : Normal sm c) (hvalue : 0 ≤ award.value) (hnext : c.next sm award = some c')
    (hbelow : c'.currentExp < c'.reqExp) : Normal sm c' := by
  have hlevel := hnormal.level
  have hnonneg := hnormal.nonneg
  obtain ⟨hreq, _, ⟨_, hsame, hreqExp, hcurrentExp⟩ | ⟨hreached, _, hup, hrest, hread⟩⟩ := next_spec hnext
  · refine ⟨by omega, by omega, hbelow, ?_⟩
    rw [hreq, hsame, hreqExp]
    exact hnormal.reqExp
  · refine ⟨by omega, by omega, hbelow, ?_⟩
    rw [hreq]
    exact hread

variable {c₀ : Character F} {awards : List Award}

/-- What awards sum up to. -/
def total : List Award → ℤ
  | [] => 0
  | award :: awards => award.value + total awards

/-- One more award adds its value. -/
theorem total_concat (awards : List Award) (award : Award) :
    total (awards ++ [award]) = total awards + award.value := by
  induction awards with
  | nil => simp [total]
  | cons first awards ih => simp only [List.cons_append, total, ih, Int.add_assoc]

/-- The requirements of the levels from that of a character on. -/
def Character.thresholds (sm : StatusManager F) (c : Character F) (n : ℕ) : ℤ :=
  match sm.requirement c (c.level + n) with
  | .ok reqExp => reqExp
  | .error _ => 1

/-- Requirements are positive, from the level of the character on. -/
def PositiveFrom (sm : StatusManager F) (c : Character F) : Prop :=
  ∀ level exp, c.level ≤ level → read sm.expReqInfos level = .ok exp → 0 < exp

omit [Number F] in
/-- All thresholds from the level of the character on are positive. -/
theorem thresholds_pos (hnormal : Normal sm c) (hpos : PositiveFrom sm c) (n : ℕ) : 0 < c.thresholds sm n := by
  unfold Character.thresholds
  split
  · rename_i reqExp hreq
    unfold StatusManager.requirement at hreq
    split at hreq
    · exact hpos _ reqExp (by omega) hreq
    · cases hreq
      have hnonneg := hnormal.nonneg
      have hbelow := hnormal.below
      omega
  · decide

/-- Where a character stands after some awards: what they sum up to went into the levels
that are behind and into its experience. -/
structure Gained (sm : StatusManager F) (c₀ : Character F) (past : List Award) (c : Character F) : Prop where
  normal : Normal sm c
  requirement : sm.requirement c = sm.requirement c₀
  split : ∃ n : ℕ, c.level = c₀.level + n ∧
    upTo (c₀.thresholds sm) n + c.currentExp = c₀.currentExp + total past

/-- One more award is accounted for. -/
theorem Gained.next {past : List Award} (h : Gained sm c₀ past c) (hvalue : 0 ≤ award.value)
    (hsettles : Settles sm c award) (hnext : c.next sm award = some c') : Gained sm c₀ (past ++ [award]) c' := by
  obtain ⟨c₁, hnext₁, hbelow⟩ := (settles_iff h.normal hvalue).mp hsettles
  obtain rfl := Option.some.inj (hnext.symm.trans hnext₁)
  have hreqExp := h.normal.reqExp
  obtain ⟨n, hlevel, hsplit⟩ := h.split
  obtain ⟨hreq, _, hcases⟩ := next_spec hnext
  refine ⟨h.normal.next hvalue hnext hbelow, hreq.trans h.requirement, ?_⟩
  rw [total_concat]
  obtain ⟨_, hsame, _, hcurrentExp⟩ | ⟨_, _, hup, hrest, _⟩ := hcases
  · exact ⟨n, hsame.trans hlevel, by omega⟩
  · have hthreshold : c₀.thresholds sm n = c.reqExp := by
      rw [Character.thresholds, ← hlevel, ← h.requirement, hreqExp]
    refine ⟨n + 1, by push_cast; omega, ?_⟩
    rw [upTo_succ, hthreshold]
    omega

/-- A run of awards that all settle below the next threshold, by induction on the awards so far. -/
theorem gained_of_run (hnormal : Normal sm c) (hvalues : ∀ award ∈ awards, 0 ≤ award.value)
    (hrun : Run (Guarded (Settles sm) (OfOption (Character.next sm))) c awards c') : Gained sm c awards c' := by
  have hlast : (∀ award ∈ awards, 0 ≤ award.value) → Gained sm c awards c' := by
    apply hrun.invariant_trace fun past c' => (∀ award ∈ past, 0 ≤ award.value) → Gained sm c past c'
    · exact fun _ => ⟨hnormal, rfl, 0, by simp, by simp [total]⟩
    · intro past c₁ award c₂ ih ⟨hsettles, hnext⟩ hpast
      have hbefore : Gained sm c past c₁ := ih fun other hother => hpast other (List.mem_append_left _ hother)
      exact hbefore.next (hpast award (by simp)) hsettles hnext
  exact hlast hvalues

/-- After every award the experience is below the requirement again if and only if no award
gets past the requirement of the next level. The level and the experience in the end are then
those of every such sequence of awards with the same sum. -/
theorem awards_normalise_iff (hnormal : Normal sm c) (hpos : PositiveFrom sm c)
    (hvalues : ∀ award ∈ awards, 0 ≤ award.value) :
    ((∃ c', Run (Guarded (Settles sm) (OfOption (Character.next sm))) c awards c') ↔
      ∀ past future, awards = past ++ future →
        ∃ u, Run (OfOption (Character.next sm)) c past u ∧ u.currentExp < u.reqExp) ∧
    ∀ c' c'' awards', Run (Guarded (Settles sm) (OfOption (Character.next sm))) c awards c' →
      (∀ award ∈ awards', 0 ≤ award.value) →
      Run (Guarded (Settles sm) (OfOption (Character.next sm))) c awards' c'' →
      total awards = total awards' →
      c'.level = c''.level ∧ c'.currentExp = c''.currentExp := by
  constructor
  · refine exists_run_guarded_iff (deterministic_ofOption _) (fun c₁ award c₂ h hvalue hsettles hnext => ?_)
      (fun c₁ award h hvalue => settles_iff h hvalue) hnormal hnormal.below hvalues
    obtain ⟨c₃, hnext₃, hbelow⟩ := (settles_iff h hvalue).mp hsettles
    obtain rfl := Option.some.inj (hnext.symm.trans hnext₃)
    exact h.next hvalue hnext hbelow
  · intro c' c'' awards' hrun hvalues' hrun' htotal
    have hgained : Gained sm c awards c' := gained_of_run hnormal hvalues hrun
    have hgained' : Gained sm c awards' c'' := gained_of_run hnormal hvalues' hrun'
    obtain ⟨n, hlevel, hsplit⟩ := hgained.split
    obtain ⟨n', hlevel', hsplit'⟩ := hgained'.split
    have hnext : ∀ {past : List Award} {u : Character F} {n : ℕ}, Gained sm c past u → u.level = c.level + n →
        u.currentExp < c.thresholds sm n := by
      intro past u n h hn
      have hreqExp := h.normal.reqExp
      have hthreshold : c.thresholds sm n = u.reqExp := by
        rw [Character.thresholds, ← hn, ← h.requirement, hreqExp]
      exact hthreshold ▸ h.normal.below
    obtain ⟨rfl, hsame⟩ := split_unique (thresholds_pos hnormal hpos) hgained.normal.nonneg (hnext hgained hlevel)
      hgained'.normal.nonneg (hnext hgained' hlevel') (by rw [hsplit, hsplit', htotal])
    exact ⟨hlevel.trans hlevel'.symm, hsame⟩

end Awards

section Conservation

variable {awards : List Award}

/-- The requirements of the levels that are behind. -/
def Character.behind (sm : StatusManager F) (c : Character F) : ℤ :=
  upTo (fun i => sm.expReqInfos.getD i 0) c.level.toNat

/-- All the experience a character has got, whether its levels took it or not. -/
def Character.gathered (sm : StatusManager F) (c : Character F) : ℤ := c.currentExp + c.behind sm

omit [Number F] in
/-- For a known type, the requirement is read from the table. -/
theorem StatusManager.requirement_known (hknown : (sm.statusInfos c.characterTypeCode).isSome) :
    sm.requirement c = read sm.expReqInfos := by
  funext level
  rw [StatusManager.requirement, if_pos hknown]

/-- A read succeeds inside the table only, and gives the entry. -/
theorem read_eq_ok_iff {infos : List Int} {level exp : Int} :
    read infos level = .ok exp ↔ (0 ≤ level ∧ level < infos.length) ∧ infos.getD level.toNat 0 = exp := by
  unfold read place
  split
  · rename_i hplace
    have houtside : ¬ (0 ≤ level ∧ level < infos.length) := by simpa using hplace
    exact ⟨nofun, fun h => absurd h.1 houtside⟩
  · rename_i i hplace
    obtain ⟨hinside, hi⟩ := Option.ite_none_right_eq_some.mp hplace
    obtain rfl := Option.some.inj hi
    simp [hinside]

omit [Number F] in
/-- The level that is left takes its requirement. -/
theorem behind_levelUp (hreqExp : read sm.expReqInfos c.level = .ok c.reqExp) (hup : c'.level = c.level + 1) :
    c'.behind sm = c.behind sm + c.reqExp := by
  obtain ⟨⟨hnonneg, _⟩, hget⟩ := read_eq_ok_iff.mp hreqExp
  have hplace : c'.level.toNat = c.level.toNat + 1 := by omega
  unfold Character.behind
  rw [hplace, upTo_succ, hget]

/-- Where a character stands after awards that add up to `sum`. -/
structure Conserves (sm : StatusManager F) (c : Character F) (sum : ℤ) (c' : Character F) : Prop where
  requirement : sm.requirement c' = read sm.expReqInfos
  reqExp : read sm.expReqInfos c'.level = .ok c'.reqExp
  gathered : c'.gathered sm = c.gathered sm + sum

/-- One more award is conserved, whether or not it raises the level. -/
theorem Conserves.next {c₀ : Character F} {sum : ℤ} (h : Conserves sm c₀ sum c) (hnext : c.next sm award = some c') :
    Conserves sm c₀ (sum + award.value) c' := by
  have hgathered := h.gathered
  have hreqExp := h.reqExp
  unfold Character.gathered at hgathered
  obtain ⟨hreq, _, ⟨_, hsame, hsameExp, hcurrentExp⟩ | ⟨_, _, hup, hrest, hread⟩⟩ := next_spec hnext
  · refine ⟨hreq.trans h.requirement, by rw [hsame, hsameExp, hreqExp], ?_⟩
    have hbehind : c'.behind sm = c.behind sm := by rw [Character.behind, hsame, Character.behind]
    unfold Character.gathered
    omega
  · rw [h.requirement] at hread
    refine ⟨hreq.trans h.requirement, hread, ?_⟩
    have hbehind : c'.behind sm = c.behind sm + c.reqExp := behind_levelUp hreqExp hup
    unfold Character.gathered
    omega

/-- Awards neither lose experience nor make it up, however many levels they are spread over,
and every award leaves the requirement of the level. -/
theorem awards_conserve (hknown : (sm.statusInfos c.characterTypeCode).isSome)
    (hreqExp : read sm.expReqInfos c.level = .ok c.reqExp)
    (hrun : Run (OfOption (Character.next sm)) c awards c') :
    c'.gathered sm = c.gathered sm + total awards ∧
      ∀ past future u, awards = past ++ future → Run (OfOption (Character.next sm)) c past u →
        read sm.expReqInfos u.level = .ok u.reqExp ∧ u.gathered sm = c.gathered sm + total past := by
  have hall : ∀ past u, Run (OfOption (Character.next sm)) c past u → Conserves sm c (total past) u := by
    intro past u hpast
    apply hpast.invariant_trace fun past u => Conserves sm c (total past) u
    · exact ⟨StatusManager.requirement_known hknown, hreqExp, by simp [total]⟩
    · intro before c₁ award c₂ h hnext
      rw [total_concat]
      exact h.next hnext
  refine ⟨(hall awards c' hrun).gathered, ?_⟩
  intro past future u _ hpast
  exact ⟨(hall past u hpast).reqExp, (hall past u hpast).gathered⟩

end Conservation

section Example

/-- Every level takes ten. -/
def tens : StatusManager Int where
  statusInfos code := if code = 1 then some ⟨1, 1, 1, 1, 1, 1, 1, 1, 1, 1⟩ else none
  expReqInfos := [0, 10, 10, 10, 10]

def beginner : Character Int := ⟨1, 1, 10, 0, 2, 2, 2, 1, fun _ => 0⟩

theorem normal_beginner : Normal tens beginner := ⟨by decide, by decide, by decide, rfl⟩

theorem positive_beginner : PositiveFrom tens beginner := by
  intro level exp hlevel hread
  have hlevel : 1 ≤ level := hlevel
  obtain ⟨⟨_, hlt⟩, rfl⟩ := read_eq_ok_iff.mp hread
  have hlt : level < 5 := hlt
  obtain rfl | rfl | rfl | rfl : level = 1 ∨ level = 2 ∨ level = 3 ∨ level = 4 := by omega
  all_goals decide

theorem awards_normalise_beginner :
    (∃ c', Run (Guarded (Settles tens) (OfOption (Character.next tens))) beginner
      [⟨12, true, true⟩, ⟨7, false, true⟩] c') ∧
    ∀ past future, [⟨12, true, true⟩, ⟨7, false, true⟩] = past ++ future →
      ∃ u, Run (OfOption (Character.next tens)) beginner past u ∧ u.currentExp < u.reqExp := by
  have hrun : ∃ c', Run (Guarded (Settles tens) (OfOption (Character.next tens))) beginner
      [⟨12, true, true⟩, ⟨7, false, true⟩] c' := by
    have hfirst : Settles tens beginner ⟨12, true, true⟩ := ⟨by decide, .inr ⟨by decide, 10, rfl, by decide⟩⟩
    refine ⟨_, .cons ⟨hfirst, rfl⟩ (.cons ⟨⟨by decide, .inl (by decide)⟩, rfl⟩ (.nil _))⟩
  exact ⟨hrun, (awards_normalise_iff normal_beginner positive_beginner (by decide)).1.mp hrun⟩

/-- An award that reaches over the next level leaves more than the requirement, and not what
its parts leave. -/
theorem award_leaves_requirement :
    Normal tens beginner ∧ PositiveFrom tens beginner ∧
      (∃ c', Run (OfOption (Character.next tens)) beginner [⟨25, true, true⟩] c' ∧
        (c'.level, c'.currentExp, c'.reqExp) = (2, 15, 10) ∧ ¬ c'.currentExp < c'.reqExp) ∧
      ∃ c', Run (OfOption (Character.next tens)) beginner [⟨12, true, true⟩, ⟨13, true, true⟩] c' ∧
        (c'.level, c'.currentExp, c'.reqExp) = (3, 5, 10) := by
  refine ⟨normal_beginner, positive_beginner, ⟨_, .cons rfl (.nil _), rfl, by decide⟩, ?_⟩
  exact ⟨_, .cons rfl (.cons rfl (.nil _)), rfl⟩

/-- A long award, one that takes experience away, and one that is not enough for a level. -/
theorem awards_conserve_beginner :
    ∃ c', Run (OfOption (Character.next tens)) beginner [⟨25, true, true⟩, ⟨-4, true, true⟩, ⟨3, true, false⟩] c' ∧
      c'.gathered tens = beginner.gathered tens + total [⟨25, true, true⟩, ⟨-4, true, true⟩, ⟨3, true, false⟩] := by
  have hrun : ∃ c', Run (OfOption (Character.next tens)) beginner
      [⟨25, true, true⟩, ⟨-4, true, true⟩, ⟨3, true, false⟩] c' :=
    ⟨_, .cons rfl (.cons rfl (.cons rfl (.nil _)))⟩
  obtain ⟨c', hrun⟩ := hrun
  exact ⟨c', hrun, (awards_conserve (by decide) rfl hrun).1⟩

end Example

end AsioGameServer.status

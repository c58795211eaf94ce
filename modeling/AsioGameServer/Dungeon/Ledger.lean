import AsioGameServer.Dungeon.Views
import AsioGameServer.Monster.Stage

open Function Number Transition

namespace AsioGameServer.dungeon

open monster (Monster MonsterManager Output Stage Surroundings Attacker Record DamageFormula MonsterInfo Numbered)

variable {F : Type} [Number F]

/-- A damage record is entered into the account of a monster, unless it does not fit. Nothing is
known of a monster before it begins. -/
def charge (m : Int) (account : Option F) (record : Record F) : Option (Option F) :=
  if record.damaged_code ≠ m then some account
  else
    match account with
    | none => some none
    | some hp =>
      if ofInt 0 < hp ∧ record.currentHP = hp - record.damage then some (some record.currentHP) else none

/-- What leaves the monsters is entered into the account of one of them. A life begins with all hit
points, where those of the life before are used up. -/
def post (m : Int) (account : Option F) : Output F → Option (Option F)
  | .RESPAWN_MONSTER monster =>
    if monster.number ≠ m then some account
    else if account.all (· ≤ ofInt 0) ∧ monster.CurrentHP = monster.MaxHp then some (some monster.MaxHp) else none
  | .CON_DAMAGE record => charge m account record
  | .CON_DAMAGE_VECTOR records => records.foldlM (charge m) account
  | .DIE _ | .MONSTER_ATTACK _ _ | .AddCurrentExp _ _ _ | .damage _ => some account

/-- The account of a monster at the end, if every entry fits. -/
def audit (m : Int) (account : Option F) (outputs : List (Output F)) : Option (Option F) :=
  outputs.foldlM (post m) account

/-- The account of one monster: its hit points, once it has begun. -/
def accountOf (mon : Monster F) : Option F := if mon.events = 1 then some mon.currentHp else none

/-- The account that the monsters have under a number, which may be none. -/
def account (mm : MonsterManager F) (m : Int) : Option F := (mm.monsters m).bind accountOf

section Entries

variable {mon mon' mon'' : Monster F} {new new' : List (Output F)} {m : Int} {a : Option F}

/-- An audit can be made in two parts, the second with the account that the first ends with. -/
theorem audit_append (m : Int) (a : Option F) (new new' : List (Output F)) :
    audit m a (new ++ new') = (audit m a new).bind fun a => audit m a new' := List.foldlM_append

/-- What tells no hit points is no entry. -/
theorem audit_mute (hmute : ∀ t ∈ new.flatMap tells, t.1.2 = .bAlive) : audit m a new = some a := by
  induction new with
  | nil => rfl
  | cons o new ih =>
    have hfirst : ∀ t ∈ tells o, t.1.2 = .bAlive := fun t ht =>
      hmute t (List.mem_flatMap.mpr ⟨o, List.mem_cons_self, ht⟩)
    have hpost : post m a o = some a := by
      cases o with
      | RESPAWN_MONSTER monster => exact absurd (hfirst _ List.mem_cons_self) nofun
      | CON_DAMAGE record => exact absurd (hfirst _ List.mem_cons_self) nofun
      | CON_DAMAGE_VECTOR records =>
        cases records with
        | nil => rfl
        | cons record records => exact absurd (hfirst _ List.mem_cons_self) nofun
      | DIE _ => rfl
      | MONSTER_ATTACK _ _ => rfl
      | AddCurrentExp _ _ _ => rfl
      | damage _ => rfl
    rw [audit, List.foldlM_cons, hpost]
    refine ih fun t ht => hmute t ?_
    rw [List.flatMap_cons]
    exact List.mem_append_right _ ht

/-- Everything is entered into the account of its monster, and into no other. -/
structure Entered (new : List (Output F)) (mon mon' : Monster F) : Prop where
  number : mon'.monsterNumber = mon.monsterNumber
  own : audit mon.monsterNumber (accountOf mon) new = some (accountOf mon')
  others : ∀ m, m ≠ mon.monsterNumber → ∀ a, audit m a new = some a

namespace Entered

/-- What two steps send is entered after each other. The number is that of the monster all along. -/
theorem trans (h : Entered new mon mon') (h' : Entered new' mon' mon'') : Entered (new ++ new') mon mon'' := by
  refine ⟨h'.number.trans h.number, ?_, fun m hm a => ?_⟩
  · rw [audit_append, h.own, Option.bind_some, ← h.number]
    exact h'.own
  · rw [audit_append, h.others m hm, Option.bind_some]
    exact h'.others m (h.number ▸ hm) a

/-- Outputs that tell no hit points are no entries, so that the account has to stay as it is. -/
theorem of_mute (hnumber : mon'.monsterNumber = mon.monsterNumber) (hsame : accountOf mon' = accountOf mon)
    (hmute : ∀ t ∈ new.flatMap tells, t.1.2 = .bAlive) : Entered new mon mon' :=
  ⟨hnumber, by rw [audit_mute hmute, hsame], fun _ _ _ => audit_mute hmute⟩

/-- The account depends on the members that life and death depend on, and on no others. -/
theorem of_life (hlife : mon'.life = mon.life) (hmute : ∀ t ∈ new.flatMap tells, t.1.2 = .bAlive) :
    Entered new mon mon' := by
  simp only [Monster.life, Prod.mk.injEq] at hlife
  obtain ⟨hnumber, _, hevents, _, _, hcurrentHp, _⟩ := hlife
  exact of_mute hnumber (by rw [accountOf, accountOf, hevents, hcurrentHp]) hmute

/-- A respawn opens the account again, with all hit points. It fits where the hit points of the
life before are used up. -/
theorem of_respawn {table : monster.MonsterTable F} (hnumber : mon'.monsterNumber = mon.monsterNumber)
    (hbegun : mon'.events = 1) (htable : table.number = mon.monsterNumber)
    (hcurrentHp : table.CurrentHP = mon'.currentHp)
    (hmaxHp : table.MaxHp = mon'.currentHp) (hused : (accountOf mon).all (· ≤ ofInt 0)) :
    Entered [.RESPAWN_MONSTER table] mon mon' := by
  refine ⟨hnumber, ?_, fun m hm a => ?_⟩
  · have hopened : (accountOf mon).all (· ≤ ofInt 0) ∧ table.CurrentHP = table.MaxHp :=
      ⟨hused, hcurrentHp.trans hmaxHp.symm⟩
    have hpost : post mon.monsterNumber (accountOf mon) (.RESPAWN_MONSTER table) = some (accountOf mon') := by
      rw [post, if_neg (not_not_intro htable), if_pos hopened, hmaxHp, accountOf, if_pos hbegun]
    rw [audit, List.foldlM_cons, hpost]
    rfl
  · have hpost : post m a (.RESPAWN_MONSTER table) = some a := if_pos fun heq => hm (heq.symm.trans htable)
    rw [audit, List.foldlM_cons, hpost]
    rfl

end Entered

end Entries

section Stages

variable {w : Surroundings F} {s s' s'' : Stage F} {f : DamageFormula F} {attacker : Attacker F}
  {state : monster.AttackState}

/-- What keeps the account of a monster right: it is healthy, and begins once. -/
structure Sane (mon : Monster F) : Prop where
  healthy : Healthy mon
  once : mon.events ≤ 1

/-- A step of a monster that is entered into its account. -/
structure Booked (s s' : Stage F) : Prop where
  sane : Sane s'.self
  outputs : ∃ new, s'.outputs = s.outputs ++ new ∧ Entered new s.self s'.self

namespace Booked

/-- No step at all. -/
theorem refl (hsane : Sane s.self) : Booked s s :=
  ⟨hsane, [], (List.append_nil _).symm, .of_life rfl (by simp)⟩

/-- Steps that are booked one by one are booked together. -/
theorem trans (h : Booked s s') (h' : Booked s' s'') : Booked s s'' := by
  obtain ⟨new, hnew, hentered⟩ := h.outputs
  obtain ⟨new', hnew', hentered'⟩ := h'.outputs
  exact ⟨h'.sane, new ++ new', by rw [hnew', hnew, List.append_assoc], hentered.trans hentered'⟩

/-- A step that leaves the life of the monster alone and tells nothing. -/
theorem of_life (hsane : Sane s.self) (hlife : s'.self.life = s.self.life)
    (houtputs : ∃ new, s'.outputs = s.outputs ++ new ∧ new.flatMap tells = []) : Booked s s' := by
  obtain ⟨new, hnew, htold⟩ := houtputs
  have hevents : s'.self.events = s.self.events := congrArg (·.2.2.1) hlife
  exact ⟨⟨hsane.healthy.of_life hlife, hevents ▸ hsane.once⟩, new, hnew, .of_life hlife (by simp [htold])⟩

/-- A monster respawns where its hit points are used up. -/
theorem respawn (hcm : w.cm = true) (hsane : Sane s.self) (hdead : s.self.bAlive = false) :
    Booked s (monster.SetAlive w true s) := by
  have hhealthy : Healthy (monster.SetAlive w true s).self :=
    .SetAlive hcm hsane.healthy.number hsane.healthy.maxHp nofun
  have hevents : (monster.SetAlive w true s).self.events = s.self.events := (Heard.SetAlive hcm true s).events
  refine ⟨⟨hhealthy, hevents ▸ hsane.once⟩, ?_⟩
  by_cases hbegun : s.self.events = 1
  · have hused : s.self.currentHp ≤ ofInt 0 := by
      have halive := hsane.healthy.alive hbegun
      rw [hdead] at halive
      simpa using halive
    rw [monster.SetAlive_eq true hbegun] at hevents ⊢
    obtain ⟨table, houtputs, htable, hcurrentHp, hmaxHp, _, hnumber, _⟩ :=
      exists_Respawn hcm (s.onMonster ({ · with bAlive := true }))
    refine ⟨_, houtputs, .of_respawn hnumber (hevents.trans hbegun) htable hcurrentHp hmaxHp ?_⟩
    rw [accountOf, if_pos hbegun]
    exact decide_eq_true hused
  · have hnone : s.self.events = 0 := by
      have honce := hsane.once
      omega
    have hset : monster.SetAlive w true s = s.onMonster ({ · with bAlive := true }) := by
      unfold monster.SetAlive
      dsimp only [Stage.onMonster]
      rw [hnone]
      rfl
    rw [hset]
    exact ⟨[], (List.append_nil _).symm, .of_mute rfl rfl (by simp)⟩

/-- `BeginPlay` opens the first account of a monster, which had none before. -/
theorem BeginPlay (hcm : w.cm = true) (hsane : Sane s.self) (hfresh : s.self.events = 0) :
    Booked s (monster.BeginPlay w s) := by
  have hhealthy : Healthy (monster.BeginPlay w s).self := hsane.healthy.BeginPlay hcm
  rw [BeginPlay_eq hfresh] at hhealthy ⊢
  obtain ⟨table, houtputs, htable, hcurrentHp, hmaxHp, _, hnumber, hevents, _⟩ :=
    exists_Respawn hcm (s.onMonster fun m => { m with events := m.events + 1, bAlive := true })
  generalize monster.Respawn w (s.onMonster fun m => { m with events := m.events + 1, bAlive := true }) = s₁
    at hhealthy houtputs hcurrentHp hmaxHp hnumber hevents ⊢
  have hbegun : s₁.self.events = 1 := hevents.trans (by simp [Stage.onMonster, hfresh])
  refine ⟨⟨hhealthy, hbegun.le⟩, [.RESPAWN_MONSTER table], houtputs, ?_⟩
  exact .of_respawn hnumber hbegun htable hcurrentHp hmaxHp (by simp [accountOf, hfresh])

/-- Every action of the tree is booked. Only `UpdateState` makes an entry, where it respawns the
monster. -/
theorem act (hcm : w.cm = true) (hsane : Sane s.self) (action : monster.Action) :
    Booked s (monster.actors.act action w s).2 := by
  have hquiet : ∀ s' : Stage F, s'.self.life = s.self.life → s'.outputs = s.outputs → Booked s s' :=
    fun s' hlife houtputs => of_life hsane hlife ⟨[], by rw [houtputs, List.append_nil], rfl⟩
  cases action with
  | UpdateState =>
    have hrespawn : s.self.bAlive = false →
        (monster.UpdateState w s).2 = monster.SetAlive w true (s.onMonster ({ · with state := .DIE })) →
        Booked s (monster.UpdateState w s).2 := by
      intro hdead hset
      have hlater : Booked s (s.onMonster ({ · with state := .DIE })) := hquiet _ rfl rfl
      rw [hset]
      exact hlater.trans (.respawn hcm hlater.sane hdead)
    obtain hstill | ⟨hdead, hset⟩ := monster.Still.UpdateState (w := w) (s := s)
    · obtain houtputs | ⟨hdead, hset⟩ := outputs_UpdateState (w := w) (s := s)
      · exact hquiet _ hstill.life houtputs
      · exact hrespawn hdead hset
    · exact hrespawn hdead hset
  | UpdateIdle => exact hquiet _ monster.Still.UpdateIdle.life outputs_UpdateIdle
  | Patrol => exact hquiet _ (monster.life_follow _ _) rfl
  | Hold => exact hquiet _ rfl rfl
  | Chase => exact hquiet _ (monster.life_follow _ _) rfl
  | Attack => exact of_life hsane monster.Still.Attack.life tells_Attack
  | Die => exact hquiet _ rfl rfl

/-- A run of the tree, by the rule for what its actions keep. -/
theorem Tick (hcm : w.cm = true) (hsane : Sane s.self) (htick : monster.Tick w s = .ok s') : Booked s s' := by
  unfold monster.Tick at htick
  split at htick
  · cases htick
    exact .refl hsane
  · split at htick
    · cases htick
    · rename_i hrun
      cases htick
      exact behavior.Run_keeps (P := Booked s) (fun action _ hs => hs.trans (.act hcm hs.sane action))
        (.refl hsane) hrun

end Booked

/-- A hit takes its damage from a monster that has hit points left, and its record shows the
rest. -/
theorem charge_hit {record : Option (Record F)} (hcm : w.cm = true) (hsane : Sane s.self)
    (hhit : monster.hit f w attacker state s = .ok (record, s')) :
    Sane s'.self ∧ (∀ r ∈ record, r.damaged_code = s.self.monsterNumber) ∧
      record.toList.foldlM (charge s.self.monsterNumber) (accountOf s.self) = some (accountOf s'.self) := by
  have hhealthy : Healthy s'.self := hsane.healthy.hit hcm hhit
  have hnone : record = none → s' = s →
      Sane s'.self ∧ (∀ r ∈ record, r.damaged_code = s.self.monsterNumber) ∧
        record.toList.foldlM (charge s.self.monsterNumber) (accountOf s.self) = some (accountOf s'.self) := by
    rintro rfl rfl
    exact ⟨hsane, nofun, rfl⟩
  unfold monster.hit monster.GetDamage at hhit
  split at hhit
  · split at hhit
    · cases hhit
      exact hnone rfl rfl
    · rename_i halive
      split at hhit
      · cases hhit
      · cases hhit
        exact hnone rfl rfl
      · rename_i damageval _
        dsimp only at hhit
        have hkill : ∀ s₀ : Stage F, ∃ alive,
            (if s₀.self.currentHp ≤ ofInt 0 then monster.kill w attacker s₀ else s₀).self =
              { s₀.self with bAlive := alive } := by
          intro s₀
          split
          · refine ⟨false, ?_⟩
            have hself : (monster.SetAlive w false s₀).self = { s₀.self with bAlive := false } :=
              monster.self_onAlive_false _ _
            rw [← hself]
            unfold monster.kill
            dsimp only
            split <;> rfl
          · exact ⟨s₀.self.bAlive, rfl⟩
        obtain ⟨alive, hself⟩ := hkill (s.onMonster fun m => { m with currentHp := m.currentHp - damageval })
        generalize
            (if (s.onMonster fun m => { m with currentHp := m.currentHp - damageval }).self.currentHp ≤ ofInt 0 then
                monster.kill w attacker (s.onMonster fun m => { m with currentHp := m.currentHp - damageval })
              else s.onMonster fun m => { m with currentHp := m.currentHp - damageval }) = s₁ at hhit hself
        cases hhit
        have hcurrentHp : s₁.self.currentHp = s.self.currentHp - damageval := by rw [hself]; rfl
        have hevents : s₁.self.events = s.self.events := by rw [hself]; rfl
        have hnumber : s₁.self.monsterNumber = s.self.monsterNumber := by rw [hself]; rfl
        refine ⟨⟨hhealthy, hevents.le.trans hsane.once⟩, ?_, ?_⟩
        · rintro r ⟨⟩
          exact hnumber
        · have hcharge : charge s.self.monsterNumber (accountOf s.self)
              ⟨attacker.code, state, s₁.self.currentHp, damageval, s₁.self.monsterNumber⟩ =
                some (accountOf s₁.self) := by
            unfold charge accountOf
            rw [if_neg (not_not_intro hnumber), hevents]
            by_cases hbegun : s.self.events = 1
            · have hpos : ofInt 0 < s.self.currentHp := (hsane.healthy.alive hbegun).mp (by simpa using halive)
              rw [if_pos hbegun, if_pos hbegun]
              exact if_pos ⟨hpos, hcurrentHp⟩
            · rw [if_neg hbegun, if_neg hbegun]
          rw [Option.toList_some, List.foldlM_cons, hcharge]
          rfl
  · cases hhit
    exact hnone rfl rfl

end Stages

section Manager

variable {mm mm' mm'' : MonsterManager F} {infos : Int → Option (MonsterInfo F)} {f : DamageFormula F}
  {w : Surroundings F} {attacker : Attacker F} {state : monster.AttackState}

/-- Every monster stands under its number and is sane. -/
structure Orderly (mm : MonsterManager F) : Prop where
  numbered : Numbered mm
  fit : Fit mm
  once : ∀ number mon, mm.monsters number = some mon → mon.events ≤ 1

/-- Each of the monsters that are orderly together is sane by itself. -/
theorem Orderly.sane (h : Orderly mm) {number : Int} {mon : Monster F} (hmonster : mm.monsters number = some mon) :
    Sane mon := ⟨h.fit.healthy number mon hmonster, h.once number mon hmonster⟩

/-- Whatever leaves the monsters in a step fits the accounts and brings them up to date. -/
def Balances (mm mm' : MonsterManager F) : Prop :=
  ∃ new, mm'.outputs = mm.outputs ++ new ∧ ∀ m, audit m (account mm m) new = some (account mm' m)

/-- A step that sends nothing has to leave the accounts alone. -/
theorem Balances.of_same (houtputs : mm'.outputs = mm.outputs) (hsame : account mm' = account mm) : Balances mm mm' :=
  ⟨[], by rw [houtputs, List.append_nil], fun m => by rw [hsame]; rfl⟩

/-- Steps that balance one by one balance together, since an audit can be made in two parts. -/
theorem Balances.trans (h : Balances mm mm') (h' : Balances mm' mm'') : Balances mm mm'' := by
  obtain ⟨new, hnew, hbalances⟩ := h
  obtain ⟨new', hnew', hbalances'⟩ := h'
  refine ⟨new ++ new', by rw [hnew', hnew, List.append_assoc], fun m => ?_⟩
  rw [audit_append, hbalances, Option.bind_some, hbalances']

omit [Number F] in
/-- The account of a monster that was changed, and of the others. -/
theorem account_update {number : Int} {mon : Monster F} {outputs : List (Output F)} (m : Int) :
    account { mm with monsters := update mm.monsters number (some mon), outputs } m =
      if m = number then accountOf mon else account mm m := by
  unfold account
  dsimp only
  by_cases hm : m = number
  · rw [if_pos hm, hm, update_self]
    rfl
  · rw [if_neg hm, update_of_ne hm]

omit [Number F] in
/-- A monster that was just made has no account, and took nobody's place. -/
theorem account_fresh {number count : Int} {mon : Monster F} {outputs : List (Output F)}
    (hfree : mm.monsters number = none) (hnew : mon.events = 0) :
    account ⟨update mm.monsters number (some mon), count, outputs⟩ = account mm := by
  funext m
  unfold account
  dsimp only
  by_cases hm : m = number
  · rw [hm, update_self, hfree, Option.bind_some, accountOf, hnew]
    rfl
  · rw [update_of_ne hm]

omit [Number F] in
/-- A monster that has begun at most once may be written back. -/
theorem once_update {number : Int} {mon : Monster F}
    (honce : ∀ number mon, mm.monsters number = some mon → mon.events ≤ 1) (hmon : mon.events ≤ 1) :
    ∀ n other, update mm.monsters number (some mon) n = some other → other.events ≤ 1 := by
  intro n other hother
  by_cases hn : n = number
  · rw [hn, update_self] at hother
    exact Option.some.inj hother ▸ hmon
  · rw [update_of_ne hn] at hother
    exact honce n other hother

/-- A step of one monster. -/
theorem onStage_balances {number : Int} {g : Stage F → Except monster.Fault (Stage F)} (h : Orderly mm)
    (hg : ∀ mon s', mm.monsters number = some mon → g ⟨mon, mm.outputs⟩ = .ok s' → Booked ⟨mon, mm.outputs⟩ s')
    (hnext : mm.onStage number g = .ok mm') :
    Balances mm mm' ∧ ∀ n mon, mm'.monsters n = some mon → mon.events ≤ 1 := by
  unfold MonsterManager.onStage at hnext
  split at hnext
  · cases hnext
    exact ⟨.of_same rfl rfl, h.once⟩
  · rename_i mon hmonster
    obtain ⟨s', hs', hnext⟩ := Outcome.bind_eq_ok_iff.mp hnext
    cases hnext
    have hbooked : Booked ⟨mon, mm.outputs⟩ s' := hg mon s' hmonster hs'
    obtain ⟨new, hnew, hentered⟩ := hbooked.outputs
    have hnumber : mon.monsterNumber = number := (h.numbered number mon hmonster).1
    refine ⟨⟨new, hnew, fun m => ?_⟩, once_update h.once hbooked.sane.once⟩
    rw [account_update]
    by_cases hm : m = number
    · have hown := hentered.own
      dsimp only at hown
      rw [if_pos hm, hm, account, hmonster, Option.bind_some]
      rwa [hnumber] at hown
    · rw [if_neg hm]
      exact hentered.others m (fun heq => hm (heq.trans hnumber)) _

/-- The records that wait bring the accounts up to date, and nothing else does that left the
monsters since. -/
structure Waits (records : List (Record F)) (mm mm' : MonsterManager F) : Prop where
  orderly : Orderly mm'
  outputs : ∃ new, mm'.outputs = mm.outputs ++ new ∧ ∀ t ∈ new.flatMap tells, t.1.2 = .bAlive
  charges : ∀ m, records.foldlM (charge m) (account mm m) = some (account mm' m)

/-- Before a hit list is worked off, nothing waits. -/
theorem Waits.none (h : Orderly mm) : Waits [] mm mm :=
  ⟨h, ⟨[], (List.append_nil _).symm, by simp⟩, fun _ => rfl⟩

/-- One record more of a hit list. The monster loses its hit points at once, and the record that
says so waits until the whole list is sent. -/
theorem Waits.damage {damaged_code : Int} {records records' : List (Record F)} (h : Waits records mm mm')
    (hcm : w.cm = true) (hdamage : mm'.damage f w attacker damaged_code state records = .ok (records', mm'')) :
    Waits records' mm mm'' := by
  have hnumbered : Numbered mm'' := ((monster.damage_keeps 0 0 0 h.orderly.numbered).ok hdamage).1
  have hfit : Fit mm'' := h.orderly.fit.damage hcm hdamage
  unfold MonsterManager.damage at hdamage
  split at hdamage
  · cases hdamage
    exact h
  · rename_i mon hmonster
    obtain ⟨⟨record, s'⟩, hhit, hdamage⟩ := Outcome.bind_eq_ok_iff.mp hdamage
    cases hdamage
    obtain ⟨new, hnew, hmute⟩ := h.outputs
    obtain ⟨new', hnew', hmute', _⟩ := Struck.hit hcm hhit
    obtain ⟨hsane, hown, hcharge⟩ := charge_hit hcm (s := ⟨mon, mm'.outputs⟩) (h.orderly.sane hmonster) hhit
    have hnumber : mon.monsterNumber = damaged_code := (h.orderly.numbered damaged_code mon hmonster).1
    dsimp only at hnew' hown hcharge
    refine ⟨⟨hnumbered, hfit, once_update h.orderly.once hsane.once⟩, ?_, fun m => ?_⟩
    · refine ⟨new ++ new', by rw [hnew', hnew, List.append_assoc], fun t ht => ?_⟩
      rw [List.flatMap_append] at ht
      obtain ht | ht := List.mem_append.mp ht
      · exact hmute t ht
      · exact hmute' t ht
    · rw [List.foldlM_append, h.charges m, Option.bind_eq_bind, Option.bind_some, account_update]
      by_cases hm : m = damaged_code
      · rw [if_pos hm, hm, account, hmonster, Option.bind_some]
        rwa [hnumber] at hcharge
      · rw [if_neg hm]
        cases record with
        | none => rfl
        | some r =>
          have hother : charge m (account mm' m) r = some (account mm' m) :=
            if_pos fun heq => hm (by rw [← heq, hown r rfl, hnumber])
          rw [Option.toList_some, List.foldlM_cons, hother]
          rfl

/-- The packet with the records that waited. -/
theorem Waits.send {records : List (Record F)} {packet : Output F} (h : Waits records mm mm')
    (hpacket : ∀ m a, post m a packet = records.foldlM (charge m) a) : Balances mm (mm'.send packet) := by
  obtain ⟨new, hnew, hmute⟩ := h.outputs
  refine ⟨new ++ [packet], ?_, fun m => ?_⟩
  · exact (congrArg (· ++ [_]) hnew).trans (List.append_assoc _ _ _)
  · rw [audit_append, audit_mute hmute, Option.bind_some, audit, List.foldlM_cons, hpacket, h.charges m]
    rfl

/-- Where nothing waits any more, the accounts are up to date. -/
theorem Waits.balances (h : Waits [] mm mm') : Balances mm mm' := by
  obtain ⟨new, hnew, hmute⟩ := h.outputs
  refine ⟨new, hnew, fun m => ?_⟩
  rw [audit_mute hmute]
  exact h.charges m

/-- A single hit: its record is sent as soon as the damage is done. -/
theorem Balances.DamageProcess {damaged_code : Int} (h : Orderly mm) (hcm : w.cm = true)
    (hnext : mm.DamageProcess f w attacker damaged_code state = .ok mm') :
    Balances mm mm' ∧ ∀ n mon, mm'.monsters n = some mon → mon.events ≤ 1 := by
  unfold MonsterManager.DamageProcess at hnext
  obtain ⟨⟨records, mm₁⟩, hdamage, hnext⟩ := Outcome.bind_eq_ok_iff.mp hnext
  have hwaits : Waits records mm mm₁ := (Waits.none h).damage hcm hdamage
  have hnumbered : Numbered mm := h.numbered
  have hshort : ∃ record : Option (Record F), records = record.toList := by
    have hnone : Announces (([] : List (Record F)).map recordTells) mm mm := .refl mm
    obtain ⟨_, record, hrecords⟩ := Announces.damage hcm hnumbered hnone hdamage
    exact ⟨record, hrecords⟩
  obtain ⟨record, rfl⟩ := hshort
  cases record with
  | none =>
    cases hnext
    exact ⟨hwaits.balances, hwaits.orderly.once⟩
  | some record =>
    have hsent : mm₁.send (.CON_DAMAGE record) = mm' := by simpa [hcm, pure, Except.pure] using hnext
    subst hsent
    refine ⟨hwaits.send fun m a => ?_, hwaits.orderly.once⟩
    exact (bind_pure (charge m a record)).symm

/-- A list of hits. The invariant of the loop is `Waits`, and the message in the end has all
records that wait. -/
theorem Balances.DamageProcessVector {damagevector : List (Int × monster.AttackState)} (h : Orderly mm)
    (hcm : w.cm = true) (hnext : mm.DamageProcessVector f w attacker damagevector = .ok mm') :
    Balances mm mm' ∧ ∀ n mon, mm'.monsters n = some mon → mon.events ≤ 1 := by
  unfold MonsterManager.DamageProcessVector at hnext
  obtain ⟨⟨records, mm₁⟩, hloop, hnext⟩ := Outcome.bind_eq_ok_iff.mp hnext
  have hwaits : Waits records mm mm₁ := by
    refine Outcome.ok (Outcome.foldlM_keeps (I := fun p => Waits p.1 mm p.2) (E := fun _ => True) (Waits.none h) ?_)
      hloop
    rintro ⟨records₀, mm₀⟩ ⟨damaged_code, attackType⟩ _ hp
    change Outcome _ _ (mm₀.damage f w attacker damaged_code attackType records₀)
    cases hdamage : mm₀.damage f w attacker damaged_code attackType records₀ with
    | error fault => trivial
    | ok p' => exact hp.damage hcm hdamage
  dsimp only at hnext
  split at hnext
  · rename_i hnone
    cases hnext
    rw [List.length_eq_zero_iff.mp hnone] at hwaits
    exact ⟨hwaits.balances, hwaits.orderly.once⟩
  · have hsent : mm₁.send (.CON_DAMAGE_VECTOR records) = mm' := by simpa [hcm, pure, Except.pure] using hnext
    subst hsent
    exact ⟨hwaits.send fun _ _ => rfl, hwaits.orderly.once⟩

/-- New monsters have not begun and have no account, and nothing is sent for them. -/
theorem Balances.Add_Spawn_Monster {desc : monster.MonsterSpawnDesc F} {memory : Nat → Monster F}
    (honce : ∀ n mon, mm.monsters n = some mon → mon.events ≤ 1) :
    Balances mm (mm.Add_Spawn_Monster infos desc memory) ∧
      ∀ n mon, (mm.Add_Spawn_Monster infos desc memory).monsters n = some mon → mon.events ≤ 1 := by
  have hspawn : ∀ (mm : MonsterManager F) (mem : Monster F), (∀ n mon, mm.monsters n = some mon → mon.events ≤ 1) →
      Balances mm (mm.spawn infos desc mem) ∧
        ∀ n mon, (mm.spawn infos desc mem).monsters n = some mon → mon.events ≤ 1 := by
    intro mm mem honce
    have hcounted : Balances mm { mm with monKeyCount := mm.monKeyCount + 1 } := .of_same rfl rfl
    unfold MonsterManager.spawn
    dsimp only
    cases hcreate : monster.MonsterBuilder.CreateMonster infos mem desc.monsterCode mm.monKeyCount with
    | none => exact ⟨hcounted, honce⟩
    | some mon =>
      dsimp only
      split
      · exact ⟨hcounted, honce⟩
      · rename_i hfree
        obtain ⟨info, _, rfl⟩ := Option.map_eq_some_iff.mp hcreate
        have hnone : mm.monsters mm.monKeyCount = none := by simpa using hfree
        exact ⟨.of_same rfl (account_fresh hnone rfl), once_update honce (Nat.zero_le 1)⟩
  unfold MonsterManager.Add_Spawn_Monster
  induction List.range desc.monsterCount generalizing mm with
  | nil => exact ⟨.of_same rfl rfl, honce⟩
  | cons i l ih =>
    obtain ⟨hfirst, honce'⟩ := hspawn mm (memory i) honce
    obtain ⟨hrest, hlast⟩ := ih honce'
    exact ⟨hfirst.trans hrest, hlast⟩

/-- A step of the monsters of a channel. -/
theorem Balances.next {e e' : MonsterManager.Event F} (h : Orderly mm)
    (hinfos : ∀ code info, infos code = some info → ofInt 0 < info.HP) (he : ofMonsters mm e = some e')
    (hnext : mm.next infos f e' = some mm') : Orderly mm' ∧ Balances mm mm' := by
  have hkept : Balances mm mm' ∧ ∀ n mon, mm'.monsters n = some mon → mon.events ≤ 1 := by
    cases e with
    | Add_Spawn_Monster desc memory =>
      cases he
      cases hnext
      exact Balances.Add_Spawn_Monster h.once
    | BeginPlay number w =>
      obtain ⟨hfresh, ⟨⟩⟩ := Option.ite_none_right_eq_some.mp he
      refine onStage_balances h (fun mon s' hmonster hg => ?_) (Outcome.toOption_eq_some_iff.mp hnext)
      cases hg
      rw [hmonster] at hfresh
      exact .BeginPlay rfl (h.sane hmonster) (by simpa using hfresh)
    | Tick number w =>
      cases he
      exact onStage_balances h (fun mon s' hmonster htick => .Tick rfl (h.sane hmonster) htick)
        (Outcome.toOption_eq_some_iff.mp hnext)
    | DamageProcess w attacker damaged_code attackType =>
      cases he
      exact Balances.DamageProcess h rfl (Outcome.toOption_eq_some_iff.mp hnext)
    | DamageProcessVector w attacker damagevector =>
      cases he
      exact Balances.DamageProcessVector h rfl (Outcome.toOption_eq_some_iff.mp hnext)
    | EndPlay number => cases he
  obtain ⟨hbalances, honce⟩ := hkept
  exact ⟨⟨monster.numbered_next h.numbered hnext, h.fit.next hinfos he hnext, honce⟩, hbalances⟩

end Manager

section Runs

variable {infos : Int → Option (MonsterInfo F)} {f : DamageFormula F} {sm : status.StatusManager F} {d : Dungeon F}

/-- What is no packet is no entry. -/
theorem audit_filter (m : Int) (a : Option F) (outputs : List (Output F)) :
    audit m a (outputs.filter isPacket) = audit m a outputs := by
  induction outputs generalizing a with
  | nil => rfl
  | cons o outputs ih =>
    rw [List.filter_cons]
    have hcons : ∀ rest, audit m a (o :: rest) = (post m a o).bind fun a => audit m a rest :=
      fun rest => List.foldlM_cons
    cases hpacket : isPacket o with
    | true => rw [if_pos rfl, hcons, hcons, funext ih]
    | false =>
      have hpost : post m a o = some a := by
        cases o with
        | AddCurrentExp _ _ _ => rfl
        | damage _ => rfl
        | _ => cases hpacket
      rw [if_neg Bool.false_ne_true, ih, hcons, hpost]
      rfl

/-- The packets to the characters account for every hit point: a life of a monster begins with all of
them, every record takes its damage from what was left and shows the rest, no record follows one
that left none, and what is left in the end is what the monster has. -/
theorem damage_accounted {levels : Int → status.Character F} {events : List (Event F)}
    (hinfos : ∀ code info, infos code = some info → ofInt 0 < info.HP)
    (hrun : Run (OfOption (Dungeon.next infos f sm)) (.start levels) events d) (m : Int) :
    audit m none (d.mm.outputs.filter isPacket) =
      some ((d.mm.monsters m).bind fun mon => if mon.events = 1 then some mon.currentHp else none) := by
  have hall : Orderly d.mm ∧ ∀ m, audit m none d.mm.outputs = some (account d.mm m) := by
    apply hrun.invariant
    · exact ⟨⟨fun _ _ hmonster => (by cases hmonster), ⟨fun _ _ hmonster => (by cases hmonster), Int.le_refl 0⟩,
        fun _ _ hmonster => by cases hmonster⟩, fun _ => rfl⟩
    · rintro a e b ⟨horderly, haudit⟩ hnext
      by_cases hother : ∀ e', e ≠ .monsters e'
      · rw [Dungeon.mm_next hother hnext]
        exact ⟨horderly, haudit⟩
      · push Not at hother
        obtain ⟨e', rfl⟩ := hother
        simp only [OfOption, Dungeon.next, Option.bind_eq_bind, Option.bind_eq_some_iff] at hnext
        obtain ⟨e'', he, mm, hmm, hnext⟩ := hnext
        cases hnext
        obtain ⟨hkept, new, hnew, hbalances⟩ := Balances.next horderly hinfos he hmm
        refine ⟨hkept, fun m => ?_⟩
        change audit m none mm.outputs = _
        rw [hnew, audit_append, haudit m, Option.bind_some]
        exact hbalances m
  rw [audit_filter]
  exact hall.2 m

end Runs

section Example

/-- Two hits kill the slime of the visit. -/
theorem damage_accounted_visit :
    ∃ d : Dungeon Int,
      Run (OfOption (Dungeon.next monster.slime monster.plainFormula status.tens)) (.start fun _ => status.beginner)
        (Dungeon.opening ++ Dungeon.visit ++ Dungeon.visit) d ∧
      (d.mm.monsters 0).map (·.currentHp) = some (-2) ∧
      audit 0 none (d.mm.outputs.filter isPacket) =
        some ((d.mm.monsters 0).bind fun mon => if mon.events = 1 then some mon.currentHp else none) := by
  have hrun : ∃ d : Dungeon Int,
      Run (OfOption (Dungeon.next monster.slime monster.plainFormula status.tens)) (.start fun _ => status.beginner)
        (Dungeon.opening ++ Dungeon.visit ++ Dungeon.visit) d ∧
      (d.mm.monsters 0).map (·.currentHp) = some (-2) := by
    refine ⟨_, .cons rfl (.cons rfl (.cons rfl (.cons rfl (.cons rfl (.cons rfl (.nil _)))))), ?_⟩
    decide
  obtain ⟨d, hrun, hhp⟩ := hrun
  exact ⟨d, hrun, hhp, damage_accounted hp_slime hrun 0⟩

end Example

end AsioGameServer.dungeon

import Mathlib.Data.List.Infix
import AsioGameServer.Status.Experience

open Function Number Transition Thresholds

namespace AsioGameServer.status

variable {F : Type} [Number F] {sm : StatusManager F}

/-- The experience table, and every character that was loaded, by its place. -/
structure Server (F : Type) where
  statusManager : StatusManager F
  characters : List (Character F)

/-- A login, with what the query of the character gives and what the memory of the new one
holds, and an award for a character. -/
inductive Event (F : Type) where
  | LoadCharacterInfo (characterTypeCode level currentExp : Int) (memory : Character F)
  | AddCurrentExp (character : Nat) (award : Award)

namespace Server

def step (s : Server F) : Event F → Except Fault (Server F)
  | .LoadCharacterInfo characterTypeCode level currentExp memory => do
    let (_, c) ← s.statusManager.SetStatus
      { memory with characterTypeCode, level, currentExp, skill_cooltime := fun _ => ofInt 0 }
    return { s with characters := s.characters ++ [c] }
  | .AddCurrentExp character award =>
    match s.characters[character]? with
    | none => .ok s
    | some c => do
      let (_, c) ← c.AddCurrentExp s.statusManager award
      return { s with characters := s.characters.set character c }

/-- A step, which has no result where it is not defined. -/
def next (s : Server F) (e : Event F) : Option (Server F) := (s.step e).toOption

end Server

section Fill

/-- A level that the table has a place for. -/
def InTable (infos : List Int) (level : Int) : Prop := 0 ≤ level ∧ level < infos.length

/-- The rows that are written: those before the first that `stoi` does not read. -/
def written : List StatusManager.ExpRow → List (Int × Int)
  | some row :: rows => row :: written rows
  | _ => []

theorem place_eq_none_iff {level : Int} {infos : List Int} : place level infos = none ↔ ¬ InTable infos level := by
  simp [place, InTable]

theorem read_outOfRange_iff {infos : List Int} {level : Int} :
    read infos level = .error .outOfRange ↔ ¬ InTable infos level := by
  rw [← place_eq_none_iff, read]
  cases place level infos <;> simp

theorem write_spec (infos : List Int) (level value : Int) :
    (InTable infos level ∧ ∃ infos', write infos level value = .ok infos' ∧ infos'.length = infos.length) ∨
      ¬ InTable infos level ∧ write infos level value = .error .outOfRange := by
  unfold write
  cases hplace : place level infos with
  | none => exact .inr ⟨place_eq_none_iff.mp hplace, rfl⟩
  | some i =>
    refine .inl ⟨?_, _, rfl, List.length_set⟩
    by_contra hnot
    rw [place_eq_none_iff.mpr hnot] at hplace
    cases hplace

/-- The loop writes outside exactly if one of the rows it gets to has no place. -/
theorem fill_outOfRange_iff (rows : List StatusManager.ExpRow) (infos : List Int) :
    StatusManager.fill infos rows = .error .outOfRange ↔ ¬ ∀ row ∈ written rows, InTable infos row.1 := by
  induction rows generalizing infos with
  | nil => simp [StatusManager.fill, written]
  | cons row rows ih =>
    cases row with
    | none => simp [StatusManager.fill, written]
    | some row =>
      obtain ⟨level, exp⟩ := row
      unfold StatusManager.fill
      simp only [written, List.forall_mem_cons]
      obtain ⟨hin, infos', hwrite, hlength⟩ | ⟨hout, hwrite⟩ := write_spec infos level exp
      · rw [hwrite]
        have hsame : ∀ l, InTable infos' l ↔ InTable infos l := fun l => by simp [InTable, hlength]
        change StatusManager.fill infos' rows = _ ↔ _
        simp [ih infos', hsame, hin]
      · rw [hwrite]
        exact ⟨fun _ h => hout h.1, fun _ => rfl⟩

/-- The levels that the loop gets to are between zero and the number of rows. -/
def RowsWithin (rows : List StatusManager.ExpRow) : Prop :=
  ∀ row ∈ written rows, 0 ≤ row.1 ∧ row.1 ≤ rows.length

omit [Number F] in
theorem load_outOfRange_iff (statusInfos : Int → Option (StatusInfo F)) (result : Option (List StatusManager.ExpRow)) :
    StatusManager.load statusInfos result = .error .outOfRange ↔ ¬ ∀ rows ∈ result, RowsWithin rows := by
  cases result with
  | none => simp [StatusManager.load]
  | some rows =>
    have hplaces : ∀ level : Int, InTable (List.replicate (rows.length + 1) 0) level ↔
        0 ≤ level ∧ level ≤ rows.length := by
      intro level
      simp only [InTable, List.length_replicate]
      omega
    have hfill := fill_outOfRange_iff rows (List.replicate (rows.length + 1) 0)
    simp only [hplaces] at hfill
    simp only [Option.mem_some_iff, forall_eq', RowsWithin]
    rw [← hfill]
    cases hcase : StatusManager.fill (List.replicate (rows.length + 1) 0) rows with
    | error fault => simp [StatusManager.load, hcase, bind, Except.bind]
    | ok infos => simp [StatusManager.load, hcase, bind, Except.bind, pure, Except.pure]

end Fill

section Steps

omit [Number F] in
/-- The requirement of a known type is read from the table. -/
theorem requirement_outOfRange_iff {c : Character F} {level : Int} :
    sm.requirement c level = .error .outOfRange ↔
      (sm.statusInfos c.characterTypeCode).isSome ∧ ¬ InTable sm.expReqInfos level := by
  unfold StatusManager.requirement
  split
  · rename_i hknown
    simp [hknown, read_outOfRange_iff]
  · rename_i hunknown
    simp [hunknown]

theorem SetStatus_outOfRange_iff {c : Character F} :
    sm.SetStatus c = .error .outOfRange ↔
      (sm.statusInfos c.characterTypeCode).isSome ∧ ¬ InTable sm.expReqInfos c.level := by
  rw [← requirement_outOfRange_iff]
  obtain ⟨_, _, _, hset, hread, _⟩ | ⟨hset, hread⟩ := SetStatus_spec sm c
  · simp [hset, hread]
  · simp [hset, hread]

/-- The award makes the level go up, and no `int` overflows before that. -/
def ReachesLevel (c : Character F) (award : Award) : Prop :=
  InInt (c.currentExp + award.value) ∧ c.reqExp ≤ c.currentExp + award.value ∧
    InInt (c.currentExp + award.value - c.reqExp) ∧ InInt (c.level + 1)

theorem AddCurrentExp_outOfRange_iff {c : Character F} {award : Award} :
    c.AddCurrentExp sm award = .error .outOfRange ↔ ReachesLevel c award ∧
      (sm.statusInfos c.characterTypeCode).isSome ∧ ¬ InTable sm.expReqInfos (c.level + 1) := by
  have hmap : c.AddCurrentExp sm award = .error .outOfRange ↔
      (c.AddCurrentExp sm award).map Prod.snd = .error .outOfRange := by
    cases c.AddCurrentExp sm award <;> simp [Except.map]
  rw [hmap, ← requirement_outOfRange_iff]
  have hspec := AddCurrentExp_spec sm award c
  generalize (c.AddCurrentExp sm award).map Prod.snd = result at hspec
  cases hspec with
  | overflow h =>
    refine ⟨fun heq => (by cases heq), fun ⟨⟨hsum, _, hrest, hlevel⟩, _⟩ => ?_⟩
    exact absurd ⟨hsum, fun _ => ⟨hrest, hlevel⟩⟩ h
  | below _ hbelow _ =>
    exact ⟨fun heq => (by cases heq), fun ⟨⟨_, hreached, _⟩, _⟩ => absurd hreached (not_le_of_gt hbelow)⟩
  | outOfRange hsum hreached hrest hlevel hread =>
    exact ⟨fun _ => ⟨⟨hsum, hreached, hrest, hlevel⟩, hread⟩, fun _ => rfl⟩
  | levelUp _ _ _ _ hread _ =>
    refine ⟨fun heq => (by cases heq), fun ⟨_, hread'⟩ => ?_⟩
    rw [hread] at hread'
    cases hread'

end Steps

section Levels

variable {s s' : Server F} {e : Event F}

/-- The level of every character of a known type has a place in the table, and its requirement
is the one that stands there. No check of the code says so: it is what remains of the logins
and awards that were read inside. -/
def Server.Placed (s : Server F) : Prop :=
  ∀ c ∈ s.characters, (s.statusManager.statusInfos c.characterTypeCode).isSome →
    read s.statusManager.expReqInfos c.level = .ok c.reqExp

omit [Number F] in
theorem Server.Placed.inTable (h : s.Placed) {c : Character F} (hc : c ∈ s.characters)
    (hknown : (s.statusManager.statusInfos c.characterTypeCode).isSome) :
    InTable s.statusManager.expReqInfos c.level :=
  (read_eq_ok_iff.mp (h c hc hknown)).1

/-- A login adds a character with what the query gave, and the requirement of its level. -/
theorem Server.next_LoadCharacterInfo {characterTypeCode level currentExp : Int} {memory : Character F}
    (hnext : s.next (.LoadCharacterInfo characterTypeCode level currentExp memory) = some s') :
    ∃ c, s' = { s with characters := s.characters ++ [c] } ∧ c.characterTypeCode = characterTypeCode ∧
      c.level = level ∧ c.currentExp = currentExp ∧
      ((s.statusManager.statusInfos characterTypeCode).isSome →
        read s.statusManager.expReqInfos level = .ok c.reqExp) := by
  have hstep := Outcome.toOption_eq_some_iff.mp hnext
  simp only [Server.step] at hstep
  obtain ⟨_, c, reqExp, hset, hread, hc⟩ | ⟨hset, _⟩ := SetStatus_spec s.statusManager
    { memory with characterTypeCode, level, currentExp, skill_cooltime := fun _ => ofInt 0 }
  · rw [hset] at hstep
    refine ⟨c, (Except.ok.inj hstep).symm, hc.characterTypeCode, hc.level, hc.currentExp, fun hknown => ?_⟩
    rw [StatusManager.requirement_known hknown] at hread
    exact hread.trans (congrArg Except.ok hc.reqExp.symm)
  · rw [hset] at hstep
    cases hstep

/-- An award changes the character it is for, where there is one. -/
theorem Server.next_AddCurrentExp {character : Nat} {award : Award}
    (hnext : s.next (.AddCurrentExp character award) = some s') :
    s.characters[character]? = none ∧ s' = s ∨
      ∃ c c', s.characters[character]? = some c ∧ c.next s.statusManager award = some c' ∧
        s' = { s with characters := s.characters.set character c' } := by
  have hstep := Outcome.toOption_eq_some_iff.mp hnext
  simp only [Server.step] at hstep
  cases hplace : s.characters[character]? with
  | none =>
    rw [hplace] at hstep
    exact .inl ⟨rfl, (Except.ok.inj hstep).symm⟩
  | some c =>
    rw [hplace] at hstep
    cases hresult : c.AddCurrentExp s.statusManager award with
    | error fault =>
      simp only [hresult] at hstep
      cases hstep
    | ok pair =>
      simp only [hresult] at hstep
      refine .inr ⟨c, pair.2, rfl, ?_, (Except.ok.inj hstep).symm⟩
      rw [Character.next, hresult]
      rfl

theorem next_characterTypeCode {c c' : Character F} {award : Award} (hnext : c.next sm award = some c') :
    c'.characterTypeCode = c.characterTypeCode := by
  have hspec := AddCurrentExp_spec sm award c
  rw [show (c.AddCurrentExp sm award).map Prod.snd = .ok c' from Outcome.toOption_eq_some_iff.mp hnext] at hspec
  cases hspec with
  | below _ _ hc' => exact hc'.characterTypeCode
  | levelUp _ _ _ _ _ hc' => exact hc'.characterTypeCode

/-- An award leaves a character of a known type with the requirement of its level. -/
theorem next_placed {c c' : Character F} {award : Award} (hnext : c.next sm award = some c')
    (hknown : (sm.statusInfos c.characterTypeCode).isSome)
    (hplaced : read sm.expReqInfos c.level = .ok c.reqExp) :
    read sm.expReqInfos c'.level = .ok c'.reqExp ∧ c'.gathered sm = c.gathered sm + award.value := by
  have hconserves : Conserves sm c 0 c := ⟨StatusManager.requirement_known hknown, hplaced, by simp⟩
  have hafter := hconserves.next hnext
  exact ⟨hafter.reqExp, by simpa using hafter.gathered⟩

theorem Server.Placed.next (h : s.Placed) (hnext : s.next e = some s') : s'.Placed := by
  cases e with
  | LoadCharacterInfo characterTypeCode level currentExp memory =>
    obtain ⟨c, rfl, htype, hlevel, _, hread⟩ := Server.next_LoadCharacterInfo hnext
    intro other hother hknown
    obtain hold | hnew := List.mem_append.mp hother
    · exact h other hold hknown
    · obtain rfl := List.mem_singleton.mp hnew
      rw [htype] at hknown
      exact hlevel ▸ hread hknown
  | AddCurrentExp character award =>
    obtain ⟨_, rfl⟩ | ⟨c, c', hplace, haward, rfl⟩ := Server.next_AddCurrentExp hnext
    · exact h
    · intro other hother hknown
      obtain hold | rfl := List.mem_or_eq_of_mem_set hother
      · exact h other hold hknown
      · have hc : c ∈ s.characters := List.mem_of_getElem? hplace
        rw [next_characterTypeCode haward] at hknown
        exact (next_placed haward hknown (h c hc hknown)).1

theorem Server.next_statusManager (hnext : s.next e = some s') : s'.statusManager = s.statusManager := by
  cases e with
  | LoadCharacterInfo characterTypeCode level currentExp memory =>
    obtain ⟨c, rfl, _⟩ := Server.next_LoadCharacterInfo hnext
    rfl
  | AddCurrentExp character award =>
    obtain ⟨_, rfl⟩ | ⟨c, c', _, _, rfl⟩ := Server.next_AddCurrentExp hnext <;> rfl

/-- The levels of known types stay in the table over a whole run. -/
theorem placed_of_run {past : List (Event F)} (hrun : Run (OfOption Server.next) ⟨sm, []⟩ past s) :
    s.Placed ∧ s.statusManager = sm := by
  apply hrun.invariant ⟨by simp [Server.Placed], rfl⟩
  exact fun _ _ _ h hnext => ⟨h.1.next hnext, (Server.next_statusManager hnext).trans h.2⟩

/-- The condition on logins and awards. A character of a known type logs in with a level of the
table, and at its last level it gets no award that makes its level go up. -/
def Server.StaysInTable (s : Server F) : Event F → Prop
  | .LoadCharacterInfo characterTypeCode level _ _ =>
    (s.statusManager.statusInfos characterTypeCode).isSome → InTable s.statusManager.expReqInfos level
  | .AddCurrentExp character award => ∀ c ∈ s.characters[character]?,
    (s.statusManager.statusInfos c.characterTypeCode).isSome →
      c.level + 1 = s.statusManager.expReqInfos.length → ¬ ReachesLevel c award

theorem Server.step_outOfRange_iff (hplaced : s.Placed) :
    s.step e = .error .outOfRange ↔ ¬ s.StaysInTable e := by
  cases e with
  | LoadCharacterInfo characterTypeCode level currentExp memory =>
    have hset : s.statusManager.SetStatus { memory with
        characterTypeCode, level, currentExp, skill_cooltime := fun _ => ofInt 0 } = .error .outOfRange ↔
        (s.statusManager.statusInfos characterTypeCode).isSome ∧ ¬ InTable s.statusManager.expReqInfos level :=
      SetStatus_outOfRange_iff
    simp only [Server.step, Server.StaysInTable, Classical.not_imp]
    rw [← hset]
    cases s.statusManager.SetStatus _ <;> simp [bind, Except.bind, pure, Except.pure]
  | AddCurrentExp character award =>
    simp only [Server.step, Server.StaysInTable]
    cases hplace : s.characters[character]? with
    | none => simp
    | some c =>
      -- Inside the table, the level after the last one is the only one to fall out.
      have hlast : (s.statusManager.statusInfos c.characterTypeCode).isSome →
          (¬ InTable s.statusManager.expReqInfos (c.level + 1) ↔
            c.level + 1 = s.statusManager.expReqInfos.length) := by
        intro hknown
        have hin := hplaced.inTable (List.mem_of_getElem? hplace) hknown
        simp only [InTable] at hin ⊢
        omega
      have haward : c.AddCurrentExp s.statusManager award = .error .outOfRange ↔
          (s.statusManager.statusInfos c.characterTypeCode).isSome ∧
            c.level + 1 = s.statusManager.expReqInfos.length ∧ ReachesLevel c award := by
        rw [AddCurrentExp_outOfRange_iff]
        constructor
        · exact fun ⟨hreaches, hknown, hout⟩ => ⟨hknown, (hlast hknown).mp hout, hreaches⟩
        · exact fun ⟨hknown, hlevel, hreaches⟩ => ⟨hreaches, hknown, (hlast hknown).mpr hlevel⟩
      simp only [Option.mem_some_iff, forall_eq', Classical.not_imp, not_not]
      rw [← haward]
      cases c.AddCurrentExp s.statusManager award <;> simp [bind, Except.bind, pure, Except.pure]

end Levels

section Books

/-- What a login and an award enter: the character's type, the experience it came with, that of
the levels behind it included, and what it was awarded since. -/
def StatusManager.enter (sm : StatusManager F) (books : List (Int × ℤ)) : Event F → List (Int × ℤ)
  | .LoadCharacterInfo characterTypeCode level currentExp _ =>
    books ++ [(characterTypeCode, currentExp + upTo (fun i => sm.expReqInfos.getD i 0) level.toNat)]
  | .AddCurrentExp character award =>
    books.modify character fun entry => (entry.1, entry.2 + award.value)

def StatusManager.books (sm : StatusManager F) (events : List (Event F)) : List (Int × ℤ) :=
  events.foldl sm.enter []

/-- Logins and awards that the table suffices for. The levels that characters of known types log
in with are in it, and none of them ever has as much as all of its levels take. -/
structure StatusManager.Suffices (sm : StatusManager F) (events : List (Event F)) : Prop where
  logins : ∀ characterTypeCode level currentExp memory,
    Event.LoadCharacterInfo characterTypeCode level currentExp memory ∈ events →
    (sm.statusInfos characterTypeCode).isSome → InTable sm.expReqInfos level
  awards : ∀ past future, events = past ++ future → ∀ entry ∈ sm.books past, (sm.statusInfos entry.1).isSome →
    entry.2 < upTo (fun i => sm.expReqInfos.getD i 0) sm.expReqInfos.length

/-- A character is the one of its entry. -/
def StatusManager.Kept (sm : StatusManager F) (entry : Int × ℤ) (c : Character F) : Prop :=
  c.characterTypeCode = entry.1 ∧ ((sm.statusInfos entry.1).isSome → c.gathered sm = entry.2)

/-- Entries and what they are about change in the same place. -/
theorem forall₂_modify_set {α β : Type} {R : α → β → Prop} {as : List α} {bs : List β} {f : α → α} {i : Nat} {b : β}
    (h : List.Forall₂ R as bs) (hplace : ∀ a b₀, as[i]? = some a → bs[i]? = some b₀ → R a b₀ → R (f a) b) :
    List.Forall₂ R (as.modify i f) (bs.set i b) := by
  induction h generalizing i with
  | nil => simp
  | @cons a b₀ as bs hab htail ih =>
    cases i with
    | zero => exact .cons (hplace a b₀ rfl rfl hab) htail
    | succ i => exact .cons hab (ih fun a b₀ ha hb => hplace a b₀ (by simpa using ha) (by simpa using hb))

/-- In every state of a run the characters are those of the books. -/
theorem kept_of_run {past : List (Event F)} {s : Server F} (hrun : Run (OfOption Server.next) ⟨sm, []⟩ past s) :
    List.Forall₂ sm.Kept (sm.books past) s.characters := by
  suffices h : s.Placed ∧ s.statusManager = sm ∧ List.Forall₂ sm.Kept (sm.books past) s.characters from h.2.2
  apply hrun.invariant_trace
    fun past s => s.Placed ∧ s.statusManager = sm ∧ List.Forall₂ sm.Kept (sm.books past) s.characters
  · exact ⟨by simp [Server.Placed], rfl, .nil⟩
  · rintro past s e s' ⟨hplaced, rfl, hkept⟩ hnext
    refine ⟨hplaced.next hnext, Server.next_statusManager hnext, ?_⟩
    rw [StatusManager.books, List.foldl_concat]
    cases e with
    | LoadCharacterInfo characterTypeCode level currentExp memory =>
      obtain ⟨c, rfl, htype, hlevel, hcurrentExp, _⟩ := Server.next_LoadCharacterInfo hnext
      refine List.rel_append hkept (.cons ⟨htype, fun _ => ?_⟩ .nil)
      rw [Character.gathered, Character.behind, hlevel, hcurrentExp]
    | AddCurrentExp character award =>
      obtain ⟨hnone, rfl⟩ | ⟨c, c', hplace, haward, rfl⟩ := Server.next_AddCurrentExp hnext
      · have hlength : (s'.statusManager.books past).length ≤ character := by
          rw [hkept.length_eq]
          exact List.getElem?_eq_none_iff.mp hnone
        rw [StatusManager.enter, ← StatusManager.books, List.modify_eq_self hlength]
        exact hkept
      · refine forall₂_modify_set hkept fun entry c₀ _ hc₀ hentry => ?_
        obtain ⟨htype, hgathered⟩ := hentry
        obtain rfl := Option.some.inj (hplace.symm.trans hc₀)
        refine ⟨(next_characterTypeCode haward).trans htype, fun hknown => ?_⟩
        have hread := hplaced c (List.mem_of_getElem? hplace) (htype ▸ hknown)
        rw [(next_placed haward (htype ▸ hknown) hread).2, hgathered hknown]

omit [Number F] in
/-- A level that goes up from the last one has taken all that the levels of the table take. -/
theorem requirements_le_of_last {c : Character F} {award : Award} (hread : read sm.expReqInfos c.level = .ok c.reqExp)
    (hlast : c.level + 1 = sm.expReqInfos.length) (hreaches : ReachesLevel c award) :
    upTo (fun i => sm.expReqInfos.getD i 0) sm.expReqInfos.length ≤ c.gathered sm + award.value := by
  obtain ⟨⟨hnonneg, _⟩, hget⟩ := read_eq_ok_iff.mp hread
  have hplace : sm.expReqInfos.length = c.level.toNat + 1 := by omega
  have hreached := hreaches.2.1
  rw [hplace, upTo_succ, hget, Character.gathered, Character.behind]
  omega

/-- Where the table suffices, every step of a run stays in it. -/
theorem StatusManager.Suffices.staysInTable {past future : List (Event F)} {e : Event F} {s : Server F}
    (h : sm.Suffices (past ++ e :: future)) (hrun : Run (OfOption Server.next) ⟨sm, []⟩ past s) :
    s.StaysInTable e := by
  obtain ⟨hplaced, rfl⟩ := placed_of_run hrun
  cases e with
  | LoadCharacterInfo characterTypeCode level currentExp memory =>
    exact fun hknown => h.logins characterTypeCode level currentExp memory (by simp) hknown
  | AddCurrentExp character award =>
    intro c hplace hknown hlast hreaches
    have hplace : s.characters[character]? = some c := hplace
    obtain ⟨hlength, hkept⟩ := List.forall₂_iff_get.mp (kept_of_run hrun)
    obtain ⟨hi, hget⟩ := List.getElem?_eq_some_iff.mp hplace
    have hentry := hkept character (hlength ▸ hi) hi
    simp only [List.get_eq_getElem, hget] at hentry
    obtain ⟨htype, hgathered⟩ := hentry
    rw [htype] at hknown
    -- The entry of this award is one that the table suffices for.
    have hnext := h.awards (past ++ [.AddCurrentExp character award]) future (by simp)
      ((s.statusManager.books past)[character].1, (s.statusManager.books past)[character].2 + award.value)
      (by
        rw [StatusManager.books, List.foldl_concat]
        refine List.mem_of_getElem? (i := character) ?_
        rw [StatusManager.enter, List.getElem?_modify_eq, List.getElem?_eq_getElem (hlength ▸ hi)]
        rfl)
      hknown
    have hall := requirements_le_of_last
      (hplaced c (List.mem_of_getElem? hplace) (htype ▸ hknown)) hlast hreaches
    rw [hgathered hknown] at hall
    omega

end Books

/-- Every index of the table is inside of it, when it is filled and in a whole run of logins and
awards. -/
def IndexesInside (statusInfos : Int → Option (StatusInfo F)) (result : Option (List StatusManager.ExpRow))
    (events : List (Event F)) : Prop :=
  StatusManager.load statusInfos result ≠ .error .outOfRange ∧
    ∀ sm, StatusManager.load statusInfos result = .ok sm → ∀ past e future s, events = past ++ e :: future →
      Run (OfOption Server.next) ⟨sm, []⟩ past s → s.step e ≠ .error .outOfRange

/-- The table is indexed inside if and only if the levels of its rows are at most their number,
characters of known types log in with its levels, and none of them gets an award that makes the
level go up at the last one. The levels of known types then stay in the table however long the
run is. It is enough that the table suffices for the logins and awards, whatever the order in
which levels go up. -/
theorem expReqInfos_indexes_safe_iff (statusInfos : Int → Option (StatusInfo F))
    (result : Option (List StatusManager.ExpRow)) (events : List (Event F)) :
    (IndexesInside statusInfos result events ↔ (∀ rows ∈ result, RowsWithin rows) ∧
      ∀ sm, StatusManager.load statusInfos result = .ok sm → ∀ past e future s, events = past ++ e :: future →
        Run (OfOption Server.next) ⟨sm, []⟩ past s → s.StaysInTable e) ∧
    ((∀ rows ∈ result, RowsWithin rows) →
      (∀ sm, StatusManager.load statusInfos result = .ok sm → sm.Suffices events) →
      IndexesInside statusInfos result events ∧
        ∀ sm past future s, StatusManager.load statusInfos result = .ok sm → events = past ++ future →
          Run (OfOption Server.next) ⟨sm, []⟩ past s → ∀ c ∈ s.characters,
            (sm.statusInfos c.characterTypeCode).isSome → InTable sm.expReqInfos c.level) := by
  have hiff : IndexesInside statusInfos result events ↔ (∀ rows ∈ result, RowsWithin rows) ∧
      ∀ sm, StatusManager.load statusInfos result = .ok sm → ∀ past e future s, events = past ++ e :: future →
        Run (OfOption Server.next) ⟨sm, []⟩ past s → s.StaysInTable e := by
    rw [IndexesInside, ne_eq, load_outOfRange_iff, not_not]
    refine and_congr_right fun _ => forall₂_congr fun sm _ => ?_
    refine forall₄_congr fun past e future s => forall₂_congr fun _ hrun => ?_
    rw [ne_eq, Server.step_outOfRange_iff (placed_of_run hrun).1, not_not]
  refine ⟨hiff, fun hrows hsuffices => ⟨hiff.mpr ⟨hrows, ?_⟩, ?_⟩⟩
  · rintro sm hload past e future s rfl hrun
    exact (hsuffices sm hload).staysInTable hrun
  · intro sm past future s hload _ hrun c hc hknown
    obtain ⟨hplaced, rfl⟩ := placed_of_run hrun
    exact hplaced.inTable hc hknown

section Example

/-- A table of four levels with ten each suffices for two awards of fifteen. -/
example : tens.Suffices [.LoadCharacterInfo 1 1 0 beginner, .AddCurrentExp 0 ⟨15, true, true⟩,
    .AddCurrentExp 0 ⟨15, true, true⟩] := by
  refine ⟨fun characterTypeCode level currentExp memory hlogin _ => ?_, fun past future hsplit => ?_⟩
  · obtain ⟨_, rfl, _⟩ : characterTypeCode = 1 ∧ level = 1 ∧ currentExp = 0 ∧ memory = beginner := by
      simpa using hlogin
    exact ⟨by decide, by decide⟩
  · have hpast : past ∈ List.inits _ := (List.mem_inits _ _).mpr ⟨future, hsplit.symm⟩
    simp only [List.inits, List.map_cons, List.map_nil, List.mem_cons, List.not_mem_nil, or_false] at hpast
    obtain rfl | rfl | rfl | rfl := hpast <;> decide

/-- A table with a row for a level that it has no place for, and a character who leaves the
last level of a table. -/
theorem expReqInfos_index_outside :
    StatusManager.load tens.statusInfos (some [some (5, 10)]) = .error .outOfRange ∧
    ∃ sm s, StatusManager.load tens.statusInfos (some [some (1, 10), some (2, 10)]) = .ok sm ∧
      Run (OfOption Server.next) ⟨sm, []⟩ [.LoadCharacterInfo 1 2 0 beginner] s ∧
      s.step (.AddCurrentExp 0 ⟨10, true, true⟩) = .error .outOfRange :=
  ⟨rfl, _, _, rfl, .cons rfl (.nil _), rfl⟩

end Example

end AsioGameServer.status

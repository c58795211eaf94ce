import AsioGameServer.World.Moves

open Function

namespace AsioGameServer.world

namespace World

variable {w w' : World} {code key : Int} {id : Nat} {held : List Int} {cm : CharacterManager}

/-- What the tick of a channel leaves alone: the world without its managers and back
pointers. -/
def base (w : World) : World :=
  { w with
    channels := w.channels.map ({ · with cm := none })
    characters := fun code => { w.characters code with cm := none } }

section Base

/-- Who is alive depends on nothing that the base leaves out. -/
@[simp] theorem live_base : w.base.live held = w.live held := by
  funext code
  simp [live, base, List.any_map, Function.comp_def]

/-- The same for whether the world is well formed. -/
theorem wellFormed_base : w.base.WellFormed ↔ w.WellFormed := by
  have hlength : w.base.channels.length = w.channels.length := List.length_map _
  constructor
  · intro h
    refine ⟨fun mapKey mapinfo number id hmap hchannel => ?_, h.located⟩
    rw [← hlength]
    exact h.entries mapKey mapinfo number id hmap hchannel
  · intro h
    refine ⟨fun mapKey mapinfo number id hmap hchannel => ?_, h.located⟩
    rw [hlength]
    exact h.entries mapKey mapinfo number id hmap hchannel

/-- The manager of a channel is no part of the base. -/
theorem base_onChannel_cm {f : Channel → Option CharacterManager} :
    (w.onChannel id fun ch => { ch with cm := f ch }).base = w.base := by
  simp only [base, onChannel, World.mk.injEq, and_true, true_and]
  apply List.ext_getElem?
  intro other
  simp only [List.getElem?_map, List.getElem?_modify]
  cases w.channels[other]? <;> by_cases hsame : id = other <;> simp [hsame]

/-- A back pointer is no part of the base. -/
theorem base_onCharacter_cm {owner : Option Nat} :
    (w.onCharacter code ({ · with cm := owner })).base = w.base := by
  simp only [base, onCharacter, World.mk.injEq, true_and]
  funext other
  by_cases hsame : other = code
  · subst hsame
    simp
  · simp [update_of_ne hsame]

end Base

section Manager

variable (hcm : w.manager id = some cm)
include hcm

/-- A manager belongs to a channel that was opened and has begun. -/
theorem exists_channel_of_manager : ∃ ch, w.channels[id]? = some ch ∧ ch.cm = some cm := by
  simpa [manager, Option.bind_eq_some_iff] using hcm

/-- The members of a place are the characters that its manager has. -/
theorem roster_members_of_manager : w.roster.members id = cm.characters := by
  obtain ⟨ch, hget, hch⟩ := exists_channel_of_manager hcm
  rw [roster_members hget, Channel.members, hch, Option.elim_some]

/-- The manager that is changed. -/
theorem manager_onManager (f : CharacterManager → CharacterManager) :
    (w.onManager id f).manager id = some (f cm) := by
  obtain ⟨ch, hget, hch⟩ := exists_channel_of_manager hcm
  simp [manager, onManager, onChannel, hget, hch]

/-- A change of a manager changes the members of its own place only. -/
theorem roster_onManager (f : CharacterManager → CharacterManager) :
    (w.onManager id f).roster =
      { w.roster with members := update w.roster.members id (f cm).characters } := by
  obtain ⟨ch, hget, hch⟩ := exists_channel_of_manager hcm
  rw [onManager, roster_onChannel hget, ← roster_inserts hget, ← roster_erases hget]
  simp [Channel.members, hch]

end Manager

/-- A back pointer is the owner of its character in the roster. -/
theorem roster_onCharacter_cm {owner : Option Nat} :
    (w.onCharacter code ({ · with cm := owner })).roster =
      { w.roster with owner := update w.roster.owner code owner } := by
  have hassigned : (w.onCharacter code ({ · with cm := owner })).assigned code = w.assigned code := by
    simp [assigned]
  have hplace : update w.roster.assigned code (w.assigned code) = w.roster.assigned := update_eq_self _ _
  rw [roster_onCharacter, hassigned, hplace]

/-- Where the tick of channel `id` stands: the roster so far, what the tick leaves
alone, and the manager it works on. -/
structure Ticking (id : Nat) (b : World) (r : Roster Int Nat) (w : World) : Prop where
  roster : w.roster = r
  base : w.base = b
  begun : ∃ cm, w.manager id = some cm

variable {b : World} {r : Roster Int Nat}

/-- The reset of the back pointer of a character that is alive. -/
theorem exists_reset (hcm : w.manager id = some cm) (key : Int) (live : Bool) :
    ∃ w' : World, (if live then w.onCharacter key ({ · with cm := none }) else w) = w' ∧
      w'.base = w.base ∧ w'.manager id = some cm ∧ w'.roster =
        { w.roster with
          owner := if live then update w.roster.owner key none else w.roster.owner } := by
  split
  · exact ⟨_, rfl, base_onCharacter_cm, hcm, roster_onCharacter_cm⟩
  · exact ⟨w, rfl, rfl, hcm, rfl⟩

/-- `Channel::EraseCharacter` drops a member. -/
theorem EraseCharacter_spec (h : Ticking id b r w) (held : List Int) (key : Int) :
    ∃ w', EraseCharacter held id w key = .ok w' ∧
      Ticking id b (Roster.erase (b.live held) id r key) w' := by
  obtain ⟨rfl, rfl, cm, hcm⟩ := h
  unfold EraseCharacter Roster.erase
  rw [roster_members_of_manager hcm, hcm, live_base]
  by_cases hmember : key ∈ cm.characters
  · obtain ⟨w₁, heq, hbase, hcm₁, hroster⟩ := exists_reset hcm key (w.live held key)
    simp only [if_pos hmember, heq]
    refine ⟨_, rfl, ?_, base_onChannel_cm.trans hbase, _, manager_onManager hcm₁ _⟩
    rw [roster_onManager hcm₁, hroster]
  · simp only [if_neg hmember]
    exact ⟨w, rfl, rfl, rfl, cm, hcm⟩

/-- `Channel::InsertCharacter` takes a member in, and fails where the character has no
user or session. -/
theorem InsertCharacter_spec (h : Ticking id b r w) (code : Int) :
    Outcome (Ticking id b (Roster.insert id r code))
      (fun fault => fault = .deadUser ∧ (b.characters code).user = false ∨
        fault = .deadSession ∧ (b.characters code).session = false)
      (InsertCharacter id w code) := by
  obtain ⟨rfl, rfl, cm, hcm⟩ := h
  unfold InsertCharacter Roster.insert
  rw [roster_members_of_manager hcm, hcm]
  by_cases hmember : code ∈ cm.characters
  · simp only [if_pos hmember]
    exact ⟨rfl, rfl, cm, hcm⟩
  · simp only [if_neg hmember]
    have hsame : ∀ f, ((w.onCharacter code ({ · with cm := some id })).onManager id f).characters code =
        { w.characters code with cm := some id } := by
      intro f
      simp [onManager, onChannel, onCharacter]
    rw [hsame]
    have hcm₁ : (w.onCharacter code ({ · with cm := some id })).manager id = some cm := hcm
    split
    · rename_i huser
      exact Or.inl ⟨rfl, huser⟩
    · split
      · rename_i hsession
        exact Or.inr ⟨rfl, hsession⟩
      · refine ⟨?_, base_onChannel_cm.trans base_onCharacter_cm, _, manager_onManager hcm₁ _⟩
        rw [roster_onManager hcm₁, roster_onCharacter_cm]

/-- `Channel::Escape` uses the manager that the character points back to. -/
theorem Escape_spec (h : Ticking id b r w) (code : Int) :
    Outcome (Ticking id b r) (fun fault => fault = .noCharacterManager ∧ r.owner code = none)
      (Escape w code) := by
  obtain ⟨rfl, rfl, cm, hcm⟩ := h
  unfold Escape
  split
  · rename_i hnone
    exact ⟨rfl, hnone⟩
  · rename_i channel _
    refine ⟨?_, base_onChannel_cm, ?_⟩
    · exact roster_onManager_same fun _ => rfl
    · by_cases hsame : channel = id
      · subst hsame
        exact ⟨_, manager_onManager hcm _⟩
      · refine ⟨cm, ?_⟩
        rw [← hcm]
        simp [manager, onManager, onChannel, hsame]

variable {channel : Channel}

/-- The characters that are alive while `PrevTick` of a channel runs. -/
def alive (id : Nat) (channel : Channel) (w : World) : Int → Bool :=
  (w.onChannel id Channel.clear).live (channel.req_Insert_list ++ channel.req_func_list)

/-- A character whose user is there is alive. -/
theorem alive_of_user (huser : (w.characters code).user = true) : w.alive id channel code = true := by
  simp [alive, live, huser]

/-- A character that asked to escape is alive, since the request holds it. -/
theorem alive_of_func (hfunc : code ∈ channel.req_func_list) : w.alive id channel code = true := by
  simp [alive, live, hfunc]

/-- What makes a tick of a channel fail: a queued insert without user or session, or a
queued escape that has no manager by then. -/
def TickFault (id : Nat) (channel : Channel) (w : World) (fault : Fault) : Prop :=
  (∃ code ∈ channel.req_Insert_list, fault = .deadUser ∧ (w.characters code).user = false ∨
    fault = .deadSession ∧ (w.characters code).session = false) ∨
  ∃ code ∈ channel.req_func_list, fault = .noCharacterManager ∧
    (w.roster.tick (w.alive id channel) id).owner code = none

/-- A tick that copies the requests of a channel clears those of its place. -/
theorem roster_clear (hget : w.channels[id]? = some channel) :
    (w.onChannel id Channel.clear).roster = w.roster.clear id := by
  have hmembers : update w.roster.members id (Channel.clear channel).members = w.roster.members := by
    rw [show (Channel.clear channel).members = w.roster.members id from (roster_members hget).symm,
      update_eq_self]
  rw [roster_onChannel hget, hmembers]
  rfl

/-- A tick of a channel that has begun is a tick of its place in the roster. -/
theorem PrevTick_spec (hget : w.channels[id]? = some channel) (hcm : channel.cm = some cm) :
    Outcome (fun w' => w'.roster = w.roster.tick (w.alive id channel) id ∧
        w'.base = (w.onChannel id Channel.clear).base)
      (w.TickFault id channel) (w.PrevTick id channel) := by
  let held := channel.req_Insert_list ++ channel.req_func_list
  let b := (w.onChannel id Channel.clear).base
  have halive : b.live held = w.alive id channel := live_base
  have hstart : Ticking id b (w.roster.clear id) (w.onChannel id Channel.clear) :=
    ⟨roster_clear hget, rfl, cm, by simp [manager, onChannel, hget, Channel.clear, hcm]⟩
  have herases : Outcome (Ticking id b (channel.req_erase_list.foldl
      (Roster.erase (w.alive id channel) id) (w.roster.clear id))) (w.TickFault id channel)
      (channel.req_erase_list.foldlM (EraseCharacter held id) (w.onChannel id Channel.clear)) := by
    refine Outcome.foldlM hstart fun r w₁ key _ h => ?_
    obtain ⟨w₂, heq, h₂⟩ := EraseCharacter_spec h held key
    rw [heq, ← halive]
    exact h₂
  refine herases.bind fun w₁ h₁ => ?_
  have hinserts : Outcome (Ticking id b (w.roster.tick (w.alive id channel) id))
      (w.TickFault id channel) (channel.req_Insert_list.foldlM (InsertCharacter id) w₁) := by
    rw [Roster.tick, roster_inserts hget, roster_erases hget]
    exact Outcome.foldlM h₁ fun r w₂ code hcode h =>
      (InsertCharacter_spec h code).imp (fun _ h => h) fun _ h => Or.inl ⟨code, hcode, h⟩
  refine hinserts.bind fun w₂ h₂ => ?_
  have hfuncs : Outcome (Ticking id b (w.roster.tick (w.alive id channel) id)) (w.TickFault id channel)
      (channel.req_func_list.foldlM Escape w₂) :=
    Outcome.foldlM_keeps h₂ fun w₃ code hcode h =>
      (Escape_spec h code).imp (fun _ h => h) fun _ h => Or.inr ⟨code, hcode, h⟩
  exact hfuncs.imp (fun w' h => ⟨h.roster, h.base⟩) (fun _ h => h)

/-- The update of a channel begins it, or applies its requests. -/
theorem updateChannel_roster {ch : Channel} (hget : w.channels[id]? = some ch) :
    Outcome (fun w' => ch.cm = none ∧ w'.roster = w.roster ∨
      ch.cm ≠ none ∧ w'.roster = w.roster.tick (w.alive id ch) id) (fun _ => True) (w.updateChannel id) := by
  unfold updateChannel
  simp only [hget]
  split
  · rename_i hnone
    exact .inl ⟨hnone, roster_BeginPlay hget hnone⟩
  · rename_i cm hcm
    exact (PrevTick_spec hget hcm).imp (fun w' h => .inr ⟨by simp [hcm], h.1⟩) fun _ _ => trivial

end World

end AsioGameServer.world

import AsioGameServer.World.Admission

open Function Transition

namespace AsioGameServer.world

/-- A channel that is found under a number is an entry of the map. -/
theorem MapInfo.mem_of_GetChannel {mapinfo : MapInfo} {number : Int} {id : Nat}
    (h : mapinfo.GetChannel number = some id) : (number, id) ∈ mapinfo.channels := by
  obtain ⟨before, after, hsplit, _⟩ := List.lookup_eq_some_iff.mp h
  simp [hsplit]

namespace World

variable {w w' : World} {e : Event} {code : Int} {id : Nat}

/-- Characters that are assigned to a channel stay in it or in its queue, over moves and over
ticks. -/
theorem Stepped.joined (h : w.Stepped e w') (hjoined : w.roster.Joined) : w'.roster.Joined := by
  rcases h.roster with ⟨_, hmoves⟩ | ⟨id, alive, _, _, _, hroster⟩
  · exact hjoined.moves hmoves
  · rw [hroster]
    exact hjoined.tick

/-- Only the update of its channel takes a queued insert. -/
theorem Stepped.pending (h : w.Stepped e w') (hother : e ≠ .updateChannel id)
    (hpending : code ∈ w.roster.inserts id) : code ∈ w'.roster.inserts id := by
  rcases h.roster with ⟨_, hmoves⟩ | ⟨other, alive, rfl, _, _, hroster⟩
  · exact hmoves.inserts_mono hpending
  · have hne : id ≠ other := fun hsame => hother (by rw [hsame])
    rwa [hroster, Roster.inserts_tick, update_of_ne hne]

/-- An empty channel has no members, whether or not it has begun. -/
theorem members_of_isEmpty (hempty : w.isEmpty id = true) : w.roster.members id = [] := by
  cases hget : w.channels[id]? with
  | none => simp [roster, hget]
  | some ch =>
    rw [roster_members hget, Channel.members]
    cases hcm : ch.cm with
    | none => rfl
    | some cm => simpa [isEmpty, manager, hget, hcm] using hempty

/-- No character is assigned to an empty channel without a queued insert. -/
theorem unassigned_of_isEmpty (hjoined : w.roster.Joined) (hempty : w.isEmpty id = true)
    (hinserts : w.roster.inserts id = []) : w.assigned code ≠ some id := by
  intro hassigned
  obtain hinsert | ⟨hmember, _⟩ := hjoined code id hassigned
  · simp [hinserts] at hinsert
  · simp [members_of_isEmpty hempty] at hmember

/-- What the destruction of a channel does to the world, but for requests and back pointers: no
more than to take its requests. -/
theorem base_Remove :
    ((w.onChannel id fun ch => { ch.clear with cm := none }).expire id).base =
      (w.onChannel id Channel.clear).base := by
  simp only [base, onChannel, expire, World.mk.injEq, true_and]
  constructor
  · refine List.ext_getElem? fun other => ?_
    simp only [List.getElem?_map, List.getElem?_modify]
    cases w.channels[other]? <;> by_cases hsame : id = other <;> simp [hsame]
  · funext code
    by_cases hpointer : (w.characters code).cm = some id <;> simp [hpointer]

end World

/-- The updates of a channel up to the one that applies its requests. -/
def ComponentState.updatesLeft : ComponentState → Nat
  | .Create => 2
  | .Alive => 1
  | .Destroy => 0

/-- Two updates are always enough: the first one begins the channel, the second one ticks it. -/
theorem ComponentState.updatesLeft_le (state : ComponentState) : state.updatesLeft ≤ 2 := by
  cases state <;> decide

/-- A channel that is not destroyed has an update ahead. -/
theorem ComponentState.updatesLeft_pos {state : ComponentState} (h : state ≠ .Destroy) :
    0 < state.updatesLeft := by
  cases state with
  | Create => decide
  | Alive => decide
  | Destroy => exact absurd rfl h

/-- An event that updates the channel. -/
def GameEvent.updates {τ : Type} (id : Nat) : GameEvent τ → Bool
  | .step (.updateChannel other) => other == id
  | _ => false

/-- There is one event that updates a channel. -/
theorem GameEvent.eq_of_updates {τ : Type} {id : Nat} {e : GameEvent τ} (h : e.updates id = true) :
    e = .step (.updateChannel id) := by
  unfold updates at h
  split at h
  · rw [eq_of_beq h]
  · cases h

namespace Game

variable {τ : Type} {g g' g₀ h : Game τ} {events : List (GameEvent τ)} {id : Nat} {code : Int}

/-- The channels that are not destroyed keep the characters that are assigned to them, and
only they have queued inserts. -/
structure Tended (g : Game τ) : Prop extends Listed g where
  valid : g.now.Valid
  joined : g.now.roster.Joined
  queued : ∀ id, g.now.roster.inserts id ≠ [] → (g.components id).state ≠ .Destroy

/-- A number names a channel that is not destroyed. -/
theorem Listed.state_of_named (hlisted : g.Listed) {mapKey number : Int}
    (hnamed : g.now.named mapKey number = some id) : (g.components id).state ≠ .Destroy := by
  obtain ⟨mapinfo, hmap, hchannel⟩ := Option.bind_eq_some_iff.mp hnamed
  exact (hlisted.entries mapKey mapinfo _ hmap (MapInfo.mem_of_GetChannel hchannel)).2.1

/-- A character is assigned to channels that are not destroyed only. -/
theorem Listed.state_of_assigned (hlisted : g.Listed) (hassigned : g.now.assigned code = some id) :
    (g.components id).state ≠ .Destroy := by
  rw [World.assigned] at hassigned
  split at hassigned
  · cases hassigned
  · exact hlisted.state_of_named hassigned

/-- A request asks a channel that is not destroyed to let its character in. -/
theorem Listed.state_of_asks (hlisted : g.Listed) {request : World.Request}
    (hasks : g.now.Asks code request id) : (g.components id).state ≠ .Destroy := by
  have hadmitting : ∀ mapKey, g.now.Admitting mapKey id → (g.components id).state ≠ .Destroy := by
    rintro mapKey ⟨mapinfo, hmap, rfl | ⟨_, _, _, _, hchannel⟩⟩
    · simp [hlisted.fresh g.now.channels.length (by simp [World.labels])]
    · exact hlisted.state_of_named (by rw [World.named, hmap, Option.bind_some, hchannel])
  cases request with
  | REQ_ENTER_CHANNEL channel => exact hlisted.state_of_named hasks.2
  | _ =>
    obtain ⟨mapKey, _, hadmits⟩ := hasks
    exact hadmitting mapKey hadmits

/-- A step of the world keeps channels tended where it queues inserts at channels that are not
destroyed. -/
theorem Tended.stepped (h : g.Tended) {w : World} {e : World.Event} (hlisted : Listed { g with now := w })
    (hstepped : g.now.Stepped e w)
    (hinserts : ∀ id c, c ∈ w.roster.inserts id →
      c ∈ g.now.roster.inserts id ∨ (g.components id).state ≠ .Destroy) :
    Tended { g with now := w } := by
  refine ⟨hlisted, hstepped.valid, hstepped.joined h.joined, fun id hqueue => ?_⟩
  obtain ⟨c, hc⟩ := List.exists_mem_of_ne_nil _ hqueue
  obtain hold | hstate := hinserts id c hc
  · exact h.queued id (List.ne_nil_of_mem hold)
  · exact hstate

/-- A request queues an insert at a channel that its map lists, which is not destroyed. -/
theorem Tended.request (h : g.Tended) (code : Int) (request : World.Request) :
    Outcome (fun w => Tended { g with now := w }) (fun _ => True) (g.now.On_Read code request) := by
  have hstepped : Outcome (g.now.Stepped (.request code request)) (fun _ => True)
      (g.now.On_Read code request) :=
    (World.step_spec h.valid (.request code request)).imp (fun _ => id) fun _ _ => trivial
  refine ((World.On_Read_requested g.now code request).and hstepped).imp (fun w hw => ?_) fun _ => id
  obtain ⟨⟨hopened, hasked⟩, hstep⟩ := hw
  refine h.stepped (h.opened hopened) hstep fun id c hc => ?_
  exact (hasked.inserts id c hc).imp_right fun hnew => h.state_of_asks hnew.2

/-- A session that is closed queues erases only. -/
theorem Tended.disconnect (h : g.Tended) (code : Int) :
    Outcome (fun w => Tended { g with now := w }) (fun _ => True) (g.now.step (.disconnect code)) := by
  have hstepped : Outcome (g.now.Stepped (.disconnect code)) (fun _ => True)
      (g.now.step (.disconnect code)) :=
    (World.step_spec h.valid (.disconnect code)).imp (fun _ => id) fun _ _ => trivial
  refine ((World.disconnect_requested g.now code).and hstepped).imp (fun w hw => ?_) fun _ => id
  obtain ⟨hrequested, hstep⟩ := hw
  refine h.stepped (h.sameShape hrequested.shape) hstep fun id c hc => ?_
  exact (hrequested.asked.inserts id c hc).imp_right fun hnew => hnew.2.elim

/-- That its session is gone changes nothing about where a character is. -/
theorem Tended.closeSession (h : g.Tended) (code : Int) :
    Tended { g with now := g.now.onCharacter code ({ · with session := false }) } := by
  have hstepped : Outcome (g.now.Stepped (.closeSession code)) (g.now.StepFault (.closeSession code))
      (.ok (g.now.onCharacter code ({ · with session := false }))) :=
    World.step_spec h.valid (.closeSession code)
  exact h.stepped (h.sameShape (World.sameShape_onCharacter code)) hstepped fun _ _ => .inl

/-- The tick of a manager concerns neither channels nor requests. -/
theorem Tended.tickManager (h : g.Tended) (id : Nat) :
    Outcome (fun w => Tended { g with now := w }) (fun _ => True) (g.now.tickManager id) := by
  have hstepped : Outcome (g.now.Stepped (.tickManager id)) (fun _ => True) (g.now.tickManager id) :=
    (World.tickManager_spec h.valid id).imp (fun _ h => h) fun _ _ => trivial
  refine ((World.tickManager_same g.now id).and hstepped).imp (fun w hw => ?_) fun _ h => h
  obtain ⟨⟨hshape, hroster⟩, hstep⟩ := hw
  refine h.stepped (h.sameShape hshape) hstep fun id c hc => .inl ?_
  rwa [hroster] at hc

/-- The update of a channel that is not destroyed is the world's, and leaves it alive. -/
theorem Listed.updateChannel_eq (hlisted : g.Listed) {ch : Channel} (hget : g.now.channels[id]? = some ch)
    (hstate : (g.components id).state ≠ .Destroy) :
    g.updateChannel id = (g.now.updateChannel id).map fun w =>
      ⟨w, update g.components id { g.components id with state := .Alive }⟩ := by
  have hbegun := hlisted.begun id _ _ _ (labels_of_getElem? hget) hstate
  unfold Game.updateChannel World.updateChannel
  simp only [hget]
  cases hcomponent : (g.components id).state with
  | Create =>
    have hnone : ch.cm = none := by simpa [hcomponent] using hbegun
    simp [hnone, Except.map]
  | Alive =>
    obtain ⟨cm, hcm⟩ := Option.isSome_iff_exists.mp (by simpa [hcomponent] using hbegun)
    have hsame : update g.components id { g.components id with state := .Alive } = g.components := by
      rw [← hcomponent, update_eq_self]
    simp only [hcm, hsame]
    cases g.now.PrevTick id ch <;> rfl
  | Destroy => exact absurd hcomponent hstate

/-- A channel that is destroyed has no character, and its removal takes none from another. -/
theorem Tended.removed (h : g.Tended) {ch : Channel} (hget : g.now.channels[id]? = some ch)
    (hstate : (g.components id).state = .Destroy) (hlisted : (g.Remove id).Listed) :
    (g.Remove id).Tended := by
  have hcleared : (g.now.onChannel id Channel.clear).Valid :=
    ⟨h.valid.relocate rfl World.onChannel_length (fun _ _ => rfl) (h.valid.located 0), h.valid.departed⟩
  have hroster := World.roster_onChannel hget fun ch => { ch.clear with cm := none }
  have hinserts : (g.Remove id).now.roster.inserts = update g.now.roster.inserts id [] :=
    congrArg Roster.inserts hroster
  have herases : (g.Remove id).now.roster.erases = update g.now.roster.erases id [] :=
    congrArg Roster.erases hroster
  have hmembers : (g.Remove id).now.roster.members = update g.now.roster.members id [] :=
    congrArg Roster.members hroster
  have hassigned : ∀ code, (g.Remove id).now.assigned code = g.now.assigned code := by
    intro code
    simp only [World.assigned, Game.Remove, World.expire]
    split <;> rfl
  refine ⟨hlisted, hcleared.of_base World.base_Remove, fun code other hother => ?_, fun other hqueue => ?_⟩
  · have hnamed : g.now.assigned code = some other := (hassigned code).symm.trans hother
    have hne : other ≠ id := by
      rintro rfl
      exact h.state_of_assigned hnamed hstate
    rw [hinserts, herases, hmembers, update_of_ne hne, update_of_ne hne, update_of_ne hne]
    exact h.joined code other hnamed
  · have hne : other ≠ id := by
      rintro rfl
      rw [hinserts, update_self] at hqueue
      exact hqueue rfl
    rw [hinserts, update_of_ne hne] at hqueue
    simpa [Game.Remove, update_of_ne hne] using h.queued other hqueue

/-- An update begins a channel, applies its requests, or removes it once it is destroyed, when
nothing waits there any more. -/
theorem Tended.updateChannel (h : g.Tended) (id : Nat) :
    Outcome Tended (fun _ => True) (g.updateChannel id) := by
  have hlisted := h.toListed.updateChannel id
  cases hget : g.now.channels[id]? with
  | none =>
    have hidle : g.updateChannel id = .ok g := by simp [Game.updateChannel, hget]
    rw [hidle]
    exact h
  | some ch =>
    by_cases hstate : (g.components id).state = .Destroy
    · have hremove : g.updateChannel id =
          if (g.components id).released then .ok g else .ok (g.Remove id) := by
        simp [Game.updateChannel, hget, hstate]
      rw [hremove] at hlisted ⊢
      by_cases hreleased : (g.components id).released = true
      · rw [if_pos hreleased]
        exact h
      · rw [if_neg hreleased] at hlisted ⊢
        exact h.removed hget hstate hlisted
    · rw [h.updateChannel_eq hget hstate] at hlisted ⊢
      have hspec := World.updateChannel_spec h.valid id
      cases hresult : g.now.updateChannel id with
      | error fault => trivial
      | ok w =>
        rw [hresult] at hlisted hspec
        have hstepped : g.now.Stepped (.updateChannel id) w := hspec
        refine ⟨hlisted, hstepped.valid, hstepped.joined h.joined, fun other hqueue => ?_⟩
        by_cases hother : other = id
        · subst hother
          simp
        · simp only [update_of_ne hother]
          refine h.queued other fun hnone => hqueue ?_
          obtain ⟨_, hroster⟩ | ⟨_, hroster⟩ := (World.updateChannel_roster hget).ok hresult
          · rw [hroster, hnone]
          · rw [hroster, Roster.inserts_tick, update_of_ne hother, hnone]

/-- A request to insert a character stays queued until an update of its channel applies it. -/
def Waits (code : Int) (id : Nat) (g : Game τ) (e : GameEvent τ) (g' : Game τ) : Prop :=
  code ∈ g'.now.roster.inserts id ∧
    (g'.components id).state.updatesLeft + (e.updates id).toNat ≤ (g.components id).state.updatesLeft

/-- A queued insert when some channel is updated: it is applied if this was the second update of
its own channel, and waits otherwise, with one update less to go where it was the first. -/
theorem Tended.pending_updateChannel (h : g.Tended) (hpending : code ∈ g.now.roster.inserts id)
    (other : Nat) :
    Outcome (fun g' => other = id ∧ g'.now.InManager id code ∨
      Waits code id g (.step (.updateChannel other)) g') (fun _ => True) (g.updateChannel other) := by
  cases hget : g.now.channels[other]? with
  | none =>
    have hidle : g.updateChannel other = .ok g := by simp [Game.updateChannel, hget]
    have hne : (other == id) = false := by
      refine beq_false_of_ne ?_
      rintro rfl
      simp [World.roster, hget] at hpending
    rw [hidle]
    exact .inr ⟨hpending, by simp [GameEvent.updates, hne]⟩
  | some ch =>
    by_cases hstate : (g.components other).state = .Destroy
    · have hne : id ≠ other := by
        rintro rfl
        exact h.queued id (List.ne_nil_of_mem hpending) hstate
      have hleft : GameEvent.updates id (.step (.updateChannel other) : GameEvent τ) = false :=
        beq_false_of_ne hne.symm
      simp only [Game.updateChannel, hget, hstate]
      split
      · exact .inr ⟨hpending, by simp [hleft]⟩
      · refine .inr ⟨?_, by simp [hleft, Game.Remove, update_of_ne hne]⟩
        have hinserts : (g.Remove other).now.roster.inserts = update g.now.roster.inserts other [] :=
          congrArg Roster.inserts (World.roster_onChannel hget fun ch => { ch.clear with cm := none })
        rwa [hinserts, update_of_ne hne]
    · rw [h.updateChannel_eq hget hstate]
      cases hresult : g.now.updateChannel other with
      | error fault => trivial
      | ok w =>
        have hroster := (World.updateChannel_roster hget).ok hresult
        by_cases hsame : id = other
        · subst hsame
          obtain ⟨hnone, hroster⟩ | ⟨_, hroster⟩ := hroster
          · have hcreate : (g.components id).state = .Create := by
              have hbegun := h.begun id _ _ _ (labels_of_getElem? hget) hstate
              cases hcomponent : (g.components id).state <;> simp_all
            refine .inr ⟨?_, by simp [hcreate, GameEvent.updates, ComponentState.updatesLeft]⟩
            rwa [hroster]
          · refine .inl ⟨rfl, ?_⟩
            rw [← World.mem_members_iff, hroster, Roster.mem_members_tick]
            exact .inr ⟨rfl, hpending⟩
        · have hleft : GameEvent.updates id (.step (.updateChannel other) : GameEvent τ) = false :=
            beq_false_of_ne (Ne.symm hsame)
          refine .inr ⟨?_, by simp [hleft, update_of_ne hsame]⟩
          obtain ⟨_, hroster⟩ | ⟨_, hroster⟩ := hroster
          · rwa [hroster]
          · rwa [hroster, Roster.inserts_tick, update_of_ne hsame]

section Ticks

/-- At the start, no channel is open and nobody asked for anything. -/
theorem Start.tended [OfNat τ 0] (h : g.Start) : g.Tended := by
  refine ⟨h.listed, h.start.valid, h.start.consistent.joined, fun id hqueue => ?_⟩
  exact absurd (h.start.no_requests id).1 hqueue

variable [Add τ] [LE τ] [DecidableLE τ] [OfNat τ 60] {mapKey : Int} {delta : τ}

/-- A channel that has no character, but a queued insert, has not been empty for a minute
when its map ticks. -/
def ReapsIdle (g : Game τ) : GameEvent τ → Prop
  | .tickMap mapKey delta =>
    ∀ mapinfo ∈ g.now.maps mapKey, ∀ entry ∈ mapinfo.channels, g.now.isEmpty entry.2 = true →
      g.now.roster.inserts entry.2 ≠ [] → ¬ 60 ≤ (g.components entry.2).time + delta
  | .step _ => True

instance (g : Game τ) : ∀ e, Decidable (g.ReapsIdle e)
  | .tickMap mapKey delta =>
    inferInstanceAs (Decidable (∀ mapinfo ∈ g.now.maps mapKey, ∀ entry ∈ mapinfo.channels,
      g.now.isEmpty entry.2 = true → g.now.roster.inserts entry.2 ≠ [] →
        ¬ 60 ≤ (g.components entry.2).time + delta))
  | .step _ => isTrue trivial

/-- A channel that its map's tick reaps has no queued insert, and no character is assigned
to it. -/
theorem Tended.idle_of_reaped (h : g.Tended) (hidle : g.ReapsIdle (.tickMap mapKey delta))
    (hlists : g.Lists mapKey id) (hreaped : reaped g.now delta g.components id = true) :
    g.now.roster.inserts id = [] ∧ ∀ code, g.now.assigned code ≠ some id := by
  obtain ⟨mapinfo, entry, hmap, hentry, rfl⟩ := hlists
  have hreleased := (h.isLive hmap hentry).2.1
  simp only [reaped, hreleased, Bool.false_or, Bool.and_eq_true, decide_eq_true_eq] at hreaped
  obtain ⟨hempty, htime⟩ := hreaped
  have hinserts : g.now.roster.inserts entry.2 = [] := by
    by_contra hqueue
    exact hidle mapinfo hmap entry hentry hempty hqueue htime
  exact ⟨hinserts, fun code => World.unassigned_of_isEmpty h.joined hempty hinserts⟩

variable [OfNat τ 0]

/-- The tick of a map leaves the characters alone, destroyed channels or not. -/
theorem characters_tickMap : (g.tickMap mapKey delta).now.characters = g.now.characters := by
  unfold Game.tickMap
  split <;> rfl

/-- A channel is taken off its map only where nobody is assigned to it, so that all assignments
stay. -/
theorem Tended.assigned_tickMap (h : g.Tended) (hidle : g.ReapsIdle (.tickMap mapKey delta)) (code : Int) :
    (g.tickMap mapKey delta).now.assigned code = g.now.assigned code := by
  by_cases hchannel : (g.now.characters code).channel = 0
  · rw [World.assigned, World.assigned, characters_tickMap, if_pos hchannel, if_pos hchannel]
  · obtain ⟨id, hassigned⟩ := h.valid.located code hchannel
    have hnamed := hassigned
    rw [World.assigned, if_neg hchannel] at hnamed
    rw [hassigned, World.assigned, characters_tickMap, if_neg hchannel, h.maps_tickMap]
    by_cases hkey : (g.now.characters code).mapKey = mapKey
    · rw [hkey] at hnamed
      obtain ⟨mapinfo, hmap, hget⟩ := Option.bind_eq_some_iff.mp hnamed
      have hentry := MapInfo.mem_of_GetChannel hget
      have hkept : reaped g.now delta g.components id = false := by
        by_contra hreaped
        have hidle := h.idle_of_reaped hidle ⟨mapinfo, _, hmap, hentry, rfl⟩ (by simpa using hreaped)
        exact hidle.2 code hassigned
      rw [hkey, update_self, hmap, Option.map_some, Option.bind_some]
      exact World.lookup_of_mem ((List.filter_sublist.map Prod.fst).nodup (h.once mapKey mapinfo hmap))
        (List.mem_filter.mpr ⟨hentry, by simp [hkept]⟩)
    · rw [update_of_ne hkey]
      exact hnamed

/-- The same for members and requests. -/
theorem Tended.roster_tickMap (h : g.Tended) (hidle : g.ReapsIdle (.tickMap mapKey delta)) :
    (g.tickMap mapKey delta).now.roster = g.now.roster := by
  apply Roster.ext
  · exact funext (h.assigned_tickMap hidle)
  all_goals simp only [World.roster, channels_tickMap, characters_tickMap]

/-- The tick of a map destroys channels that are empty and have no queued inserts. -/
theorem Tended.tickMap (h : g.Tended) (hidle : g.ReapsIdle (.tickMap mapKey delta)) :
    (g.tickMap mapKey delta).Tended := by
  have hroster := h.roster_tickMap hidle
  have hlisted := h.toListed.tickMap mapKey delta
  refine ⟨hlisted, ⟨⟨fun key mapinfo number id hmap hchannel => ?_, fun code hcode => ?_⟩,
    fun code huser => ?_⟩, hroster ▸ h.joined, fun id hqueue => ?_⟩
  · obtain ⟨_, _, _, hlabel⟩ := hlisted.entries key mapinfo _ hmap (MapInfo.mem_of_GetChannel hchannel)
    have hlt := (List.getElem?_eq_some_iff.mp hlabel).1
    rwa [World.labels, List.length_map] at hlt
  · rw [characters_tickMap] at hcode
    obtain ⟨id, hassigned⟩ := h.valid.located code hcode
    exact ⟨id, (h.assigned_tickMap hidle code).trans hassigned⟩
  · rw [characters_tickMap] at huser ⊢
    exact h.valid.departed code huser
  · rw [hroster] at hqueue
    obtain ⟨_, hsame | ⟨_, hlists, hreaped⟩⟩ := h.state_tickMap mapKey delta id
    · rw [hsame]
      exact h.queued id hqueue
    · exact absurd (h.idle_of_reaped hidle hlists hreaped).1 hqueue

/-- Every event of the game keeps the channels tended, if it reaps idle channels only. -/
theorem Tended.step (h : g.Tended) {e : GameEvent τ} (hidle : g.ReapsIdle e) :
    Outcome Tended (fun _ => True) (g.step e) := by
  cases e with
  | tickMap mapKey delta => exact h.tickMap hidle
  | step e =>
    cases e with
    | request code request => exact (h.request code request).bind fun w hw => hw
    | closeSession code => exact h.closeSession code
    | disconnect code => exact (h.disconnect code).bind fun w hw => hw
    | updateChannel id => exact h.updateChannel id
    | tickManager id =>
      unfold Game.step
      dsimp only
      split
      · exact (h.tickManager id).bind fun w hw => hw
      · exact h

/-- What an event does to a queued insert: it is applied, or waits with no more updates to go than
before. -/
theorem Tended.pending_step (h : g.Tended) {e : GameEvent τ} (hidle : g.ReapsIdle e)
    (hpending : code ∈ g.now.roster.inserts id) :
    Outcome (fun g' => e.updates id = true ∧ g'.now.InManager id code ∨ Waits code id g e g')
      (fun _ => True) (g.step e) := by
  have hworld : ∀ e : World.Event, (∀ id, e ≠ .updateChannel id) →
      Outcome (fun w => GameEvent.updates id (.step e : GameEvent τ) = true ∧ w.InManager id code ∨
        Waits code id g (.step e) { g with now := w }) (fun _ => True) (g.now.step e) := by
    intro e hother
    refine (World.step_spec h.valid e).imp (fun w hstepped => .inr ⟨?_, ?_⟩) fun _ _ => trivial
    · exact hstepped.pending (hother id) hpending
    · cases e <;> simp_all [GameEvent.updates]
  cases e with
  | tickMap mapKey delta =>
    refine .inr ⟨?_, ?_⟩
    · rwa [h.roster_tickMap hidle]
    · obtain ⟨_, hsame | ⟨_, hlists, hreaped⟩⟩ := h.state_tickMap mapKey delta id
      · rw [hsame]
        exact Nat.le_refl _
      · have hnone := (h.idle_of_reaped hidle hlists hreaped).1
        simp [hnone] at hpending
  | step e =>
    cases e with
    | updateChannel other =>
      refine (h.pending_updateChannel hpending other).imp (fun g' hcases => ?_) fun _ h => h
      exact hcases.imp_left fun ⟨hsame, hmember⟩ => ⟨by simp [GameEvent.updates, hsame], hmember⟩
    | request code request => exact (hworld (.request code request) (by simp)).bind fun w hw => hw
    | closeSession code => exact (hworld (.closeSession code) (by simp)).bind fun w hw => hw
    | disconnect code => exact (hworld (.disconnect code) (by simp)).bind fun w hw => hw
    | tickManager other =>
      unfold Game.step
      dsimp only
      split
      · exact (hworld (.tickManager other) (by simp)).bind fun w hw => hw
      · exact .inr ⟨hpending, by simp [GameEvent.updates]⟩

/-- A run in which an update of a channel applies a queued insert of a character. -/
def Applies (code : Int) (id : Nat) (g : Game τ) (later : List (GameEvent τ)) : Prop :=
  ∃ before after k g', later = before ++ .step (.updateChannel id) :: after ∧
    Run (Guarded ReapsIdle (OfOption next)) g before k ∧ code ∈ k.now.roster.inserts id ∧
      OfOption next k (.step (.updateChannel id)) g' ∧ g'.now.InManager id code

/-- A queued insert over a run. The updates of its channel that the run has are at most those that
it waited for, unless it was applied. -/
theorem run_waits {later : List (GameEvent τ)} (h : g.Tended)
    (hrun : Run (Guarded ReapsIdle (OfOption next)) g later g')
    (hpending : code ∈ g.now.roster.inserts id) :
    Applies code id g later ∨ code ∈ g'.now.roster.inserts id ∧
      (g'.components id).state.updatesLeft + later.countP (·.updates id) ≤
        (g.components id).state.updatesLeft := by
  induction hrun with
  | nil => exact .inr ⟨hpending, Nat.le_refl _⟩
  | @cons g k g' e later hstep hrest ih =>
    obtain ⟨hidle, hnext⟩ := hstep
    obtain ⟨happlied, hmember⟩ | ⟨hqueue, hless⟩ := (h.pending_step hidle hpending).toOption hnext
    · obtain rfl := GameEvent.eq_of_updates happlied
      exact .inl ⟨[], later, g, k, rfl, .nil g, hpending, hnext, hmember⟩
    · refine (ih ((h.step hidle).toOption hnext) hqueue).imp ?_ fun ⟨hlast, hcount⟩ => ⟨hlast, ?_⟩
      · rintro ⟨before, after, m, n, rfl, hbefore, hrest⟩
        exact ⟨e :: before, after, m, n, rfl, .cons ⟨hidle, hnext⟩ hbefore, hrest⟩
      · rw [List.countP_cons]
        cases he : e.updates id <;> simp [he] at hless ⊢ <;> omega

/-- The channels are tended in every state of a run. -/
theorem Tended.run (h : g₀.Tended) (hrun : Run (Guarded ReapsIdle (OfOption next)) g₀ events g) :
    g.Tended := by
  apply hrun.invariant h
  exact fun a e b ha ⟨hidle, hnext⟩ => (ha.step hidle).toOption hnext

/-- In a run in which no map reaps a channel that an insert is queued at, the channels that a
map destroys have no queued insert and no character, and a queued insert is applied before
the second update of its channel is over. -/
theorem run_reaping_strands_none (hstart : g₀.Start)
    (hrun : Run (Guarded ReapsIdle (OfOption next)) g₀ events g) :
    (∀ mapKey delta g' id, Guarded ReapsIdle (OfOption next) g (.tickMap mapKey delta) g' →
      (g.components id).state ≠ .Destroy → (g'.components id).state = .Destroy →
        g.now.roster.inserts id = [] ∧ ∀ code, g.now.assigned code ≠ some id) ∧
      ∀ id code later g', code ∈ g.now.roster.inserts id →
        Run (Guarded ReapsIdle (OfOption next)) g later g' → 2 ≤ later.countP (·.updates id) →
          Applies code id g later := by
  have htended := hstart.tended.run hrun
  constructor
  · rintro mapKey delta g' id ⟨hidle, hnext⟩ hstate hdestroyed
    obtain rfl : g.tickMap mapKey delta = g' := Option.some.inj hnext
    obtain ⟨_, hsame | ⟨_, hlists, hreaped⟩⟩ := htended.state_tickMap mapKey delta id
    · exact absurd (hsame ▸ hdestroyed) hstate
    · exact htended.idle_of_reaped hidle hlists hreaped
  · intro id code later g' hpending hlater hcount
    refine (run_waits htended hlater hpending).resolve_right fun ⟨hqueue, hless⟩ => ?_
    have hlast := (htended.run hlater).queued id (List.ne_nil_of_mem hqueue)
    have hpos := ComponentState.updatesLeft_pos hlast
    have hmost := (g.components id).state.updatesLeft_le
    omega

end Ticks

/-- A character that moves on to another map, where its insertion is queued while the first
map reaps the channel that it has left. -/
theorem left_channel_reaped :
    ∃ events g g' h, Run (OfOption next) emptyMaps events g ∧ g.now.roster.inserts 1 = [7] ∧
      OfOption next g (.tickMap 1 1) g' ∧ (g'.components 0).state = .Destroy ∧
      g.now.roster.inserts 0 = [] ∧ (∀ code, g.now.assigned code ≠ some 0) ∧
      Run (OfOption next) g [.step (.updateChannel 1), .step (.updateChannel 1)] h ∧
      Applies 7 1 g [.step (.updateChannel 1), .step (.updateChannel 1)] := by
  have hfold : ([.step (.request 7 (.REQ_ENTER_MAP 1)), .step (.updateChannel 0), .step (.updateChannel 0),
      .step (.request 7 (.REQ_ENTER_MAP 2)), .step (.updateChannel 0), .tickMap 1 59].foldlM
        (fun g e => if ReapsIdle g e then g.next e else none) emptyMaps).map
      (fun g => (g.now.roster.inserts 1, (g.components 0).state, decide (g.ReapsIdle (.tickMap 1 1)),
        ((g.tickMap 1 1).components 0).state,
        ([.step (.updateChannel 1), .step (.updateChannel 1)].foldlM
          (fun g e => if ReapsIdle g e then g.next e else none) g).isSome)) =
        some ([7], .Alive, true, .Destroy, true) := by
    decide +kernel
  obtain ⟨g, hg, hseen⟩ := Option.map_eq_some_iff.mp hfold
  simp only [Prod.mk.injEq, decide_eq_true_eq] at hseen
  obtain ⟨hqueue, hstate, hidle, hdestroyed, hsome⟩ := hseen
  obtain ⟨h, hh⟩ := Option.isSome_iff_exists.mp hsome
  have hrun := run_guarded_ofOption_iff.mpr hg
  have hlater := run_guarded_ofOption_iff.mpr hh
  obtain ⟨hreaped, happlied⟩ := run_reaping_strands_none emptyMaps_start hrun
  obtain ⟨hnone, hunassigned⟩ := hreaped 1 1 _ 0 ⟨hidle, rfl⟩ (by simp [hstate]) hdestroyed
  refine ⟨_, g, _, h, hrun.of_guarded, hqueue, rfl, hdestroyed, hnone, hunassigned, hlater.of_guarded, ?_⟩
  exact happlied 1 7 _ h (by simp [hqueue]) hlater (by decide)

/-- A character that enters a channel which has been empty for almost a minute, before the
channel's next tick, is assigned to a channel that its map destroys with the insertion. -/
theorem entering_character_stranded :
    ∃ events g g' h, emptyMaps.Start ∧ Run (OfOption next) emptyMaps events g ∧
      OfOption next g (.tickMap 1 1) g' ∧ (g.components 0).state ≠ .Destroy ∧
      (g'.components 0).state = .Destroy ∧ g.now.roster.inserts 0 = [8] ∧ g.now.assigned 8 = some 0 ∧
      OfOption next g' (.step (.updateChannel 0)) h ∧ h.now.roster.inserts 0 = [] ∧
      h.now.manager 0 = none := by
  have hfold : ([.step (.request 7 (.REQ_ENTER_MAP 1)), .step (.updateChannel 0), .step (.updateChannel 0),
      .step (.disconnect 7), .step (.updateChannel 0), .tickMap 1 59,
      .step (.request 8 (.REQ_ENTER_MAP 1))].foldlM next emptyMaps).map
      (fun g => (g.now.roster.inserts 0, g.now.assigned 8, (g.components 0).state,
        ((g.tickMap 1 1).components 0).state, ((g.tickMap 1 1).next (.step (.updateChannel 0))).any
          fun h => (h.now.roster.inserts 0).isEmpty && (h.now.manager 0).isNone)) =
        some ([8], some 0, .Alive, .Destroy, true) := by
    decide +kernel
  obtain ⟨g, hg, hseen⟩ := Option.map_eq_some_iff.mp hfold
  simp only [Prod.mk.injEq] at hseen
  obtain ⟨hqueue, hassigned, hstate, hdestroyed, hremoved⟩ := hseen
  obtain ⟨h, hnext, hlost⟩ := (Option.any_eq_true _ _).mp hremoved
  obtain ⟨hempty, hmanager⟩ := Bool.and_eq_true_iff.mp hlost
  exact ⟨_, g, _, h, emptyMaps_start, run_ofOption_iff.mpr hg, rfl, by simp [hstate], hdestroyed, hqueue,
    hassigned, hnext, List.isEmpty_iff.mp hempty, Option.isNone_iff_eq_none.mp hmanager⟩

end Game

end AsioGameServer.world
